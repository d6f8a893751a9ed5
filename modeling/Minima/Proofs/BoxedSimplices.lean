import Mathlib.Analysis.Real.Sqrt
import Minima.Proofs.Feasibility
import Minima.Proofs.SimplexShapes

/-!
# Simplices in a box

A corner of the first simplex lies beside the start, away from zero, and is brought into the box. Over
the reals that leaves it apart from the start, unless the start lies on the bound that the corner goes
to: then the corner is brought back to the start itself. So the first simplex spans the space exactly
if the start lies on none of these bounds. On such a bound all vertices have the coordinate of the start,
and no step leads out of that face, since every point that is tried is a combination of vertices and is
not moved off the bound again. If the start lies on the bound of every axis, all vertices are one point
and the first step gives up.
-/

namespace Minima

open Linear

theorem RealScalar.clamp_eq (lo hi x : ℝ) : Scalar.clamp lo hi x = min (max lo x) hi := by
  have hraised : (if lo < x then x else lo) = max lo x := by
    rcases lt_or_ge lo x with h | h
    · rw [if_pos h, max_eq_right h.le]
    · rw [if_neg h.not_gt, max_eq_left h]
  have hlowered (y : ℝ) : (if y < hi then y else hi) = min y hi := by
    rcases lt_or_ge y hi with h | h
    · rw [if_pos h, min_eq_left h.le]
    · rw [if_neg h.not_gt, min_eq_right h]
  rw [← hraised, ← hlowered]
  simp [Scalar.clamp, Scalar.isNaN]

namespace Box

variable {n : Nat} {b : Box ℝ n}

theorem get_project (b : Box ℝ n) (x : Vector ℝ n) (i : Fin n) :
    (b.project x).get i = min (max (b.lower.get i) (x.get i)) (b.upper.get i) := by
  rw [project, get_ofFn, RealScalar.clamp_eq]

theorem lower_le_upper (b : Box ℝ n) (i : Fin n) : b.lower.get i ≤ b.upper.get i :=
  not_lt.mp (b.ordered i)

theorem project_between (b : Box ℝ n) (x : Vector ℝ n) (i : Fin n) :
    b.lower.get i ≤ (b.project x).get i ∧ (b.project x).get i ≤ b.upper.get i := by
  rw [get_project]
  exact ⟨le_min (le_max_left _ _) (b.lower_le_upper i), min_le_right _ _⟩

/-- A coordinate between the bounds stays as it is. -/
theorem get_project_of_between {x : Vector ℝ n} {i : Fin n} (hlow : b.lower.get i ≤ x.get i)
    (hhigh : x.get i ≤ b.upper.get i) : (b.project x).get i = x.get i := by
  rw [get_project, max_eq_right hlow, min_eq_left hhigh]

end Box

namespace NelderMead

variable {n : Nat} {s : Situation ℝ n} {told : Lore ℝ n} {old simplex : Simplex ℝ n}
  {next : State ℝ n} {b : Box ℝ n} {x : Vector ℝ n} {i : Fin n}

/-- The bound toward which the corner of the `i`-th axis is moved from `x`: the one away from zero. -/
noncomputable def outerBound (b : Box ℝ n) (x : Vector ℝ n) (i : Fin n) : ℝ :=
  if x.get i < 0 then b.lower.get i else b.upper.get i

/-- In a box a corner is beside the start, unless the start lies on the outer bound of its axis. Then it
is the start. -/
theorem corner_in_box {scale : ℝ} (hscale : 0 < scale)
    (hx : ∀ j, b.lower.get j ≤ x.get j ∧ x.get j ≤ b.upper.get j) (i : Fin n) :
    ∃ c : ℝ, (c = 0 ↔ x.get i = outerBound b x i) ∧
      (b.project (corner scale x i)).get = x.get + Pi.single i c := by
  obtain ⟨c, hc, hsign, hcorner⟩ := corner_beside hscale x i
  have hmoved : (corner scale x i).get i = x.get i + c := by
    rw [hcorner, Pi.add_apply, Pi.single_eq_same]
  refine ⟨(b.project (corner scale x i)).get i - x.get i, ?_, ?_⟩
  · rw [sub_eq_zero, Box.get_project, hmoved]
    obtain ⟨hlow, hhigh⟩ := hx i
    rcases lt_or_ge (x.get i) 0 with hneg | hpos
    · have hdown : c < 0 := hsign.mpr hneg
      rw [outerBound, if_pos hneg, min_eq_left (max_le (b.lower_le_upper i) (by linarith))]
      constructor
      · intro h
        rcases max_choice (b.lower.get i) (x.get i + c) with hmax | hmax
        · exact h.symm.trans hmax
        · linarith
      · intro h
        rw [max_eq_left (by linarith), h]
    · have hup : 0 < c := lt_of_le_of_ne (not_lt.mp (mt hsign.mp hpos.not_gt)) hc.symm
      rw [outerBound, if_neg hpos.not_gt, max_eq_right (by linarith)]
      constructor
      · intro h
        rcases min_choice (x.get i + c) (b.upper.get i) with hmin | hmin
        · linarith
        · exact h.symm.trans hmin
      · intro h
        rw [min_eq_right (by linarith), h]
  · funext j
    rw [Pi.add_apply]
    by_cases hj : j = i
    · subst hj
      rw [Pi.single_eq_same, add_sub_cancel]
    · have hkept : (corner scale x i).get j = x.get j := by
        rw [hcorner, Pi.add_apply, Pi.single_eq_of_ne hj, add_zero]
      obtain ⟨hlow, hhigh⟩ := hx j
      rw [Pi.single_eq_of_ne hj, add_zero, Box.get_project_of_between (by rwa [hkept])
        (by rwa [hkept]), hkept]

/-! ## The first simplex -/

/-- A point, and as many others, each moved along an axis of its own or not at all. -/
theorem affineIndependent_axes_iff {p : Fin (n + 1) → Fin n → ℝ} {c : Fin n → ℝ}
    (hp : ∀ i : Fin n, p i.succ = p 0 + Pi.single i (c i)) :
    AffineIndependent ℝ p ↔ ∀ i, c i ≠ 0 := by
  constructor
  · intro h i hzero
    have hsame : p i.succ = p 0 := by rw [hp, hzero, Pi.single_zero, add_zero]
    exact Fin.succ_ne_zero i (h.injective hsame)
  · intro hc
    exact affineIndependent_axes hc hp

theorem Simplex.Rearranges.independent_iff {other : Simplex ℝ n} (h : simplex.Rearranges other) :
    other.Independent ↔ simplex.Independent := by
  constructor
  · intro hother
    refine affineIndependent_of_perm hother ?_
    rw [Simplex.ofFn_points, Simplex.ofFn_points]
    exact (h.perm.map _).symm
  · exact h.independent

/-- What the first simplex is made of, before it is sorted: the start, and for each axis a point that
lies beside it along that axis, unless the start lies on the outer bound. -/
theorem Opens.corners_in_box {owner : String} (h : validate owner s.options = .ok ())
    (hbox : s.region = .box b) (hx : ∀ j, b.lower.get j ≤ x.get j ∧ x.get j ≤ b.upper.get j)
    {first : State ℝ n} (hopens : Opens s told x first) :
    ∃ (unsorted : Simplex ℝ n) (c : Fin n → ℝ), unsorted.Rearranges first.simplex ∧
      unsorted.points 0 = x.get ∧ (∀ i, unsorted.points i.succ = x.get + Pi.single i (c i)) ∧
      ∀ i, c i = 0 ↔ x.get i = outerBound b x i := by
  obtain ⟨scale, unsorted, hpositive, hfirst, hzero, hsucc⟩ := hopens.unsorted h
  choose c hc hcorner using corner_in_box (x := x) hpositive hx
  refine ⟨unsorted, c, hfirst, hzero, fun i => ?_, hc⟩
  rw [hsucc, hbox, Region.project, hcorner]

theorem Opens.independent_iff {owner : String} (h : validate owner s.options = .ok ())
    (hbox : s.region = .box b) (hx : ∀ j, b.lower.get j ≤ x.get j ∧ x.get j ≤ b.upper.get j)
    {first : State ℝ n} (hopens : Opens s told x first) :
    first.simplex.Independent ↔ ∀ i, x.get i ≠ outerBound b x i := by
  obtain ⟨unsorted, c, hfirst, hzero, hsucc, hc⟩ := hopens.corners_in_box h hbox hx
  rw [hfirst.independent_iff, Simplex.Independent, affineIndependent_axes_iff (c := c)]
  · exact forall_congr' fun i => not_congr (hc i)
  · intro i
    rw [hsucc, hzero]

/-! ## Faces -/

/-- All vertices have the coordinate `t` on the `i`-th axis. -/
def Simplex.InFace (i : Fin n) (t : ℝ) (simplex : Simplex ℝ n) : Prop :=
  ∀ v ∈ simplex, v.point.get i = t

section

variable {t : ℝ}

theorem Simplex.Rearranges.inFace {other : Simplex ℝ n} (h : simplex.Rearranges other)
    (hface : simplex.InFace i t) : other.InFace i t := by
  intro v hv
  exact hface v (Vector.mem_toList_iff.mp (h.perm.mem_iff.mp (Vector.mem_toList_iff.mpr hv)))

theorem Simplex.inFace_iff : simplex.InFace i t ↔ ∀ k, simplex.points k i = t := by
  constructor
  · intro h k
    exact h _ (Vector.getElem_mem k.isLt)
  · intro h v hv
    obtain ⟨k, hk, rfl⟩ := Vector.getElem_of_mem hv
    exact h ⟨k, hk⟩

/-- The centre of the others lies in the face too. -/
theorem Simplex.InFace.centroid (h : simplex.InFace i t) : simplex.centroid.get i = t := by
  have hn : 0 < n := i.pos
  have hmem := AffineSubspace.mem_map_of_mem (LinearMap.proj (R := ℝ) i).toAffineMap
    (centroid_mem hn simplex)
  rw [AffineSubspace.map_span] at hmem
  -- the coordinate is the same all over the span
  have hface : (LinearMap.proj (R := ℝ) i).toAffineMap ''
      (simplex.points '' {k | k ≠ Fin.last n}) ⊆ {t} := by
    rintro _ ⟨_, ⟨k, -, rfl⟩, rfl⟩
    exact inFace_iff.mp h k
  have hspan := affineSpan_mono ℝ hface hmem
  rwa [AffineSubspace.mem_affineSpan_singleton] at hspan

theorem Simplex.InFace.best (h : simplex.InFace i t) : simplex.best.point.get i = t :=
  inFace_iff.mp h 0

theorem Simplex.InFace.worst (h : simplex.InFace i t) : simplex.worst.point.get i = t :=
  inFace_iff.mp h (Fin.last n)

theorem Opens.inFace {owner : String} (h : validate owner s.options = .ok ())
    (hbox : s.region = .box b) (hx : ∀ j, b.lower.get j ≤ x.get j ∧ x.get j ≤ b.upper.get j)
    {first : State ℝ n} (hopens : Opens s told x first) (hi : x.get i = outerBound b x i) :
    first.simplex.InFace i (x.get i) := by
  obtain ⟨unsorted, c, hfirst, hzero, hsucc, hc⟩ := hopens.corners_in_box h hbox hx
  refine hfirst.inFace (Simplex.inFace_iff.mpr fun k => ?_)
  cases k using Fin.cases with
  | zero => rw [hzero]
  | succ j =>
      rw [hsucc, Pi.add_apply]
      by_cases hj : i = j
      · subst hj
        rw [Pi.single_eq_same, (hc i).mpr hi, add_zero]
      · rw [Pi.single_eq_of_ne hj, add_zero]

variable (hbox : s.region = .box b) (ht : b.lower.get i ≤ t ∧ t ≤ b.upper.get i)

include hbox ht

/-- A point of the face is not moved out of it when it is brought into the box. -/
theorem project_inFace {y : Vector ℝ n} (hy : y.get i = t) : (s.region.project y).get i = t := by
  rw [hbox, Region.project, Box.get_project_of_between (by rw [hy]; exact ht.1)
    (by rw [hy]; exact ht.2), hy]

/-- Wherever a step tries to put another vertex, it is in the face. -/
theorem Tried.inFace (hold : old.InFace i t) {stepType : String} {y : Vector ℝ n}
    (hy : Tried s old stepType y) : y.get i = t := by
  have hreflected (alpha : ℝ) : (reflectedTo s old alpha).get i = t := by
    apply project_inFace hbox ht
    simp [hold.centroid, hold.worst]
  cases hy with
  | reflection halpha => exact hreflected _
  | expansion halpha hgamma =>
      apply project_inFace hbox ht
      simp [hold.centroid, hreflected]
  | outside halpha hrho =>
      apply project_inFace hbox ht
      simp [hold.centroid, hreflected]
  | inside hrho =>
      apply project_inFace hbox ht
      simp [hold.centroid, hold.worst]

/-- No step leads out of the face. -/
theorem Advance.inFace (hadvance : Advance s told old next) (hold : old.InFace i t) :
    next.simplex.InFace i t := by
  cases hadvance with
  | replaces v htried hvalue hbelow hnext =>
      refine hnext.inFace fun u hu => ?_
      rcases Vector.mem_or_eq_of_mem_set hu with hu | rfl
      · exact hold u hu
      · exact htried.inFace hbox ht hold
  | shrinks drawn hname hdrawn hnext =>
      refine hnext.inFace (Simplex.inFace_iff.mpr fun k => ?_)
      rw [Simplex.points, assemble, get_cons]
      cases k using Fin.cases with
      | zero => exact hold.best
      | succ j =>
          obtain ⟨sigma, -, hfound⟩ := hdrawn j
          have hpoint : (old.get j.succ).point.get i = t := Simplex.inFace_iff.mp hold j.succ
          rw [Fin.cons_succ, hfound.point]
          apply project_inFace hbox ht
          simp [hold.best, hpoint]

end

/-! ## A single point -/

theorem Simplex.diameter_eq_zero {y : Vector ℝ n} (h : ∀ v ∈ simplex, v.point = y) :
    simplex.diameter = 0 := by
  have hbest : simplex.best.point = y := h _ (Vector.getElem_mem (Nat.succ_pos n))
  have hdistance (v : Vertex ℝ n) (hv : v ∈ simplex) :
      Scalar.greaterOrUndefined 0 (Linear.norm (v.point - simplex.best.point)) = 0 := by
    have hdifference : v.point - simplex.best.point = 0 := by
      refine ext_get ?_
      rw [h v hv, hbest, get_sub, sub_self, get_zero]
    rw [hdifference, norm_zero]
    simp [Scalar.greaterOrUndefined, Scalar.greater]
  have hfold (l : List (Vertex ℝ n)) (hl : ∀ v ∈ l, v ∈ simplex) :
      l.foldl (fun acc v => Scalar.greaterOrUndefined acc
        (Linear.norm (v.point - simplex.best.point))) 0 = 0 := by
    induction l with
    | nil => rfl
    | cons v l ih =>
        rw [List.foldl_cons, hdistance v (hl v (by simp))]
        exact ih fun u hu => hl u (by simp [hu])
  rw [diameter, RealScalar.zero_literal, ← Vector.foldl_toList]
  exact hfold _ fun v hv => Vector.mem_toList_iff.mp hv

/-- A simplex that lies in a face of every axis is a single point. -/
theorem Simplex.diameter_of_inFace (h : ∀ i, simplex.InFace i (x.get i)) :
    simplex.diameter = 0 := by
  refine diameter_eq_zero (y := x) fun v hv => ext_get (funext fun i => ?_)
  exact h i v hv

/-- A step that leaves a simplex smaller than the least size gives up. -/
theorem step_gives_up {least : ℝ} (hleast : s.options.real "min_simplex_diameter" = .ok least)
    (st : State ℝ n) :
    (step s st).Yields (fun _ => True) (fun _ _ => True) fun r =>
      r.1.simplex.diameter < least → r.2 = .noProgress := by
  refine Dialogue.yields_bind (Dialogue.yields_anything _) fun r _ => ?_
  refine Dialogue.yields_lift_bind fun least' hleast' => Dialogue.yields_pure fun hsmall => ?_
  obtain rfl : least = least' := Except.ok.inj (hleast.symm.trans hleast')
  exact if_pos hsmall

end NelderMead

/-! ## Runs -/

def Snapshot.InFace (i : Nat) (t : ℝ) (v : Snapshot ℝ) : Prop := ∀ p ∈ v.points, p[i]? = some t

namespace NelderMead.State

variable {n : Nat} {st : State ℝ n} {i : Fin n} {t : ℝ}

theorem inFace_view (h : st.simplex.InFace i t) : st.view.InFace i t := by
  intro p hp
  rw [points_view] at hp
  obtain ⟨v, hv, rfl⟩ := List.mem_map.mp hp
  have hpoint := h v (Vector.mem_toList_iff.mp hv)
  rw [get_eq_getElem] at hpoint
  simp [hpoint]

theorem independent_view_iff : st.view.Independent n ↔ st.simplex.Independent := by
  refine ⟨?_, independent_view⟩
  rintro ⟨columns, hcolumns, hindependent⟩
  have hpoints : st.view.points = List.ofFn fun k => ((st.simplex.get k).point).toArray := by
    rw [points_view, toList_eq_ofFn, List.map_ofFn]
    rfl
  have hsame := List.ofFn_injective (hpoints.symm.trans hcolumns)
  have heq : st.simplex.points = fun k => (columns k).get := by
    funext k
    rw [Simplex.points, Vector.toArray_inj.mp (congrFun hsame k)]
  rw [Simplex.Independent, heq]
  exact hindependent

end NelderMead.State

namespace Solver

open NelderMead

/-- What is accepted with a box is run in that box. -/
theorem box_of_accept {R : Type} [Scalar R] {m : Method R} {s : Solver m} {n : Nat}
    {c : Configuration R} {a : Accepted R n} {b : Box R n} (h : s.accept n c = .ok a)
    (hbox : c.constraints = .box b) : a.region = .box b := by
  obtain ⟨-, hregion, -⟩ := accept_eq_ok_iff.mp h
  rw [acceptRegion_eq_ok_iff, hbox, Constraints.region?, dif_pos rfl] at hregion
  exact (Option.some.inj hregion).symm

variable {f : Subject ℝ} {a : Accepted ℝ f.n} {owner : String} {b : Box ℝ f.n} {x : Vector ℝ f.n}

/-- Does the simplex lie in the face of the box of every axis on whose outer bound `x` lies? -/
def Confined (b : Box ℝ f.n) (x : Vector ℝ f.n) (st : NelderMead.State ℝ f.n) : Prop :=
  ∀ i, x.get i = outerBound b x i → st.simplex.InFace i (x.get i)

/-- The simplex method carries along that the vertices stay in the faces of the box to which the
first ones are confined. -/
theorem carries_confined (h : NelderMead.validate owner a.options = .ok ())
    (hbox : a.region = .box b) (hx : b.project a.start = x) :
    Carries (m := Offer.nelderMead.method) f a (fun _ => True) fun st : NelderMead.State ℝ f.n =>
      Tidy a (fun _ _ => True) st ∧ Confined b x st := by
  have hanswer : ∀ (q : Question ℝ f.n) (l : Ledger ℝ f.n), True →
      True ∧ ∀ r, (Ledger.answer f.objective q l).1 = .ok r → True :=
    fun _ _ _ => ⟨trivial, fun _ _ => trivial⟩
  have htidy := carries_tidy hanswer a trivial
  have hbetween (i : Fin f.n) : b.lower.get i ≤ x.get i ∧ x.get i ≤ b.upper.get i :=
    hx ▸ b.project_between a.start i
  refine ⟨⟨trivial, fun st hst => ⟨htidy.start.2 st hst, fun i hi => ?_⟩⟩,
    fun ledger count st _ hst => ?_⟩
  · have hopens := opens_of_opening hanswer trivial hst
    rw [hbox, Region.project, hx] at hopens
    exact hopens.inFace h hbox hbetween hi
  · refine ⟨trivial, fun next reported hmade => ?_⟩
    refine ⟨(htidy.step ledger count st trivial hst.1).2 next reported hmade, fun i hi => ?_⟩
    have hadvance := advances_of_attemptStep hanswer trivial hst.1.sorted hmade
    exact hadvance.inFace hbox (hbetween i) (hst.2 i hi)

/-- Confined to a single point, the method gives up. -/
theorem gives_up_of_confined {least : ℝ} (hleast : a.options.real "min_simplex_diameter" = .ok least)
    (hpositive : 0 < least) (hcorner : ∀ i, x.get i = outerBound b x i) {ledger : Ledger ℝ f.n}
    {count : Nat} {st next : (Offer.nelderMead.method : Method ℝ).State f.n} {reported : Status}
    (hmade : (attemptStep (a.task ledger) count st).1 = .ok (.state next, reported))
    (hnext : Confined b x next) : reported = .noProgress := by
  have hstep : ((Offer.nelderMead.method : Method ℝ).step (a.situation f.objective.name) count
      st).Yields (fun _ => True) (fun _ _ => True) fun r =>
        ∀ next : NelderMead.State ℝ f.n, r.1 = .state next → next.simplex.diameter < least →
          r.2 = .noProgress :=
    yields_wrapped (step_gives_up hleast st) (by rintro next status hsmall _ ⟨⟩; exact hsmall)
  have hanswer : ∀ (q : Question ℝ f.n) (l : Ledger ℝ f.n), True → True →
      True ∧ ∀ r, (Ledger.answer f.objective q l).1 = .ok r → True :=
    fun _ _ _ _ => ⟨trivial, fun _ _ => trivial⟩
  rw [attemptStep_task] at hmade
  refine (hstep.play hanswer trivial).2.1 _ hmade next rfl ?_
  rw [Simplex.diameter_of_inFace fun i => hnext i (hcorner i)]
  exact hpositive

/-- The first simplex in a box spans the space exactly if no corner was brought back to the start. -/
theorem independent_launch_iff {s s' : Solver (Offer.nelderMead.method : Method ℝ)} {v : Snapshot ℝ}
    (h : NelderMead.validate owner a.options = .ok ()) (hbox : a.region = .box b)
    (hx : b.project a.start = x) (hl : exec (launch f a) s = (.ok v, s')) :
    v.Independent f.n ↔ ∀ i, x.get i ≠ outerBound b x i := by
  obtain ⟨first, hopening, -, rfl⟩ := opening_of_exec_launch hl
  have hanswer : ∀ (q : Question ℝ f.n) (l : Ledger ℝ f.n), True →
      True ∧ ∀ r, (Ledger.answer f.objective q l).1 = .ok r → True :=
    fun _ _ _ => ⟨trivial, fun _ _ => trivial⟩
  have hopens := opens_of_opening hanswer trivial hopening
  rw [hbox, Region.project, hx] at hopens
  have hbetween (i : Fin f.n) : b.lower.get i ≤ x.get i ∧ x.get i ≤ b.upper.get i :=
    hx ▸ b.project_between a.start i
  have hvalid : NelderMead.validate owner (a.situation f.objective.name).options = .ok () := h
  exact State.independent_view_iff.trans (hopens.independent_iff hvalid hbox hbetween)

/-- If the start lies on the outer bound of every axis, no step goes on. -/
theorem ends_of_confined {s s' : Solver (Offer.nelderMead.method : Method ℝ)} {status : Status}
    {least : ℝ} (h : NelderMead.validate owner a.options = .ok ()) (hbox : a.region = .box b)
    (hx : b.project a.start = x) (hleast : a.options.real "min_simplex_diameter" = .ok least)
    (hpositive : 0 < least) (hcorner : ∀ i, x.get i = outerBound b x i)
    (hs : Upholds f a (fun _ => True) (fun st => Tidy a (fun _ _ => True) st ∧ Confined b x st) s)
    (hi : exec iterate s = (.ok status, s')) : status.isTerminal = true := by
  obtain ⟨ledger, st, -, hst, -, -, hcases⟩ := hs.of_iterate hi
  obtain ⟨-, -, -, rfl⟩ | ⟨next, reported, hmade, -, hclass⟩ := hcases
  · rfl
  · -- the method gives up, and that is not taken back
    have hnext := ((carries_confined h hbox hx).step ledger _ st trivial hst).2 next reported hmade
    have hreported := gives_up_of_confined hleast hpositive hcorner hmade hnext.2
    cases hover : status.isTerminal with
    | true => rfl
    | false =>
        obtain rfl := Status.isTerminal_eq_false_iff.mp hover
        rw [classify_running hclass] at hreported
        cases hreported

noncomputable def unitInterval : Box ℝ 1 where
  lower := .replicate 1 0
  upper := .replicate 1 1
  defined _ := rfl
  ordered := by
    intro i
    obtain rfl : i = 0 := Subsingleton.elim i 0
    show ¬(1 : ℝ) < 0
    norm_num

end Solver

namespace Session

open NelderMead

variable {f : Subject ℝ} {c : Configuration ℝ} {s s₀ : Session (Offer.nelderMead.method : Method ℝ)}
  {v : Snapshot ℝ}

/-- In a box the first simplex spans the space exactly if the start, brought into the box, lies on
none of the bounds to which its corners are moved. On such a bound all that is shown, whatever is done
and asked and in every run, lies in that face of the box. If the start lies on the bound of every axis,
no step goes on. -/
theorem first_simplex_spans_iff (hf : (exec subject s).1 = .ok f)
    (hset : exec (setUp c) s = (.ok v, s₀)) {b : Box ℝ f.n} (hbox : c.constraints = .box b) :
    ∃ (a : Solver.Accepted ℝ f.n) (x : Vector ℝ f.n),
      s.solver.accept f.n c = .ok a ∧ b.project a.start = x ∧
      (v.Independent f.n ↔ ∀ i, x.get i ≠ outerBound b x i) ∧
      (∀ i, x.get i = outerBound b x i →
        (∀ moves, ∃ u, (s₀.after moves).solver.snapshot? = some u ∧ u.InFace i (x.get i)) ∧
        ∀ (σ : Type) (order : Solver.Order ℝ) (w : Solver.Watcher ℝ σ) (seen : σ) (r : Results ℝ)
          (final : Solver (Offer.nelderMead.method : Method ℝ) × σ), order.toConfiguration = c →
          exec (Solver.solveWatched f order w) (s.solver, seen) = (.ok r, final) →
          ∀ u ∈ r.final :: r.history.toList, u.InFace i (x.get i)) ∧
      ((∀ i, x.get i = outerBound b x i) →
        ∀ least, a.options.real "min_simplex_diameter" = .ok least → 0 < least →
          ∀ moves status s', exec iterate (s₀.after moves) = (.ok status, s') →
            status.isTerminal = true) := by
  obtain ⟨a, ha, hl⟩ := exec_setUp_ok hf hset
  have hvalid := Solver.validate_of_accept ha
  have hregion := Solver.box_of_accept ha hbox
  have hcarries := Solver.carries_confined (f := f) hvalid hregion rfl
  have hafter := upholds_moves queriesKeep_anything hcarries (hcarries.launch hl)
  refine ⟨a, b.project a.start, ha, rfl, Solver.independent_launch_iff hvalid hregion rfl hl,
    fun i hi => ⟨fun moves => ?_, ?_⟩, ?_⟩
  · obtain ⟨st, ⟨-, hconfined⟩, hst⟩ := (hafter moves).state
    exact ⟨_, Solver.snapshot?_of_state hst, State.inFace_view (hconfined i hi)⟩
  · rintro σ order w seen r final rfl hr u hu
    obtain ⟨a', -, -, -, -, -, haccept, -⟩ := Solver.chronicle_of_exec_solveWatched hr
    obtain rfl : a = a' := Except.ok.inj (ha.symm.trans (Solver.accept_of_acceptOrder haccept))
    obtain ⟨st, ⟨-, hconfined⟩, rfl⟩ := Solver.shown_of_solveWatched haccept hcarries
      (fun _ _ _ => trivial) (fun _ _ _ _ _ => trivial) hr u hu
    exact State.inFace_view (hconfined i hi)
  · intro hcorner least hleast hpositive moves status s' hi
    rw [iterate, exec_ofEngine] at hi
    obtain ⟨hout, -⟩ := Prod.mk.inj hi
    exact Solver.ends_of_confined hvalid hregion rfl hleast hpositive hcorner (hafter moves)
      (Prod.ext hout rfl)

/-! ## Two starts in the unit interval -/

noncomputable def onInterval (t : ℝ) : Configuration ℝ where
  start := Tensor.ofVector #v[t]
  constraints := .box Solver.unitInterval

theorem onInterval_accepted (t : ℝ) :
    (Solver.new (Offer.nelderMead.method : Method ℝ) none).accept Solver.ramp.n (onInterval t) =
      .ok { options := (Offer.nelderMead.method : Method ℝ).defaults,
            region := .box Solver.unitInterval, start := #v[t] } :=
  Solver.accept_within Offer.nelderMead.presettable _ #v[t] rfl

theorem ramp_starts_in_interval (t : ℝ) :
    ∃ v s₀, exec (setUp (onInterval t))
      { solver := Solver.new Offer.nelderMead.method none, current := .other Solver.ramp } =
        (.ok v, s₀) :=
  starts_of_accept rfl Solver.ramp_total (onInterval_accepted t)

theorem project_onInterval {t : ℝ} (hlow : 0 ≤ t) (hhigh : t ≤ 1) :
    Solver.unitInterval.project #v[t] = #v[t] := by
  refine Linear.ext_get (funext fun i => ?_)
  obtain rfl : i = 0 := Subsingleton.elim i 0
  exact Box.get_project_of_between hlow hhigh

theorem outerBound_onInterval {t : ℝ} (hlow : 0 ≤ t) (i : Fin 1) :
    outerBound Solver.unitInterval #v[t] i = 1 := by
  obtain rfl : i = 0 := Subsingleton.elim i 0
  exact if_neg hlow.not_gt

/-- From the middle of the interval the first simplex is not degenerate. -/
theorem middle_simplex_spans :
    ∃ v s₀, exec (setUp (onInterval (1 / 2)))
        { solver := Solver.new Offer.nelderMead.method none, current := .other Solver.ramp } =
          (.ok v, s₀) ∧ v.Independent 1 := by
  obtain ⟨v, s₀, hset⟩ := ramp_starts_in_interval (1 / 2)
  obtain ⟨a, x, ha, hx, hspans, -⟩ := first_simplex_spans_iff rfl hset rfl
  obtain rfl := Except.ok.inj ((onInterval_accepted (1 / 2)).symm.trans ha)
  obtain rfl : #v[1 / 2] = x :=
    (project_onInterval (by norm_num) (by norm_num)).symm.trans hx
  have hinner (i : Fin 1) :
      (#v[1 / 2] : Vector ℝ 1).get i ≠ outerBound Solver.unitInterval #v[1 / 2] i := by
    rw [outerBound_onInterval (by norm_num)]
    obtain rfl : i = 0 := Subsingleton.elim i 0
    show (1 / 2 : ℝ) ≠ 1
    norm_num
  exact ⟨v, s₀, hset, hspans.mpr hinner⟩

/-- The interval has an inside, but from its upper end the first simplex is degenerate, and a step that
returns ends the run. -/
theorem edge_simplex_degenerates :
    (∀ i, Solver.unitInterval.lower.get i < Solver.unitInterval.upper.get i) ∧
      ∃ v s₀, exec (setUp (onInterval 1))
          { solver := Solver.new Offer.nelderMead.method none, current := .other Solver.ramp } =
            (.ok v, s₀) ∧
        ¬ v.Independent 1 ∧
        ∀ status s', exec iterate s₀ = (.ok status, s') → status.isTerminal = true := by
  have hinside (i : Fin 1) : Solver.unitInterval.lower.get i < Solver.unitInterval.upper.get i := by
    obtain rfl : i = 0 := Subsingleton.elim i 0
    exact zero_lt_one
  obtain ⟨v, s₀, hset⟩ := ramp_starts_in_interval 1
  obtain ⟨a, ha, hl⟩ := exec_setUp_ok rfl hset
  obtain rfl := Except.ok.inj ((onInterval_accepted 1).symm.trans ha)
  have hvalid : NelderMead.validate "" (Offer.nelderMead.method : Method ℝ).defaults = .ok () :=
    Offer.nelderMead.presettable.valid ""
  have hx := project_onInterval zero_le_one (le_refl (1 : ℝ))
  have hcorner (i : Fin 1) :
      (#v[(1 : ℝ)] : Vector ℝ 1).get i = outerBound Solver.unitInterval #v[1] i := by
    rw [outerBound_onInterval zero_le_one]
    obtain rfl : i = 0 := Subsingleton.elim i 0
    rfl
  refine ⟨hinside, v, s₀, hset, fun hspans => ?_, fun status s' hi => ?_⟩
  · have hapart := (Solver.independent_launch_iff hvalid rfl hx hl).mp hspans
    exact hapart (0 : Fin 1) (hcorner 0)
  · rw [iterate, exec_ofEngine] at hi
    obtain ⟨hout, -⟩ := Prod.mk.inj hi
    exact Solver.ends_of_confined hvalid rfl hx rfl (by norm_num) hcorner
      ((Solver.carries_confined hvalid rfl hx).launch hl) (Prod.ext hout rfl)

end Session

end Minima
