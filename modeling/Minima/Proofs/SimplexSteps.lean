import Minima.Proofs.DescentSteps

/-!
# What a step does to a simplex

A step of the simplex method replaces the worst vertex by a better one, at one of the points where the
reflection, the expansion and the two contractions lead, or it draws all vertices but the best toward
that one. Then the vertices are sorted again, with undefined values last and with the order of those
that tie kept. Nothing else happens to them: a vertex and its value stay together and none is lost or
repeated. The values may be infinite or undefined.
-/

namespace Minima.NelderMead

open Dialogue

variable {R : Type} [Scalar R] {n : Nat} {s : Situation R n} {told : Lore R n}

/-! ## The order of the vertices -/

/-- The value is better: it is less, or it is defined where the other one is not. -/
def Below (a b : R) : Prop := a < b ∨ Scalar.isNaN a = false ∧ Scalar.isNaN b = true

namespace Simplex

/-- The vertices go by value, and undefined values come last. -/
def Sorted (simplex : Simplex R n) : Prop :=
  simplex.toList.Pairwise fun u v => precedes u.value v.value = true

/-- Do the vertices tie? Then neither comes before the other by value. -/
def tie (u v : Vertex R n) : Bool := precedes u.value v.value && precedes v.value u.value

/-- `next` has the vertices of `simplex`, each as many times, by value, and those that tie in the order
in which they were. -/
structure Rearranges (simplex next : Simplex R n) : Prop where
  perm : next.toList.Perm simplex.toList
  sorted : next.Sorted
  stable : ∀ v, next.toList.filter (tie v) = simplex.toList.filter (tie v)

end Simplex

section

variable [Scalar.Ordered R] {simplex : Simplex R n} {a b c : R}

theorem precedes_self (a : R) : precedes a a = true := by simpa using precedes_total a a

theorem below_of_lt_precedes (h : a < b) (h' : precedes b c = true) : Below a c := by
  cases hc : Scalar.isNaN c with
  | true => exact .inr ⟨(Scalar.defined_of_lt h).1, hc⟩
  | false =>
      have hbc : b ≤ c := by simpa [precedes, hc] using h'
      exact .inl (Scalar.lt_of_lt_of_le h hbc)

/-- What is below the smaller of two scalars is better than the second, be it defined or not. -/
theorem below_of_lt_lesser (h : c < Scalar.lesser a b) : Below c b := by
  cases hb : Scalar.isNaN b with
  | true => exact .inr ⟨(Scalar.defined_of_lt h).1, hb⟩
  | false => exact .inl (lt_of_lt_lesser hb h)

namespace Simplex

theorem Sorted.precedes_of_le (h : simplex.Sorted) {i j : Nat} (hi : i < n + 1) (hj : j < n + 1)
    (hle : i ≤ j) : precedes simplex[i].value simplex[j].value = true := by
  rcases hle.eq_or_lt with rfl | hlt
  · exact precedes_self _
  · exact List.pairwise_iff_getElem.mp h i j (by simpa using hi) (by simpa using hj) hlt

theorem Sorted.best_precedes (h : simplex.Sorted) :
    precedes simplex.best.value simplex.worst.value = true :=
  h.precedes_of_le (Nat.succ_pos n) (Nat.lt_succ_self n) (Nat.zero_le n)

theorem Sorted.secondWorst_precedes (h : simplex.Sorted) :
    precedes simplex.secondWorst simplex.worst.value = true :=
  h.precedes_of_le (by omega) (Nat.lt_succ_self n) (Nat.sub_le n 1)

theorem rearranges_sort (simplex : Simplex R n) : simplex.Rearranges simplex.sort := by
  have htrans (a b c : Vertex R n) :=
    precedes_trans (a := a.value) (b := b.value) (c := c.value)
  have htotal (a b : Vertex R n) := precedes_total a.value b.value
  have hperm := List.mergeSort_perm simplex.toList fun a b => precedes a.value b.value
  refine ⟨hperm, List.pairwise_mergeSort htrans htotal simplex.toList, fun v => ?_⟩
  -- the vertices that tie with `v` are sorted as they stand, so sorting keeps them in their order
  have htied : (simplex.toList.filter (tie v)).Pairwise fun a b => precedes a.value b.value = true := by
    rw [List.pairwise_filter]
    refine List.pairwise_of_forall fun a b ha hb => ?_
    simp only [tie, Bool.and_eq_true] at ha hb
    exact precedes_trans ha.2 hb.1
  have hkept := (List.sublist_mergeSort htrans htotal htied List.filter_sublist).filter (tie v)
  rw [List.filter_filter] at hkept
  simp only [Bool.and_self] at hkept
  exact (hkept.eq_of_length (hperm.filter (tie v)).length_eq.symm).symm

end Simplex

end

/-! ## What a step comes to -/

def reflectedTo (s : Situation R n) (old : Simplex R n) (alpha : R) : Vector R n :=
  s.region.project (old.centroid + alpha * (old.centroid - old.worst.point))

/-- The points where a step of a kind may put another vertex in the place of the worst. -/
inductive Tried (s : Situation R n) (old : Simplex R n) : String → Vector R n → Prop
  | reflection {alpha : R} (h : factor s.options "alpha" = .ok alpha) :
      Tried s old "reflection" (reflectedTo s old alpha)
  | expansion {alpha gamma : R} (h : factor s.options "alpha" = .ok alpha)
      (h' : factor s.options "gamma" = .ok gamma) :
      Tried s old "expansion"
        (s.region.project (old.centroid + gamma * (reflectedTo s old alpha - old.centroid)))
  | outside {alpha rho : R} (h : factor s.options "alpha" = .ok alpha)
      (h' : factor s.options "rho" = .ok rho) :
      Tried s old "contraction"
        (s.region.project (old.centroid + rho * (reflectedTo s old alpha - old.centroid)))
  | inside {rho : R} (h : factor s.options "rho" = .ok rho) :
      Tried s old "contraction"
        (s.region.project (old.centroid - rho * (old.centroid - old.worst.point)))

/-- The vertex is at `x`, brought into the region, with the value that was told there. -/
structure Vertex.Found (s : Situation R n) (told : Lore R n) (x : Vector R n) (v : Vertex R n) :
    Prop where
  point : v.point = s.region.project x
  value : told (.value v.point) v.value

/-- The vertex is what the `i`-th vertex after the best one is drawn to. -/
def Drawn (s : Situation R n) (told : Lore R n) (old : Simplex R n) (i : Fin n) (v : Vertex R n) :
    Prop :=
  ∃ sigma, factor s.options "sigma" = .ok sigma ∧
    v.Found s told (old.best.point + sigma * ((old.get i.succ).point - old.best.point))

inductive Advance (s : Situation R n) (told : Lore R n) (old : Simplex R n) (next : State R n) : Prop
  | replaces (v : Vertex R n) (htried : Tried s old next.stepType v.point)
      (hvalue : told (.value v.point) v.value) (hbelow : Below v.value old.worst.value)
      (hnext : (old.replaceWorst v).Rearranges next.simplex)
  | shrinks (drawn : Vector (Vertex R n) n) (hname : next.stepType = "shrink")
      (hdrawn : ∀ i, Drawn s told old i (drawn.get i))
      (hnext : (assemble old.best drawn).Rearranges next.simplex)

/-- What the method starts with: the start and a corner for each variable. -/
structure Opens (s : Situation R n) (told : Lore R n) (x : Vector R n) (first : State R n) : Prop where
  stepType : first.stepType = "initial"
  corners : ∃ (scale : R) (origin : Vertex R n) (rest : Vector (Vertex R n) n),
    s.options.real "initial_simplex_scale" = .ok scale ∧
    origin.point = x ∧ told (.value x) origin.value ∧
    (∀ i, (rest.get i).Found s told (corner scale x i)) ∧
    (assemble origin rest).Rearranges first.simplex

theorem vertexAt_found (x : Vector R n) :
    (vertexAt s x).Yields (fun _ => True) told (Vertex.Found s told x) :=
  yields_question_bind trivial fun _ hvalue => yields_pure ⟨rfl, hvalue⟩

theorem shrink_draws (simplex : Simplex R n) :
    (shrink s simplex).Yields (fun _ => True) told fun shrunk =>
      ∃ drawn, shrunk = assemble simplex.best drawn ∧
        ∀ i, Drawn s told simplex i (drawn.get i) := by
  have hvertex (i : Fin n) : Yields (fun _ => True) told (Drawn s told simplex i)
      (do
        let sigma ← factor s.options "sigma"
        vertexAt s (simplex.best.point + sigma * ((simplex.get i.succ).point - simplex.best.point)) :
        Consult R n (Vertex R n)) :=
    yields_lift_bind fun sigma hsigma =>
      (vertexAt_found _).mono (fun _ h => h) fun _ hv => ⟨sigma, hsigma, hv⟩
  exact yields_bind (yields_ofFnM_get hvertex) fun drawn hdrawn => yields_pure ⟨drawn, rfl, hdrawn⟩

theorem Advance.sorted {old : Simplex R n} {next : State R n} (h : Advance s told old next) :
    next.simplex.Sorted := by
  cases h with
  | replaces v htried hvalue hbelow hnext => exact hnext.sorted
  | shrinks drawn hname hdrawn hnext => exact hnext.sorted

theorem Opens.sorted {x : Vector R n} {first : State R n} (h : Opens s told x first) :
    first.simplex.Sorted := by
  obtain ⟨scale, origin, rest, -, -, -, -, hnext⟩ := h.corners
  exact hnext.sorted

variable [Scalar.Ordered R] {simplex : Simplex R n}

theorem start_opens (x : Vector R n) :
    (start s x).Yields (fun _ => True) told (Opens s told x) := by
  refine yields_lift_bind fun scale hscale => yields_question_bind trivial fun value hvalue => ?_
  refine yields_bind (yields_ofFnM_get fun i => vertexAt_found _) fun rest hrest => yields_pure ?_
  exact ⟨rfl, scale, ⟨x, value⟩, rest, hscale, rfl, hvalue, hrest, Simplex.rearranges_sort _⟩

/-- Whichever way a sorted simplex is moved, and whatever is answered, it advances. -/
theorem move_advances (hsorted : simplex.Sorted) :
    (move s simplex).Yields (fun _ => True) told fun r =>
      Advance s told simplex (State.ofVertices r.1 r.2) := by
  refine yields_lift_bind fun alpha halpha => ?_
  refine yields_bind (vertexAt_found _) fun reflected hreflected => ?_
  have hplace : reflected.point = reflectedTo s simplex alpha := hreflected.point
  -- a vertex that is tried and found to be better takes the place of the worst
  have hreplace {name : String} {v : Vertex R n} (htried : Tried s simplex name v.point)
      (hvalue : told (.value v.point) v.value) (hbelow : Below v.value simplex.worst.value) :
      Advance s told simplex (State.ofVertices (simplex.replaceWorst v) name) :=
    .replaces v htried hvalue hbelow (Simplex.rearranges_sort _)
  have hreflection : Tried s simplex "reflection" reflected.point := hplace ▸ .reflection halpha
  refine yields_ite (fun hbetween => yields_pure ?_) fun _ => ?_
  · exact hreplace hreflection hreflected.value
      (below_of_lt_precedes hbetween.2 hsorted.secondWorst_precedes)
  refine yields_ite (fun hbest => ?_) fun _ => ?_
  · refine yields_lift_bind fun gamma hgamma => ?_
    refine yields_bind (vertexAt_found _) fun expanded hexpanded => ?_
    have hbelow : Below reflected.value simplex.worst.value :=
      below_of_lt_precedes hbest hsorted.best_precedes
    refine yields_ite (fun hfurther => yields_pure ?_) fun _ => yields_pure ?_
    · have hplaced := hexpanded.point
      rw [hplace] at hplaced
      exact hreplace (hplaced ▸ .expansion halpha hgamma) hexpanded.value
        (below_of_lt_precedes (Scalar.lt_trans hfurther hbest) hsorted.best_precedes)
    · exact hreplace hreflection hreflected.value hbelow
  refine yields_lift_bind fun rho hrho => ?_
  refine yields_bind (vertexAt_found _) fun contracted hcontracted => ?_
  have hcontraction : Tried s simplex "contraction" contracted.point := by
    have hplaced := hcontracted.point
    rw [hplace] at hplaced
    by_cases hout : reflected.value < simplex.worst.value
    · rw [if_pos hout] at hplaced
      exact hplaced ▸ .outside halpha hrho
    · rw [if_neg hout] at hplaced
      exact hplaced ▸ .inside hrho
  refine yields_ite (fun hinside => yields_pure ?_) fun _ => ?_
  · exact hreplace hcontraction hcontracted.value (below_of_lt_lesser hinside)
  · refine yields_bind (shrink_draws simplex) fun shrunk hshrunk => yields_pure ?_
    obtain ⟨drawn, rfl, hdrawn⟩ := hshrunk
    exact .shrinks drawn rfl hdrawn (Simplex.rearranges_sort _)

theorem step_advances {st : State R n} (hsorted : st.simplex.Sorted) :
    (step s st).Yields (fun _ => True) told fun r => Advance s told st.simplex r.1 := by
  refine yields_bind (move_advances hsorted) fun r hr => ?_
  exact yields_lift_bind fun least _ => yields_pure hr

end Minima.NelderMead
