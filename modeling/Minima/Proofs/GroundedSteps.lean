import Minima.Offer
import Minima.Proofs.Readings

/-!
# States rest on what was answered

A method asks only at points that it has brought into its region, and a state holds only such points
with what was answered there. So the value of a gradient method is what was told at its point, and so
is the gradient, each vertex of a simplex goes with what was told at it, and a pattern search carries
the value of its base. Nothing is assumed of the answers: `told q r` is whatever is known of an
answer `r` to the question `q`.
-/

namespace Minima

open Dialogue

variable {R : Type} [Scalar R] {n : Nat}

/-- The point is the nearest feasible one to some point. -/
def Region.Reached (r : Region R n) (p : Vector R n) : Prop := ∃ x, r.project x = p

/-- What may be known of the answers to questions. -/
abbrev Lore (R : Type) (n : Nat) := (q : Question R n) → Answer q → Prop

/-- The computation asks at points of the region only, and with true answers comes to a result as
`post` says. -/
abbrev Consult.Grounded {α : Type} (r : Region R n) (told : Lore R n) (post : α → Prop)
    (d : Consult R n α) : Prop :=
  d.Yields (fun q => r.Reached q.point) told post

/-- A point of the region with the value that was told there. -/
structure Sampled (r : Region R n) (told : Lore R n) (x : Vector R n) (value : R) : Prop where
  reached : r.Reached x
  value : told (.value x) value

structure Iterate.Grounded (r : Region R n) (told : Lore R n) (it : Iterate R n) : Prop where
  sampled : Sampled r told it.point it.value
  gradient : told (.gradient it.point) it.gradient

variable {s : Situation R n} {told : Lore R n} {it : Iterate R n}

theorem Iterate.start_grounded {x : Vector R n} (hx : s.region.Reached x) :
    Consult.Grounded s.region told (Iterate.Grounded s.region told) (Iterate.start x) := by
  refine yields_question_bind hx fun value hvalue => ?_
  refine yields_question_bind hx fun gradient hgradient => ?_
  exact yields_pure ⟨⟨hx, hvalue⟩, hgradient⟩

namespace LineStep

theorem reached_along (r : Region R n) (x p : Vector R n) (alpha : R) :
    r.Reached (along r x p alpha) := ⟨_, rfl⟩

/-- A search asks for values at the points that its trial steps lead to, and nothing else. -/
theorem searchAlong_tries (it : Iterate R n) (p : Vector R n) :
    (searchAlong s it p).Yields
      (fun q => ∃ alpha, q = .value (along s.region it.point p alpha)) told fun _ => True := by
  have hinline (request : LineSearch.Request R) (options : Options R) :
      ((LineSearch.search request options).inline fun alpha =>
        Consult.value (along s.region it.point p alpha)).Yields
          (fun q => ∃ alpha, q = .value (along s.region it.point p alpha)) told fun _ => True :=
    yields_inline _ fun alpha => yields_question_bind ⟨alpha, rfl⟩ fun _ _ => trivial
  refine yields_lift_bind fun name _ => ?_
  refine yields_ite (fun _ => ?_) fun _ => ?_
  · refine yields_lift_bind fun given _ => yields_lift_bind fun limit _ => ?_
    exact yields_lift_bind fun right _ => yields_lift_bind fun tol _ => hinline _ _
  · refine yields_lift_bind fun limit _ => ?_
    exact yields_lift_bind fun right _ => yields_lift_bind fun tol _ => hinline _ _

/-- All trial points of a search are brought into the region. -/
theorem searchAlong_grounded (it : Iterate R n) (p : Vector R n) :
    Consult.Grounded s.region told (fun _ => True) (searchAlong s it p) := by
  refine (searchAlong_tries it p).mono ?_ fun _ h => h
  rintro _ ⟨alpha, rfl⟩
  exact reached_along s.region it.point p alpha

/-- The point of a step along a line is brought into the region too, be it that of the search or that
of the fallback, and the next iterate is made there. -/
theorem descend_grounded (it : Iterate R n) (p : Vector R n) :
    Consult.Grounded s.region told (fun r => ∀ next ∈ r.1, Iterate.Grounded s.region told next)
      (descend s it p) := by
  refine yields_bind (searchAlong_grounded it p) fun outcome _ => ?_
  have hlength : Consult.Grounded s.region told (fun _ => True)
      (liftM (s.options.real "fallback_alpha") : Consult R n R) := yields_lift fun _ _ => trivial
  refine yields_join ?_ hlength fun alpha _ => ?_
  · exact yields_pure trivial
  have hx := reached_along s.region it.point p alpha
  refine yields_question_bind hx fun value hvalue => ?_
  refine yields_ite (fun _ => yields_pure nofun) fun _ => ?_
  refine yields_ite (fun _ => yields_pure nofun) fun _ => ?_
  refine yields_lift_bind fun stalled _ => ?_
  refine yields_question_bind hx fun gradient hgradient => yields_pure ?_
  rintro _ ⟨⟩
  exact ⟨⟨hx, hvalue⟩, hgradient⟩

/-- A step takes over what was found along its line: without a next iterate it keeps the state, and
otherwise it leads to that iterate. -/
def TakesOver {S : Type} (iterate : S → Iterate R n) (found : Option (Iterate R n) × Status → Prop)
    (st : S) (r : S × Status) : Prop :=
  found (none, r.2) ∧ r.1 = st ∨ found (some (iterate r.1), r.2)

theorem TakesOver.grounded {S : Type} {iterate : S → Iterate R n} {st : S} {r : S × Status}
    (h : TakesOver iterate (fun r => ∀ next ∈ r.1, Iterate.Grounded s.region told next) st r)
    (hst : (iterate st).Grounded s.region told) : (iterate r.1).Grounded s.region told := by
  rcases h with ⟨-, hkept⟩ | hfound
  · rw [hkept]
    exact hst
  · exact hfound _ rfl

end LineStep

/-! ## Gradient methods -/

namespace GradientDescent

theorem step_grounded (count : Nat) (it : Iterate R n) :
    Consult.Grounded s.region told (fun r => r.1.Grounded s.region told) (step s count it) := by
  refine yields_lift_bind fun h _ => ?_
  have hx : s.region.Reached (s.region.project (it.point - h * it.gradient)) := ⟨_, rfl⟩
  refine yields_question_bind hx fun value hvalue => ?_
  refine yields_question_bind hx fun gradient hgradient => ?_
  exact yields_lift_bind fun status _ => yields_pure ⟨⟨hx, hvalue⟩, hgradient⟩

end GradientDescent

section

variable {asks : Question R n → Prop} {found : Option (Iterate R n) × Status → Prop}

theorem SteepestDescent.step_takesOver
    (h : ∀ p, (LineStep.descend s it p).Yields asks told found) :
    (step s it).Yields asks told (LineStep.TakesOver id found it) := by
  refine yields_bind (h _) ?_
  rintro ⟨_ | next, status⟩ hr
  · exact yields_pure (.inl ⟨hr, rfl⟩)
  · exact yields_pure (.inr hr)

theorem ConjugateGradient.step_takesOver {st : ConjugateGradient.State R n}
    (h : ∀ p, (LineStep.descend s st.iterate p).Yields asks told found) (count : Nat) :
    (step s count st).Yields asks told
      (LineStep.TakesOver ConjugateGradient.State.iterate found st) := by
  refine yields_bind (h _) ?_
  rintro ⟨_ | next, status⟩ hr
  · exact yields_pure (.inl ⟨hr, rfl⟩)
  · refine yields_lift_bind fun period _ => ?_
    refine yields_ite (fun _ => yields_pure (.inr hr)) fun _ => ?_
    exact yields_lift_bind fun beta _ => yields_pure (.inr hr)

theorem Newton.step_takesOver {st : Newton.State R n}
    (h : ∀ p, (LineStep.descend s st.iterate p).Yields asks told found)
    (hasks : asks (.hessian st.iterate.point)) :
    (step s st).Yields asks told (LineStep.TakesOver Newton.State.iterate found st) := by
  -- the Hessian is asked for at the point of the iterate
  refine yields_question_bind hasks fun hessian _ => yields_lift_bind fun direction _ => ?_
  refine yields_bind (h _) ?_
  rintro ⟨_ | next, status⟩ hr
  · exact yields_pure (.inl ⟨hr, rfl⟩)
  · exact yields_pure (.inr hr)

theorem QuasiNewton.step_takesOver {st : QuasiNewton.State R n}
    (h : ∀ p, (LineStep.descend s st.iterate p).Yields asks told found) (count : Nat) :
    (step s count st).Yields asks told (LineStep.TakesOver QuasiNewton.State.iterate found st) := by
  refine yields_bind (h _) ?_
  rintro ⟨_ | next, status⟩ hr
  · exact yields_pure (.inl ⟨hr, rfl⟩)
  · refine yields_lift_bind fun eps _ => ?_
    refine yields_ite (fun _ => ?_) fun _ => yields_pure (.inr hr)
    exact yields_lift_bind fun inverse _ => yields_pure (.inr hr)

end

/-! ## Pattern search -/

namespace HookeJeeves

def Base.Grounded (r : Region R n) (told : Lore R n) (b : Base R n) : Prop :=
  Sampled r told b.point b.value

theorem baseAt_grounded (x : Vector R n) :
    Consult.Grounded s.region told (Base.Grounded s.region told) (baseAt s x) := by
  have hx : s.region.Reached (s.region.project x) := ⟨x, rfl⟩
  exact yields_question_bind hx fun value hvalue => yields_pure ⟨hx, hvalue⟩

theorem exploreAxis_grounded (h : R) {b : Base R n} (hb : b.Grounded s.region told) (i : Fin n) :
    Consult.Grounded s.region told (Base.Grounded s.region told) (exploreAxis s h b i) := by
  refine yields_bind (baseAt_grounded _) fun ahead hahead => ?_
  refine yields_ite (fun _ => yields_pure hahead) fun _ => ?_
  refine yields_bind (baseAt_grounded _) fun behind hbehind => yields_pure ?_
  by_cases hlt : behind.value < b.value
  · rw [if_pos hlt]
    exact hbehind
  · rw [if_neg hlt]
    exact hb

theorem move_grounded {st : State R n} (hst : st.base.Grounded s.region told) :
    Consult.Grounded s.region told (fun next => next.base.Grounded s.region told) (move s st) := by
  have hexplore : Consult.Grounded s.region told (Base.Grounded s.region told)
      (explore s st.stepSize st.base) :=
    yields_foldlM (fun b i hb => exploreAxis_grounded st.stepSize hb i) _ hst
  refine yields_bind hexplore fun explored hexplored => ?_
  refine yields_ite (fun _ => ?_) fun _ => ?_
  · refine yields_bind (baseAt_grounded _) fun further hfurther => ?_
    exact yields_ite (fun _ => yields_pure hfurther) fun _ => yields_pure hexplored
  · exact yields_lift_bind fun reduction _ => yields_pure hst

theorem step_grounded {st : State R n} (hst : st.base.Grounded s.region told) (count : Nat) :
    Consult.Grounded s.region told (fun r => r.1.base.Grounded s.region told)
      (step s count st) := by
  refine yields_bind (move_grounded hst) fun next hnext => ?_
  refine yields_lift_bind fun least _ => ?_
  refine yields_ite (fun _ => yields_pure hnext) fun _ => ?_
  refine yields_lift_bind fun limit _ => ?_
  exact yields_ite (fun _ => yields_pure hnext) fun _ => yields_pure hnext

end HookeJeeves

/-! ## The simplex method -/

namespace NelderMead

def Vertex.Grounded (r : Region R n) (told : Lore R n) (v : Vertex R n) : Prop :=
  Sampled r told v.point v.value

def Simplex.Grounded (r : Region R n) (told : Lore R n) (simplex : Simplex R n) : Prop :=
  ∀ v ∈ simplex, v.Grounded r told

section

variable {r : Region R n} {simplex : Simplex R n} {v : Vertex R n}

theorem Simplex.mem_sort : v ∈ simplex.sort ↔ v ∈ simplex := by
  unfold sort
  rw [← Vector.mem_toArray_iff]
  simp

theorem Simplex.Grounded.get (h : simplex.Grounded r told) (i : Fin (n + 1)) :
    (simplex.get i).Grounded r told := h _ (Vector.getElem_mem i.isLt)

theorem Simplex.Grounded.replaceWorst (h : simplex.Grounded r told) (hv : v.Grounded r told) :
    Simplex.Grounded r told (simplex.replaceWorst v) := by
  intro u hu
  rcases Vector.mem_or_eq_of_mem_set hu with hu | rfl
  · exact h u hu
  · exact hv

theorem grounded_assemble {rest : Vector (Vertex R n) n} (hv : v.Grounded r told)
    (hrest : ∀ u ∈ rest, u.Grounded r told) : Simplex.Grounded r told (assemble v rest) := by
  intro u hu
  have hcases : u = v ∨ u ∈ rest := by simpa [assemble, Linear.cons] using hu
  rcases hcases with rfl | hu
  · exact hv
  · exact hrest u hu

end

/-- The points that a simplex shows are those of its vertices, in their order. -/
theorem State.points_view (st : State R n) :
    st.view.points = st.simplex.toList.map fun v => v.point.toArray := by
  have hlength : st.view.points.length = (st.simplex.toList.map fun v => v.point.toArray).length := by
    simp [Snapshot.points, view]
  refine List.ext_getElem hlength fun i hi hi' => ?_
  cases i with
  | zero =>
      simp [Snapshot.points, view, Simplex.best]
      rfl
  | succ i => simp [Snapshot.points, view]

def State.Grounded (r : Region R n) (told : Lore R n) (st : State R n) : Prop :=
  st.simplex.Grounded r told

theorem State.grounded_ofVertices {r : Region R n} {simplex : Simplex R n}
    (h : simplex.Grounded r told) (stepType : String) :
    (State.ofVertices simplex stepType).Grounded r told :=
  fun v hv => h v (Simplex.mem_sort.mp hv)

theorem vertexAt_grounded (x : Vector R n) :
    Consult.Grounded s.region told (Vertex.Grounded s.region told) (vertexAt s x) := by
  have hx : s.region.Reached (s.region.project x) := ⟨x, rfl⟩
  exact yields_question_bind hx fun value hvalue => yields_pure ⟨hx, hvalue⟩

theorem start_grounded {x : Vector R n} (hx : s.region.Reached x) :
    Consult.Grounded s.region told (State.Grounded s.region told) (start s x) := by
  refine yields_lift_bind fun scale _ => ?_
  refine yields_question_bind hx fun value hvalue => ?_
  refine yields_bind (yields_ofFnM fun i => vertexAt_grounded _) fun rest hrest => yields_pure ?_
  exact State.grounded_ofVertices (grounded_assemble ⟨hx, hvalue⟩ hrest) "initial"

theorem shrink_grounded {simplex : Simplex R n} (h : simplex.Grounded s.region told) :
    Consult.Grounded s.region told (Simplex.Grounded s.region told) (shrink s simplex) := by
  have hvertex (i : Fin n) : Consult.Grounded s.region told (Vertex.Grounded s.region told)
      (do
        let sigma ← factor s.options "sigma"
        vertexAt s (simplex.best.point + sigma * ((simplex.get i.succ).point - simplex.best.point)) :
        Consult R n (Vertex R n)) :=
    yields_lift_bind fun sigma _ => vertexAt_grounded _
  refine yields_bind (yields_ofFnM hvertex) fun rest hrest => yields_pure ?_
  exact grounded_assemble (h.get _) hrest

/-- All vertices of the next simplex are, whichever way it is made. -/
theorem move_grounded {simplex : Simplex R n} (h : simplex.Grounded s.region told) :
    Consult.Grounded s.region told (fun r => Simplex.Grounded s.region told r.1)
      (move s simplex) := by
  refine yields_lift_bind fun alpha _ => ?_
  refine yields_bind (vertexAt_grounded _) fun reflected hreflected => ?_
  refine yields_ite (fun _ => yields_pure (h.replaceWorst hreflected)) fun _ => ?_
  refine yields_ite (fun _ => ?_) fun _ => ?_
  · refine yields_lift_bind fun gamma _ => ?_
    refine yields_bind (vertexAt_grounded _) fun expanded hexpanded => ?_
    refine yields_ite (fun _ => yields_pure (h.replaceWorst hexpanded)) fun _ => ?_
    exact yields_pure (h.replaceWorst hreflected)
  · refine yields_lift_bind fun rho _ => ?_
    refine yields_bind (vertexAt_grounded _) fun contracted hcontracted => ?_
    refine yields_ite (fun _ => yields_pure (h.replaceWorst hcontracted)) fun _ => ?_
    exact yields_bind (shrink_grounded h) fun shrunk hshrunk => yields_pure hshrunk

theorem step_grounded {st : State R n} (hst : st.Grounded s.region told) :
    Consult.Grounded s.region told (fun r => State.Grounded s.region told r.1) (step s st) := by
  refine yields_bind (move_grounded hst) fun r hr => ?_
  obtain ⟨simplex, stepType⟩ := r
  exact yields_lift_bind fun least _ => yields_pure (State.grounded_ofVertices hr stepType)

end NelderMead

/-! ## The methods on offer -/

omit [Scalar R] in
/-- Every method wraps the state that its own step makes. -/
theorem yields_wrapped {S : Type} {asks : Question R n → Prop} {P : S × Status → Prop}
    {Q : Produced S × Status → Prop} {d : Consult R n (S × Status)} (hd : d.Yields asks told P)
    (hQ : ∀ next status, P (next, status) → Q (.state next, status)) :
    (do
      let (next, status) ← d
      return (Produced.state next, status) : Consult R n (Produced S × Status)).Yields asks told Q :=
  yields_bind hd fun _ hr => yields_pure (hQ _ _ hr)

namespace Offer

def Grounded : (o : Offer) → Region R n → Lore R n → (o.method : Method R).State n → Prop
  | .gradientDescent, r, told, it => Iterate.Grounded r told it
  | .steepestDescent, r, told, it => Iterate.Grounded r told it
  | .conjugateGradient, r, told, st => ConjugateGradient.State.iterate st |>.Grounded r told
  | .fletcherReeves, r, told, st => ConjugateGradient.State.iterate st |>.Grounded r told
  | .polakRibiere, r, told, st => ConjugateGradient.State.iterate st |>.Grounded r told
  | .newton, r, told, st => Newton.State.iterate st |>.Grounded r told
  | .quasiNewton, r, told, st => QuasiNewton.State.iterate st |>.Grounded r told
  | .nelderMead, r, told, st => NelderMead.State.Grounded r told st
  | .hookeJeeves, r, told, st => HookeJeeves.State.base st |>.Grounded r told

/-- The first state at a point of the region is grounded. -/
theorem start_grounded (o : Offer) (s : Situation R n) {x : Vector R n} (hx : s.region.Reached x) :
    Consult.Grounded s.region told (fun p => ∀ st, p = .state st → o.Grounded s.region told st)
      ((o.method : Method R).start s x) := by
  cases o with
  | nelderMead =>
      refine yields_bind (NelderMead.start_grounded hx) fun st hst => yields_pure ?_
      rintro _ ⟨⟩
      exact hst
  | hookeJeeves =>
      refine yields_question_bind hx fun value hvalue => yields_lift_bind fun size _ => yields_pure ?_
      rintro _ ⟨⟩
      exact ⟨hx, hvalue⟩
  | _ =>
      refine yields_bind (Iterate.start_grounded hx) fun it hit => yields_pure ?_
      rintro _ ⟨⟩
      exact hit

/-- A step from a grounded state leads to a grounded one. -/
theorem step_grounded (o : Offer) (s : Situation R n) {st : (o.method : Method R).State n}
    (hst : o.Grounded s.region told st) (count : Nat) :
    Consult.Grounded s.region told
      (fun r => ∀ next, r.1 = .state next → o.Grounded s.region told next)
      ((o.method : Method R).step s count st) := by
  have hwrap {S : Type} {P : S → Prop} {d : Consult R n (S × Status)}
      (hd : Consult.Grounded s.region told (fun r => P r.1) d) :=
    yields_wrapped (Q := fun r => ∀ next, r.1 = .state next → P next) hd
      (by rintro next status hr _ ⟨⟩; exact hr)
  have hline {S : Type} {iterate : S → Iterate R n} {st : S} {d : Consult R n (S × Status)}
      (hst : (iterate st).Grounded s.region told)
      (hd : Consult.Grounded s.region told (LineStep.TakesOver iterate
        (fun r => ∀ next ∈ r.1, Iterate.Grounded s.region told next) st) d) :=
    hwrap (P := fun st => (iterate st).Grounded s.region told)
      (hd.mono (fun _ h => h) fun _ h => h.grounded hst)
  cases o with
  | gradientDescent => exact hwrap (GradientDescent.step_grounded count st)
  | steepestDescent =>
      exact hline hst (SteepestDescent.step_takesOver (LineStep.descend_grounded st))
  | newton =>
      exact hline hst (Newton.step_takesOver (LineStep.descend_grounded st.iterate)
        hst.sampled.reached)
  | quasiNewton =>
      exact hline hst (QuasiNewton.step_takesOver (LineStep.descend_grounded st.iterate) count)
  | conjugateGradient | fletcherReeves | polakRibiere =>
      exact hline hst (ConjugateGradient.step_takesOver (LineStep.descend_grounded st.iterate) count)
  | nelderMead => exact hwrap (NelderMead.step_grounded hst)
  | hookeJeeves => exact hwrap (HookeJeeves.step_grounded hst count)

end Offer

end Minima
