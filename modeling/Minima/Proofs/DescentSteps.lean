import Minima.Proofs.GroundedSteps
import Minima.Proofs.MethodSteps
import Minima.Proofs.ScalarOrder

/-!
# Steps do not go up

A step along a line stores a finite value below the one before, or it stays where it is and ends the
run. A step of pattern search lowers the value or reduces its stride, and the best vertex of a
simplex gives way to a better one only. Nothing is assumed of the answers: values may be infinite or
undefined, and an undefined one never wins a comparison.
-/

namespace Minima

open Dialogue

variable {R : Type} [Scalar R] {n : Nat} {s : Situation R n}

/-- Whatever is answered, the computation comes to a result as `post` says. -/
abbrev Consult.Always {α : Type} (post : α → Prop) (d : Consult R n α) : Prop :=
  d.Yields (fun _ => True) (fun _ _ => True) post

theorem Consult.Always.of_run {α : Type} {post : α → Prop} {d : Consult R n α} {x : α}
    (hd : d.Always post) {f : Objective R n} {l : Ledger R n} (h : (d.run f l).1 = .ok x) :
    post x := by
  have hanswer : ∀ q l, True → True → True ∧ ∀ r, (Ledger.answer f q l).1 = .ok r → True :=
    fun _ _ _ _ => ⟨trivial, fun _ _ => trivial⟩
  exact (hd.play hanswer (s := l) trivial).2.1 x h

abbrev Consult.ByValues {α : Type} (post : α → Prop) (d : Consult R n α) : Prop :=
  d.Yields Question.IsValue (fun _ _ => True) post

/-! ## Methods along a line -/

/-- The step from `st` stores a finite value below the one before, or it keeps `st` and ends the
run. -/
def Strides {S : Type} (value : S → R) (st : S) (r : S × Status) : Prop :=
  Scalar.isFinite (value r.1) = true ∧ value r.1 < value st ∨ r.1 = st ∧ r.2 ≠ .running

namespace LineStep

/-- What a step along a line accepts is finite and below the value before; what it rejects ends the
run. -/
def Descended (it : Iterate R n) : Option (Iterate R n) × Status → Prop
  | (none, status) => status ≠ .running
  | (some next, _) => Scalar.isFinite next.value = true ∧ next.value < it.value

theorem descend_descended (it : Iterate R n) (p : Vector R n) :
    (descend s it p).Always (Descended it) := by
  refine yields_bind (yields_anything _) fun outcome _ => ?_
  refine yields_join (yields_anything _) (yields_anything _) fun alpha _ => ?_
  refine yields_question_bind trivial fun value _ => ?_
  refine yields_ite (fun _ => yields_pure nofun) fun hfinite => ?_
  refine yields_ite (fun _ => yields_pure nofun) fun hless => ?_
  refine yields_lift_bind fun stalled _ => ?_
  refine yields_question_bind trivial fun gradient _ => yields_pure ?_
  constructor
  · simpa using hfinite
  · exact not_not.mp hless

theorem TakesOver.strides {S : Type} {iterate : S → Iterate R n} {st : S} {r : S × Status}
    (h : TakesOver iterate (Descended (iterate st)) st r) :
    Strides (fun st => (iterate st).value) st r := by
  rcases h with ⟨hends, hkept⟩ | hfound
  · exact .inr ⟨hkept, hends⟩
  · exact .inl hfound

end LineStep

/-! ## Pattern search -/

namespace HookeJeeves

def Base.Keeps (b next : Base R n) : Prop := next = b ∨ next.value < b.value

/-- A step that moves lowers the value, and one that does not keeps the base. -/
def Shifts (st next : State R n) : Prop :=
  (next.stepType = "pattern" ∨ next.stepType = "exploratory") ∧ next.base.value < st.base.value ∨
    next.stepType = "reduce_step" ∧ next.base = st.base

theorem baseAt_byValues (x : Vector R n) : (baseAt s x).ByValues fun _ => True :=
  yields_question_bind trivial fun _ _ => yields_pure trivial

theorem exploreAxis_keeps (h : R) (b : Base R n) (i : Fin n) :
    (exploreAxis s h b i).ByValues (Base.Keeps b) := by
  refine yields_bind (baseAt_byValues _) fun ahead _ => ?_
  refine yields_ite (fun hless => yields_pure (.inr hless)) fun _ => ?_
  refine yields_bind (baseAt_byValues _) fun behind _ => yields_pure ?_
  by_cases hless : behind.value < b.value
  · rw [if_pos hless]
    exact .inr hless
  · rw [if_neg hless]
    exact .inl rfl

variable [Scalar.Ordered R]

theorem explore_keeps (h : R) (b : Base R n) : (explore s h b).ByValues (Base.Keeps b) := by
  -- what one axis keeps or lowers, the next one keeps or lowers again
  have haxis (c : Base R n) (i : Fin n) (hc : b.Keeps c) :
      (exploreAxis s h c i).ByValues (Base.Keeps b) := by
    refine (exploreAxis_keeps h c i).mono (fun _ h => h) fun next hnext => ?_
    rcases hnext with rfl | hless
    · exact hc
    · rcases hc with rfl | hless'
      · exact .inr hless
      · exact .inr (Scalar.lt_trans hless hless')
  exact yields_foldlM haxis _ (.inl rfl)

theorem move_shifts (st : State R n) : (move s st).ByValues (Shifts st) := by
  refine yields_bind (explore_keeps st.stepSize st.base) fun explored _ => ?_
  refine yields_ite (fun hless => ?_) fun _ => ?_
  · refine yields_bind (baseAt_byValues _) fun further _ => ?_
    refine yields_ite (fun hfurther => yields_pure ?_) fun _ => yields_pure ?_
    · exact .inl ⟨.inl rfl, Scalar.lt_trans hfurther hless⟩
    · exact .inl ⟨.inr rfl, hless⟩
  · exact yields_lift_bind fun reduction _ => yields_pure (.inr ⟨rfl, rfl⟩)

theorem step_shifts (count : Nat) (st : State R n) :
    (step s count st).ByValues fun r => Shifts st r.1 := by
  refine yields_bind (move_shifts st) fun next hnext => yields_lift_bind fun least _ => ?_
  refine yields_ite (fun _ => yields_pure hnext) fun _ => yields_lift_bind fun limit _ => ?_
  exact yields_ite (fun _ => yields_pure hnext) fun _ => yields_pure hnext

theorem Shifts.value_le {st next : State R n} (h : Shifts st next)
    (hdefined : Scalar.isNaN st.base.value = false) : next.base.value ≤ st.base.value := by
  rcases h with ⟨-, hless⟩ | ⟨-, heq⟩
  · exact Scalar.Lawful.le_of_lt hless
  · rw [heq]
    exact Scalar.le_self hdefined

end HookeJeeves

/-! ## The simplex method -/

namespace NelderMead

theorem vertexAt_byValues (x : Vector R n) : (vertexAt s x).ByValues fun _ => True :=
  yields_question_bind trivial fun _ _ => yields_pure trivial

theorem start_byValues (x : Vector R n) : (start s x).ByValues fun _ => True := by
  refine yields_lift_bind fun scale _ => yields_question_bind trivial fun value _ => ?_
  exact yields_bind (yields_ofFnM fun i => vertexAt_byValues _) fun rest _ => yields_pure trivial

omit [Scalar R] in
theorem Simplex.mem_replaceWorst {simplex : Simplex R n} {v : Vertex R n} :
    v ∈ simplex.replaceWorst v := Vector.mem_set _

omit [Scalar R] in
theorem mem_assemble {v : Vertex R n} {rest : Vector (Vertex R n) n} : v ∈ assemble v rest := by
  simp [assemble, Linear.cons]

theorem shrink_keeps_best (simplex : Simplex R n) :
    (shrink s simplex).ByValues fun shrunk => simplex.best ∈ shrunk := by
  have hvertex (i : Fin n) : Consult.ByValues (fun _ => True)
      (do
        let sigma ← factor s.options "sigma"
        vertexAt s (simplex.best.point + sigma * ((simplex.get i.succ).point - simplex.best.point)) :
        Consult R n (Vertex R n)) :=
    yields_lift_bind fun sigma _ => vertexAt_byValues _
  exact yields_bind (yields_ofFnM hvertex) fun rest _ => yields_pure mem_assemble

variable [Scalar.Ordered R] {simplex : Simplex R n} {v : Vertex R n}

theorem precedes_total (a b : R) : (precedes a b || precedes b a) = true := by
  cases ha : Scalar.isNaN a with
  | true => simp [precedes, ha]
  | false =>
      cases hb : Scalar.isNaN b with
      | true => simp [precedes, hb]
      | false =>
          have hle : a ≤ b ∨ b ≤ a := by
            by_cases hlt : a < b
            · exact .inl (Scalar.Lawful.le_of_lt hlt)
            · exact .inr (Scalar.Lawful.le_of_not_lt ha hb hlt)
          simpa [precedes, ha, hb] using hle

theorem precedes_trans {a b c : R} (h : precedes a b = true) (h' : precedes b c = true) :
    precedes a c = true := by
  cases hc : Scalar.isNaN c with
  | true => simp [precedes, hc]
  | false =>
      have hbc : b ≤ c := by simpa [precedes, hc] using h'
      have hab : a ≤ b := by simpa [precedes, (Scalar.Ordered.defined_of_le hbc).1] using h
      have hac : a ≤ c := Scalar.Ordered.le_trans hab hbc
      simpa [precedes, hc] using hac

/-- The first vertex of a sorted simplex has the least of the values that are defined. -/
theorem Simplex.best_sort_le (hv : v ∈ simplex) (hdefined : Scalar.isNaN v.value = false) :
    simplex.sort.best.value ≤ v.value := by
  have hsorted := List.pairwise_mergeSort
    (fun (a b c : Vertex R n) => precedes_trans (a := a.value) (b := b.value) (c := c.value))
    (fun a b => precedes_total a.value b.value) simplex.toList
  have hmem : v ∈ simplex.toList.mergeSort fun a b => precedes a.value b.value := by
    simpa using hv
  obtain ⟨i, hi, hget⟩ := List.mem_iff_getElem.mp hmem
  cases i with
  | zero =>
      have hsame : simplex.sort.best = v := hget
      rw [hsame]
      exact Scalar.le_self hdefined
  | succ i =>
      have hfirst := List.pairwise_iff_getElem.mp hsorted 0 (i + 1) (by omega) hi (Nat.succ_pos i)
      rw [hget] at hfirst
      have hprecedes : precedes simplex.sort.best.value v.value = true := hfirst
      simpa [precedes, hdefined] using hprecedes

/-- A vertex no worse than the best one is there after the worst one has been replaced. -/
theorem exists_le_replaceWorst (hbest : Scalar.isNaN simplex.best.value = false)
    (h : n = 0 → v.value ≤ simplex.best.value) :
    ∃ u ∈ simplex.replaceWorst v, u.value ≤ simplex.best.value := by
  rcases Nat.eq_zero_or_pos n with hn | hn
  · exact ⟨v, Simplex.mem_replaceWorst, h hn⟩
  · have hkept : simplex.best ∈ simplex.replaceWorst v := by
      have hget : (simplex.set n v)[0] = simplex.best := Vector.getElem_set_ne _ _ hn.ne'
      rw [← hget]
      exact Vector.getElem_mem _
    exact ⟨simplex.best, hkept, Scalar.le_self hbest⟩

/-- What is below the smaller of two defined scalars is below both. -/
theorem lt_of_lt_lesser {a b c : R} (hb : Scalar.isNaN b = false) (h : c < Scalar.lesser a b) :
    c < b := by
  unfold Scalar.lesser at h
  by_cases hba : b < a
  · rwa [if_pos hba] at h
  · rw [if_neg hba] at h
    exact Scalar.lt_of_lt_of_le h (Scalar.Lawful.le_of_not_lt hb (Scalar.defined_of_lt h).2 hba)

/-- However the next simplex is made, one of its vertices is no worse than the best one was, if that
was defined. -/
theorem move_keeps (simplex : Simplex R n) :
    (move s simplex).ByValues fun r => Scalar.isNaN simplex.best.value = false →
      ∃ v ∈ r.1, v.value ≤ simplex.best.value := by
  refine yields_lift_bind fun alpha _ => yields_bind (vertexAt_byValues _) fun reflected _ => ?_
  refine yields_ite (fun hbetween => yields_pure fun hbest => ?_) fun _ => ?_
  · -- with a single vertex there is nothing between the best and the second worst
    refine exists_le_replaceWorst hbest fun hn => ?_
    subst hn
    exact Scalar.Lawful.le_of_lt hbetween.2
  refine yields_ite (fun hless => ?_) fun _ => ?_
  · refine yields_lift_bind fun gamma _ => yields_bind (vertexAt_byValues _) fun expanded _ => ?_
    refine yields_ite (fun hfurther => yields_pure fun _ => ?_) fun _ => yields_pure fun _ => ?_
    · have hlower : expanded.value < simplex.best.value := Scalar.lt_trans hfurther hless
      exact ⟨expanded, Simplex.mem_replaceWorst, Scalar.Lawful.le_of_lt hlower⟩
    · exact ⟨reflected, Simplex.mem_replaceWorst, Scalar.Lawful.le_of_lt hless⟩
  refine yields_lift_bind fun rho _ => yields_bind (vertexAt_byValues _) fun contracted _ => ?_
  refine yields_ite (fun hinside => yields_pure fun hbest => ?_) fun _ => ?_
  · refine exists_le_replaceWorst hbest fun hn => ?_
    subst hn
    exact Scalar.Lawful.le_of_lt (lt_of_lt_lesser hbest hinside)
  · refine yields_bind (shrink_keeps_best simplex) fun shrunk hshrunk => yields_pure fun hbest => ?_
    exact ⟨simplex.best, hshrunk, Scalar.le_self hbest⟩

theorem step_keeps (st : State R n) :
    (step s st).ByValues fun r => Scalar.isNaN st.simplex.best.value = false →
      r.1.simplex.best.value ≤ st.simplex.best.value := by
  refine yields_bind (move_keeps st.simplex) ?_
  rintro ⟨simplex, stepType⟩ hkept
  refine yields_lift_bind fun least _ => yields_pure fun hbest => ?_
  obtain ⟨v, hv, hle⟩ := hkept hbest
  have hdefined := (Scalar.Ordered.defined_of_le hle).1
  exact Scalar.Ordered.le_trans (Simplex.best_sort_le hv hdefined) hle

end NelderMead

/-! ## The methods on offer -/

/-- A step of pattern search that moves lowers the value, and one that reduces the stride keeps the
point and the value. -/
def Snapshot.Shifts (v v' : Snapshot R) : Prop :=
  ∃ size stepType, v'.detail = .pattern size stepType ∧
    ((stepType = "pattern" ∨ stepType = "exploratory") ∧ v'.value < v.value ∨
      stepType = "reduce_step" ∧ v'.value = v.value ∧ v'.point = v.point)

namespace Offer

/-- What a step of the method from `st` to `r.1` with the status `r.2` does to the value. -/
structure Descends (o : Offer) (st : (o.method : Method R).State n)
    (r : (o.method : Method R).State n × Status) : Prop where
  value_le : o ≠ .gradientDescent → Scalar.isNaN (o.method.view st).value = false →
    (o.method.view r.1).value ≤ (o.method.view st).value
  strides : (o.method : Method R).usesLineSearch = true →
    Strides (fun st => (o.method.view st).value) st r
  shifts : o = .hookeJeeves → (o.method.view st).Shifts (o.method.view r.1)

variable [Scalar.Ordered R]

theorem descends_of_strides (o : Offer) {st : (o.method : Method R).State n}
    {r : (o.method : Method R).State n × Status} (hne : o ≠ .hookeJeeves)
    (h : Strides (fun st => (o.method.view st).value) st r) : o.Descends st r where
  value_le _ hdefined := by
    rcases h with ⟨-, hless⟩ | ⟨heq, -⟩
    · exact Scalar.Lawful.le_of_lt hless
    · rw [heq]
      exact Scalar.le_self hdefined
  strides _ := h
  shifts heq := absurd heq hne

theorem step_descends (o : Offer) (s : Situation R n) (count : Nat)
    (st : (o.method : Method R).State n) :
    ((o.method : Method R).step s count st).Always fun r =>
      ∀ next, r.1 = .state next → o.Descends st (next, r.2) := by
  have hwrap {S : Type} {P Q : S × Status → Prop} {asks : Question R n → Prop}
      {d : Consult R n (S × Status)} (hd : d.Yields asks (fun _ _ => True) P)
      (hP : ∀ r, P r → Q r) :=
    yields_wrapped (Q := fun r => ∀ next, r.1 = .state next → Q (next, r.2))
      (hd.mono (fun _ _ => trivial) hP) (by rintro next status hr _ ⟨⟩; exact hr)
  cases o with
  | gradientDescent =>
      refine hwrap (yields_anything (GradientDescent.step s count st)) fun r _ => ?_
      exact ⟨fun hne => absurd rfl hne, nofun, nofun⟩
  | steepestDescent =>
      exact hwrap (SteepestDescent.step_takesOver (LineStep.descend_descended st)) fun _ hr =>
        descends_of_strides .steepestDescent nofun hr.strides
  | conjugateGradient =>
      exact hwrap (ConjugateGradient.step_takesOver (LineStep.descend_descended st.iterate) count) fun _ hr =>
        descends_of_strides .conjugateGradient nofun hr.strides
  | fletcherReeves =>
      exact hwrap (ConjugateGradient.step_takesOver (LineStep.descend_descended st.iterate) count) fun _ hr =>
        descends_of_strides .fletcherReeves nofun hr.strides
  | polakRibiere =>
      exact hwrap (ConjugateGradient.step_takesOver (LineStep.descend_descended st.iterate) count) fun _ hr =>
        descends_of_strides .polakRibiere nofun hr.strides
  | newton =>
      exact hwrap (Newton.step_takesOver (LineStep.descend_descended st.iterate) trivial) fun _ hr =>
        descends_of_strides .newton nofun hr.strides
  | quasiNewton =>
      exact hwrap (QuasiNewton.step_takesOver (LineStep.descend_descended st.iterate) count) fun _ hr =>
        descends_of_strides .quasiNewton nofun hr.strides
  | nelderMead =>
      refine hwrap (NelderMead.step_keeps st) fun r hr => ?_
      exact ⟨fun _ => hr, nofun, nofun⟩
  | hookeJeeves =>
      refine hwrap (HookeJeeves.step_shifts count st) fun r hr => ?_
      refine ⟨fun _ hdefined => hr.value_le hdefined, nofun, fun _ => ⟨_, _, rfl, ?_⟩⟩
      rcases hr with hmoved | ⟨htype, heq⟩
      · exact .inl hmoved
      · exact .inr ⟨htype, congrArg HookeJeeves.Base.value heq,
          congrArg (fun b => b.point.toArray) heq⟩

end Offer

end Minima
