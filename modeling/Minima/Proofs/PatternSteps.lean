import Minima.Proofs.DescentSteps

/-!
# What a step of pattern search does

The exploration moves its base as it goes, so where it comes to nothing, it has never moved: then all
its trials were made from the base itself, two for every axis, and none of them was better. Such a step
reduces the stride and keeps the base. Any other step keeps the stride and lowers the value. The method
succeeds exactly when the stride has become shorter than the least one. The values may be infinite or
undefined.
-/

namespace Minima.HookeJeeves

open Dialogue

variable {R : Type} [Scalar R] {n : Nat} {s : Situation R n} {told : Lore R n} {b : Base R n}
  {st next : State R n}

/-- At the two points at the distance `h` from the base along the `i`-th axis, brought into the
region, nothing less was told than the value of the base. -/
def Stuck (s : Situation R n) (told : Lore R n) (h : R) (b : Base R n) (i : Fin n) : Prop :=
  ∀ y ∈ [b.point.get i + h, b.point.get i - h],
    ∃ v, told (.value (s.region.project (b.point.set i.val y i.isLt))) v ∧ ¬ v < b.value

inductive Advance (s : Situation R n) (told : Lore R n) (st next : State R n) : Prop
  | moves (hname : next.stepType = "pattern" ∨ next.stepType = "exploratory")
      (hsize : next.stepSize = st.stepSize) (hbelow : next.base.value < st.base.value)
  | reduces {reduction : R} (hname : next.stepType = "reduce_step")
      (hreduction : s.options.real "reduction_factor" = .ok reduction)
      (hsize : next.stepSize = st.stepSize * reduction) (hbase : next.base = st.base)
      (hstuck : ∀ i, Stuck s told st.stepSize st.base i)

theorem baseAt_found (x : Vector R n) :
    (baseAt s x).Yields (fun _ => True) told fun c =>
      c.point = s.region.project x ∧ told (.value (s.region.project x)) c.value :=
  yields_question_bind trivial fun _ hvalue => yields_pure ⟨rfl, hvalue⟩

/-- Along one axis the exploration finds something better, or it is stuck. -/
theorem exploreAxis_finds (h : R) (b : Base R n) (i : Fin n) :
    (exploreAxis s h b i).Yields (fun _ => True) told fun c =>
      c.value < b.value ∨ c = b ∧ Stuck s told h b i := by
  refine yields_bind (baseAt_found _) fun ahead hahead => ?_
  refine yields_ite (fun hless => yields_pure (.inl hless)) fun hnot => ?_
  refine yields_bind (baseAt_found _) fun behind hbehind => yields_pure ?_
  by_cases hless : behind.value < b.value
  · rw [if_pos hless]
    exact .inl hless
  · rw [if_neg hless]
    refine .inr ⟨rfl, fun y hy => ?_⟩
    simp only [List.mem_cons, List.not_mem_nil, or_false] at hy
    rcases hy with rfl | rfl
    · exact ⟨_, hahead.2, hnot⟩
    · exact ⟨_, hbehind.2, hless⟩

variable [Scalar.Ordered R]

/-- Along several axes it finds something better, or it has been stuck at the base all the time. -/
theorem explore_finds_along (h : R) (b : Base R n) (axes : List (Fin n)) :
    (axes.foldlM (exploreAxis s h) b).Yields (fun _ => True) told fun c =>
      c.value < b.value ∨ c = b ∧ ∀ i ∈ axes, Stuck s told h b i := by
  induction axes generalizing b with
  | nil => exact yields_pure (.inr ⟨rfl, by simp⟩)
  | cons i axes ih =>
      rw [List.foldlM_cons]
      refine yields_bind (exploreAxis_finds h b i) fun c hc => ?_
      rcases hc with hless | ⟨rfl, hstuck⟩
      · -- what is found once is not lost again
        refine (ih c).mono (fun _ h => h) fun d hd => ?_
        rcases hd with hfurther | ⟨rfl, -⟩
        · exact .inl (Scalar.lt_trans hfurther hless)
        · exact .inl hless
      · refine (ih c).mono (fun _ h => h) fun d hd => ?_
        rcases hd with hless | ⟨rfl, hrest⟩
        · exact .inl hless
        · refine .inr ⟨rfl, fun j hj => ?_⟩
          rcases List.mem_cons.mp hj with rfl | hj
          · exact hstuck
          · exact hrest j hj

theorem explore_finds (h : R) (b : Base R n) :
    (explore s h b).Yields (fun _ => True) told fun c =>
      c.value < b.value ∨ c = b ∧ ∀ i, Stuck s told h b i := by
  refine (explore_finds_along h b _).mono (fun _ h => h) fun c hc => ?_
  rcases hc with hless | ⟨rfl, hstuck⟩
  · exact .inl hless
  · exact .inr ⟨rfl, fun i => hstuck i (List.mem_finRange i)⟩

theorem move_advances (st : State R n) :
    (move s st).Yields (fun _ => True) told (Advance s told st) := by
  refine yields_bind (explore_finds st.stepSize st.base) fun explored hexplored => ?_
  refine yields_ite (fun hless => ?_) fun hnot => ?_
  · refine yields_bind (baseAt_found _) fun further _ => ?_
    refine yields_ite (fun hfurther => yields_pure ?_) fun _ => yields_pure ?_
    · exact .moves (.inl rfl) rfl (Scalar.lt_trans hfurther hless)
    · exact .moves (.inr rfl) rfl hless
  · refine yields_lift_bind fun reduction hreduction => yields_pure ?_
    rcases hexplored with hless | ⟨-, hstuck⟩
    · exact absurd hless hnot
    · exact .reduces rfl hreduction rfl rfl hstuck

/-- A step advances, and it succeeds exactly if it leaves a stride below the least one. -/
theorem step_advances (count : Nat) (st : State R n) :
    (step s count st).Yields (fun _ => True) told fun r =>
      Advance s told st r.1 ∧ ∃ least, s.options.real "min_step" = .ok least ∧
        (r.2 = .success ↔ r.1.stepSize < least) := by
  refine yields_bind (move_advances st) fun next hnext => ?_
  refine yields_lift_bind fun least hleast => ?_
  refine yields_ite (fun hshort => yields_pure ?_) fun hlong => ?_
  · exact ⟨hnext, least, hleast, iff_of_true rfl hshort⟩
  refine yields_lift_bind fun limit _ => ?_
  refine yields_ite (fun _ => yields_pure ?_) fun _ => yields_pure ?_
  · exact ⟨hnext, least, hleast, iff_of_false nofun hlong⟩
  · exact ⟨hnext, least, hleast, iff_of_false nofun hlong⟩

end Minima.HookeJeeves
