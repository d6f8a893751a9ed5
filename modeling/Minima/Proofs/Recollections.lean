import Minima.Proofs.GroundedSteps
import Minima.Proofs.SessionInvariants

/-!
# Values that are remembered

A request for a value may be answered with what was found at a point that compares as equal, which
need not be the value at the point itself: nothing is assumed of the objective here, and it may tell a
zero from the negative one. All the same each answer is a value that the objective has taken, at the
point or at an equal one, as long as the ledger remembers the last value rightly. No request makes it
remember it wrongly.
-/

namespace Minima

variable {R : Type} [Scalar R] {n : Nat}

/-- `v` is the value at `x`, or at a point that compares as equal. -/
def Objective.TakesAt (f : Objective R n) (x : Vector R n) (v : R) : Prop :=
  ∃ y, (y = x ∨ Linear.same y x = true) ∧ f.value y = .ok v

theorem Objective.takesAt_self {f : Objective R n} {x : Vector R n} {v : R} (h : f.value x = .ok v) :
    f.TakesAt x v := ⟨x, .inl rfl, h⟩

/-- Where equal points have equal values, it is the value at the point. -/
theorem Objective.TakesAt.value {f : Objective R n} {x : Vector R n} {v : R} (h : f.TakesAt x v)
    (hf : ∀ {x y : Vector R n}, Linear.same x y = true → f.value x = f.value y) :
    f.value x = .ok v := by
  obtain ⟨y, rfl | hsame, hv⟩ := h
  · exact hv
  · rw [← hf hsame, hv]

/-- What is known of the answers to requests for values: the objective has taken them. -/
def taken (f : Objective R n) : Lore R n
  | .value x, v => f.TakesAt x v
  | .gradient _, _ => True
  | .hessian _, _ => True

namespace Ledger

def Recalls (f : Objective R n) (l : Ledger R n) : Prop :=
  ∀ x v, l.lastValue = some (x, v) → f.value x = .ok v

variable {f : Objective R n} {l : Ledger R n} {α : Type}

omit [Scalar R] in
theorem recalls_empty (f : Objective R n) : Recalls f {} := nofun

theorem takesAt_of_remembered (hl : Recalls f l) {x : Vector R n} {v : R}
    (h : remembered? l.lastValue x = some v) : f.TakesAt x v := by
  cases hm : l.lastValue with
  | none => simp [hm, remembered?] at h
  | some p =>
      obtain ⟨y, b⟩ := p
      by_cases hsame : Linear.same y x = true
      · obtain rfl : b = v := by simpa [hm, remembered?, hsame] using h
        exact ⟨y, .inr hsame, hl y b hm⟩
      · simp [hm, remembered?, hsame] at h

theorem value_recalls (hl : Recalls f l) (x : Vector R n) :
    Recalls f (value f x l).2 ∧ ∀ v, (value f x l).1 = .ok v → f.TakesAt x v := by
  unfold value
  cases hm : remembered? l.lastValue x with
  | some v =>
      refine ⟨hl, ?_⟩
      rintro _ ⟨⟩
      exact takesAt_of_remembered hl hm
  | none =>
      cases hv : f.value x with
      | error e => exact ⟨hl, nofun⟩
      | ok v =>
          refine ⟨?_, ?_⟩
          · rintro _ _ ⟨⟩
            exact hv
          · rintro _ ⟨⟩
            exact Objective.takesAt_self hv

theorem gradient_lastValue (x : Vector R n) : (gradient f x l).2.lastValue = l.lastValue := by
  unfold gradient
  cases remembered? l.lastGradient x with
  | some g => rfl
  | none => cases rawGradient f x <;> rfl

theorem hessian_lastValue (x : Vector R n) : (hessian f x l).2.lastValue = l.lastValue := by
  unfold hessian
  cases remembered? l.lastHessian x with
  | some h => rfl
  | none => cases rawHessian f x <;> rfl

theorem recalls_gradient (hl : Recalls f l) (x : Vector R n) : Recalls f (gradient f x l).2 := by
  unfold Recalls
  rwa [gradient_lastValue]

theorem recalls_hessian (hl : Recalls f l) (x : Vector R n) : Recalls f (hessian f x l).2 := by
  unfold Recalls
  rwa [hessian_lastValue]

/-- A ledger that remembers rightly answers with values that the objective has taken, and goes on to
remember rightly. -/
theorem answer_recalls (q : Question R n) (l : Ledger R n) (hl : Recalls f l) :
    Recalls f (answer f q l).2 ∧ ∀ r, (answer f q l).1 = .ok r → taken f q r := by
  cases q with
  | value x => exact value_recalls hl x
  | hessian x => exact ⟨recalls_hessian hl x, fun _ _ => trivial⟩
  | gradient x =>
      refine ⟨?_, fun _ _ => trivial⟩
      have hleft := recalls_gradient hl x
      simp only [answer]
      rcases hr : gradient f x l with ⟨e | g, l'⟩
      · rwa [hr] at hleft
      · rwa [hr] at hleft

omit [Scalar R] in
/-- A request at a point of any shape keeps what the evaluation keeps. -/
theorem recalls_request {evaluate : Vector R n → Ledger R n → Attempt R α × Ledger R n}
    (he : ∀ x, Recalls f (evaluate x l).2) (hl : Recalls f l) (t : Tensor R) :
    Recalls f (request f evaluate t l).2 := by
  unfold request
  cases point? f t with
  | error e => exact hl
  | ok x => exact he x

end Ledger

theorem Session.queriesKeep_recalls (f : Subject R) :
    QueriesKeep f (Ledger.Recalls f.objective) where
  value x _ hl := Ledger.recalls_request (fun y => (Ledger.value_recalls hl y).1) hl x
  gradient x _ hl := Ledger.recalls_request (Ledger.recalls_gradient hl) hl x
  hessian x _ hl := Ledger.recalls_request (Ledger.recalls_hessian hl) hl x
  empty := Ledger.recalls_empty f.objective

theorem Solver.gaugesKeep_recalls (f : Subject R) : GaugesKeep f (Ledger.Recalls f.objective) :=
  fun t _ hl => Ledger.recalls_request (Ledger.recalls_gradient hl) hl t

end Minima
