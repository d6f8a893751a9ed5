import Minima.Objective.Subject

/-!
# Memory does not show

An objective respects equality if equal points cannot be told apart by its value, its gradient and
its Hessian. A ledger is truthful if what it remembers is what the objective answers. Then every
request is answered as if nothing was remembered, and leaves a truthful ledger, and so does every
computation that consults the objective. Only the counters show what was asked before.
-/

namespace Minima

variable {R : Type} [Scalar R] {n : Nat} {α : Type}

/-- Points that compare as equal have the same value, gradient and Hessian. -/
structure Objective.RespectsEquality (f : Objective R n) : Prop where
  value : ∀ {x y : Vector R n}, Linear.same x y = true → f.value x = f.value y
  gradient : ∀ {x y : Vector R n}, Linear.same x y = true →
    Ledger.rawGradient f x = Ledger.rawGradient f y
  hessian : ∀ {x y : Vector R n}, Linear.same x y = true →
    Ledger.rawHessian f x = Ledger.rawHessian f y

namespace Ledger

/-- What is remembered is what the objective answers. -/
structure Truthful (f : Objective R n) (l : Ledger R n) : Prop where
  value : ∀ {x : Vector R n} {v : R}, l.lastValue = some (x, v) → f.value x = .ok v
  gradient : ∀ {x : Vector R n} {g : Array R}, l.lastGradient = some (x, g) →
    rawGradient f x = .ok g
  hessian : ∀ {x : Vector R n} {h : Linear.Square R n}, l.lastHessian = some (x, h) →
    rawHessian f x = .ok h

theorem truthful_empty (f : Objective R n) : Truthful f {} where
  value h := by cases h
  gradient h := by cases h
  hessian h := by cases h

/-- A memory that holds what is evaluated answers as the evaluation does. -/
theorem evaluate_of_remembered {evaluate : Vector R n → Attempt R α}
    {memory : Option (Vector R n × α)} {x : Vector R n} {a : α}
    (hrespect : ∀ {x y : Vector R n}, Linear.same x y = true → evaluate x = evaluate y)
    (hmemory : ∀ {y : Vector R n} {b : α}, memory = some (y, b) → evaluate y = .ok b)
    (h : remembered? memory x = some a) : evaluate x = .ok a := by
  cases memory with
  | none => cases h
  | some p =>
      obtain ⟨y, b⟩ := p
      by_cases hsame : Linear.same y x = true
      · have hb : b = a := by simpa [remembered?, hsame] using h
        rw [← hrespect hsame, hmemory rfl, hb]
      · simp [remembered?, hsame] at h

section

variable {f : Objective R n} {l : Ledger R n}

theorem value_truthful (hf : f.RespectsEquality) (hl : Truthful f l) (x : Vector R n) :
    (value f x l).1 = f.value x ∧ Truthful f (value f x l).2 := by
  unfold value
  cases hm : remembered? l.lastValue x with
  | some v => exact ⟨(evaluate_of_remembered hf.value hl.value hm).symm, hl⟩
  | none =>
      cases hv : f.value x with
      | error e => exact ⟨rfl, hl.value, hl.gradient, hl.hessian⟩
      | ok v =>
          refine ⟨rfl, ?_, hl.gradient, hl.hessian⟩
          rintro _ _ ⟨⟩
          exact hv

theorem gradient_truthful (hf : f.RespectsEquality) (hl : Truthful f l) (x : Vector R n) :
    (gradient f x l).1 = rawGradient f x ∧ Truthful f (gradient f x l).2 := by
  unfold gradient
  cases hm : remembered? l.lastGradient x with
  | some g => exact ⟨(evaluate_of_remembered hf.gradient hl.gradient hm).symm, hl⟩
  | none =>
      cases hg : rawGradient f x with
      | error e => exact ⟨rfl, hl.value, hl.gradient, hl.hessian⟩
      | ok g =>
          refine ⟨rfl, hl.value, ?_, hl.hessian⟩
          rintro _ _ ⟨⟩
          exact hg

theorem hessian_truthful (hf : f.RespectsEquality) (hl : Truthful f l) (x : Vector R n) :
    (hessian f x l).1 = rawHessian f x ∧ Truthful f (hessian f x l).2 := by
  unfold hessian
  cases hm : remembered? l.lastHessian x with
  | some h => exact ⟨(evaluate_of_remembered hf.hessian hl.hessian hm).symm, hl⟩
  | none =>
      cases hh : rawHessian f x with
      | error e => exact ⟨rfl, hl.value, hl.gradient, hl.hessian⟩
      | ok h =>
          refine ⟨rfl, hl.value, hl.gradient, ?_⟩
          rintro _ _ ⟨⟩
          exact hh

theorem answer_truthful (hf : f.RespectsEquality) (hl : Truthful f l) (q : Question R n) :
    (answer f q l).1 = plainAnswer f q ∧ Truthful f (answer f q l).2 := by
  cases q with
  | value x => exact value_truthful hf hl x
  | hessian x => exact hessian_truthful hf hl x
  | gradient x =>
      obtain ⟨hg, hl'⟩ := gradient_truthful hf hl x
      simp only [answer, plainAnswer, ← hg]
      rcases hr : gradient f x l with ⟨e | g, l'⟩
      · rw [hr] at hl'
        exact ⟨rfl, hl'⟩
      · rw [hr] at hl'
        exact ⟨rfl, hl'⟩

/-- A request at a point of any shape leaves a truthful ledger if the evaluation does. -/
theorem request_truthful {evaluate : Vector R n → Ledger R n → Attempt R α × Ledger R n}
    (he : ∀ x, Truthful f (evaluate x l).2) (hl : Truthful f l) (t : Tensor R) :
    Truthful f (request f evaluate t l).2 := by
  unfold request
  cases point? f t with
  | error e => exact hl
  | ok x => exact he x

end

end Ledger

/-- With a truthful ledger a computation reads the objective as if nothing was remembered. -/
theorem Consult.run_truthful {f : Objective R n} (hf : f.RespectsEquality) (d : Consult R n α)
    {l : Ledger R n} (hl : l.Truthful f) :
    (d.run f l).1 = d.read (Ledger.plainAnswer f) ∧ (d.run f l).2.Truthful f := by
  induction d generalizing l with
  | done a => exact ⟨rfl, hl⟩
  | fail e => exact ⟨rfl, hl⟩
  | ask q next ih =>
      obtain ⟨ha, hl'⟩ := Ledger.answer_truthful hf hl q
      simp only [Consult.run, Dialogue.play, Dialogue.read, ← ha]
      rcases hr : Ledger.answer f q l with ⟨e | a, l'⟩
      · rw [hr] at hl'
        exact ⟨rfl, hl'⟩
      · rw [hr] at hl'
        exact ih a hl'

end Minima
