/-!
# Dialogues

A method never evaluates a function itself: it asks for a value and goes on with the answer. What
it asks, in which order, and what it makes of the answers is a tree, and everything else is a
reading of that tree: `Dialogue.play` runs it against a stateful source of answers,
`Dialogue.inline` replaces each question by a dialogue in other questions, and `Dialogue.counted`
counts the questions. So a property of a method that does not depend on how the answers are found is
proved once, by induction on the tree.
-/

namespace Minima

/-- A computation that asks questions `q : Q`, each answered by an `A q`, and ends with a result
or fails with an `E`. -/
inductive Dialogue (Q : Type) (A : Q → Type) (E : Type) (α : Type) : Type where
  | done (a : α)
  | fail (e : E)
  | ask (q : Q) (next : A q → Dialogue Q A E α)

namespace Dialogue

variable {Q Q' : Type} {A : Q → Type} {A' : Q' → Type} {E α β σ : Type}

def bind : Dialogue Q A E α → (α → Dialogue Q A E β) → Dialogue Q A E β
  | .done a, f => f a
  | .fail e, _ => .fail e
  | .ask q next, f => .ask q fun r => (next r).bind f

instance : Monad (Dialogue Q A E) where
  pure := .done
  bind := bind

instance : MonadLift (Except E) (Dialogue Q A E) where
  monadLift
    | .ok a => .done a
    | .error e => .fail e

def question (q : Q) : Dialogue Q A E (A q) := .ask q .done

/-- Run a dialogue against a source of answers that has a state. The state outlives a failure. -/
def play (answer : (q : Q) → σ → Except E (A q) × σ) : Dialogue Q A E α → σ → Except E α × σ
  | .done a, s => (.ok a, s)
  | .fail e, s => (.error e, s)
  | .ask q next, s =>
    match answer q s with
    | (.ok r, s') => (next r).play answer s'
    | (.error e, s') => (.error e, s')

/-- Run a dialogue against fixed answers. -/
def read (answer : (q : Q) → Except E (A q)) : Dialogue Q A E α → Except E α
  | .done a => .ok a
  | .fail e => .error e
  | .ask q next =>
    match answer q with
    | .ok r => (next r).read answer
    | .error e => .error e

/-- Replace each question by a dialogue in other questions. -/
def inline (put : (q : Q) → Dialogue Q' A' E (A q)) : Dialogue Q A E α → Dialogue Q' A' E α
  | .done a => .done a
  | .fail e => .fail e
  | .ask q next => (put q).bind fun r => (next r).inline put

/-- The result together with the number of questions that were asked, on top of `n`. -/
def countedFrom : Nat → Dialogue Q A E α → Dialogue Q A E (α × Nat)
  | n, .done a => .done (a, n)
  | _, .fail e => .fail e
  | n, .ask q next => .ask q fun r => (next r).countedFrom (n + 1)

def counted (d : Dialogue Q A E α) : Dialogue Q A E (α × Nat) := d.countedFrom 0

@[simp] theorem bind_done (a : α) (f : α → Dialogue Q A E β) : (done a).bind f = f a := rfl

@[simp] theorem bind_fail (e : E) (f : α → Dialogue Q A E β) :
    (fail e : Dialogue Q A E α).bind f = fail e := rfl

@[simp] theorem bind_ask (q : Q) (next : A q → Dialogue Q A E α) (f : α → Dialogue Q A E β) :
    (ask q next).bind f = ask q fun r => (next r).bind f := rfl

theorem bind_pure (d : Dialogue Q A E α) : d.bind .done = d := by
  induction d with
  | done a => rfl
  | fail e => rfl
  | ask q next ih => simp [ih]

theorem bind_assoc {γ : Type} (d : Dialogue Q A E α) (f : α → Dialogue Q A E β)
    (g : β → Dialogue Q A E γ) : (d.bind f).bind g = d.bind fun a => (f a).bind g := by
  induction d with
  | done a => rfl
  | fail e => rfl
  | ask q next ih => simp [ih]

instance : LawfulMonad (Dialogue Q A E) :=
  LawfulMonad.mk' _ (fun d => bind_pure d) (fun _ _ => rfl) bind_assoc

/-- Running a dialogue that goes on with another is running one after the other. -/
theorem play_bind (answer : (q : Q) → σ → Except E (A q) × σ) (d : Dialogue Q A E α)
    (f : α → Dialogue Q A E β) (s : σ) :
    (d.bind f).play answer s =
      match d.play answer s with
      | (.ok a, s') => (f a).play answer s'
      | (.error e, s') => (.error e, s') := by
  induction d generalizing s with
  | done a => rfl
  | fail e => rfl
  | ask q next ih =>
    simp only [bind_ask, play]
    split <;> simp_all

theorem read_bind (answer : (q : Q) → Except E (A q)) (d : Dialogue Q A E α)
    (f : α → Dialogue Q A E β) :
    (d.bind f).read answer =
      match d.read answer with
      | .ok a => (f a).read answer
      | .error e => .error e := by
  induction d with
  | done a => rfl
  | fail e => rfl
  | ask q next ih =>
    simp only [bind_ask, read]
    split <;> simp_all

end Dialogue

end Minima
