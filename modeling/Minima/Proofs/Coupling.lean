import Minima.Proofs.EngineRuns
import Mathlib.Data.Option.Basic

/-!
# Coupled computations

Two computations are coupled by a relation of states if from related states they return the same and
leave related states. Solvers are alike if they differ at most in what they have reported and in
their ledgers, and the ledgers are related. A step is coupled with itself by that likeness as soon as
no computation that consults the objective can tell related ledgers apart.
-/

namespace Minima

section

variable {E S T α β : Type}

/-- From related states the two computations return the same and leave related states. -/
def Coupled (ρ : S → T → Prop) (e : ExceptT E (StateM S) α) (e' : ExceptT E (StateM T) α) : Prop :=
  ∀ s t, ρ s t → (exec e s).1 = (exec e' t).1 ∧ ρ (exec e s).2 (exec e' t).2

variable {ρ : S → T → Prop}

theorem coupled_pure (a : α) :
    Coupled ρ (pure a : ExceptT E (StateM S) α) (pure a : ExceptT E (StateM T) α) :=
  fun _ _ h => ⟨rfl, h⟩

theorem coupled_throw (e : E) :
    Coupled ρ (throw e : ExceptT E (StateM S) α) (throw e : ExceptT E (StateM T) α) :=
  fun _ _ h => ⟨rfl, h⟩

theorem coupled_modify {f : S → S} {g : T → T} (h : ∀ s t, ρ s t → ρ (f s) (g t)) :
    Coupled ρ (modify f : ExceptT E (StateM S) PUnit) (modify g : ExceptT E (StateM T) PUnit) :=
  fun s t hst => ⟨rfl, h s t hst⟩

theorem coupled_bind {e : ExceptT E (StateM S) α} {e' : ExceptT E (StateM T) α}
    {k : α → ExceptT E (StateM S) β} {k' : α → ExceptT E (StateM T) β} (he : Coupled ρ e e')
    (hk : ∀ a, Coupled ρ (k a) (k' a)) : Coupled ρ (e >>= k) (e' >>= k') := by
  intro s t h
  obtain ⟨hout, hleft⟩ := he s t h
  rw [exec_bind, exec_bind]
  rcases hs : exec e s with ⟨f | a, s'⟩
  · rcases ht : exec e' t with ⟨f' | a', t'⟩
    · rw [hs, ht] at hout hleft
      cases hout
      exact ⟨rfl, hleft⟩
    · rw [hs, ht] at hout
      cases hout
  · rcases ht : exec e' t with ⟨f' | a', t'⟩
    · rw [hs, ht] at hout
      cases hout
    · rw [hs, ht] at hout hleft
      cases hout
      exact hk a s' t' hleft

theorem coupled_get_bind {k : S → ExceptT E (StateM S) β} {k' : T → ExceptT E (StateM T) β}
    (hk : ∀ s t, ρ s t → Coupled ρ (k s) (k' t)) : Coupled ρ (get >>= k) (get >>= k') := by
  intro s t h
  rw [exec_bind, exec_bind]
  exact hk s t h s t h

end

variable {R : Type} [Scalar R] {m : Method R}

abbrev LedgerRelation (R : Type) := ∀ {n : Nat}, Objective R n → Ledger R n → Ledger R n → Prop

/-- No computation tells related ledgers apart, and it leaves related ones. -/
def Indistinct (ρ : LedgerRelation R) : Prop :=
  ∀ {n : Nat} {α : Type} (f : Objective R n) (d : Consult R n α) (l l' : Ledger R n), ρ f l l' →
    (d.run f l).1 = (d.run f l').1 ∧ ρ f (d.run f l).2 (d.run f l').2

def Task.Alike (ρ : LedgerRelation R) (t t' : Task R) : Prop :=
  ∃ l', t' = { t with ledger := l' } ∧ ρ t.objective t.ledger l'

namespace Solver

/-- The same solver up to what was reported and to ledgers that are related. -/
structure Alike (ρ : LedgerRelation R) (s s' : Solver m) : Prop where
  name : s.name = s'.name
  task : Option.Rel (Task.Alike ρ) s.task? s'.task?
  state : s.state? = s'.state?
  status : s.status = s'.status
  iterations : s.iterations = s'.iterations

/-- A solver stays alike another if its ledger stays related to all that it was related to. -/
theorem Alike.relearn {ρ : LedgerRelation R} {s s' : Solver m} {t : Task R} (h : s.Alike ρ s')
    (ht : s.task? = some t) {l : Ledger R t.n}
    (hl : ∀ l', ρ t.objective t.ledger l' → ρ t.objective l l') :
    Alike ρ { s with task? := some { t with ledger := l } } s' := by
  have htask := h.task
  rw [ht] at htask
  generalize hother : s'.task? = other at htask
  cases htask with
  | some halike =>
      obtain ⟨l', rfl, hrel⟩ := halike
      refine ⟨h.name, ?_, h.state, h.status, h.iterations⟩
      rw [hother]
      exact .some ⟨l', rfl, hl l' hrel⟩

theorem attemptStep_alike {ρ : LedgerRelation R} (hρ : Indistinct ρ) (t : Task R)
    {l' : Ledger R t.n} (hl : ρ t.objective t.ledger l') (count : Nat) {k : Nat} (st : m.State k) :
    (attemptStep t count st).1 = (attemptStep { t with ledger := l' } count st).1 ∧
      ρ t.objective (attemptStep t count st).2 (attemptStep { t with ledger := l' } count st).2 := by
  unfold attemptStep
  by_cases h : k = t.n
  · simp only [dif_pos h]
    exact hρ t.objective _ t.ledger l' hl
  · simp only [dif_neg h]
    exact ⟨trivial, hl⟩

theorem coupled_iterate {ρ : LedgerRelation R} (hρ : Indistinct ρ) :
    Coupled (Alike ρ) (iterate : Engine m Status) iterate := by
  intro s s' h
  obtain ⟨name, task?, state?, status, count, events⟩ := s
  obtain ⟨name', task?', state?', status', count', events'⟩ := s'
  obtain ⟨hname, htask, hstate, hstatus, hcount⟩ := h
  dsimp only at hname htask hstate hstatus hcount
  subst hname hstate hstatus hcount
  cases htask with
  | none =>
      rw [exec_iterate_absent (.inl rfl), exec_iterate_absent (.inl rfl)]
      exact ⟨rfl, rfl, .none, rfl, rfl, rfl⟩
  | @some t t' htask =>
      cases state? with
      | none =>
          rw [exec_iterate_absent (.inr rfl), exec_iterate_absent (.inr rfl)]
          exact ⟨rfl, rfl, .some htask, rfl, rfl, rfl⟩
      | some st =>
          obtain ⟨k, st⟩ := st
          obtain ⟨l', rfl, hl⟩ := htask
          cases hrun : status.isTerminal with
          | true =>
              rw [exec_iterate_finished rfl rfl hrun, exec_iterate_finished rfl rfl hrun]
              exact ⟨rfl, rfl, .some ⟨l', rfl, hl⟩, rfl, rfl, rfl⟩
          | false =>
              obtain ⟨ev, heq⟩ := exec_iterate_live (s := ⟨name, some t, some ⟨k, st⟩, status, count,
                events⟩) rfl rfl hrun
              obtain ⟨ev', heq'⟩ := exec_iterate_live (s := ⟨name, some { t with ledger := l' },
                some ⟨k, st⟩, status, count, events'⟩) rfl rfl hrun
              obtain ⟨hout, hleft⟩ := attemptStep_alike hρ t hl count st
              rw [heq, heq']
              dsimp only
              rw [← hout]
              rcases concluded t.options ⟨k, st⟩ (attemptStep t count st).1 with e | ⟨next, status'⟩
              · exact ⟨rfl, rfl, .some ⟨_, rfl, hleft⟩, rfl, rfl, rfl⟩
              · exact ⟨rfl, rfl, .some ⟨_, rfl, hleft⟩, rfl, rfl, rfl⟩

end Solver

end Minima
