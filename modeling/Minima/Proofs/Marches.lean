import Minima.Proofs.Passages

/-!
# The states of a run, one after another

Where it does not matter which status a step returns, only the states of a passage are left and the
number of steps made before: if each step of a method leads to the next state as a relation says, the
states that a run passes through are a march along that relation, in a run to the end as in steps that
are made one by one between all kinds of queries.
-/

namespace Minima

/-! ## Marches -/

/-- The states come one after another from `st` on, each as `leads` says with the number of steps made
before it. -/
inductive March {α : Type} (leads : Nat → α → α → Prop) : Nat → α → List α → Prop
  | rest (k : Nat) (st : α) : March leads k st []
  | step {k : Nat} {st next : α} {l : List α} (h : leads k st next)
      (hl : March leads (k + 1) next l) : March leads k st (next :: l)

namespace March

variable {α : Type} {leads : Nat → α → α → Prop} {k : Nat} {st : α} {l : List α}

/-- Any two states in a row follow each other. -/
theorem between (h : March leads k st l) {earlier later : List α} {old next : α}
    (heq : st :: l = earlier ++ old :: next :: later) : leads (k + earlier.length) old next := by
  induction h generalizing earlier with
  | rest k st =>
      have hlength := congrArg List.length heq
      simp only [List.length_append, List.length_cons, List.length_nil] at hlength
      omega
  | step h hl ih =>
      cases earlier with
      | nil =>
          obtain ⟨rfl, rfl, rfl⟩ : _ = old ∧ _ = next ∧ _ = later := by simpa using heq
          exact h
      | cons first earlier =>
          have hrest := ih (List.cons.inj heq).2
          rwa [Nat.add_assoc, Nat.add_comm 1, ← List.length_cons] at hrest

theorem isChain (h : March leads k st l) {follows : α → α → Prop}
    (hfollows : ∀ k st next, leads k st next → follows st next) : (st :: l).IsChain follows := by
  induction h with
  | rest k st => exact .singleton st
  | step h hl ih => exact .cons_cons (hfollows _ _ _ h) ih

end March

theorem Passage.march {α : Type} {leads : Nat → α → α → Prop} {k : Nat} {st : α}
    {l : List (Status × α)} (h : Passage (fun count _ => leads count) k st l) :
    March leads k st (l.map Prod.snd) := by
  induction h with
  | rest k st => exact .rest k st
  | step h _ _ ih => exact .step h ih

namespace Solver

variable {R : Type} [Scalar R] {m : Method R} {σ : Type} {f : Subject R} {a : Accepted R f.n}
  {I : Ledger R f.n → Prop} {P : m.State f.n → Prop} {leads : Nat → m.State f.n → m.State f.n → Prop}
  {s s' : Solver m} {st : m.State f.n}

/-- The method carries `P` along, and its steps lead from one state to the next as `leads` says. A
state may also follow itself, since that is what an absorbed failure leaves. -/
structure Leads (f : Subject R) (a : Accepted R f.n) (I : Ledger R f.n → Prop)
    (P : m.State f.n → Prop) (leads : Nat → m.State f.n → m.State f.n → Prop) : Prop
    extends Carries f a I P where
  still : ∀ count st, leads count st st
  makes : ∀ ledger count st, I ledger → P st → ∀ next reported,
    (attemptStep (a.task ledger) count st).1 = .ok (.state next, reported) → leads count st next

theorem Leads.tracks (h : Leads f a I P leads) : Tracks f a I P fun count _ => leads count where
  toCarries := h.toCarries
  makes ledger count st hI hP next reported _ hmade _ := h.makes ledger count st hI hP next reported hmade
  absorbs _ count st _ _ _ _ _ := h.still count st

end Solver

namespace Session

variable {R : Type} [Scalar R] {m : Method R} {f : Subject R} {a : Solver.Accepted R f.n}
  {P : m.State f.n → Prop} {leads : Nat → m.State f.n → m.State f.n → Prop} {s s₀ : Session m}
  {st : m.State f.n} {c : Configuration R} {v : Snapshot R}

def passed (s : Session m) (moves : List (Move R)) : List (Option (Σ n, m.State n)) :=
  ((s.trace moves).filter fun mark => mark.outcome.isOk).map Mark.state?

theorem passed_eq (s : Session m) (moves : List (Move R)) :
    s.passed moves = (s.landed moves).map Prod.snd := by
  rw [landed, List.map_map]
  rfl

theorem passed_step_ok {status : Status} (h : (exec iterate s).1 = .ok status)
    (moves : List (Move R)) :
    s.passed (.step :: moves) = (s.moved .step).solver.state? :: (s.moved .step).passed moves := by
  rw [passed_eq, landed_step_ok h, List.map_cons, ← passed_eq]

/-- Whatever is done from a set up on `c` to `s₀` on, the states that it passes through are as `along`
says: those that the steps among any moves come to, and those of any run on `c`. -/
structure Passes (f : Subject R) (c : Configuration R) (s s₀ : Session m)
    (along : List (m.State f.n) → Prop) : Prop where
  moves : ∀ moves, ∃ states, s₀.passed moves = states.map (fun st => some ⟨f.n, st⟩) ∧ along states
  runs : ∀ (σ : Type) (order : Solver.Order R) (w : Solver.Watcher R σ) (seen : σ) (r : Results R)
    (final : Solver m × σ), order.toConfiguration = c → w.Leaves f (Ledger.Truthful f.objective) →
    exec (Solver.solveWatched f order w) (s.solver, seen) = (.ok r, final) →
    ∃ states, r.history.toList = states.map m.view ∧ along states

theorem Passes.mono {along along' : List (m.State f.n) → Prop} (h : Passes f c s s₀ along)
    (himp : ∀ states, along states → along' states) : Passes f c s s₀ along' where
  moves moves :=
    let ⟨states, hpassed, halong⟩ := h.moves moves
    ⟨states, hpassed, himp states halong⟩
  runs σ order w seen r final hc hw hr :=
    let ⟨states, hviews, halong⟩ := h.runs σ order w seen r final hc hw hr
    ⟨states, hviews, himp states halong⟩

/-- The states alone are as `along` says. -/
theorem Passages.passes {along : List (m.State f.n) → Prop}
    (h : Passages f c s s₀ fun passage => along (passage.map Prod.snd)) : Passes f c s s₀ along where
  moves moves := by
    obtain ⟨passage, hlanded, halong⟩ := h.moves moves
    refine ⟨passage.map Prod.snd, ?_, halong⟩
    rw [passed_eq, hlanded, List.map_map, List.map_map]
    rfl
  runs σ order w seen r final hc hw hr := by
    obtain ⟨passage, hviews, halong, -⟩ := h.runs σ order w seen r final hc hw hr
    refine ⟨passage.map Prod.snd, ?_, halong⟩
    rw [hviews, List.map_map]
    rfl

/-- After a set up there is a state, and all that follows is a march from it. -/
theorem passes_march (hf : (exec subject s).1 = .ok f) (hrespect : f.objective.RespectsEquality)
    (hset : exec (setUp c) s = (.ok v, s₀)) (haccept : s.solver.accept f.n c = .ok a)
    (h : Solver.Leads f a (Ledger.Truthful f.objective) P leads) :
    ∃ st, (Solver.opening m f a).1 = .ok (.state st) ∧ s₀.solver.state? = some ⟨f.n, st⟩ ∧ P st ∧
      Passes f c s s₀ fun states => March leads 0 st states ∧ ∀ x ∈ states, P x := by
  obtain ⟨st, hopening, hstate, hP, hpassages⟩ :=
    passages_of_setUp hf hrespect hset haccept h.tracks
  refine ⟨st, hopening, hstate, hP, (hpassages.mono ?_).passes⟩
  rintro passage ⟨hpassage, hall⟩
  refine ⟨hpassage.march, fun x hx => ?_⟩
  obtain ⟨p, hp, rfl⟩ := List.mem_map.mp hx
  exact hall p hp

end Session

end Minima
