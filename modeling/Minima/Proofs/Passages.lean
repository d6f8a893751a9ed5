import Minima.Proofs.Coherence

/-!
# Passages of states

An invariant says what every state of a run has. Here is what two states in a row have to do with each
other, with the status that the step between them returned, and with the number of steps made before.
If the steps of a method lead on as a relation says of these, the states that a run passes through are
a passage along that relation, in a run to the end as in steps that are made one by one between all kinds
of queries. A step that fails leaves no trace, and none follows one after which the run is over.
-/

namespace Minima

/-- The states come one after another from `st` on, each with the status that the step to it returned,
as `leads` says with the number of steps made before. Only the last step may end the run. -/
inductive Passage {α : Type} (leads : Nat → Status → α → α → Prop) :
    Nat → α → List (Status × α) → Prop
  | rest (k : Nat) (st : α) : Passage leads k st []
  | step {k : Nat} {status : Status} {st next : α} {l : List (Status × α)}
      (h : leads k status st next) (hgoes : l ≠ [] → status = .running)
      (hl : Passage leads (k + 1) next l) : Passage leads k st ((status, next) :: l)

namespace Solver

variable {R : Type} [Scalar R] {m : Method R} {σ : Type} {f : Subject R} {a : Accepted R f.n}
  {I : Ledger R f.n → Prop} {P : m.State f.n → Prop}
  {leads : Nat → Status → m.State f.n → m.State f.n → Prop} {s s' : Solver m} {st : m.State f.n}

/-- The method carries `P` along, and its steps lead from one state to the next as `leads` says of
their status. A numerical failure leads out of control and back to where it arose. -/
structure Tracks (f : Subject R) (a : Accepted R f.n) (I : Ledger R f.n → Prop)
    (P : m.State f.n → Prop) (leads : Nat → Status → m.State f.n → m.State f.n → Prop) : Prop
    extends Carries f a I P where
  makes : ∀ ledger count st, I ledger → P st → ∀ next reported status,
    (attemptStep (a.task ledger) count st).1 = .ok (.state next, reported) →
    classify a.options (m.view next) reported = .ok status → leads count status st next
  absorbs : ∀ ledger count st, I ledger → P st → ∀ e,
    (attemptStep (a.task ledger) count st).1 = .error e → e.isNumerical = true →
    leads count .outOfControl st st

/-- A step that returns leads on from the state that it finds. -/
theorem Tracks.iterate (h : Tracks f a I P leads) (hs : Upholds f a I P s)
    (hst : s.state? = some ⟨f.n, st⟩) {status : Status} (hi : exec iterate s = (.ok status, s')) :
    ∃ next, P next ∧ leads s.iterations status st next ∧ s'.state? = some ⟨f.n, next⟩ ∧
      s'.iterations = s.iterations + 1 := by
  obtain ⟨-, -, -, hcount, -⟩ := exec_iterate_ok hi
  obtain ⟨ledger, st', hI, hP, hst', -, hcases⟩ := hs.of_iterate hi
  obtain rfl : st = st' := by simpa [hst] using hst'
  obtain ⟨e, ⟨he, hnumerical⟩, hkept, rfl⟩ | ⟨next, reported, hmade, hnext, hclass⟩ := hcases
  · exact ⟨st, hP, h.absorbs _ _ _ hI hP e he hnumerical, hkept.trans hst, hcount⟩
  · obtain ⟨-, hkeeps⟩ := h.step ledger s.iterations st hI hP
    exact ⟨next, hkeeps next reported hmade, h.makes _ _ _ hI hP next reported status hmade hclass,
      hnext, hcount⟩

/-- The states of a run are a passage. -/
theorem Chronicle.passage {criterion? : Option (Criterion R)} {w : Watcher R σ}
    {start final : Solver m × σ} {turns : List (Turn m σ)} {finish : Finish R}
    (hc : Chronicle criterion? w start turns finish final) (h : Tracks f a I P leads)
    (hI : GaugesKeep f I) (hw : w.Leaves f I) (h₀ : Upholds f a I P start.1)
    (hst : start.1.state? = some ⟨f.n, st⟩) :
    ∃ passage, turns.map (fun t => (t.status, t.view)) = passage.map (fun p => (p.1, m.view p.2)) ∧
      Passage leads start.1.iterations st passage ∧ ∀ p ∈ passage, P p.2 := by
  have hturn {t : Turn m σ} (ht : t.Happens w) (h₀ : Upholds f a I P t.before.1)
      {st : m.State f.n} (hst : t.before.1.state? = some ⟨f.n, st⟩) :
      ∃ next, P next ∧ leads t.before.1.iterations t.status st next ∧
        t.made.state? = some ⟨f.n, next⟩ ∧ t.made.iterations = t.before.1.iterations + 1 ∧
        t.view = m.view next := by
    obtain ⟨next, hP, hleads, hnext, hcount⟩ := h.iterate h₀ hst ht.step
    exact ⟨next, hP, hleads, hnext, hcount,
      Option.some.inj (ht.live.symm.trans (snapshot?_of_state hnext))⟩
  -- on the turns: the first step leads on from the state that the rest of the run begins with
  induction hc using Chronicle.rec_turns generalizing st with
  | idle hc => exact ⟨[], rfl, .rest _ _, by simp⟩
  | ends t hc ht hend =>
      obtain ⟨next, hP, hleads, -, -, hview⟩ := hturn ht h₀ hst
      refine ⟨[(t.status, next)], by simp [hview], .step hleads ?_ (.rest _ _), by simpa using hP⟩
      intro hmore
      exact absurd rfl hmore
  | leads t next turns hc ht hlead hrest ih =>
      obtain ⟨made, hP, hleads, hmade, hcount, hview⟩ := hturn ht h₀ hst
      have hkept : Upholds f a I P t.made := by
        have hstep := h.toCarries.iterate t.before.1 h₀
        rwa [ht.step] at hstep
      have hbare := hlead.bare_next ht
      obtain ⟨passage, hviews, hpassage, hall⟩ := ih (hlead.upholds ht hI hw hkept)
        ((state?_of_bare hbare).trans hmade)
      rw [iterations_of_bare hbare, hcount] at hpassage
      refine ⟨(t.status, made) :: passage, by simp [hview, hviews],
        .step hleads (fun _ => hlead.1) hpassage, ?_⟩
      rintro p hp
      rcases List.mem_cons.mp hp with rfl | hp
      · exact hP
      · exact hall p hp

end Solver

namespace Session

variable {R : Type} [Scalar R] {m : Method R} {f : Subject R} {a : Solver.Accepted R f.n}
  {P : m.State f.n → Prop} {leads : Nat → Status → m.State f.n → m.State f.n → Prop}
  {s s₀ : Session m} {st : m.State f.n} {c : Configuration R} {v : Snapshot R}

/-- What the steps among the moves come to, unless they fail: their status and their state. -/
def landed (s : Session m) (moves : List (Move R)) : List (Status × Option (Σ n, m.State n)) :=
  ((s.trace moves).filter fun mark => mark.outcome.isOk).map fun mark => (mark.status, mark.state?)

theorem landed_query (q : Query R) (moves : List (Move R)) :
    s.landed (.query q :: moves) = (s.moved (.query q)).landed moves := rfl

theorem landed_step_error {e : Failure R} (h : (exec iterate s).1 = .error e)
    (moves : List (Move R)) : s.landed (.step :: moves) = (s.moved .step).landed moves := by
  have hmark : s.mark.outcome.isOk = false := by simp [mark, h, Except.isOk, Except.toBool]
  simp [landed, trace, hmark]

theorem landed_step_ok {status : Status} (h : (exec iterate s).1 = .ok status)
    (moves : List (Move R)) :
    s.landed (.step :: moves) =
      ((s.moved .step).solver.status, (s.moved .step).solver.state?) ::
        (s.moved .step).landed moves := by
  have hmark : s.mark.outcome.isOk = true := by simp [mark, h, Except.isOk, Except.toBool]
  simp [landed, trace, hmark]
  exact ⟨rfl, rfl⟩

/-- A step that fails leaves the state, the status and the number of steps. -/
theorem moved_step_error {e : Failure R} (h : (exec Solver.iterate s.solver).1 = .error e) :
    (s.moved .step).solver.state? = s.solver.state? ∧
      (s.moved .step).solver.status = s.solver.status ∧
      (s.moved .step).solver.iterations = s.solver.iterations := by
  have hmoved : (s.moved .step).solver = (exec Solver.iterate s.solver).2 := rfl
  rcases hi : exec Solver.iterate s.solver with ⟨e' | status, s'⟩
  · rw [hmoved, hi]
    rcases Solver.exec_iterate_error hi with ⟨-, rfl⟩ | ⟨t, k, st', events, -, -, -, -, rfl⟩
    · exact ⟨rfl, rfl, rfl⟩
    · exact ⟨rfl, rfl, rfl⟩
  · rw [hi] at h
    cases h

section

variable (hf : f.objective.RespectsEquality)

include hf

/-- When the run is over, no step comes to anything. -/
theorem landed_ended (hcarries : Solver.Carries f a (Ledger.Truthful f.objective) P)
    (hs : s.solver.Upholds f a (Ledger.Truthful f.objective) P)
    (hover : s.solver.status.isTerminal = true) (moves : List (Move R)) : s.landed moves = [] := by
  induction moves generalizing s with
  | nil => rfl
  | cons move moves ih =>
      have hkept := upholds_move (queriesKeep_truthful hf) hcarries hs move
      cases move with
      | query q =>
          have halike := alike_query q (hs.alike_self hf)
          rw [landed_query]
          exact ih hkept (by rw [halike.status, hover])
      | step =>
          rcases hi : exec Solver.iterate s.solver with ⟨e | status, s'⟩
          · obtain ⟨-, hstatus, -⟩ := moved_step_error (congrArg Prod.fst hi)
            have hfails : (exec iterate s).1 = .error e := by rw [iterate, exec_ofEngine, hi]
            rw [landed_step_error hfails]
            exact ih hkept (by rw [hstatus, hover])
          · obtain ⟨hrun, -⟩ := Solver.exec_iterate_ok hi
            rw [hrun] at hover
            cases hover

/-- The states that steps come to between queries are a passage. -/
theorem passage_of_moves (h : Solver.Tracks f a (Ledger.Truthful f.objective) P leads)
    (hs : s.solver.Upholds f a (Ledger.Truthful f.objective) P)
    (hst : s.solver.state? = some ⟨f.n, st⟩) (moves : List (Move R)) :
    ∃ passage, s.landed moves = passage.map (fun p => (p.1, some ⟨f.n, p.2⟩)) ∧
      Passage leads s.solver.iterations st passage ∧ ∀ p ∈ passage, P p.2 := by
  -- on the moves: a query keeps the state, and a step keeps it if it fails
  induction moves generalizing s st with
  | nil => exact ⟨[], rfl, .rest _ _, by simp⟩
  | cons move moves ih =>
      have hkept := upholds_move (queriesKeep_truthful hf) h.toCarries hs move
      cases move with
      | query q =>
          have halike := alike_query q (hs.alike_self hf)
          rw [landed_query, ← halike.iterations]
          exact ih hkept (halike.state.trans hst)
      | step =>
          rcases hi : exec Solver.iterate s.solver with ⟨e | status, s'⟩
          · obtain ⟨hstate, -, hcount⟩ := moved_step_error (congrArg Prod.fst hi)
            have hfails : (exec iterate s).1 = .error e := by rw [iterate, exec_ofEngine, hi]
            rw [landed_step_error hfails, ← hcount]
            exact ih hkept (hstate.trans hst)
          · obtain ⟨next, hP, hleads, hnext, hcount⟩ := h.iterate hs hst hi
            obtain ⟨-, hstatus, -⟩ := Solver.exec_iterate_ok hi
            have hsolver : (s.moved .step).solver = s' := congrArg Prod.snd hi
            have hok : (exec iterate s).1 = .ok status := by rw [iterate, exec_ofEngine, hi]
            obtain ⟨passage, hlanded, hpassage, hall⟩ := ih hkept (by rw [hsolver, hnext])
            rw [hsolver, hcount] at hpassage
            refine ⟨(status, next) :: passage, ?_, .step hleads (fun hmore => ?_) hpassage, ?_⟩
            · rw [landed_step_ok hok, hsolver, hstatus, hnext, hlanded]
              rfl
            · -- otherwise nothing would be left to come
              by_contra hover
              rw [landed_ended hf h.toCarries hkept] at hlanded
              · exact hmore (List.map_eq_nil_iff.mp hlanded.symm)
              · rw [hsolver, hstatus]
                exact Bool.not_eq_false _ ▸ mt Status.isTerminal_eq_false_iff.mp hover
            · rintro p hp
              rcases List.mem_cons.mp hp with rfl | hp
              · exact hP
              · exact hall p hp

end

/-- Whatever is done from a set up on `c` to `s₀` on, what the steps come to is as `along` says: those
among any moves, and those of any run on `c`. A run without a step has not succeeded, and a method that
decides for itself ends a run with the status of its last step. -/
structure Passages (f : Subject R) (c : Configuration R) (s s₀ : Session m)
    (along : List (Status × m.State f.n) → Prop) : Prop where
  moves : ∀ moves, ∃ passage, s₀.landed moves = passage.map (fun p => (p.1, some ⟨f.n, p.2⟩)) ∧
    along passage
  runs : ∀ (σ : Type) (order : Solver.Order R) (w : Solver.Watcher R σ) (seen : σ) (r : Results R)
    (final : Solver m × σ), order.toConfiguration = c → w.Leaves f (Ledger.Truthful f.objective) →
    exec (Solver.solveWatched f order w) (s.solver, seen) = (.ok r, final) →
    ∃ passage, r.history.toList = passage.map (fun p => m.view p.2) ∧ along passage ∧
      (passage = [] → r.status = .outOfControl) ∧
      (m.hasCriterion = true → ∀ p ∈ passage.getLast?, p.1 = r.status)

theorem Passages.mono {along along' : List (Status × m.State f.n) → Prop} (h : Passages f c s s₀ along)
    (himp : ∀ passage, along passage → along' passage) : Passages f c s s₀ along' where
  moves moves :=
    let ⟨passage, hlanded, halong⟩ := h.moves moves
    ⟨passage, hlanded, himp passage halong⟩
  runs σ order w seen r final hc hw hr :=
    let ⟨passage, hviews, halong, hends⟩ := h.runs σ order w seen r final hc hw hr
    ⟨passage, hviews, himp passage halong, hends⟩

/-- After a set up there is a state, and all that follows is a passage from it. -/
theorem passages_of_setUp (hf : (exec subject s).1 = .ok f) (hrespect : f.objective.RespectsEquality)
    (hset : exec (setUp c) s = (.ok v, s₀)) (haccept : s.solver.accept f.n c = .ok a)
    (h : Solver.Tracks f a (Ledger.Truthful f.objective) P leads) :
    ∃ st, (Solver.opening m f a).1 = .ok (.state st) ∧ s₀.solver.state? = some ⟨f.n, st⟩ ∧ P st ∧
      Passages f c s s₀ fun passage => Passage leads 0 st passage ∧ ∀ p ∈ passage, P p.2 := by
  obtain ⟨a', ha', hl⟩ := exec_setUp_ok hf hset
  obtain rfl : a = a' := Except.ok.inj (haccept.symm.trans ha')
  obtain ⟨st, hopening, hstate, -⟩ := Solver.opening_of_exec_launch hl
  obtain ⟨-, hcount, -, hstatus, -⟩ := Solver.exec_launch_ok hl
  have h₀ := h.toCarries.launch hl
  refine ⟨st, hopening, hstate, h.start.2 st hopening, ⟨fun moves => ?_, ?_⟩⟩
  · have hpassage := passage_of_moves hrespect h h₀ hstate moves
    rwa [hcount] at hpassage
  · rintro σ order w seen r final rfl hw hr
    obtain ⟨a', first, s₁, turns, finish, last, ha', hl', -, hc, hrecounts, -⟩ :=
      Solver.chronicle_of_exec_solveWatched hr
    obtain rfl : a = a' :=
      Except.ok.inj (haccept.symm.trans (Solver.accept_of_acceptOrder ha'))
    obtain rfl : s₀.solver = s₁ := by
      rw [hl] at hl'
      exact (Prod.mk.inj hl').2
    obtain ⟨passage, hviews, hpassage, hall⟩ :=
      hc.passage h (Solver.gaugesKeep_truthful hrespect) hw h₀ hstate
    rw [hcount] at hpassage
    refine ⟨passage, ?_, ⟨hpassage, hall⟩, fun hnone => ?_, fun hown p hp => ?_⟩
    · have hshown : turns.map Solver.Turn.view = passage.map fun p => m.view p.2 := by
        have hsecond := congrArg (List.map Prod.snd) hviews
        rw [List.map_map, List.map_map] at hsecond
        exact hsecond
      simpa [hrecounts.history] using hshown
    · -- without a step the run was over before it began
      subst hnone
      obtain ⟨hover, hfinish, -⟩ := hc.idle (List.map_eq_nil_iff.mp hviews)
      rw [hrecounts.status, hfinish]
      show s₀.solver.status = .outOfControl
      by_contra hother
      rw [hstatus] at hover hother
      by_cases hfinite : v.isFinite = true
      · simp [hfinite, Status.isTerminal] at hover
      · simp [hfinite] at hother
    · have hlast := congrArg List.getLast? hviews
      rw [List.getLast?_map, List.getLast?_map, Option.mem_def.mp hp] at hlast
      obtain ⟨t, ht, heq⟩ := Option.map_eq_some_iff.mp hlast
      have hends := hc.last t ht
      rw [Solver.asked?, if_pos hown] at hends
      cases hends with
      | method hterminal =>
          rw [hrecounts.status]
          exact (congrArg Prod.fst heq).symm
      | criterion hcriterion => cases hcriterion

end Session

end Minima
