import Minima.Proofs.Frame
import Mathlib.Data.List.Chain

/-!
# The chronicle of a run

A turn of the loop is a step, the watcher's look at the snapshot that it left and, if the run goes
on, the question to the criterion. A chronicle of a run is the list of its turns. The loop returns
what chronicles say, and a run returns exactly the results that recount a chronicle of it.
-/

namespace Minima.Solver

variable {R : Type} [Scalar R] {m : Method R} {σ α : Type}

/-! ## Turns -/

/-- One turn of the loop: the solver and the watcher before the step, the status that the step
returned, the solver that it left, the snapshot of the live state, and the solver and the watcher
after that was shown. -/
structure Turn (m : Method R) (σ : Type) where
  before : Solver m × σ
  status : Status
  made : Solver m
  view : Snapshot R
  after : Solver m × σ

namespace Turn

def shown (t : Turn m σ) : Snapshot R × Nat := (t.view, t.made.iterations)

/-- The turn is made as the loop makes it. -/
structure Happens (w : Watcher R σ) (t : Turn m σ) : Prop where
  step : exec iterate t.before.1 = (.ok t.status, t.made)
  live : t.made.snapshot? = some t.view
  watched : exec (watch w t.view) (t.made, t.before.2) = (.ok ⟨⟩, t.after)

/-- The run goes on from `next`: the step goes on, and the criterion does not hold of its
snapshot. -/
def LeadsTo (criterion? : Option (Criterion R)) (t : Turn m σ) (next : Solver m × σ) : Prop :=
  t.status = .running ∧ next.2 = t.after.2 ∧
    match criterion? with
    | none => next.1 = t.after.1
    | some c =>
      exec (gauge (c.holds t.view t.made.iterations)) t.after.1 = (.ok false, next.1)

/-- The criterion holds of a running state. `measured` is what it measures then. -/
def StoppedBy (t : Turn m σ) (c : Criterion R) (measured : R) (final : Solver m × σ) : Prop :=
  t.status = .running ∧ final.2 = t.after.2 ∧
    ∃ s₁ s₂ : Solver m,
      exec (gauge (c.holds t.view t.made.iterations)) t.after.1 = (.ok true, s₁) ∧
      exec (gauge (c.measure t.view t.made.iterations)) s₁ = (.ok measured, s₂) ∧
      final.1 = { s₂ with status := .success }

end Turn

theorem exec_stopIfHolds {s : Solver m} {v : Snapshot R} (hv : s.snapshot? = some v)
    (c : Criterion R) :
    exec (stopIfHolds c) s =
      match exec (gauge (c.holds v s.iterations)) s with
      | (.ok false, s₁) => (.ok none, s₁)
      | (.ok true, s₁) =>
        match exec (gauge (c.measure v s.iterations)) s₁ with
        | (.ok measured, s₂) => (.ok (some measured), { s₂ with status := .success })
        | (.error e, s₂) => (.error e, s₂)
      | (.error e, s₁) => (.error e, s₁) := by
  simp only [stopIfHolds, exec_bind, exec_snapshot hv, exec_get]
  rcases exec (gauge (c.holds v s.iterations)) s with ⟨e | _ | _, s₁⟩
  · rfl
  · rfl
  · simp only [if_true, exec_bind]
    rcases exec (gauge (c.measure v s.iterations)) s₁ with ⟨e | measured, s₂⟩ <;> rfl

theorem exec_stopIfHolds_eq_none_iff {s s' : Solver m} {v : Snapshot R} (hv : s.snapshot? = some v)
    {c : Criterion R} :
    exec (stopIfHolds c) s = (.ok none, s') ↔
      exec (gauge (c.holds v s.iterations)) s = (.ok false, s') := by
  rw [exec_stopIfHolds hv]
  rcases exec (gauge (c.holds v s.iterations)) s with ⟨e | _ | _, s₁⟩
  · simp
  · simp
  · dsimp only
    rcases exec (gauge (c.measure v s.iterations)) s₁ with ⟨e | x, s₂⟩ <;> simp

theorem exec_stopIfHolds_eq_some_iff {s s' : Solver m} {v : Snapshot R} (hv : s.snapshot? = some v)
    {c : Criterion R} {measured : R} :
    exec (stopIfHolds c) s = (.ok (some measured), s') ↔
      ∃ s₁ s₂ : Solver m,
        exec (gauge (c.holds v s.iterations)) s = (.ok true, s₁) ∧
        exec (gauge (c.measure v s.iterations)) s₁ = (.ok measured, s₂) ∧
        s' = { s₂ with status := .success } := by
  rw [exec_stopIfHolds hv]
  rcases exec (gauge (c.holds v s.iterations)) s with ⟨e | _ | _, s₁⟩
  · simp
  · simp
  · dsimp only
    constructor
    · intro h
      rcases hm : exec (gauge (c.measure v s.iterations)) s₁ with ⟨e | x, s₂⟩
      · simp [hm] at h
      · rw [hm] at h
        cases h
        exact ⟨s₁, s₂, rfl, hm, rfl⟩
    · rintro ⟨r₁, s₂, ⟨⟩, hm, rfl⟩
      rw [hm]

/-- The watcher changes no more than the ledger. -/
theorem Turn.Happens.bare_after {w : Watcher R σ} {t : Turn m σ} (h : t.Happens w) :
    t.after.1.bare = t.made.bare := by
  have hb := keeps_bare_watch w t.view (t.made, t.before.2)
  rwa [h.watched] at hb

/-- The criterion is asked about what the watcher was shown. -/
theorem Turn.Happens.snapshot_after {w : Watcher R σ} {t : Turn m σ} (h : t.Happens w) :
    t.after.1.snapshot? = some t.view ∧ t.after.1.iterations = t.made.iterations :=
  ⟨(snapshot?_of_bare h.bare_after).trans h.live, iterations_of_bare h.bare_after⟩

/-- The criterion is not asked after a step that ends the run. -/
theorem exec_advance_unasked {criterion? : Option (Criterion R)} {w : Watcher R σ} {t : Turn m σ}
    (h : t.Happens w) (hend : t.status.isTerminal = true ∨ criterion? = none) :
    exec (advance criterion? w) t.before = (.ok (t.view, none), t.after) := by
  obtain ⟨before, status, made, view, after⟩ := t
  obtain ⟨hstep, hlive, hwatched⟩ := h
  simp only [advance, exec_bind, exec_unwatched, hstep, exec_snapshot hlive, hwatched]
  rcases hend with hend | rfl
  · cases criterion? with
    | none => rfl
    | some c =>
        simp only [hend, if_true]
        rfl
  · rfl

theorem exec_advance_asked {c : Criterion R} {w : Watcher R σ} {t : Turn m σ}
    (h : t.Happens w) (hrun : t.status.isTerminal = false) :
    exec (advance (some c) w) t.before =
      match exec (stopIfHolds c) t.after.1 with
      | (.ok measured?, s) => (.ok (t.view, measured?.map (c, ·)), s, t.after.2)
      | (.error e, s) => (.error e, s, t.after.2) := by
  obtain ⟨before, status, made, view, after⟩ := t
  obtain ⟨hstep, hlive, hwatched⟩ := h
  simp only [advance, exec_bind, exec_unwatched, hstep, exec_snapshot hlive, hwatched]
  simp only [hrun, Bool.false_eq_true, if_false, exec_bind, exec_unwatched]
  rcases exec (stopIfHolds c) after.1 with ⟨e | measured?, s⟩ <;> rfl

/-- A turn of the loop that does not fail happens. -/
theorem happens_of_exec_advance {criterion? : Option (Criterion R)} {w : Watcher R σ}
    {start next : Solver m × σ} {r : Snapshot R × Option (Criterion R × R)}
    (h : exec (advance criterion? w) start = (.ok r, next)) :
    ∃ t : Turn m σ, t.Happens w ∧ t.before = start := by
  obtain ⟨s, seen⟩ := start
  simp only [advance, exec_bind, exec_unwatched] at h
  rcases hi : exec iterate s with ⟨e | status, s₁⟩
  · simp [hi] at h
  · simp only [hi] at h
    cases hv : s₁.snapshot? with
    | none => simp [exec_snapshot_absent hv] at h
    | some v =>
        simp only [exec_snapshot hv] at h
        rcases hw : exec (watch w v) (s₁, seen) with ⟨e | u, after⟩
        · simp [hw] at h
        · exact ⟨⟨(s, seen), status, s₁, v, after⟩, ⟨hi, hv, hw⟩, rfl⟩

theorem Turn.LeadsTo.goes_on {criterion? : Option (Criterion R)} {t : Turn m σ}
    {next : Solver m × σ} (h : t.LeadsTo criterion? next) : t.status.isTerminal = false :=
  Status.isTerminal_eq_false_iff.mpr h.1

/-- What the loop does after a turn when the criterion does not end the run: the step has ended it,
or it goes on. -/
theorem exec_advance_eq_none_iff {criterion? : Option (Criterion R)} {w : Watcher R σ}
    {t : Turn m σ} (h : t.Happens w) {v : Snapshot R} {next : Solver m × σ} :
    exec (advance criterion? w) t.before = (.ok (v, none), next) ↔
      v = t.view ∧
        (t.status.isTerminal = true ∧ next = t.after ∨ t.LeadsTo criterion? next) := by
  obtain ⟨s, seen⟩ := next
  cases hs : t.status.isTerminal with
  | true =>
      have hnot : ¬ t.LeadsTo criterion? (s, seen) := fun hl => by simp [hl.goes_on] at hs
      simp [exec_advance_unasked h (.inl hs), hnot, eq_comm]
  | false =>
      have hrun := Status.isTerminal_eq_false_iff.mp hs
      cases criterion? with
      | none =>
          simp only [exec_advance_unasked h (.inr rfl), Turn.LeadsTo, hrun]
          simp [Prod.ext_iff, eq_comm, and_comm]
      | some c =>
          obtain ⟨hv, hk⟩ := h.snapshot_after
          simp only [exec_advance_asked h hs, Turn.LeadsTo, hrun, ← hk,
            ← exec_stopIfHolds_eq_none_iff hv]
          rcases exec (stopIfHolds c) t.after.1 with ⟨e | _ | x, s₁⟩
          · simp
          · simp [eq_comm, and_comm]
          · simp

theorem exec_advance_eq_some_iff {criterion? : Option (Criterion R)} {w : Watcher R σ}
    {t : Turn m σ} (h : t.Happens w) {v : Snapshot R} {c : Criterion R} {measured : R}
    {final : Solver m × σ} :
    exec (advance criterion? w) t.before = (.ok (v, some (c, measured)), final) ↔
      v = t.view ∧ criterion? = some c ∧ t.StoppedBy c measured final := by
  obtain ⟨s, seen⟩ := final
  cases hs : t.status.isTerminal with
  | true =>
      have hnot : ¬ t.StoppedBy c measured (s, seen) := by
        rintro ⟨hrun, -⟩
        simp [hrun, Status.isTerminal] at hs
      simp [exec_advance_unasked h (.inl hs), hnot]
  | false =>
      have hrun := Status.isTerminal_eq_false_iff.mp hs
      cases criterion? with
      | none => simp [exec_advance_unasked h (.inr rfl)]
      | some d =>
          obtain ⟨hv, hk⟩ := h.snapshot_after
          simp only [exec_advance_asked h hs, Turn.StoppedBy, hrun, ← hk,
            ← exec_stopIfHolds_eq_some_iff hv]
          constructor
          · rcases hd : exec (stopIfHolds d) t.after.1 with ⟨e | _ | x, s₁⟩
            · rintro ⟨⟩
            · rintro ⟨⟩
            · rintro ⟨⟩
              exact ⟨rfl, rfl, trivial, rfl, hd⟩
          · rintro ⟨rfl, hc, -, rfl, hd⟩
            cases hc
            rw [hd]
            rfl

/-! ## Chronicles -/

structure Finish (R : Type) where
  status : Status
  cause : StopCause R
  measured? : Option R

/-- The turn ends the run: its step does, and the criterion is not asked, or the criterion holds
after a step that goes on. -/
inductive Turn.Ends (criterion? : Option (Criterion R)) (t : Turn m σ) :
    Finish R → Solver m × σ → Prop
  | method (h : t.status.isTerminal = true) :
      t.Ends criterion? ⟨t.status, .method t.status, none⟩ t.after
  | criterion {c : Criterion R} {measured : R} {final : Solver m × σ} (hc : criterion? = some c)
      (h : t.StoppedBy c measured final) :
      t.Ends criterion? ⟨.success, .criterion c, some measured⟩ final

/-- A run from `start`: its turns happen one after the other, each but the last leads to the next,
and the last one ends the run. Without a turn the run has ended before it starts. -/
structure Chronicle (criterion? : Option (Criterion R)) (w : Watcher R σ) (start : Solver m × σ)
    (turns : List (Turn m σ)) (finish : Finish R) (final : Solver m × σ) : Prop where
  happen : ∀ t ∈ turns, t.Happens w
  first : ∀ t ∈ turns.head?, t.before = start
  follow : turns.IsChain fun t u => t.LeadsTo criterion? u.before
  last : ∀ t ∈ turns.getLast?, t.Ends criterion? finish final
  idle : turns = [] →
    start.1.status.isTerminal = true ∧
      finish = ⟨start.1.status, .method start.1.status, none⟩ ∧ final = start

section

variable {criterion? : Option (Criterion R)} {w : Watcher R σ} {start final : Solver m × σ}
  {t u : Turn m σ} {turns : List (Turn m σ)} {finish : Finish R}

theorem chronicle_nil :
    Chronicle criterion? w start [] finish final ↔
      start.1.status.isTerminal = true ∧
        finish = ⟨start.1.status, .method start.1.status, none⟩ ∧ final = start := by
  constructor
  · intro h
    exact h.idle rfl
  · intro h
    exact ⟨by simp, by simp, .nil, by simp, fun _ => h⟩

theorem chronicle_singleton :
    Chronicle criterion? w start [t] finish final ↔
      t.Happens w ∧ t.before = start ∧ t.Ends criterion? finish final := by
  constructor
  · intro h
    exact ⟨h.happen t (by simp), h.first t (by simp), h.last t (by simp)⟩
  · rintro ⟨hw, hs, he⟩
    exact ⟨by simpa using hw, by simpa using hs, .singleton t, by simpa using he, by simp⟩

theorem chronicle_cons_cons :
    Chronicle criterion? w start (t :: u :: turns) finish final ↔
      t.Happens w ∧ t.before = start ∧ t.LeadsTo criterion? u.before ∧
        Chronicle criterion? w u.before (u :: turns) finish final := by
  constructor
  · intro h
    obtain ⟨hlead, hfollow⟩ := List.isChain_cons_cons.mp h.follow
    refine ⟨h.happen t (by simp), h.first t (by simp), hlead, ?_⟩
    exact ⟨fun v hv => h.happen v (List.mem_cons_of_mem t hv), by simp, hfollow,
      by simpa using h.last, by simp⟩
  · rintro ⟨hw, hs, hlead, h⟩
    refine ⟨?_, by simpa using hs, List.isChain_cons_cons.mpr ⟨hlead, h.follow⟩,
      by simpa using h.last, by simp⟩
    intro v hv
    rcases List.mem_cons.mp hv with rfl | hv
    · exact hw
    · exact h.happen v hv

/-- A run that has a turn starts from a running solver. -/
theorem Turn.Happens.before_running (h : t.Happens w) : t.before.1.status.isTerminal = false := by
  exact Status.isTerminal_eq_false_iff.mpr (exec_iterate_ok h.step).1

theorem Turn.Happens.after_status (h : t.Happens w) : t.after.1.status = t.status := by
  obtain ⟨-, hstatus, -⟩ := exec_iterate_ok h.step
  exact (status_of_bare h.bare_after).trans hstatus

theorem Turn.LeadsTo.bare_next {next : Solver m × σ} (h : t.LeadsTo criterion? next)
    (hw : t.Happens w) : next.1.bare = t.made.bare := by
  obtain ⟨-, -, hnext⟩ := h
  rw [← hw.bare_after]
  cases criterion? with
  | none => rw [hnext]
  | some c =>
      have hb := keeps_bare_gauge (c.holds t.view t.made.iterations) t.after.1
      rwa [hnext] at hb

/-- The end of a run changes no more than the status. -/
theorem Turn.Ends.final_eq (h : t.Ends criterion? finish final) (hw : t.Happens w) :
    ∃ s : Solver m, s.bare = t.made.bare ∧ final.1 = { s with status := finish.status } := by
  cases h with
  | method hs => exact ⟨t.after.1, hw.bare_after, by rw [← hw.after_status]⟩
  | @criterion c measured final hc hstop =>
      obtain ⟨-, -, s₁, s₂, h₁, h₂, hfinal⟩ := hstop
      have hb₁ := keeps_bare_gauge (c.holds t.view t.made.iterations) t.after.1
      have hb₂ := keeps_bare_gauge (c.measure t.view t.made.iterations) s₁
      rw [h₁] at hb₁
      rw [h₂] at hb₂
      exact ⟨s₂, hb₂.trans (hb₁.trans hw.bare_after), hfinal⟩

/-- A turn that leads on leaves a running solver. -/
theorem Turn.LeadsTo.next_running {next : Solver m × σ} (h : t.LeadsTo criterion? next)
    (hw : t.Happens w) : next.1.status.isTerminal = false := by
  obtain ⟨-, hstatus, -⟩ := exec_iterate_ok hw.step
  rw [Status.isTerminal_eq_false_iff, status_of_bare (h.bare_next hw), hstatus, h.1]

theorem Chronicle.cons (h : Chronicle criterion? w start turns finish final) (hw : t.Happens w)
    (hlead : t.LeadsTo criterion? start) :
    Chronicle criterion? w t.before (t :: turns) finish final := by
  cases turns with
  | nil =>
      obtain ⟨hs, -⟩ := chronicle_nil.mp h
      rw [hlead.next_running hw] at hs
      cases hs
  | cons u turns =>
      obtain rfl : u.before = start := h.first u (by simp)
      exact chronicle_cons_cons.mpr ⟨hw, rfl, hlead, h⟩

/-- Induction along a chronicle, from its end to its start. -/
@[elab_as_elim]
theorem Chronicle.rec_turns
    {motive : ∀ start turns, Chronicle criterion? w start turns finish final → Prop}
    (idle : ∀ h, motive final [] h)
    (ends : ∀ t h, t.Happens w → t.Ends criterion? finish final → motive t.before [t] h)
    (leads : ∀ t next turns h, t.Happens w → t.LeadsTo criterion? next →
      ∀ hrest, motive next turns hrest → motive t.before (t :: turns) h)
    {start : Solver m × σ} {turns : List (Turn m σ)}
    (h : Chronicle criterion? w start turns finish final) : motive start turns h := by
  induction turns generalizing start with
  | nil =>
      obtain ⟨-, -, rfl⟩ := chronicle_nil.mp h
      exact idle h
  | cons t turns ih =>
      cases turns with
      | nil =>
          obtain ⟨hw, rfl, hend⟩ := chronicle_singleton.mp h
          exact ends t h hw hend
      | cons u turns =>
          obtain ⟨hw, rfl, hlead, hrest⟩ := chronicle_cons_cons.mp h
          exact leads t u.before (u :: turns) h hw hlead hrest (ih hrest)

/-- A run that has ended before it starts is chronicled without a turn. -/
theorem chronicle_of_ended {fuel : Nat} {history : Array (Snapshot R)} {ending : Ending R}
    (hs : start.1.status.isTerminal = true)
    (h : exec (loop criterion? w fuel history) start = (.ok ending, final)) :
    ∃ turns finish, turns.length ≤ fuel ∧ Chronicle criterion? w start turns finish final ∧
      ending = ⟨history ++ (turns.map Turn.view).toArray, finish.cause, finish.measured?⟩ := by
  rw [exec_loop_ended start.2 hs] at h
  cases h
  exact ⟨[], _, Nat.zero_le _, chronicle_nil.mpr ⟨hs, rfl, rfl⟩, by simp⟩

/-- What a loop returns was chronicled. -/
theorem chronicle_of_exec_loop {fuel : Nat} {history : Array (Snapshot R)} {ending : Ending R}
    (h : exec (loop criterion? w fuel history) start = (.ok ending, final)) :
    ∃ turns finish, turns.length ≤ fuel ∧ Chronicle criterion? w start turns finish final ∧
      ending = ⟨history ++ (turns.map Turn.view).toArray, finish.cause, finish.measured?⟩ := by
  induction fuel generalizing start history with
  | zero =>
      cases hs : start.1.status.isTerminal with
      | true => exact chronicle_of_ended hs h
      | false =>
          rw [exec_loop_cut start.2 hs] at h
          cases h
  | succ fuel ih =>
      cases hs : start.1.status.isTerminal with
      | true => exact chronicle_of_ended hs h
      | false =>
          rw [exec_loop_succ start.2 hs] at h
          rcases ha : exec (advance criterion? w) start with ⟨e | ⟨v, _ | ⟨c, measured⟩⟩, next⟩
          · simp [ha] at h
          · obtain ⟨t, hw, rfl⟩ := happens_of_exec_advance ha
            obtain ⟨rfl, ⟨hend, rfl⟩ | hlead⟩ := (exec_advance_eq_none_iff hw).mp ha
            · -- the loop looks at the status once more
              have hafter : t.after.1.status.isTerminal = true := by rw [hw.after_status, hend]
              simp only [ha, exec_loop_ended t.after.2 hafter] at h
              cases h
              refine ⟨[t], _, by simp, chronicle_singleton.mpr ⟨hw, rfl, .method hend⟩, ?_⟩
              simp [hw.after_status]
            · simp only [ha] at h
              obtain ⟨turns, finish, hlength, hrest, rfl⟩ := ih h
              refine ⟨t :: turns, finish, Nat.succ_le_succ hlength, ?_, by simp⟩
              exact hrest.cons hw hlead
          · obtain ⟨t, hw, rfl⟩ := happens_of_exec_advance ha
            obtain ⟨rfl, hc, hstop⟩ := (exec_advance_eq_some_iff hw).mp ha
            simp only [ha] at h
            cases h
            exact ⟨[t], _, by simp, chronicle_singleton.mpr ⟨hw, rfl, .criterion hc hstop⟩,
              by simp⟩

/-- A chronicle is returned by a loop that is long enough. -/
theorem exec_loop_of_chronicle {fuel : Nat} (history : Array (Snapshot R))
    (hlength : turns.length ≤ fuel) (h : Chronicle criterion? w start turns finish final) :
    exec (loop criterion? w fuel history) start =
      (.ok ⟨history ++ (turns.map Turn.view).toArray, finish.cause, finish.measured?⟩, final) := by
  induction h using Chronicle.rec_turns generalizing fuel history with
  | idle h =>
      obtain ⟨hs, rfl, -⟩ := chronicle_nil.mp h
      simp [exec_loop_ended final.2 hs]
  | ends t h hw hend =>
      obtain ⟨fuel, rfl⟩ := Nat.exists_eq_add_one.mpr (Nat.lt_of_succ_le hlength)
      rw [exec_loop_succ t.before.2 hw.before_running]
      cases hend with
      | method hs =>
          have hafter : t.after.1.status.isTerminal = true := by rw [hw.after_status, hs]
          simp [exec_advance_unasked hw (.inl hs), exec_loop_ended t.after.2 hafter,
            hw.after_status]
      | criterion hc hstop =>
          have ha := (exec_advance_eq_some_iff hw).mpr ⟨rfl, hc, hstop⟩
          simp [ha]
  | leads t next turns h hw hlead hrest ih =>
      obtain ⟨fuel, rfl⟩ := Nat.exists_eq_add_one.mpr (Nat.lt_of_lt_of_le (Nat.succ_pos _) hlength)
      have ha := (exec_advance_eq_none_iff hw).mpr ⟨rfl, .inr hlead⟩
      rw [exec_loop_succ t.before.2 hw.before_running]
      simp only [ha]
      rw [ih (history.push t.view) (Nat.le_of_succ_le_succ hlength)]
      simp

/-! ## What a run keeps -/

/-- The watcher is shown every snapshot with its number. -/
theorem Chronicle.shown_eq (h : Chronicle criterion? w start turns finish final) :
    turns.map Turn.shown = (turns.map Turn.view).zipIdx (start.1.iterations + 1) := by
  induction h using Chronicle.rec_turns with
  | idle h => rfl
  | ends t h hw hend =>
      obtain ⟨-, -, -, hcount, -⟩ := exec_iterate_ok hw.step
      simp [Turn.shown, hcount]
  | leads t next turns h hw hlead hrest ih =>
      obtain ⟨-, -, -, hcount, -⟩ := exec_iterate_ok hw.step
      simp [ih, Turn.shown, hcount, iterations_of_bare (hlead.bare_next hw)]

/-- What an onlooker knows in the end comes from what it was shown. -/
theorem Chronicle.onlooker_saw {visit : Snapshot R → Nat → σ → σ}
    (h : Chronicle criterion? (.onlooker visit) start turns finish final) :
    final.2 = (turns.map Turn.shown).foldl (fun seen p => visit p.1 p.2 seen) start.2 := by
  have hlook (t : Turn m σ) (hw : t.Happens (.onlooker visit)) :
      t.after.2 = visit t.shown.1 t.shown.2 t.before.2 := by
    obtain ⟨-, -, -, -, _, _, _, _, -, -, -, htask, -⟩ := exec_iterate_ok hw.step
    have hwatched := hw.watched
    rw [exec_watch htask] at hwatched
    exact (congrArg (fun p => p.2.2) hwatched).symm
  induction h using Chronicle.rec_turns with
  | idle h => rfl
  | ends t h hw hend =>
      rw [List.map_singleton, List.foldl_cons, List.foldl_nil, ← hlook t hw]
      cases hend with
      | method hs => rfl
      | criterion hc hstop => exact hstop.2.1
  | leads t next turns h hw hlead hrest ih =>
      rw [List.map_cons, List.foldl_cons, ← hlook t hw, ← hlead.2.1, ih]

/-- At its end the solver has the name that it had, has made as many steps as there are turns, shows
the last snapshot and has the status that the run ended with. -/
theorem Chronicle.kept (h : Chronicle criterion? w start turns finish final) :
    final.1.name = start.1.name ∧ final.1.iterations = start.1.iterations + turns.length ∧
      final.1.snapshot? = (turns.getLast?.map Turn.view).or start.1.snapshot? ∧
      final.1.status = finish.status ∧ (start.1.task?.isSome → final.1.task?.isSome) := by
  induction h using Chronicle.rec_turns with
  | idle h =>
      obtain ⟨-, rfl, -⟩ := chronicle_nil.mp h
      simp
  | ends t h hw hend =>
      obtain ⟨-, -, hname, hcount, _, _, _, _, -, -, -, htask, -⟩ := exec_iterate_ok hw.step
      obtain ⟨s, hb, hfinal⟩ := hend.final_eq hw
      rw [hfinal]
      refine ⟨?_, ?_, ?_, rfl, fun _ => ?_⟩
      · exact (name_of_bare hb).trans hname
      · exact (iterations_of_bare hb).trans hcount
      · exact (snapshot?_of_bare hb).trans (by simp [hw.live])
      · exact (isSome_task?_of_bare hb).trans (by simp [htask])
  | leads t next turns h hw hlead hrest ih =>
      obtain ⟨-, -, hname, hcount, _, _, _, _, -, -, -, htask, -⟩ := exec_iterate_ok hw.step
      have hb := hlead.bare_next hw
      obtain ⟨ihname, ihcount, ihlive, ihstatus, ihtask⟩ := ih
      refine ⟨?_, ?_, ?_, ihstatus, fun _ => ihtask ?_⟩
      · rw [ihname, name_of_bare hb, hname]
      · rw [ihcount, iterations_of_bare hb, hcount, List.length_cons]
        omega
      · rw [ihlive, snapshot?_of_bare hb, hw.live, List.getLast?_cons]
        cases turns.getLast? <;> simp
      · rw [isSome_task?_of_bare hb, htask]
        rfl

end

/-! ## Results -/

/-- The results `r` recount the run of `s` on `order` that starts with the snapshot `first` and has
these turns. -/
structure Recounts (s : Solver m) (order : Order R) (first : Snapshot R) (turns : List (Turn m σ))
    (finish : Finish R) (last : Solver m) (r : Results R) : Prop where
  solver : r.solver = s.name
  status : r.status = finish.status
  cause : r.cause = finish.cause
  measured : r.measured? = finish.measured?
  iterations : r.iterations = turns.length
  history : r.history = (turns.map Turn.view).toArray
  final : r.final = (turns.getLast?.map Turn.view).getD first
  elapsed : r.elapsed? = order.elapsed?
  evaluations : ∃ t : Task R, last.task? = some t ∧
    r.evaluations = ⟨t.ledger.values, t.ledger.gradients, t.ledger.hessians⟩

section

variable {f : Subject R} {order : Order R} {w : Watcher R σ} {s s₀ : Solver m} {seen : σ}
  {first : Snapshot R} {turns : List (Turn m σ)} {finish : Finish R} {last final : Solver m × σ}
  {r : Results R}

/-- After a run that was set up there is something to sum up. -/
theorem Chronicle.final_live {a : Accepted R f.n} {criterion? : Option (Criterion R)}
    (h : Chronicle criterion? w (s₀, seen) turns finish last)
    (hl : exec (launch f a) s = (.ok first, s₀)) :
    (∃ t : Task R, last.1.task? = some t) ∧
      last.1.snapshot? = some ((turns.getLast?.map Turn.view).getD first) := by
  obtain ⟨-, -, hfirst, -, htask⟩ := exec_launch_ok hl
  obtain ⟨-, -, klive, -, ktask⟩ := h.kept
  refine ⟨Option.isSome_iff_exists.mp (ktask (by simp [htask])), ?_⟩
  rw [klive, hfirst]
  cases turns.getLast? <;> rfl

/-- The results of the loop that was chronicled recount the run. -/
theorem exec_results_eq_ok_iff {a : Accepted R f.n} {criterion? : Option (Criterion R)}
    (hl : exec (launch f a) s = (.ok first, s₀))
    (h : Chronicle criterion? w (s₀, seen) turns finish last) :
    exec (unwatched (results order.elapsed?
        ⟨(turns.map Turn.view).toArray, finish.cause, finish.measured?⟩)) last = (.ok r, final) ↔
      Recounts s order first turns finish last.1 r ∧ final = (last.1.announced r, last.2) := by
  obtain ⟨hname, hcount, -⟩ := exec_launch_ok hl
  obtain ⟨kname, kcount, -, kstatus, -⟩ := h.kept
  obtain ⟨⟨t, ht⟩, hv⟩ := h.final_live hl
  rw [exec_unwatched, exec_results ht hv]
  constructor
  · rintro ⟨⟩
    exact ⟨⟨kname.trans hname, kstatus, rfl, rfl, by simp [summed, kcount, hcount], rfl, rfl, rfl,
      t, ht, rfl⟩, rfl⟩
  · rintro ⟨hr, rfl⟩
    obtain ⟨t', ht', hevaluations⟩ := hr.evaluations
    obtain rfl : t = t' := by simpa [ht] using ht'
    have heq : last.1.summed t ((turns.getLast?.map Turn.view).getD first) order.elapsed?
        ⟨(turns.map Turn.view).toArray, finish.cause, finish.measured?⟩ = r := by
      obtain ⟨solver, status, iterations, evaluations, cause, measured?, elapsed?, fin, history⟩ := r
      obtain ⟨h₁, h₂, h₃, h₄, h₅, h₆, h₇, h₈, -⟩ := hr
      dsimp only at h₁ h₂ h₃ h₄ h₅ h₆ h₇ h₈ hevaluations
      simp only [summed]
      rw [kname, hname, kstatus, kcount, hcount, h₁, h₂, h₃, h₄, h₅, h₆, h₇, h₈, hevaluations]
      simp
    rw [heq]

/-- What a run returns recounts a chronicle of it. -/
theorem chronicle_of_exec_solveWatched
    (h : exec (solveWatched f order w) (s, seen) = (.ok r, final)) :
    ∃ (a : Accepted R f.n) (first : Snapshot R) (s₀ : Solver m) (turns : List (Turn m σ))
      (finish : Finish R) (last : Solver m × σ),
      s.acceptOrder f.n order = .ok a ∧ exec (launch f a) s = (.ok first, s₀) ∧
      turns.length ≤ order.horizon ∧ Chronicle (asked? m order) w (s₀, seen) turns finish last ∧
      Recounts s order first turns finish last.1 r ∧ final = (last.1.announced r, last.2) := by
  rw [exec_solveWatched] at h
  cases ha : s.acceptOrder f.n order with
  | error e => simp [ha] at h
  | ok a =>
      rw [ha] at h
      obtain ⟨first, p, hsetup, h⟩ := exec_bind_eq_ok.mp h
      obtain ⟨ending, last, hloop, hresults⟩ := exec_bind_eq_ok.mp h
      obtain ⟨s₀, hl, rfl⟩ := exec_unwatched_eq_ok_iff.mp hsetup
      obtain ⟨turns, finish, hlength, hc, rfl⟩ := chronicle_of_exec_loop hloop
      obtain ⟨hr, hfinal⟩ := (exec_results_eq_ok_iff hl hc).mp (by simpa using hresults)
      exact ⟨a, first, s₀, turns, finish, last, rfl, hl, hlength, hc, hr, hfinal⟩

/-- What recounts a chronicle is returned. -/
theorem exec_solveWatched_of_chronicle {a : Accepted R f.n} (ha : s.acceptOrder f.n order = .ok a)
    (hl : exec (launch f a) s = (.ok first, s₀)) (hlength : turns.length ≤ order.horizon)
    (hc : Chronicle (asked? m order) w (s₀, seen) turns finish last)
    (hr : Recounts s order first turns finish last.1 r) :
    exec (solveWatched f order w) (s, seen) = (.ok r, last.1.announced r, last.2) := by
  rw [exec_solveWatched, ha]
  show exec (runAccepted f a order w) (s, seen) = _
  have hsetup : exec (unwatched (launch f a)) (s, seen) = (.ok first, s₀, seen) :=
    exec_unwatched_eq_ok_iff.mpr ⟨s₀, hl, rfl⟩
  have hloop : exec (loop (asked? m order) w order.horizon #[]) (s₀, seen) =
      (.ok ⟨(turns.map Turn.view).toArray, finish.cause, finish.measured?⟩, last) := by
    simpa using exec_loop_of_chronicle #[] hlength hc
  have hresults : exec (unwatched (results order.elapsed?
      ⟨(turns.map Turn.view).toArray, finish.cause, finish.measured?⟩)) last =
      (.ok r, last.1.announced r, last.2) :=
    (exec_results_eq_ok_iff hl hc).mpr ⟨hr, rfl⟩
  exact exec_bind_eq_ok.mpr ⟨first, (s₀, seen), hsetup,
    exec_bind_eq_ok.mpr ⟨_, last, hloop, hresults⟩⟩

/-- A run that has a chronicle returns what recounts it. -/
theorem exec_solveWatched_returns {a : Accepted R f.n} (ha : s.acceptOrder f.n order = .ok a)
    (hl : exec (launch f a) s = (.ok first, s₀)) (hlength : turns.length ≤ order.horizon)
    (hc : Chronicle (asked? m order) w (s₀, seen) turns finish last) :
    ∃ r final, Recounts s order first turns finish last.1 r ∧
      exec (solveWatched f order w) (s, seen) = (.ok r, final) := by
  obtain ⟨⟨t, ht⟩, hv⟩ := hc.final_live hl
  have hresults := exec_results ht hv order.elapsed?
    ⟨(turns.map Turn.view).toArray, finish.cause, finish.measured?⟩
  have hr := (exec_results_eq_ok_iff hl hc).mp
    (show exec (unwatched (results order.elapsed? _)) last = (_, _, last.2) by
      rw [exec_unwatched, hresults])
  exact ⟨_, _, hr.1, exec_solveWatched_of_chronicle ha hl hlength hc hr.1⟩

end

/-- A run returns exactly what recounts a chronicle of it: there are as many turns as steps, the
watcher is shown each snapshot of the history once and with its number, all turns but the last go on
and do not fulfil the criterion, and the last one ends the run. -/
theorem solve_returns_iff_chronicle (f : Subject R) (order : Order R) (w : Watcher R σ)
    (s : Solver m) (seen : σ) (r : Results R) (final : Solver m × σ) :
    exec (solveWatched f order w) (s, seen) = (.ok r, final) ↔
      ∃ (a : Accepted R f.n) (first : Snapshot R) (s₀ : Solver m) (turns : List (Turn m σ))
        (finish : Finish R) (last : Solver m × σ),
        s.acceptOrder f.n order = .ok a ∧
        exec (launch f a) s = (.ok first, s₀) ∧
        turns.length ≤ order.horizon ∧
        Chronicle (asked? m order) w (s₀, seen) turns finish last ∧
        turns.map Turn.shown = r.history.toList.zipIdx 1 ∧
        Recounts s order first turns finish last.1 r ∧
        final = (last.1.announced r, last.2) := by
  constructor
  · intro h
    obtain ⟨a, first, s₀, turns, finish, last, ha, hl, hlength, hc, hr, hfinal⟩ :=
      chronicle_of_exec_solveWatched h
    obtain ⟨-, hcount, -⟩ := exec_launch_ok hl
    have hshown : turns.map Turn.shown = r.history.toList.zipIdx 1 := by
      rw [hc.shown_eq, hcount, hr.history]
    exact ⟨a, first, s₀, turns, finish, last, ha, hl, hlength, hc, hshown, hr, hfinal⟩
  · rintro ⟨a, first, s₀, turns, finish, last, ha, hl, hlength, hc, -, hr, rfl⟩
    exact exec_solveWatched_of_chronicle ha hl hlength hc hr

/-- An onlooker has seen the history in the end, in order and numbered from one. -/
theorem onlooker_saw_history {f : Subject R} {order : Order R}
    {visit : Snapshot R → Nat → σ → σ} {s : Solver m} {seen : σ} {r : Results R}
    {final : Solver m × σ} (h : exec (solve f order visit) (s, seen) = (.ok r, final)) :
    final.2 = (r.history.toList.zipIdx 1).foldl (fun seen p => visit p.1 p.2 seen) seen := by
  obtain ⟨a, first, s₀, turns, finish, last, -, hl, -, hc, hr, rfl⟩ :=
    chronicle_of_exec_solveWatched h
  obtain ⟨-, hcount, -⟩ := exec_launch_ok hl
  have hshown : turns.map Turn.shown = r.history.toList.zipIdx 1 := by
    rw [hc.shown_eq, hcount, hr.history]
  rw [← hshown]
  exact hc.onlooker_saw

end Minima.Solver
