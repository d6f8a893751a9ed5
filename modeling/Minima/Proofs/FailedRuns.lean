import Minima.Proofs.RunChronicle

/-!
# Runs that fail

A trail is a part of a run: turns that happen one after the other and lead on. A loop that fails has
gone along a trail and is then cut off, or a turn breaks: its step fails, the watcher does, or the
criterion. So a run of an accepted configuration fails exactly if the set up fails, if it is cut off,
or if a turn breaks that it reaches.
-/

namespace Minima.Solver

variable {R : Type} [Scalar R] {m : Method R} {σ α : Type}

/-! ## Trails -/

/-- The turns happen one after the other, and the last of them leads on. -/
inductive Trail (criterion? : Option (Criterion R)) (w : Watcher R σ) :
    Solver m × σ → List (Turn m σ) → Solver m × σ → Prop
  | nil (p : Solver m × σ) : Trail criterion? w p [] p
  | cons {t : Turn m σ} {next final : Solver m × σ} {turns : List (Turn m σ)} (hw : t.Happens w)
      (hlead : t.LeadsTo criterion? next) (hrest : Trail criterion? w next turns final) :
      Trail criterion? w t.before (t :: turns) final

/-- A turn breaks from `start`: the step, the watcher or the criterion fails. -/
inductive Breaks (criterion? : Option (Criterion R)) (w : Watcher R σ) :
    (start : Solver m × σ) → Failure R → (left : Solver m × σ) → Prop
  | step {s s' : Solver m} {seen : σ} {e : Failure R} (h : exec iterate s = (.error e, s')) :
      Breaks criterion? w (s, seen) e (s', seen)
  | watcher {s made : Solver m} {seen : σ} {status : Status} {v : Snapshot R} {e : Failure R}
      {left : Solver m × σ} (hstep : exec iterate s = (.ok status, made))
      (hlive : made.snapshot? = some v) (h : exec (watch w v) (made, seen) = (.error e, left)) :
      Breaks criterion? w (s, seen) e left
  | criterion {t : Turn m σ} {c : Criterion R} {e : Failure R} {s' : Solver m} (hw : t.Happens w)
      (hrun : t.status = .running) (hc : criterion? = some c)
      (h : exec (stopIfHolds c) t.after.1 = (.error e, s')) :
      Breaks criterion? w t.before e (s', t.after.2)

section

variable {criterion? : Option (Criterion R)} {w : Watcher R σ} {start next left : Solver m × σ}
  {turns : List (Turn m σ)} {e : Failure R}

theorem Trail.eq_of_nil (h : Trail criterion? w start [] next) : next = start := by
  cases h
  rfl

/-- The loop goes along a trail. -/
theorem Trail.exec_loop (h : Trail criterion? w start turns next) (fuel : Nat)
    (history : Array (Snapshot R)) :
    exec (loop criterion? w (turns.length + fuel) history) start =
      exec (loop criterion? w fuel (history ++ (turns.map Turn.view).toArray)) next := by
  induction h generalizing history with
  | nil p => simp
  | @cons t next final turns hw hlead hrest ih =>
      have hfuel : (t :: turns).length + fuel = turns.length + fuel + 1 := by
        simp only [List.length_cons]
        omega
      have ha := (exec_advance_eq_none_iff hw).mpr ⟨rfl, .inr hlead⟩
      rw [hfuel, exec_loop_succ t.before.2 hw.before_running]
      simp only [ha]
      rw [ih (history.push t.view)]
      simp

/-- Along a trail every turn is counted. -/
theorem Trail.iterations_eq (h : Trail criterion? w start turns next) :
    next.1.iterations = start.1.iterations + turns.length := by
  induction h with
  | nil p => rfl
  | @cons t next final turns hw hlead hrest ih =>
      obtain ⟨-, -, -, hcount, -⟩ := exec_iterate_ok hw.step
      rw [ih, iterations_of_bare (hlead.bare_next hw), hcount, List.length_cons]
      omega

theorem Trail.frame_eq (h : Trail criterion? w start turns next) :
    next.1.frame = start.1.frame := by
  induction h with
  | nil p => rfl
  | @cons t next final turns hw hlead hrest ih =>
      have hmade := keeps_frame_iterate t.before.1
      rw [hw.step] at hmade
      exact ih.trans ((frame_of_bare (hlead.bare_next hw)).trans hmade)

/-- A chronicle can begin with a trail. -/
theorem Trail.chronicle (h : Trail criterion? w start turns next) {rest : List (Turn m σ)}
    {finish : Finish R} {final : Solver m × σ}
    (hrest : Chronicle criterion? w next rest finish final) :
    Chronicle criterion? w start (turns ++ rest) finish final := by
  induction h with
  | nil p => exact hrest
  | cons hw hlead _ ih => exact (ih hrest).cons hw hlead

/-! ## How a loop fails -/

/-- Once the step and the watcher of a turn have returned, only the criterion can break it. -/
theorem breaks_of_happens {t : Turn m σ} (hw : t.Happens w)
    (h : exec (advance criterion? w) t.before = (.error e, left)) :
    Breaks criterion? w t.before e left := by
  cases hs : t.status.isTerminal with
  | true =>
      rw [exec_advance_unasked hw (.inl hs)] at h
      cases h
  | false =>
      cases criterion? with
      | none =>
          rw [exec_advance_unasked hw (.inr rfl)] at h
          cases h
      | some c =>
          rw [exec_advance_asked hw hs] at h
          rcases hstop : exec (stopIfHolds c) t.after.1 with ⟨e' | measured?, s'⟩
          · simp only [hstop] at h
            cases h
            exact .criterion hw (Status.isTerminal_eq_false_iff.mp hs) rfl hstop
          · simp [hstop] at h

theorem breaks_of_exec_advance (h : exec (advance criterion? w) start = (.error e, left)) :
    Breaks criterion? w start e left := by
  obtain ⟨s, seen⟩ := start
  have hturn := h
  simp only [advance, exec_bind, exec_unwatched] at h
  rcases hi : exec iterate s with ⟨e' | status, made⟩
  · rw [hi] at h
    cases h
    exact .step hi
  · obtain ⟨-, -, -, -, _, _, _, next, -, -, -, -, hnext⟩ := exec_iterate_ok hi
    have hv : made.snapshot? = some (m.view next.2) := by
      rw [snapshot?, hnext]
      rfl
    simp only [hi, exec_snapshot hv] at h
    rcases hw : exec (watch w (m.view next.2)) (made, seen) with ⟨e' | u, after⟩
    · rw [hw] at h
      cases h
      exact .watcher hi hv hw
    · have happens : Turn.Happens w ⟨(s, seen), status, made, m.view next.2, after⟩ :=
        ⟨hi, hv, hw⟩
      exact breaks_of_happens happens hturn

theorem exec_advance_eq_error_iff :
    exec (advance criterion? w) start = (.error e, left) ↔ Breaks criterion? w start e left := by
  refine ⟨breaks_of_exec_advance, ?_⟩
  rintro (h | ⟨hstep, hlive, h⟩ | ⟨hw, hrun, rfl, h⟩)
  · simp only [advance, exec_bind, exec_unwatched, h]
  · simp only [advance, exec_bind, exec_unwatched, hstep, exec_snapshot hlive, h]
  · rw [exec_advance_asked hw (Status.isTerminal_eq_false_iff.mpr hrun), h]

/-- A loop that fails has gone along a trail first: at its end it is cut off, or a turn breaks. -/
theorem trail_of_exec_loop {fuel : Nat} {history : Array (Snapshot R)}
    (h : exec (loop criterion? w fuel history) start = (.error e, left)) :
    ∃ turns next, Trail criterion? w start turns next ∧ next.1.status = .running ∧
      (turns.length = fuel ∧ e = .cutOff ∧ left = next ∨
        turns.length < fuel ∧ Breaks criterion? w next e left) := by
  -- on the fuel: a turn that leads on goes before the trail of the rest
  induction fuel generalizing start history with
  | zero =>
      cases hs : start.1.status.isTerminal with
      | true => simp [exec_loop_ended start.2 hs] at h
      | false =>
          rw [exec_loop_cut start.2 hs] at h
          cases h
          exact ⟨[], start, .nil start, Status.isTerminal_eq_false_iff.mp hs, .inl ⟨rfl, rfl, rfl⟩⟩
  | succ fuel ih =>
      cases hs : start.1.status.isTerminal with
      | true => simp [exec_loop_ended start.2 hs] at h
      | false =>
          rw [exec_loop_succ start.2 hs] at h
          rcases ha : exec (advance criterion? w) start with ⟨e' | ⟨v, _ | ⟨c, measured⟩⟩, next⟩
          · rw [ha] at h
            cases h
            exact ⟨[], start, .nil start, Status.isTerminal_eq_false_iff.mp hs,
              .inr ⟨Nat.succ_pos fuel, breaks_of_exec_advance ha⟩⟩
          · obtain ⟨t, hw, rfl⟩ := happens_of_exec_advance ha
            simp only [ha] at h
            obtain ⟨-, ⟨hend, rfl⟩ | hlead⟩ := (exec_advance_eq_none_iff hw).mp ha
            · -- a loop from where a step has ended the run returns
              have hafter : t.after.1.status.isTerminal = true := by rw [hw.after_status, hend]
              simp [exec_loop_ended t.after.2 hafter] at h
            · obtain ⟨turns, last, htrail, hrun, hcase⟩ := ih h
              refine ⟨t :: turns, last, htrail.cons hw hlead, hrun, ?_⟩
              simpa using hcase
          · simp [ha] at h

theorem exec_loop_eq_error_iff {fuel : Nat} {history : Array (Snapshot R)} :
    exec (loop criterion? w fuel history) start = (.error e, left) ↔
      ∃ turns next, Trail criterion? w start turns next ∧ next.1.status = .running ∧
        (turns.length = fuel ∧ e = .cutOff ∧ left = next ∨
          turns.length < fuel ∧ Breaks criterion? w next e left) := by
  refine ⟨trail_of_exec_loop, ?_⟩
  rintro ⟨turns, next, htrail, hrun, hcase⟩
  have hs := Status.isTerminal_eq_false_iff.mpr hrun
  obtain ⟨rfl, rfl, rfl⟩ | ⟨hlength, hbreaks⟩ := hcase
  · have hloop := htrail.exec_loop 0 history
    rwa [exec_loop_cut left.2 hs] at hloop
  · obtain ⟨fuel, rfl⟩ := Nat.exists_eq_add_of_lt hlength
    have ha := exec_advance_eq_error_iff.mpr hbreaks
    rw [Nat.add_assoc, htrail.exec_loop (fuel + 1) history, exec_loop_succ next.2 hs]
    simp only [ha]

end

/-! ## How a run fails -/

/-- After its set up the run goes on as far as `next`. -/
structure Reaches (f : Subject R) (a : Accepted R f.n) (order : Order R) (w : Watcher R σ)
    (start : Solver m × σ) (turns : List (Turn m σ)) (next : Solver m × σ) : Prop where
  trail : ∃ (first : Snapshot R) (s₀ : Solver m), exec (launch f a) start.1 = (.ok first, s₀) ∧
    Trail (asked? m order) w (s₀, start.2) turns next
  running : next.1.status = .running

section

variable {f : Subject R} {a : Accepted R f.n} {order : Order R} {w : Watcher R σ} {s : Solver m}
  {seen : σ} {turns : List (Turn m σ)} {next final : Solver m × σ} {e : Failure R}

theorem Reaches.iterations_eq (h : Reaches f a order w (s, seen) turns next) :
    next.1.iterations = turns.length := by
  obtain ⟨⟨first, s₀, hl, htrail⟩, -⟩ := h
  obtain ⟨-, hcount, -⟩ := exec_launch_ok hl
  rw [htrail.iterations_eq, hcount, Nat.zero_add]

/-- After a set up that returns a run fails exactly if its loop does: the results are always made. -/
theorem exec_runAccepted_eq_error_iff {first : Snapshot R} {s₀ : Solver m}
    (hl : exec (launch f a) s = (.ok first, s₀)) :
    exec (runAccepted f a order w) (s, seen) = (.error e, final) ↔
      exec (loop (asked? m order) w order.horizon #[]) (s₀, seen) = (.error e, final) := by
  have hsetup : exec (unwatched (launch f a)) (s, seen) = (.ok first, s₀, seen) :=
    exec_unwatched_eq_ok_iff.mpr ⟨s₀, hl, rfl⟩
  rw [runAccepted, exec_bind, hsetup]
  dsimp only
  rw [exec_bind]
  rcases hloop : exec (loop (asked? m order) w order.horizon #[]) (s₀, seen) with
    ⟨e' | ending, last⟩
  · simp
  · obtain ⟨turns, finish, -, hc, rfl⟩ := chronicle_of_exec_loop hloop
    obtain ⟨⟨t, ht⟩, hv⟩ := hc.final_live hl
    dsimp only
    rw [exec_unwatched, exec_results ht hv]
    simp

/-- A run of an accepted configuration fails exactly if its set up fails, if it is cut off, or if a
turn breaks that it reaches. -/
theorem exec_solveWatched_eq_error_iff (ha : s.acceptOrder f.n order = .ok a) :
    exec (solveWatched f order w) (s, seen) = (.error e, final) ↔
      (∃ s', exec (launch f a) s = (.error e, s') ∧ final = (s', seen)) ∨
        ∃ turns next, Reaches f a order w (s, seen) turns next ∧
          (turns.length = order.horizon ∧ e = .cutOff ∧ final = next ∨
            turns.length < order.horizon ∧ Breaks (asked? m order) w next e final) := by
  rw [exec_solveWatched, ha]
  dsimp only
  rcases hl : exec (launch f a) s with ⟨e' | first, s₀⟩
  · have hrun : exec (runAccepted f a order w) (s, seen) = (.error e', s₀, seen) := by
      rw [runAccepted, exec_bind, exec_unwatched, hl]
    rw [hrun]
    constructor
    · rintro ⟨⟩
      exact .inl ⟨s₀, rfl, rfl⟩
    · rintro (⟨s', ⟨⟩, rfl⟩ | ⟨turns, next, ⟨⟨first, s', hl', -⟩, -⟩, -⟩)
      · rfl
      · rw [hl] at hl'
        cases hl'
  · rw [exec_runAccepted_eq_error_iff hl, exec_loop_eq_error_iff]
    constructor
    · rintro ⟨turns, next, htrail, hrun, hcase⟩
      exact .inr ⟨turns, next, ⟨⟨first, s₀, hl, htrail⟩, hrun⟩, hcase⟩
    · rintro (⟨s', ⟨⟩, -⟩ | ⟨turns, next, ⟨⟨first', s₀', hl', htrail⟩, hrun⟩, hcase⟩)
      rw [hl] at hl'
      cases hl'
      exact ⟨turns, next, htrail, hrun, hcase⟩

/-- A run whose first step fails leaves what the step leaves. -/
theorem exec_solveWatched_of_first_step {first : Snapshot R} {s₀ s' : Solver m}
    (ha : s.acceptOrder f.n order = .ok a) (hl : exec (launch f a) s = (.ok first, s₀))
    (hrun : s₀.status = .running) (hlength : 0 < order.horizon)
    (hstep : exec iterate s₀ = (.error e, s')) :
    exec (solveWatched f order w) (s, seen) = (.error e, s', seen) := by
  have hreach : Reaches f a order w (s, seen) [] (s₀, seen) := ⟨⟨first, s₀, hl, .nil _⟩, hrun⟩
  exact (exec_solveWatched_eq_error_iff ha).mpr
    (.inr ⟨[], (s₀, seen), hreach, .inr ⟨hlength, .step hstep⟩⟩)

end

end Minima.Solver
