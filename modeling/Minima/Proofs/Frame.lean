import Minima.Proofs.EngineRuns

/-!
# What runs leave alone

A computation keeps a reading of the state if the reading is the same afterwards, whether it has
failed or not. Gauges and watchers keep all of a solver but the ledger of its objective. Everything
that a run does after its set up keeps the frame of the solver: its name and its task up to the
ledger.
-/

namespace Minima

section

variable {E S γ δ α β : Type}

/-- The computation does not change what `g` reads from the state. -/
def Keeps (g : S → γ) (e : ExceptT E (StateM S) α) : Prop := ∀ s, g (exec e s).2 = g s

variable {g : S → γ}

theorem keeps_pure (a : α) : Keeps g (pure a : ExceptT E (StateM S) α) := fun _ => rfl

theorem keeps_throw (e : E) : Keeps g (throw e : ExceptT E (StateM S) α) := fun _ => rfl

theorem keeps_lift (a : Except E α) : Keeps g (liftM a : ExceptT E (StateM S) α) := fun _ => rfl

theorem keeps_modify {f : S → S} (h : ∀ s, g (f s) = g s) :
    Keeps g (modify f : ExceptT E (StateM S) PUnit) := h

theorem keeps_bind {e : ExceptT E (StateM S) α} {k : α → ExceptT E (StateM S) β}
    (he : Keeps g e) (hk : ∀ a, Keeps g (k a)) : Keeps g (e >>= k) := by
  intro s
  have hs := he s
  rw [exec_bind]
  rcases hr : exec e s with ⟨f | a, s'⟩
  · rw [hr] at hs
    exact hs
  · rw [hr] at hs
    exact (hk a s').trans hs

theorem keeps_get_bind {k : S → ExceptT E (StateM S) β} (hk : ∀ s, Keeps g (k s)) :
    Keeps g (get >>= k) := fun s => hk s s

/-- What is read from something that is kept is kept. -/
theorem Keeps.reading {e : ExceptT E (StateM S) α} (h : Keeps g e) (f : γ → δ) :
    Keeps (fun s => f (g s)) e := fun s => congrArg f (h s)

/-- The computation does not lead out of `I`, whether it fails or not. -/
def Preserves (I : S → Prop) (e : ExceptT E (StateM S) α) : Prop := ∀ s, I s → I (exec e s).2

variable {I : S → Prop}

theorem preserves_bind {e : ExceptT E (StateM S) α} {k : α → ExceptT E (StateM S) β}
    (he : Preserves I e) (hk : ∀ a, Preserves I (k a)) : Preserves I (e >>= k) := by
  intro s h
  have hs := he s h
  rw [exec_bind]
  rcases hr : exec e s with ⟨f | a, s'⟩
  · rw [hr] at hs
    exact hs
  · rw [hr] at hs
    exact hk a s' hs

theorem preserves_get_bind {k : S → ExceptT E (StateM S) β} (hk : ∀ s, Preserves I (k s)) :
    Preserves I (get >>= k) := fun s => hk s s

/-- What a computation keeps decides what it preserves. -/
theorem Keeps.preserves {e : ExceptT E (StateM S) α} (h : Keeps g e)
    (hI : ∀ {s s'}, g s' = g s → I s → I s') : Preserves I e := fun s => hI (h s)

end

namespace Solver

variable {R : Type} [Scalar R] {m : Method R} {σ α : Type}

/-! ## All but the ledger -/

/-- The solver without what its objective has been asked. -/
def bare (s : Solver m) : Solver m :=
  { s with task? := s.task?.map fun t => { t with ledger := {} } }

theorem keeps_bare_gauge (g : Gauge R α) : Keeps bare (gauge g : Engine m α) := by
  intro s
  cases ht : s.task? with
  | none => rw [exec_gauge_absent ht]
  | some t =>
      rw [exec_gauge ht]
      simp [bare, ht]

theorem keeps_bare_snapshot : Keeps bare (snapshot : Engine m (Snapshot R)) := by
  intro s
  cases hv : s.snapshot? with
  | none => rw [exec_snapshot_absent hv]
  | some v => rw [exec_snapshot hv]

theorem keeps_bare_watch (w : Watcher R σ) (v : Snapshot R) :
    Keeps (fun p => p.1.bare) (watch w v : Watched m σ Unit) := by
  rintro ⟨s, seen⟩
  cases ht : s.task? with
  | none => rw [exec_watch_absent ht]
  | some t =>
      rw [exec_watch ht]
      simp [bare, ht]

section

variable {s s' : Solver m}

theorem name_of_bare (h : s'.bare = s.bare) : s'.name = s.name := by
  show s'.bare.name = s.bare.name
  rw [h]

theorem status_of_bare (h : s'.bare = s.bare) : s'.status = s.status := by
  show s'.bare.status = s.bare.status
  rw [h]

theorem iterations_of_bare (h : s'.bare = s.bare) : s'.iterations = s.iterations := by
  show s'.bare.iterations = s.bare.iterations
  rw [h]

theorem snapshot?_of_bare (h : s'.bare = s.bare) : s'.snapshot? = s.snapshot? := by
  show s'.bare.snapshot? = s.bare.snapshot?
  rw [h]

theorem state?_of_bare (h : s'.bare = s.bare) : s'.state? = s.state? := by
  show s'.bare.state? = s.bare.state?
  rw [h]

theorem isSome_task?_of_bare (h : s'.bare = s.bare) : s'.task?.isSome = s.task?.isSome := by
  simpa [bare] using congrArg (fun s => s.task?.isSome) h

end

/-! ## The frame -/

/-- The name and the task without the ledger. -/
def frame (s : Solver m) : String × Option (Task R) := (s.name, s.bare.task?)

theorem frame_of_bare {s s' : Solver m} (h : s'.bare = s.bare) : s'.frame = s.frame := by
  show (s'.bare.name, s'.bare.task?) = (s.bare.name, s.bare.task?)
  rw [h]

theorem keeps_frame_gauge (g : Gauge R α) : Keeps frame (gauge g : Engine m α) :=
  (keeps_bare_gauge g).reading fun s => (s.name, s.task?)

theorem keeps_frame_iterate : Keeps frame (iterate : Engine m Status) := by
  intro s
  cases ht : s.task? with
  | none => rw [exec_iterate_absent (.inl ht)]
  | some t =>
      cases hst : s.state? with
      | none => rw [exec_iterate_absent (.inr hst)]
      | some st =>
          obtain ⟨k, st⟩ := st
          cases hrun : s.status.isTerminal with
          | true => rw [exec_iterate_finished ht hst hrun]
          | false =>
              obtain ⟨events, h⟩ := exec_iterate_live ht hst hrun
              rw [h]
              rcases concluded t.options ⟨k, st⟩ (attemptStep t s.iterations st).1 with e | r
              · simp [frame, bare, ht]
              · simp [frame, bare, ht]

theorem keeps_frame_snapshot : Keeps frame (snapshot : Engine m (Snapshot R)) :=
  keeps_bare_snapshot.reading fun s => (s.name, s.task?)

theorem keeps_frame_stopIfHolds (c : Criterion R) :
    Keeps frame (stopIfHolds c : Engine m (Option R)) := by
  refine keeps_bind keeps_frame_snapshot fun v => keeps_get_bind fun s => ?_
  refine keeps_bind (keeps_frame_gauge _) fun held => ?_
  cases held with
  | false => exact keeps_pure none
  | true =>
      refine keeps_bind (keeps_frame_gauge _) fun measured => ?_
      exact keeps_bind (keeps_modify fun s => rfl) fun _ => keeps_pure _

theorem keeps_frame_results (elapsed? : Option R) (ending : Ending R) :
    Keeps frame (results elapsed? ending : Engine m (Results R)) := by
  refine keeps_bind keeps_frame_snapshot fun v => keeps_get_bind fun s => ?_
  exact keeps_bind (keeps_modify fun s => rfl) fun _ => keeps_pure _

theorem keeps_unwatched {γ : Type} {g : Solver m → γ} {e : Engine m α} (h : Keeps g e) :
    Keeps (fun p => g p.1) (unwatched e : Watched m σ α) := fun p => h p.1

theorem keeps_frame_watch (w : Watcher R σ) (v : Snapshot R) :
    Keeps (fun p => p.1.frame) (watch w v : Watched m σ Unit) :=
  (keeps_bare_watch w v).reading fun s => (s.name, s.task?)

theorem keeps_frame_advance (criterion? : Option (Criterion R)) (w : Watcher R σ) :
    Keeps (fun p => p.1.frame)
      (advance criterion? w : Watched m σ (Snapshot R × Option (Criterion R × R))) := by
  refine keeps_bind (keeps_unwatched keeps_frame_iterate) fun status => ?_
  refine keeps_bind (keeps_unwatched keeps_frame_snapshot) fun v => ?_
  refine keeps_bind (keeps_frame_watch w v) fun _ => ?_
  cases criterion? with
  | none => exact keeps_pure _
  | some c =>
      cases status.isTerminal with
      | true => exact keeps_pure _
      | false =>
          refine keeps_bind (keeps_unwatched (keeps_frame_stopIfHolds c)) fun measured? => ?_
          exact keeps_pure _

theorem keeps_frame_loop (criterion? : Option (Criterion R)) (w : Watcher R σ) (fuel : Nat)
    (history : Array (Snapshot R)) :
    Keeps (fun p => p.1.frame) (loop criterion? w fuel history : Watched m σ (Ending R)) := by
  induction fuel generalizing history with
  | zero =>
      unfold loop
      refine keeps_get_bind fun p => ?_
      dsimp only
      cases p.1.status.isTerminal with
      | true => exact keeps_pure _
      | false => exact keeps_throw _
  | succ fuel ih =>
      unfold loop
      refine keeps_get_bind fun p => ?_
      dsimp only
      cases p.1.status.isTerminal with
      | true => exact keeps_pure _
      | false =>
          refine keeps_bind (keeps_frame_advance criterion? w) fun r => ?_
          obtain ⟨v, _ | ⟨c, measured⟩⟩ := r
          · exact ih (history.push v)
          · exact keeps_pure _

end Solver

end Minima
