import Mathlib.Data.List.Forall2
import Minima.Proofs.EarlyFailures

/-!
# Methods that follow each other

Two computations match if they fail alike or return results that are related. A method mirrors
another on what was accepted for the two if its start and its steps are those of the other, carried
over by a function of states. Then whole runs of the two match: they make the same steps on the same
ledger, a criterion that cannot tell their snapshots apart decides alike, and what they return differs
in no more than that.
-/

namespace Minima

section

variable {E S S' α α' β β' : Type}

/-- From related states the two computations fail in the same way, or return related results and leave
related states. -/
def Matched (pre : S → S' → Prop) (rel : α → α' → Prop) (post : S → S' → Prop)
    (e : ExceptT E (StateM S) α) (e' : ExceptT E (StateM S') α') : Prop :=
  ∀ s s', pre s s' →
    (∃ x, (exec e s).1 = .error x ∧ (exec e' s').1 = .error x) ∨
      ∃ a t a' t', exec e s = (.ok a, t) ∧ exec e' s' = (.ok a', t') ∧ rel a a' ∧ post t t'

variable {pre mid post : S → S' → Prop} {rel : α → α' → Prop} {next : β → β' → Prop}

theorem matched_pure {a : α} {a' : α'} (h : rel a a') :
    Matched pre rel pre (pure a : ExceptT E (StateM S) α)
      (pure a' : ExceptT E (StateM S') α') :=
  fun s s' hs => .inr ⟨a, s, a', s', rfl, rfl, h, hs⟩

theorem matched_throw (x : E) :
    Matched pre rel post (throw x : ExceptT E (StateM S) α)
      (throw x : ExceptT E (StateM S') α') :=
  fun _ _ _ => .inl ⟨x, rfl, rfl⟩

theorem matched_bind {e : ExceptT E (StateM S) α} {e' : ExceptT E (StateM S') α'}
    {k : α → ExceptT E (StateM S) β} {k' : α' → ExceptT E (StateM S') β'}
    (he : Matched pre rel mid e e') (hk : ∀ a a', rel a a' → Matched mid next post (k a) (k' a')) :
    Matched pre next post (e >>= k) (e' >>= k') := by
  intro s s' hs
  rw [exec_bind, exec_bind]
  obtain ⟨x, hx, hx'⟩ | ⟨a, t, a', t', ha, ha', hrel, ht⟩ := he s s' hs
  · rcases hr : exec e s with ⟨y | a, t⟩
    · rcases hr' : exec e' s' with ⟨y' | a', t'⟩
      · rw [hr] at hx
        rw [hr'] at hx'
        cases hx
        cases hx'
        exact .inl ⟨x, rfl, rfl⟩
      · rw [hr'] at hx'
        cases hx'
    · rw [hr] at hx
      cases hx
  · rw [ha, ha']
    exact hk a a' hrel t t' ht

/-- What is read can be used to go on from the very states that were read. -/
theorem matched_get_bind {k : S → ExceptT E (StateM S) β} {k' : S' → ExceptT E (StateM S') β'}
    (hk : ∀ s s', pre s s' → Matched (fun t t' => t = s ∧ t' = s') next post (k s) (k' s')) :
    Matched pre next post (get >>= k) (get >>= k') := by
  intro s s' hs
  rw [exec_bind, exec_bind]
  exact hk s s' hs s s' ⟨rfl, rfl⟩

theorem Matched.of_pre {pre' : S → S' → Prop} {e : ExceptT E (StateM S) α}
    {e' : ExceptT E (StateM S') α'} (h : Matched pre rel post e e')
    (hpre : ∀ s s', pre' s s' → pre s s') : Matched pre' rel post e e' :=
  fun s s' hs => h s s' (hpre s s' hs)

end

variable {R : Type} [Scalar R] {m m' : Method R} {σ τ α : Type}

def Produced.map {S S' : Type} (φ : S → S') : Produced S → Produced S'
  | .state st => .state (φ st)
  | .foreign typeName => .foreign typeName

/-- The criterion cannot tell snapshots apart that are related. -/
def Criterion.Blind (V : Snapshot R → Snapshot R → Prop) (c : Criterion R) : Prop :=
  ∀ v v' k, V v v' → c.holds v k = c.holds v' k ∧ c.measure v k = c.measure v' k

/-- The results differ in no more than the name of the solver and what related snapshots may differ
in. -/
structure Results.Alike (V : Snapshot R → Snapshot R → Prop) (r r' : Results R) : Prop where
  status : r.status = r'.status
  iterations : r.iterations = r'.iterations
  evaluations : r.evaluations = r'.evaluations
  cause : r.cause = r'.cause
  measured : r.measured? = r'.measured?
  elapsed : r.elapsed? = r'.elapsed?
  final : V r.final r'.final
  history : List.Forall₂ V r.history.toList r'.history.toList

omit [Scalar R] in
/-- Results that are alike in everything but the name of the solver. -/
theorem Results.Alike.eq {r r' : Results R} (h : r.Alike Eq r') (hname : r.solver = r'.solver) :
    r = r' := by
  obtain ⟨hstatus, hiterations, hevaluations, hcause, hmeasured, helapsed, hfinal, hhistory⟩ := h
  have hsame : r.history = r'.history := by
    rw [List.forall₂_eq_eq_eq] at hhistory
    exact Array.toList_inj.mp hhistory
  cases r
  cases r'
  simp_all

namespace Solver

/-- On what was accepted for the two methods, the second starts and steps as the first does, carried
over by `φ`. What they show is related by `V`, and is classified alike. -/
structure Mirrors (f : Subject R) (a a' : Accepted R f.n) (φ : m.State f.n → m'.State f.n)
    (V : Snapshot R → Snapshot R → Prop) : Prop where
  start : opening m' f a' = ((opening m f a).1.map (Produced.map φ), (opening m f a).2)
  step : ∀ ledger count st, attemptStep (a'.task ledger) count (φ st) =
    ((attemptStep (a.task ledger) count st).1.map fun r => (r.1.map φ, r.2),
      (attemptStep (a.task ledger) count st).2)
  /-- No value of another type is produced, unless the classes have one name. -/
  produces : m.className = m'.className ∨
    (∀ typeName, (opening m f a).1 ≠ .ok (.foreign typeName)) ∧
      ∀ ledger count (st : m.State f.n) typeName status,
        (attemptStep (a.task ledger) count st).1 ≠ .ok (.foreign typeName, status)
  view : ∀ st, V (m.view st) (m'.view (φ st))
  finite : ∀ st, (m'.view (φ st)).isFinite = (m.view st).isFinite
  judge : ∀ st reported,
    classify a'.options (m'.view (φ st)) reported = classify a.options (m.view st) reported

/-- The solvers, of the given names, stand at corresponding states with one ledger. -/
structure Corresponds (f : Subject R) (a a' : Accepted R f.n) (φ : m.State f.n → m'.State f.n)
    (name name' : String) (s : Solver m) (s' : Solver m') : Prop where
  names : s.name = name ∧ s'.name = name'
  task : ∃ ledger, s.task? = some (a.task ledger) ∧ s'.task? = some (a'.task ledger)
  state : ∃ st, s.state? = some ⟨f.n, st⟩ ∧ s'.state? = some ⟨f.n, φ st⟩
  status : s.status = s'.status
  iterations : s.iterations = s'.iterations

variable {f : Subject R} {a a' : Accepted R f.n} {φ : m.State f.n → m'.State f.n}
  {V : Snapshot R → Snapshot R → Prop} {name name' : String}

theorem matched_launch (h : Mirrors f a a' φ V) :
    Matched (fun s s' => s.name = name ∧ s'.name = name') V (Corresponds f a a' φ name name')
      (launch f a) (launch f a') := by
  rintro s s' ⟨rfl, rfl⟩
  obtain ⟨events, heq⟩ := exec_launch f a s
  obtain ⟨events', heq'⟩ := exec_launch f a' s'
  have hstart := h.start
  rw [heq, heq', hstart]
  rcases ho : opening m f a with ⟨e | st | typeName, ledger⟩
  · exact .inl ⟨e, rfl, rfl⟩
  · refine .inr ⟨_, _, _, _, rfl, rfl, h.view st, ?_⟩
    refine ⟨⟨rfl, rfl⟩, ⟨ledger, rfl, rfl⟩, ⟨st, rfl, rfl⟩, ?_, rfl⟩
    dsimp only
    rw [h.finite st]
  · obtain hname | ⟨hnever, -⟩ := h.produces
    · refine .inl ⟨.notAState m.className .start typeName, rfl, ?_⟩
      rw [hname]
      rfl
    · exact absurd (by rw [ho]) (hnever typeName)

/-- The step of one is concluded as that of the other. -/
theorem Mirrors.conclusion (h : Mirrors f a a' φ V) (ledger : Ledger R f.n) (count : Nat)
    (st : m.State f.n) :
    ∃ r : Attempt R (m.State f.n × Status),
      concluded a.options ⟨f.n, st⟩ (attemptStep (a.task ledger) count st).1 =
        r.map (fun p => (⟨f.n, p.1⟩, p.2)) ∧
      concluded a'.options ⟨f.n, φ st⟩ (attemptStep (a'.task ledger) count (φ st)).1 =
        r.map (fun p => (⟨f.n, φ p.1⟩, p.2)) := by
  -- a state that is settled on is judged alike, whichever it is
  have hjudge (made : m.State f.n) (reported : Status) :
      ∃ r : Attempt R (m.State f.n × Status),
        (classify a.options (m.view made) reported).map
          (((⟨f.n, made⟩, ·) : Status → (Σ n, m.State n) × Status)) =
            r.map (fun p => (⟨f.n, p.1⟩, p.2)) ∧
        (classify a'.options (m'.view (φ made)) reported).map
          (((⟨f.n, φ made⟩, ·) : Status → (Σ n, m'.State n) × Status)) =
            r.map (fun p => (⟨f.n, φ p.1⟩, p.2)) := by
    refine ⟨(classify a.options (m.view made) reported).map (made, ·), ?_⟩
    rw [h.judge]
    cases classify a.options (m.view made) reported with
    | error e => exact ⟨rfl, rfl⟩
    | ok status => exact ⟨rfl, rfl⟩
  rw [h.step]
  rcases hr : (attemptStep (a.task ledger) count st).1 with e | ⟨made | typeName, reported⟩
  · cases he : e.isNumerical with
    | true =>
        simp only [concluded, settled, Except.map, he, if_true]
        exact hjudge st .outOfControl
    | false =>
        refine ⟨.error e, ?_⟩
        simp [concluded, settled, Except.map, he]
  · exact hjudge made reported
  · obtain hname | ⟨-, hnever⟩ := h.produces
    · refine ⟨.error (.notAState m.className .step typeName), rfl, ?_⟩
      rw [hname]
      rfl
    · exact absurd hr (hnever ledger count st typeName reported)

def Running (f : Subject R) (a a' : Accepted R f.n) (φ : m.State f.n → m'.State f.n)
    (name name' : String) (s : Solver m) (s' : Solver m') : Prop :=
  Corresponds f a a' φ name name' s s' ∧ s.status.isTerminal = false

theorem matched_iterate (h : Mirrors f a a' φ V) :
    Matched (Running f a a' φ name name') Eq (Corresponds f a a' φ name name') iterate iterate := by
  rintro s s' ⟨⟨hnames, ⟨ledger, ht, ht'⟩, ⟨st, hst, hst'⟩, hstatus, hcount⟩, hrun⟩
  obtain ⟨events, heq⟩ := exec_iterate_live ht hst hrun
  obtain ⟨events', heq'⟩ := exec_iterate_live ht' hst' (hstatus ▸ hrun)
  obtain ⟨r, hr, hr'⟩ := h.conclusion ledger s.iterations st
  have hr : concluded (a.task ledger).options ⟨f.n, st⟩
      (attemptStep (a.task ledger) s.iterations st).1 = r.map (fun p => (⟨f.n, p.1⟩, p.2)) := hr
  have hr' : concluded (a'.task ledger).options ⟨f.n, φ st⟩
      (attemptStep (a'.task ledger) s.iterations (φ st)).1 =
        r.map (fun p => (⟨f.n, φ p.1⟩, p.2)) := hr'
  rw [heq, heq', ← hcount, hr, hr']
  cases r with
  | error e => exact .inl ⟨e, rfl, rfl⟩
  | ok p =>
      refine .inr ⟨_, _, _, _, rfl, rfl, rfl, hnames, ⟨_, rfl, ?_⟩, ⟨p.1, rfl, rfl⟩, rfl, rfl⟩
      dsimp only
      rw [h.step]
      rfl

theorem matched_snapshot (h : Mirrors f a a' φ V) :
    Matched (Corresponds f a a' φ name name') V (Corresponds f a a' φ name name') snapshot
      snapshot := by
  intro s s' hs
  obtain ⟨st, hst, hst'⟩ := hs.state
  have hv : s.snapshot? = some (m.view st) := by rw [snapshot?, hst]; rfl
  have hv' : s'.snapshot? = some (m'.view (φ st)) := by rw [snapshot?, hst']; rfl
  exact .inr ⟨_, s, _, s', exec_snapshot hv, exec_snapshot hv', h.view st, hs⟩

theorem matched_gauge (g : Gauge R α) :
    Matched (Corresponds f a a' φ name name') Eq (Corresponds f a a' φ name name') (gauge g)
      (gauge g) := by
  intro s s' hs
  obtain ⟨ledger, ht, ht'⟩ := hs.task
  rw [exec_gauge ht, exec_gauge ht']
  have hsame : gauged (a'.task ledger).objective g (a'.task ledger).ledger =
      gauged (a.task ledger).objective g (a.task ledger).ledger := rfl
  rw [hsame]
  rcases gauged (a.task ledger).objective g (a.task ledger).ledger with ⟨e | x, left⟩
  · exact .inl ⟨e, rfl, rfl⟩
  · exact .inr ⟨x, _, x, _, rfl, rfl, rfl, hs.names, ⟨left, rfl, rfl⟩, hs.state, hs.status,
      hs.iterations⟩

theorem matched_stopIfHolds (h : Mirrors f a a' φ V) {c : Criterion R} (hc : c.Blind V) :
    Matched (Corresponds f a a' φ name name') Eq (Corresponds f a a' φ name name') (stopIfHolds c)
      (stopIfHolds c) := by
  refine matched_bind (matched_snapshot h) fun v v' hv => matched_get_bind fun s s' hs => ?_
  obtain ⟨hholds, hmeasure⟩ := hc v v' s.iterations hv
  dsimp only
  rw [← hs.iterations, ← hholds, ← hmeasure]
  have hread : ∀ t t', t = s ∧ t' = s' → Corresponds f a a' φ name name' t t' := by
    rintro _ _ ⟨rfl, rfl⟩
    exact hs
  refine matched_bind ((matched_gauge _).of_pre hread) ?_
  rintro held _ rfl
  cases held with
  | false => exact matched_pure rfl
  | true =>
      refine matched_bind (matched_gauge _) ?_
      rintro measured _ rfl t t' ht
      exact .inr ⟨_, _, _, _, rfl, rfl, rfl, ht.names, ht.task, ht.state, rfl, ht.iterations⟩

/-! ## With watchers -/

section

variable {w : Watcher R σ} {w' : Watcher R τ} {same : σ → τ → Prop}

/-- Shown related snapshots, the watchers ask and answer alike, and what they know stays related. -/
def WatchAlike (f : Subject R) (V : Snapshot R → Snapshot R → Prop) (same : σ → τ → Prop)
    (w : Watcher R σ) (w' : Watcher R τ) : Prop :=
  ∀ v v' k ledger seen seen', V v v' → same seen seen' →
    let r := w v k f.n f.objective (ledger, seen)
    let r' := w' v' k f.n f.objective (ledger, seen')
    r.1 = r'.1 ∧ r.2.1 = r'.2.1 ∧ same r.2.2 r'.2.2

def Attended (f : Subject R) (a a' : Accepted R f.n) (φ : m.State f.n → m'.State f.n)
    (name name' : String) (same : σ → τ → Prop) (p : Solver m × σ) (p' : Solver m' × τ) : Prop :=
  Corresponds f a a' φ name name' p.1 p'.1 ∧ same p.2 p'.2

theorem matched_unwatched {pre post : Solver m → Solver m' → Prop} {β : Type}
    {rel : α → β → Prop} {e : Engine m α} {e' : Engine m' β} (h : Matched pre rel post e e') :
    Matched (fun p p' => pre p.1 p'.1 ∧ same p.2 p'.2) rel
      (fun p p' => post p.1 p'.1 ∧ same p.2 p'.2) (unwatched e) (unwatched e') := by
  rintro ⟨s, seen⟩ ⟨s', seen'⟩ ⟨hs, hseen⟩
  obtain ⟨x, hx, hx'⟩ | ⟨r, t, r', t', hr, hr', hrel, ht⟩ := h s s' hs
  · exact .inl ⟨x, hx, hx'⟩
  · refine .inr ⟨r, (t, seen), r', (t', seen'), ?_, ?_, hrel, ht, hseen⟩
    · rw [exec_unwatched, hr]
    · rw [exec_unwatched, hr']

theorem matched_watch (hw : WatchAlike f V same w w') {v v' : Snapshot R} (hv : V v v') :
    Matched (Attended f a a' φ name name' same) Eq (Attended f a a' φ name name' same) (watch w v)
      (watch w' v') := by
  rintro ⟨s, seen⟩ ⟨s', seen'⟩ ⟨hs, hseen⟩
  obtain ⟨ledger, ht, ht'⟩ := hs.task
  obtain ⟨hout, hledger, hknown⟩ := hw v v' s.iterations ledger seen seen' hv hseen
  dsimp only at ht ht' hs
  rw [exec_watch ht, exec_watch ht', ← hs.iterations]
  dsimp only
  rcases hr : (w v s.iterations f.n f.objective (ledger, seen)).1 with e | u
  · exact .inl ⟨e, hr, hout ▸ hr⟩
  · refine .inr ⟨u, _, u, _, Prod.ext hr rfl, Prod.ext (hout ▸ hr) rfl, rfl, ?_, hknown⟩
    exact ⟨hs.names, ⟨_, rfl, hledger ▸ rfl⟩, hs.state, hs.status, rfl⟩

theorem matched_advance (h : Mirrors f a a' φ V) (hw : WatchAlike f V same w w')
    {criterion? : Option (Criterion R)} (hc : ∀ c, criterion? = some c → c.Blind V) :
    Matched (fun p p' => Running f a a' φ name name' p.1 p'.1 ∧ same p.2 p'.2)
      (fun r r' => V r.1 r'.1 ∧ r.2 = r'.2) (Attended f a a' φ name name' same)
      (advance criterion? w) (advance criterion? w') := by
  refine matched_bind (matched_unwatched (matched_iterate h)) ?_
  rintro status _ rfl
  refine matched_bind (matched_unwatched (matched_snapshot h)) fun v v' hv => ?_
  refine matched_bind (matched_watch hw hv) fun _ _ _ => ?_
  cases criterion? with
  | none => exact matched_pure ⟨hv, rfl⟩
  | some c =>
      cases status.isTerminal with
      | true => exact matched_pure ⟨hv, rfl⟩
      | false =>
          refine matched_bind (matched_unwatched (matched_stopIfHolds h (hc c rfl))) ?_
          rintro measured? _ rfl
          exact matched_pure ⟨hv, rfl⟩

/-- Where two loops ended that made the same steps. -/
structure EndAlike (V : Snapshot R → Snapshot R → Prop) (e e' : Ending R) : Prop where
  history : List.Forall₂ V e.history.toList e'.history.toList
  cause : e.cause = e'.cause
  measured : e.measured? = e'.measured?

theorem matched_loop (h : Mirrors f a a' φ V) (hw : WatchAlike f V same w w')
    {criterion? : Option (Criterion R)} (hc : ∀ c, criterion? = some c → c.Blind V) (fuel : Nat)
    {history history' : Array (Snapshot R)} (hh : List.Forall₂ V history.toList history'.toList) :
    Matched (Attended f a a' φ name name' same) (EndAlike V) (Attended f a a' φ name name' same)
      (loop criterion? w fuel history) (loop criterion? w' fuel history') := by
  -- what the loop does after it has looked at the status, in the states that it has seen
  have hended {p : Solver m × σ} {p' : Solver m' × τ} (hp : Attended f a a' φ name name' same p p')
      (status : Status) {history history' : Array (Snapshot R)}
      (hh : List.Forall₂ V history.toList history'.toList) :
      Matched (fun t t' => t = p ∧ t' = p') (EndAlike V) (Attended f a a' φ name name' same)
        (pure ⟨history, .method status, none⟩ : Watched m σ (Ending R))
        (pure ⟨history', .method status, none⟩) := by
    rintro _ _ ⟨rfl, rfl⟩
    exact .inr ⟨_, _, _, _, rfl, rfl, ⟨hh, rfl, rfl⟩, hp⟩
  induction fuel generalizing history history' with
  | zero =>
      unfold loop
      refine matched_get_bind fun p p' hp => ?_
      dsimp only
      rw [← hp.1.status]
      cases p.1.status.isTerminal with
      | true => exact hended hp _ hh
      | false => exact matched_throw _
  | succ fuel ih =>
      unfold loop
      refine matched_get_bind fun p p' hp => ?_
      dsimp only
      rw [← hp.1.status]
      cases hover : p.1.status.isTerminal with
      | true => exact hended hp _ hh
      | false =>
          have hrun : ∀ t t', t = p ∧ t' = p' →
              Running f a a' φ name name' t.1 t'.1 ∧ same t.2 t'.2 := by
            rintro _ _ ⟨rfl, rfl⟩
            exact ⟨⟨hp.1, hover⟩, hp.2⟩
          refine matched_bind ((matched_advance h hw hc).of_pre hrun) ?_
          rintro ⟨v, found⟩ ⟨v', _⟩ ⟨hv, rfl⟩
          have hpush : List.Forall₂ V (history.push v).toList (history'.push v').toList := by
            simpa using List.rel_append hh (.cons hv .nil)
          cases found with
          | none => exact ih hpush
          | some last => exact matched_pure ⟨hpush, rfl, rfl⟩

theorem matched_results (h : Mirrors f a a' φ V) (elapsed? : Option R) {e e' : Ending R}
    (he : EndAlike V e e') :
    Matched (Corresponds f a a' φ name name')
      (fun r r' => r.Alike V r' ∧ r.solver = name ∧ r'.solver = name')
      (Corresponds f a a' φ name name') (results elapsed? e) (results elapsed? e') := by
  intro s s' hs
  obtain ⟨ledger, ht, ht'⟩ := hs.task
  obtain ⟨st, hst, hst'⟩ := hs.state
  have hv : s.snapshot? = some (m.view st) := by rw [snapshot?, hst]; rfl
  have hv' : s'.snapshot? = some (m'.view (φ st)) := by rw [snapshot?, hst']; rfl
  rw [exec_results ht hv, exec_results ht' hv']
  refine .inr ⟨_, _, _, _, rfl, rfl, ⟨?_, hs.names.1, hs.names.2⟩, ?_⟩
  · exact ⟨hs.status, hs.iterations, rfl, he.cause, he.measured, rfl, h.view st, he.history⟩
  · exact ⟨hs.names, hs.task, hs.state, hs.status, hs.iterations⟩

/-- What was accepted runs alike with a method and with one that mirrors it. -/
theorem matched_runAccepted (h : Mirrors f a a' φ V) (hw : WatchAlike f V same w w')
    {order order' : Order R} (hasked : asked? m order = asked? m' order')
    (hc : ∀ c, asked? m order = some c → c.Blind V) (hhorizon : order.horizon = order'.horizon)
    (helapsed : order.elapsed? = order'.elapsed?) :
    Matched (fun p p' => (p.1.name = name ∧ p'.1.name = name') ∧ same p.2 p'.2)
      (fun r r' => r.Alike V r' ∧ r.solver = name ∧ r'.solver = name')
      (Attended f a a' φ name name' same) (runAccepted f a order w)
      (runAccepted f a' order' w') := by
  unfold runAccepted
  rw [← hasked, ← hhorizon, ← helapsed]
  refine matched_bind (matched_unwatched (matched_launch h)) fun _ _ _ => ?_
  refine matched_bind (matched_loop h hw hc order.horizon .nil) fun e e' he => ?_
  exact matched_unwatched (matched_results h order.elapsed? he)

end

/-! ## Onlookers -/

/-- A method mirrors itself. -/
theorem mirrors_self (f : Subject R) (a : Accepted R f.n) :
    Mirrors f a a (id : m.State f.n → m.State f.n) Eq where
  start := by
    rcases opening m f a with ⟨e | st | typeName, ledger⟩
    · rfl
    · rfl
    · rfl
  step ledger count st := by
    rcases hr : attemptStep (a.task ledger) count st with ⟨e | ⟨next | typeName, status⟩, left⟩
    · exact hr
    · exact hr
    · exact hr
  produces := .inl rfl
  view _ := rfl
  finite _ := rfl
  judge _ _ := rfl

/-- A run comes to the same whoever looks on. -/
theorem solve_before_onlookers (f : Subject R) (order : Order R) (s : Solver m)
    (visit : Snapshot R → Nat → σ → σ) (seen : σ) (visit' : Snapshot R → Nat → τ → τ) (seen' : τ) :
    (exec (solve f order visit) (s, seen)).1 = (exec (solve f order visit') (s, seen')).1 := by
  unfold solve
  rw [exec_solveWatched, exec_solveWatched]
  cases s.acceptOrder f.n order with
  | error e => rfl
  | ok a =>
      have hlook : WatchAlike f Eq (fun _ _ => True) (.onlooker visit) (.onlooker visit') :=
        fun _ _ _ _ _ _ _ _ => ⟨rfl, rfl, trivial⟩
      have hblind (c : Criterion R) : c.Blind Eq := by
        rintro v _ k rfl
        exact ⟨rfl, rfl⟩
      have hasked : asked? m order = asked? m order := rfl
      have hruns := matched_runAccepted (mirrors_self (m := m) f a) hlook hasked
        (fun c _ => hblind c) rfl rfl (s, seen) (s, seen') ⟨⟨rfl, rfl⟩, trivial⟩
      obtain ⟨x, hx, hx'⟩ | ⟨r, t, r', t', hr, hr', ⟨halike, hname, hname'⟩, -⟩ := hruns
      · exact hx.trans hx'.symm
      · dsimp only
        rw [hr, hr', halike.eq (hname.trans hname'.symm)]

end Solver

end Minima
