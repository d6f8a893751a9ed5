import Minima.Proofs.StepCosts

/-!
# What a run costs

A run keeps books: what holds of the ledger after so many steps with which the run goes on, before
and after its criterion is asked, and what holds after the last one. Each method has books of its
own, from which the number of derivatives that a run has evaluated is read off at its end. The
criterion looks at the current point, whose gradient a method along a line has just asked for.
-/

namespace Minima

open Dialogue

variable {R : Type} [Scalar R] {n : Nat}

/-! ## Criteria -/

namespace Criterion

/-- No part of the criterion is of the caller's own making. -/
inductive Bundled : Criterion R → Prop
  | gradientNorm (threshold : R) : Bundled (.gradientNorm threshold)
  | valueDistance (least threshold : R) (relative : Bool) :
      Bundled (.valueDistance least threshold relative)
  | pointDistance (minimum : Array R) (threshold : R) (relative : Bool) :
      Bundled (.pointDistance minimum threshold relative)
  | iterations (limit : Nat) : Bundled (.iterations limit)
  | compound (mode : Mode) {criteria : List (Criterion R)} (h : ∀ c ∈ criteria, Bundled c) :
      Bundled (.compound mode criteria)

/-- The gauge asks for gradients at the point of the snapshot only. -/
abbrev LooksAt {α : Type} (v : Snapshot R) (g : Gauge R α) : Prop :=
  g.Yields (· = v.point) (fun _ _ => True) fun _ => True

variable {v : Snapshot R} {k : Nat}

theorem gradientLength_looksAt : LooksAt v (gradientLength v.point) :=
  yields_question_bind rfl fun _ _ => yields_pure trivial

theorem holding_looksAt {criteria : List (Criterion R)}
    (h : ∀ c ∈ criteria, LooksAt v (c.holds v k)) : LooksAt v (holding v k criteria) := by
  induction criteria with
  | nil =>
      rw [holding]
      exact yields_pure trivial
  | cons c criteria ih =>
      rw [holding]
      refine yields_bind (h c (by simp)) fun first _ => ?_
      exact yields_bind (ih fun c' hc' => h c' (by simp [hc'])) fun rest _ => yields_pure trivial

theorem Bundled.holds_looksAt {c : Criterion R} (hc : c.Bundled) : LooksAt v (c.holds v k) := by
  induction hc with
  | gradientNorm threshold =>
      rw [holds]
      exact yields_bind gradientLength_looksAt fun _ _ => yields_pure trivial
  | valueDistance least threshold relative =>
      rw [holds]
      exact yields_pure trivial
  | pointDistance minimum threshold relative =>
      rw [holds]
      exact yields_lift_bind fun gap _ => yields_pure trivial
  | iterations limit =>
      rw [holds]
      exact yields_pure trivial
  | compound mode _ ih =>
      rw [holds]
      exact yields_bind (holding_looksAt ih) fun _ _ => yields_pure trivial

theorem measureNth_looksAt {criteria : List (Criterion R)}
    (h : ∀ c ∈ criteria, LooksAt v (c.measure v k)) (i : Nat) :
    LooksAt v (measureNth v k i criteria) := by
  induction criteria generalizing i with
  | nil =>
      rw [measureNth]
      exact yields_pure trivial
  | cons c criteria ih =>
      cases i with
      | zero =>
          rw [measureNth]
          exact h c (by simp)
      | succ i =>
          rw [measureNth]
          exact ih (fun c' hc' => h c' (by simp [hc'])) i

theorem Bundled.measure_looksAt {c : Criterion R} (hc : c.Bundled) :
    LooksAt v (c.measure v k) := by
  induction hc with
  | gradientNorm threshold =>
      rw [measure]
      exact gradientLength_looksAt
  | valueDistance least threshold relative =>
      rw [measure]
      exact yields_pure trivial
  | pointDistance minimum threshold relative =>
      rw [measure]
      exact yields_lift fun _ _ => trivial
  | iterations limit =>
      rw [measure]
      exact yields_pure trivial
  | compound mode hcriteria ih =>
      rw [measure]
      exact yields_bind (holding_looksAt fun c hc => (hcriteria c hc).holds_looksAt) fun held _ =>
        measureNth_looksAt ih _

end Criterion

theorem Ledger.request_at {f : Objective R n} (x : Vector R n) (l : Ledger R n) :
    request f (gradient f) (Tensor.ofArray x.toArray) l = serve f .gradient x l := by
  have hpoint : point? f (Tensor.ofArray x.toArray) = .ok x := by
    simp [point?, Tensor.toVector?, Tensor.ofArray]
    rfl
  rw [request, hpoint]
  rfl

namespace Solver

variable {m : Method R} {σ α : Type} {f : Subject R} {a : Accepted R f.n}
  {criterion? : Option (Criterion R)} {going made : Nat → m.State f.n → Ledger R f.n → Prop}
  {closed : Nat → Ledger R f.n → Prop} {s s' : Solver m}

/-! ## Books -/

/-- The method keeps books on what was accepted of `f`: `going` after so many steps with which the
run goes on, `made` also before the criterion is asked, `closed` after the last step. -/
structure Audits (f : Subject R) (a : Accepted R f.n) (criterion? : Option (Criterion R))
    (going made : Nat → m.State f.n → Ledger R f.n → Prop)
    (closed : Nat → Ledger R f.n → Prop) : Prop where
  start : (m.start (a.situation f.objective.name) (a.region.project a.start)).Leaves
    (Ledger.answer f.objective) (fun p l => ∀ st, p = .state st → going 0 st l) (fun _ => True) {}
  step : ∀ {k st l}, going k st l → (m.step (a.situation f.objective.name) k st).Leaves
    (Ledger.answer f.objective)
    (fun r l' => closed (k + 1) l' ∧ ∀ next, r = (.state next, .running) →
      (m.view next).isFinite = true → made (k + 1) next l')
    (closed (k + 1)) l
  ask : criterion? ≠ none → ∀ {k st l g l'}, made k st l →
    Ledger.request f.objective (Ledger.gradient f.objective) (Tensor.ofArray (m.view st).point) l =
      (.ok g, l') → made k st l'
  goes : ∀ {k st l}, made k st l → going k st l
  ends : ∀ {k st l}, going k st l → closed k l

def Books (f : Subject R) (a : Accepted R f.n) (book : Nat → m.State f.n → Ledger R f.n → Prop)
    (s : Solver m) : Prop :=
  ∃ ledger st, book s.iterations st ledger ∧ Upholds f a (· = ledger) (· = st) s

def Closes (f : Subject R) (a : Accepted R f.n) (closed : Nat → Ledger R f.n → Prop)
    (s : Solver m) : Prop :=
  ∃ ledger, closed s.iterations ledger ∧ s.task? = some (a.task ledger)

theorem Books.closes {book : Nat → m.State f.n → Ledger R f.n → Prop} (hs : Books f a book s)
    (h : ∀ {k st l}, book k st l → closed k l) : Closes f a closed s := by
  obtain ⟨ledger, st, hbook, ⟨_, rfl, htask⟩, -⟩ := hs
  exact ⟨_, h hbook, htask⟩

theorem Books.mono {book book' : Nat → m.State f.n → Ledger R f.n → Prop} (hs : Books f a book s)
    (h : ∀ {k st l}, book k st l → book' k st l) : Books f a book' s := by
  obtain ⟨ledger, st, hbook, hupholds⟩ := hs
  exact ⟨ledger, st, h hbook, hupholds⟩

namespace Audits

variable (h : Audits f a criterion? going made closed)

include h

theorem launch {v : Snapshot R} (hl : exec (launch f a) s = (.ok v, s')) :
    Books f a going s' := by
  obtain ⟨st, ledger, events, ho, -, rfl⟩ := exec_launch_made hl
  exact ⟨ledger, st, h.start.ok ho st rfl, ⟨ledger, rfl, rfl⟩, st, rfl, rfl⟩

/-- After a step the books can be closed, and if the run goes on they are continued. -/
theorem iterate {status : Status} (hs : Books f a going s)
    (hi : exec iterate s = (.ok status, s')) :
    Closes f a closed s' ∧ (status = .running → Books f a made s') := by
  obtain ⟨ledger, st, hbook, hupholds⟩ := hs
  obtain ⟨-, -, -, hcount, -⟩ := exec_iterate_ok hi
  obtain ⟨ledger', st', hledger, hst, -, htask, hcases⟩ := hupholds.of_iterate hi
  subst ledger' st'
  have hstep := h.step hbook
  rcases hr : attemptStep (a.task ledger) s.iterations st with ⟨e | ⟨produced, reported⟩, left⟩
  · have hplay := (attemptStep_task ledger s.iterations st).symm.trans hr
    rw [hr] at htask hcases
    refine ⟨⟨left, hcount ▸ hstep.error hplay, htask⟩, ?_⟩
    rintro rfl
    obtain ⟨-, -, -, hrun⟩ | ⟨_, _, hmade, -⟩ := hcases
    · cases hrun
    · cases hmade
  · have hplay := (attemptStep_task ledger s.iterations st).symm.trans hr
    obtain ⟨hclosed, hmade⟩ := hstep.ok hplay
    rw [hr] at htask hcases
    refine ⟨⟨left, hcount ▸ hclosed, htask⟩, ?_⟩
    rintro rfl
    obtain ⟨_, ⟨he, -⟩, -⟩ | ⟨next, reported', heq, hnext, hclass⟩ := hcases
    · cases he
    · cases heq
      obtain rfl := classify_running hclass
      have hfinite := (classify_ok hclass).1 nofun
      exact ⟨left, next, hcount ▸ hmade next rfl hfinite, ⟨left, rfl, htask⟩, next, rfl, hnext⟩

/-- Whatever is asked of the current point leaves the books as they are before the criterion is
asked. -/
theorem gauge (hasked : criterion? ≠ none) (hs : Books f a made s) {v : Snapshot R}
    (hv : s.snapshot? = some v) {g : Gauge R α} (hg : Criterion.LooksAt v g) {x : α}
    (hx : exec (gauge g) s = (.ok x, s')) : Books f a made s' := by
  obtain ⟨ledger, st, hbook, ⟨_, rfl, htask⟩, _, rfl, hstate⟩ := hs
  obtain rfl := Option.some.inj ((snapshot?_of_state hstate).symm.trans hv)
  rename_i ledger st
  rw [exec_gauge htask] at hx
  have hleaves : g.Leaves
      (fun point => Ledger.request f.objective (Ledger.gradient f.objective) (Tensor.ofArray point))
      (fun _ l => True ∧ made s.iterations st l) (fun _ => True) ledger := by
    refine Yields.leaves hg ?_ (fun _ _ _ _ _ _ _ => trivial) (fun _ _ => trivial) hbook
    rintro _ l x l' rfl hl hrequest
    exact ⟨trivial, h.ask hasked hl hrequest⟩
  rcases hr : gauged (a.task ledger).objective g (a.task ledger).ledger with ⟨e | y, left⟩
  · simp [hr] at hx
  · rw [hr] at hx
    cases hx
    exact ⟨left, st, (hleaves.ok hr).2, ⟨left, rfl, rfl⟩, st, rfl, hstate⟩

/-- At the end of a run the books are closed, and if the criterion has ended it they might have been
continued. -/
theorem chronicle {visit : Snapshot R → Nat → σ → σ} {start final : Solver m × σ}
    {turns : List (Turn m σ)} {finish : Finish R}
    (hc : Chronicle criterion? (.onlooker visit) start turns finish final)
    (hbundled : ∀ c ∈ criterion?, c.Bundled) (hs : Books f a going start.1) :
    Closes f a closed final.1 ∧ ∀ c, finish.cause = .criterion c → Books f a made final.1 := by
  induction hc using Chronicle.rec_turns with
  | idle hc =>
      obtain ⟨-, rfl, -⟩ := chronicle_nil.mp hc
      exact ⟨hs.closes h.ends, nofun⟩
  | ends t hc ht hend =>
      obtain ⟨hclosed, hmade⟩ := h.iterate hs ht.step
      rw [← ht.after_onlooker] at hclosed hmade
      cases hend with
      | method hover => exact ⟨hclosed, nofun⟩
      | @criterion c measured final hasked hstop =>
          obtain ⟨hrun, -, s₁, s₂, hholds, hmeasure, hfinal⟩ := hstop
          obtain ⟨hlive, hcount⟩ := ht.snapshot_after
          have hne : criterion? ≠ none := by simp [hasked]
          have hb := hbundled c hasked
          have h₁ := h.gauge hne (hmade hrun) hlive hb.holds_looksAt hholds
          have hlive₁ : s₁.snapshot? = some t.view := by
            have hkept := keeps_bare_gauge (c.holds t.view t.made.iterations) t.after.1
            rw [hholds] at hkept
            exact (snapshot?_of_bare hkept).trans hlive
          have h₂ := h.gauge hne h₁ hlive₁ hb.measure_looksAt hmeasure
          have hbooks : Books f a made final.1 := by
            obtain ⟨ledger, st, hbook, hupholds⟩ := h₂
            rw [hfinal]
            exact ⟨ledger, st, hbook, ⟨hupholds.task, hupholds.state⟩⟩
          exact ⟨hbooks.closes fun hbook => h.ends (h.goes hbook), fun _ _ => hbooks⟩
  | leads t next turns hc ht hlead hrest ih =>
      obtain ⟨-, hmade⟩ := h.iterate hs ht.step
      rw [← ht.after_onlooker] at hmade
      have hnext : Books f a made next.1 := by
        obtain ⟨hrun, -, hnext⟩ := hlead
        cases criterion? with
        | none => exact hnext ▸ hmade hrun
        | some c =>
            exact h.gauge nofun (hmade hrun) ht.snapshot_after.1 (hbundled c rfl).holds_looksAt hnext
      exact ih (hnext.mono h.goes)

/-- The books of a run are those of its results. -/
theorem of_solve {order : Order R} {visit : Snapshot R → Nat → σ → σ} {seen : σ} {r : Results R}
    {final : Solver m × σ} (hasked : criterion? = asked? m order)
    (hbundled : ∀ c ∈ order.criterion?, c.Bundled) (ha : s.acceptOrder f.n order = .ok a)
    (hr : exec (solve f order visit) (s, seen) = (.ok r, final)) :
    ∃ l : Ledger R f.n, r.evaluations = ⟨l.values, l.gradients, l.hessians⟩ ∧
      closed r.iterations l ∧ ∀ c, r.cause = .criterion c → ∃ st, made r.iterations st l := by
  obtain ⟨a', first, s₀, turns, finish, last, ha', hl, -, hc, hrecounts, -⟩ :=
    chronicle_of_exec_solveWatched hr
  obtain rfl : a = a' := Except.ok.inj (ha.symm.trans ha')
  rw [← hasked] at hc
  have hb : ∀ c ∈ criterion?, c.Bundled := by
    intro c hmem
    rw [hasked, asked?] at hmem
    split at hmem
    · cases hmem
    · exact hbundled c hmem
  obtain ⟨⟨l, hclosed, htask⟩, hmade⟩ := h.chronicle hc hb (h.launch hl)
  obtain ⟨t, ht, hevaluations⟩ := hrecounts.evaluations
  obtain rfl : a.task l = t := by simpa [htask] using ht
  obtain ⟨-, hzero, -⟩ := exec_launch_ok hl
  obtain ⟨-, hcount, -⟩ := hc.kept
  have hiterations : last.1.iterations = r.iterations := by
    rw [hcount, hzero, hrecounts.iterations, Nat.zero_add]
  rw [hiterations] at hclosed
  refine ⟨l, hevaluations, hclosed, fun c hcause => ?_⟩
  obtain ⟨l', st, hbook, ⟨_, rfl, htask'⟩, -⟩ := hmade c (hrecounts.cause ▸ hcause)
  rw [htask] at htask'
  cases htask'
  exact ⟨st, hiterations ▸ hbook⟩

end Audits

/-- A gauge that looks at the current point only, whose gradient is remembered, costs nothing. -/
theorem exec_gauge_remembered {l : Ledger R f.n} {st : m.State f.n} {v : Snapshot R}
    {x : Vector R f.n} {y : Array R} (hf : f.objective.RespectsEquality)
    (hl : l.Truthful f.objective) (hs : StandsWith f a l st s) (hx : v.point = x.toArray)
    (hy : Ledger.remembered? l.lastGradient x = some y) {g : Gauge R α}
    (hg : Criterion.LooksAt v g) :
    ∃ s', exec (gauge g) s = (g.read (plainGauge f.objective), s') ∧ StandsWith f a l st s' := by
  obtain ⟨⟨l', hl', htask⟩, hstate⟩ := hs
  subst l'
  have hleaves : g.Leaves
      (fun point => Ledger.request f.objective (Ledger.gradient f.objective) (Tensor.ofArray point))
      (fun _ left => True ∧ left = l) (fun left => left = l) l := by
    have hkept {r : Attempt R (Array R)} {left : Ledger R f.n} (h : Ledger.request f.objective
        (Ledger.gradient f.objective) (Tensor.ofArray v.point) l = (r, left)) : left = l := by
      rw [hx, Ledger.request_at, Ledger.serve_remembered (k := .gradient) hy] at h
      exact (Prod.mk.inj h).2.symm
    refine Yields.leaves (I := fun left => left = l) hg ?_ ?_ (fun _ h => h) rfl
    · rintro _ _ r left rfl rfl h
      exact ⟨trivial, hkept h⟩
    · rintro _ _ e left rfl rfl h
      exact hkept h
  have hleft : (gauged f.objective g l).2 = l := by
    rcases hr : gauged f.objective g l with ⟨e | r, left⟩
    · exact hleaves.error hr
    · exact (hleaves.ok hr).2
  refine ⟨_, (exec_gauge htask g).trans (Prod.ext (gauged_truthful hf g hl).1 rfl), ?_⟩
  exact ⟨⟨_, hleft, rfl⟩, hstate⟩

end Solver

/-! ## The books of the methods -/

theorem Snapshot.same_point_self [Scalar.Ordered R] {v : Snapshot R} (hv : v.isFinite = true)
    {x : Vector R n} (hx : v.point = x.toArray) : Linear.same x x = true := by
  have hpoint : v.point.all Scalar.isFinite = true := by
    simp only [isFinite, points, List.all_cons, Bool.and_eq_true] at hv
    exact hv.2.1
  rw [hx, Array.all_eq_true] at hpoint
  rw [Linear.same_iff]
  intro i hi
  exact Scalar.Ordered.beq_self (Scalar.Lawful.defined_of_finite (hpoint i (by simpa using hi)))

/-- Every method wraps the state that its own step makes. -/
theorem leaves_wrapped {S : Type} {f : Objective R n} {l : Ledger R n}
    {book : S → Ledger R n → Prop} {closed : Ledger R n → Prop} {d : Consult R n (S × Status)}
    (hd : d.Leaves (Ledger.answer f)
      (fun r l' => closed l' ∧ (r.2 = .running → book r.1 l')) closed l) :
    (do
      let (next, status) ← d
      return (Produced.state next, status) : Consult R n (Produced S × Status)).Leaves
      (Ledger.answer f)
      (fun r l' => closed l' ∧ ∀ next, r = (.state next, .running) → book next l') closed l := by
  refine leaves_bind hd ?_
  rintro ⟨next, status⟩ l' ⟨hclosed, hbook⟩
  refine leaves_pure ⟨hclosed, ?_⟩
  rintro _ ⟨⟩
  exact hbook rfl

/-- No Hessian has been evaluated, and no more than `b` gradients. -/
structure Ledger.Frugal (f : Objective R n) (b : Nat) (l : Ledger R n) : Prop where
  truthful : l.Truthful f
  gradients : l.gradients ≤ b
  hessians : l.hessians = 0

namespace Ledger

variable {f : Objective R n} {l l' : Ledger R n} {b b' : Nat}

theorem frugal_empty (f : Objective R n) : Frugal f 0 {} :=
  ⟨truthful_empty f, Nat.le_refl 0, rfl⟩

theorem Frugal.mono (h : Frugal f b l) (hb : b ≤ b') : Frugal f b' l :=
  ⟨h.truthful, h.gradients.trans hb, h.hessians⟩

theorem Frugal.spent_of_agreeBut (h : Frugal f b l) (hagree : l.AgreeBut .value l') :
    l'.gradients ≤ b ∧ l'.hessians = 0 :=
  ⟨(hagree .gradient nofun).1.le.trans h.gradients, (hagree .hessian nofun).1.trans h.hessians⟩

theorem Frugal.of_agreeBut (h : Frugal f b l) (htrue : l'.Truthful f)
    (hagree : l.AgreeBut .value l') : Frugal f b l' :=
  ⟨htrue, (h.spent_of_agreeBut hagree).1, (h.spent_of_agreeBut hagree).2⟩

end Ledger

/-- A first state that is made of the iterate at the start. -/
theorem leaves_started {S : Type} {f : Objective R n} (hf : f.RespectsEquality) (newton : Bool)
    (iterate : S → Iterate R n) (wrap : Iterate R n → S) (hwrap : ∀ it, iterate (wrap it) = it)
    (x : Vector R n) :
    (do return .state (wrap (← Iterate.start x)) : Consult R n (Produced S)).Leaves
      (Ledger.answer f)
      (fun p l => ∀ st, p = .state st → (iterate st).Abreast f newton 0 l) (fun _ => True) {} := by
  refine leaves_bind (Iterate.start_leaves hf x) fun it l hlevel => leaves_pure ?_
  rintro _ ⟨⟩
  exact (hwrap it).symm ▸ hlevel.1.abreast hlevel.2 newton

namespace Solver

/-- What a run with the method has evaluated that has made so many steps and ended for this cause. -/
structure Accounts (o : Offer) (steps : Nat) (cause : StopCause R) (e : Evaluations) : Prop where
  along : (o.method : Method R).usesLineSearch = true →
    steps ≤ e.gradients ∧ e.gradients ≤ steps + 1
  /-- The last point has a gradient too, and asking for it again is free. -/
  stopped : (o.method : Method R).usesLineSearch = true → ∀ c, cause = .criterion c →
    e.gradients = steps + 1
  newton : o = .newton → e.hessians = steps
  others : o ≠ .newton → e.hessians = 0
  fixed : o = .gradientDescent →
    steps ≤ e.gradients ∧ e.gradients ≤ e.values ∧ e.values ≤ steps + 1
  simplex : o = .nelderMead → e.gradients ≤ steps
  pattern : o = .hookeJeeves → e.gradients = 0

section

variable [Scalar.Ordered R] {m : Method R} {σ : Type} {f : Subject R} {a : Accepted R f.n}
  {order : Order R} {visit : Snapshot R → Nat → σ → σ} {r : Results R}

/-- The books of a method along a line; the criterion finds the gradient remembered. -/
theorem audits_along (newton : Bool) (iterate : m.State f.n → Iterate R f.n)
    (hview : ∀ st, (m.view st).point = (iterate st).point.toArray)
    (hstart : (m.start (a.situation f.objective.name) (a.region.project a.start)).Leaves
      (Ledger.answer f.objective)
      (fun p l => ∀ st, p = .state st → (iterate st).Abreast f.objective newton 0 l)
      (fun _ => True) {})
    (hstep : ∀ {k st l}, (iterate st).Abreast f.objective newton k l →
      (m.step (a.situation f.objective.name) k st).Leaves (Ledger.answer f.objective)
        (fun r l' => LineStep.Spent newton (k + 1) l' ∧ ∀ next, r = (.state next, .running) →
          (iterate next).Abreast f.objective newton (k + 1) l')
        (LineStep.Spent newton (k + 1)) l) :
    Audits (m := m) f a (asked? m order)
      (fun k st l => (iterate st).Abreast f.objective newton k l)
      (fun k st l => (m.view st).isFinite = true ∧ (iterate st).Abreast f.objective newton k l)
      (LineStep.Spent newton) where
  start := hstart
  step h := (hstep h).mono (fun _ _ hr => ⟨hr.1, fun next hnext hfinite =>
    ⟨hfinite, hr.2 next hnext⟩⟩) fun _ h => h
  ask := by
    rintro - k st l g l' ⟨hfinite, hbook⟩ hrequest
    obtain ⟨g', hg⟩ := hbook.gradient
    have hsame := Snapshot.same_point_self hfinite (hview st)
    have hm : Ledger.remembered? (l.last .gradient) (iterate st).point = some g' := by
      rw [hg, Ledger.remembered?, if_pos hsame]
    rw [hview, Ledger.request_at, Ledger.serve_remembered hm] at hrequest
    cases hrequest
    exact ⟨hfinite, hbook⟩
  goes h := h.2
  ends h := h.spent

/-- With a fixed step no criterion is asked. -/
theorem audits_gradientDescent (hf : f.objective.RespectsEquality) :
    Audits (m := GradientDescent.method) f a none (fun k it l => it.Level f.objective k l)
      (fun k it l => it.Level f.objective k l) GradientDescent.Spent where
  start := by
    refine leaves_bind (Iterate.start_leaves hf _) fun it l hlevel => leaves_pure ?_
    rintro _ ⟨⟩
    exact hlevel.1
  step := by
    intro k it l hlevel
    refine leaves_bind (GradientDescent.step_spends hf hlevel) ?_
    rintro ⟨next, status⟩ l' ⟨hspent, hlevel'⟩
    refine leaves_pure ⟨hspent, ?_⟩
    rintro _ ⟨⟩ hfinite
    have hvalue : Scalar.isFinite next.value = true := (Bool.and_eq_true_iff.mp hfinite).1
    exact hlevel' rfl hvalue
  ask hne := absurd rfl hne
  goes h := h
  ends h := GradientDescent.spent_of_level h

/-- The simplex method asks for values only, and the criterion for one gradient at each point. -/
theorem audits_nelderMead (hf : f.objective.RespectsEquality) :
    Audits (m := NelderMead.method) f a (asked? NelderMead.method order)
      (fun k _ l => l.Frugal f.objective k)
      (fun k st l => l.Frugal f.objective k ∧ (NelderMead.method.view st).isFinite = true ∧
        (l.gradients < k ∨ ∃ g, Ledger.remembered? (l.last .gradient)
          (NelderMead.Simplex.best (NelderMead.State.simplex st)).point = some g))
      (fun k l => l.gradients ≤ k ∧ l.hessians = 0) where
  start := by
    have hstart : (NelderMead.start (a.situation f.objective.name)
        (a.region.project a.start)).ByValues fun _ => True := NelderMead.start_byValues _
    refine leaves_bind ((hstart.leaves hf (Ledger.truthful_empty _)).mono (fun _ _ h => h)
      fun _ _ => trivial) ?_
    rintro st l ⟨-, htrue, hagree⟩
    refine leaves_pure fun _ _ => ?_
    exact (Ledger.frugal_empty f.objective).of_agreeBut htrue hagree
  step := by
    intro k st l h
    have hstep := (NelderMead.step_keeps (s := a.situation f.objective.name) st).leaves hf h.truthful
    refine leaves_bind (hstep.mono (fun _ _ h => h) fun l' hagree => ?_) ?_
    · exact (h.mono (Nat.le_succ k)).spent_of_agreeBut hagree
    rintro ⟨next, status⟩ l' ⟨-, htrue, hagree⟩
    have hfrugal := (h.of_agreeBut htrue hagree).mono (Nat.le_succ k)
    refine leaves_pure ⟨⟨hfrugal.gradients, hfrugal.hessians⟩, fun _ _ hfinite => ?_⟩
    exact ⟨hfrugal, hfinite, .inl (Nat.lt_succ_of_le (h.of_agreeBut htrue hagree).gradients)⟩
  ask := by
    rintro - k st l g l' ⟨hfrugal, hfinite, hallowed⟩ hrequest
    have hview : ((NelderMead.method : Method R).view st).point =
        (NelderMead.Simplex.best (NelderMead.State.simplex st)).point.toArray := rfl
    have hsame := Snapshot.same_point_self hfinite hview
    rw [hview, Ledger.request_at] at hrequest
    cases hm : Ledger.remembered? (l.last .gradient)
        (NelderMead.Simplex.best (NelderMead.State.simplex st)).point with
    | some g' =>
        rw [Ledger.serve_remembered hm] at hrequest
        cases hrequest
        exact ⟨hfrugal, hfinite, hallowed⟩
    | none =>
        -- the first look at this point is counted, and the next ones find its gradient
        have hless : l.gradients < k := by
          rcases hallowed with hless | ⟨g', hg'⟩
          · exact hless
          · rw [hm] at hg'
            cases hg'
        cases hevaluate : Ledger.evaluate f.objective .gradient
            (NelderMead.Simplex.best (NelderMead.State.simplex st)).point with
        | error e =>
            rw [Ledger.serve_error hm hevaluate] at hrequest
            cases hrequest
        | ok g' =>
            have htrue := (Ledger.serve_truthful (k := .gradient)
              (x := (NelderMead.Simplex.best (NelderMead.State.simplex st)).point)
              hf hfrugal.truthful).2
            rw [Ledger.serve_ok hm hevaluate] at hrequest htrue
            cases hrequest
            refine ⟨⟨htrue, hless, hfrugal.hessians⟩, hfinite, .inr ⟨g, ?_⟩⟩
            rw [Ledger.last_keeping, Ledger.remembered?, if_pos hsame]
  goes h := h.1
  ends h := ⟨h.gradients, h.hessians⟩

/-- Pattern search asks for values only, and no criterion is asked. -/
theorem audits_hookeJeeves (hf : f.objective.RespectsEquality) :
    Audits (m := HookeJeeves.method) f a none (fun _ _ l => l.Frugal f.objective 0)
      (fun _ _ l => l.Frugal f.objective 0) (fun _ l => l.gradients ≤ 0 ∧ l.hessians = 0) where
  start := by
    have hstart : ((HookeJeeves.method : Method R).start (a.situation f.objective.name)
        (a.region.project a.start)).ByValues fun _ => True :=
      yields_question_bind trivial fun _ _ => yields_lift_bind fun _ _ => yields_pure trivial
    refine (hstart.leaves hf (Ledger.truthful_empty _)).mono ?_ fun _ _ => trivial
    rintro p l ⟨-, htrue, hagree⟩ st -
    exact (Ledger.frugal_empty f.objective).of_agreeBut htrue hagree
  step := by
    intro k st l h
    have hstep :=
      (HookeJeeves.step_shifts (s := a.situation f.objective.name) k st).leaves hf h.truthful
    refine leaves_bind (hstep.mono (fun _ _ h => h) fun l' hagree => ?_) ?_
    · exact h.spent_of_agreeBut hagree
    rintro ⟨next, status⟩ l' ⟨-, htrue, hagree⟩
    have hfrugal := h.of_agreeBut htrue hagree
    exact leaves_pure ⟨⟨hfrugal.gradients, hfrugal.hessians⟩, fun _ _ _ => hfrugal⟩
  ask hne := absurd rfl hne
  goes h := h
  ends h := ⟨h.gradients, h.hessians⟩

omit [Scalar.Ordered R] in
/-- The account of a method along a line is read off its books. -/
theorem accounts_along {o : Offer} (hline : (o.method : Method R).usesLineSearch = true)
    (newton : Bool) (hnewton : newton = true ↔ o = .newton)
    (iterate : (o.method : Method R).State f.n → Iterate R f.n)
    (h : Audits (m := o.method) f a (asked? o.method order)
      (fun k st l => (iterate st).Abreast f.objective newton k l)
      (fun k st l => (o.method.view st).isFinite = true ∧
        (iterate st).Abreast f.objective newton k l) (LineStep.Spent newton))
    (hbundled : ∀ c ∈ order.criterion?, c.Bundled) {s : Solver (o.method : Method R)} {seen : σ}
    {final : Solver (o.method : Method R) × σ} (ha : s.acceptOrder f.n order = .ok a)
    (hr : exec (solve f order visit) (s, seen) = (.ok r, final)) :
    Accounts o r.iterations r.cause r.evaluations := by
  obtain ⟨l, hevaluations, ⟨hleast, hmost, hhessians⟩, hstopped⟩ := h.of_solve rfl hbundled ha hr
  rw [hevaluations]
  refine ⟨fun _ => ⟨hleast, hmost⟩, fun _ c hc => ?_, fun ho => ?_, fun ho => ?_, ?_, ?_, ?_⟩
  · obtain ⟨st, -, hbook⟩ := hstopped c hc
    exact hbook.gradients
  · rwa [if_pos (hnewton.mpr ho)] at hhessians
  · rwa [if_neg (mt hnewton.mp ho)] at hhessians
  all_goals
    rintro rfl
    cases hline

/-- On an objective that does not tell equal points apart, with a bundled criterion and an onlooker,
the evaluations that a returning run reports are bounded by its steps. Along a line every step that
goes on leads to a new point, whose gradient is evaluated once, whatever the criterion asks; Newton's
method evaluates one Hessian a step, and the others none. -/
theorem evaluations_accounted {o : Offer} (hf : f.objective.Congruent)
    (hbundled : ∀ c ∈ order.criterion?, c.Bundled) {s : Solver (o.method : Method R)} {seen : σ}
    {final : Solver (o.method : Method R) × σ}
    (hr : exec (solve f order visit) (s, seen) = (.ok r, final)) :
    Accounts o r.iterations r.cause r.evaluations := by
  have hrespect := hf.respectsEquality
  obtain ⟨a, -, -, -, -, -, ha, -⟩ := chronicle_of_exec_solveWatched hr
  have hconjugate (formula? : Option (Setting R)) :
      Audits (m := ConjugateGradient.method formula?) f a
        (asked? (ConjugateGradient.method formula?) order)
        (fun k st l => (ConjugateGradient.State.iterate st).Abreast f.objective false k l)
        (fun k st l => ((ConjugateGradient.method formula?).view st).isFinite = true ∧
          (ConjugateGradient.State.iterate st).Abreast f.objective false k l)
        (LineStep.Spent false) :=
    audits_along false _ (fun _ => rfl) (leaves_started hrespect false _ _ (fun _ => rfl) _)
      fun h => leaves_wrapped (ConjugateGradient.step_spends hrespect h)
  cases o with
  | gradientDescent =>
      obtain ⟨l, hevaluations, ⟨hleast, hordered, hmost, hhessians⟩, -⟩ :=
        (audits_gradientDescent hrespect).of_solve rfl hbundled ha hr
      rw [hevaluations]
      exact ⟨nofun, nofun, nofun, fun _ => hhessians, fun _ => ⟨hleast, hordered, hmost⟩, nofun,
        nofun⟩
  | steepestDescent =>
      refine accounts_along rfl false (by simp) (fun it => it) ?_ hbundled ha hr
      exact audits_along false _ (fun _ => rfl)
        (leaves_started hrespect false _ (fun it => it) (fun _ => rfl) _)
        fun h => leaves_wrapped (SteepestDescent.step_spends hrespect h)
  | conjugateGradient => exact accounts_along rfl false (by simp) _ (hconjugate _) hbundled ha hr
  | fletcherReeves => exact accounts_along rfl false (by simp) _ (hconjugate _) hbundled ha hr
  | polakRibiere => exact accounts_along rfl false (by simp) _ (hconjugate _) hbundled ha hr
  | newton =>
      refine accounts_along rfl true (by simp) Newton.State.iterate ?_ hbundled ha hr
      exact audits_along true _ (fun st => by rcases st with ⟨it, _ | _⟩ <;> rfl)
        (leaves_started hrespect true Newton.State.iterate (Newton.State.mk · none) (fun _ => rfl) _)
        fun h => leaves_wrapped (Newton.step_spends hrespect h)
  | quasiNewton =>
      refine accounts_along rfl false (by simp) QuasiNewton.State.iterate ?_ hbundled ha hr
      exact audits_along false _ (fun _ => rfl)
        (leaves_started hrespect false QuasiNewton.State.iterate
          (QuasiNewton.State.mk · (Linear.Square.identity _) false) (fun _ => rfl) _)
        fun h => leaves_wrapped (QuasiNewton.step_spends hrespect h)
  | nelderMead =>
      obtain ⟨l, hevaluations, ⟨hgradients, hhessians⟩, -⟩ :=
        (audits_nelderMead hrespect).of_solve rfl hbundled ha hr
      rw [hevaluations]
      exact ⟨nofun, nofun, nofun, fun _ => hhessians, nofun, fun _ => hgradients, nofun⟩
  | hookeJeeves =>
      obtain ⟨l, hevaluations, ⟨hgradients, hhessians⟩, -⟩ :=
        (audits_hookeJeeves hrespect).of_solve rfl hbundled ha hr
      rw [hevaluations]
      exact ⟨nofun, nofun, nofun, fun _ => hhessians, nofun, nofun,
        fun _ => Nat.le_zero.mp hgradients⟩

end

/-- Steepest descent makes one step on the ramp, where the gradient is one everywhere, and is stopped
there: the criterion looks at the gradient twice, and there are two in all. -/
theorem ramp_accounted :
    ∃ (r : Results ℝ) (final : Solver (SteepestDescent.method : Method ℝ) × Unit),
      exec (solve ramp (rampOrder [] (.gradientNorm 2)) fun _ _ _ => ())
        (new SteepestDescent.method none, ()) = (.ok r, final) ∧
      r.evaluations.gradients = 2 ∧
      Accounts .steepestDescent r.iterations r.cause r.evaluations := by
  obtain ⟨it, hfoot, hstart⟩ := ramp_start
  obtain ⟨next, hstep, hvalue, hpoint⟩ := ramp_step hfoot
  have hlength : Linear.norm (#[1] : Array ℝ).toVector = 1 := by
    have hone := norm_line #v[1]
    simpa [Vector.get] using hone
  have hholds : ((Criterion.gradientNorm 2).holds
      ((SteepestDescent.method : Method ℝ).view next) 1).read (plainGauge ramp.objective) =
      .ok true := by
    rw [read_holds_gradientNorm rfl rfl, hlength]
    norm_num
  obtain ⟨-, r, final, -, hrun, -, hcause, hone, -⟩ :=
    exec_solve_of_first_stop (Objective.respectsEquality_real ramp.objective) rfl
      (ramp_accepts (acceptOptions_nil (Offer.presettable .steepestDescent) _) _) (by decide) hstart
      (Snapshot.isFinite_real _) (Dialogue.read_bind_of_ok hstep)
      (classify_of_within (ramp_within hvalue hpoint)) hholds (read_measure_gradientNorm rfl rfl 2)
      (fun _ _ _ => ()) ()
  have hbundled : ∀ c ∈ (rampOrder [] (.gradientNorm 2)).criterion?, c.Bundled := by
    rintro _ ⟨⟩
    exact .gradientNorm 2
  have haccounts := evaluations_accounted (o := .steepestDescent)
    (Session.congruent_real ramp.objective) hbundled hrun
  refine ⟨r, final, hrun, ?_, haccounts⟩
  rw [haccounts.stopped rfl _ hcause, hone]

end Solver

end Minima
