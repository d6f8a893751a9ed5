import Minima.Proofs.EvaluationCounts
import Minima.Proofs.LimitedRuns
import Minima.Proofs.RealVectors
import Minima.Proofs.Simulation

/-!
# Conjugate gradients that always restart

A direction that starts anew after every step is the negative gradient, so over the reals conjugate
gradients make the steps of steepest descent. The two methods share the options of the search; those
that only conjugate gradients know have to ask for a known formula and for a restart after every step.
Everything else about the two runs may be anything: the objective may fail, the options may be refused,
and the criterion may be any that sees of a gradient method what every gradient method shows.
-/

namespace Minima

variable {R : Type}

/-! ## Options that agree -/

namespace Options

variable {options options' : Options R} {key : String}

theorem get_update_congr (more : Options R) (h : options.get key = options'.get key) :
    (options.update more).get key = (options'.update more).get key := by
  induction more generalizing options options' with
  | nil => exact h
  | cons o more ih =>
      refine ih ?_
      by_cases hkey : key = o.1
      · subst hkey
        rw [get, get, get?_put_self, get?_put_self]
      · rw [get, get, get?_put_of_ne hkey, get?_put_of_ne hkey]
        exact h

/-- Whether other options are left out makes no difference to an option. -/
theorem get_update_filter (more : Options R) {p q : String × Setting R → Bool}
    (h : ∀ value, p (key, value) = q (key, value)) :
    (options.update (more.filter p)).get key = (options.update (more.filter q)).get key := by
  induction more generalizing options with
  | nil => rfl
  | cons o more ih =>
      obtain ⟨name, value⟩ := o
      by_cases hkey : key = name
      · subst hkey
        rw [List.filter_cons, List.filter_cons, h value]
        cases q (key, value) with
        | false => exact ih
        | true => exact ih
      · -- an option of another name is not seen, whether it is kept or not
        have hskip (r : String × Setting R → Bool) :
            (options.update (((name, value) :: more).filter r)).get key =
              (options.update (more.filter r)).get key := by
          rw [List.filter_cons]
          cases r (name, value) with
          | false => rfl
          | true =>
              refine get_update_congr (more.filter r) ?_
              rw [get, get, get?_put_of_ne hkey]
        rw [hskip p, hskip q, ih]

variable {defaults more given : Options R} {names : List String}

def without (given : Options R) (names : List String) : Options R :=
  given.filter fun o => o.1 ∉ names

theorem mem_keys_without : key ∈ (given.without names).keys ↔ key ∈ given.keys ∧ key ∉ names := by
  simp only [keys, without, List.mem_map, List.mem_filter, decide_eq_true_eq]
  constructor
  · rintro ⟨o, ⟨ho, hnot⟩, rfl⟩
    exact ⟨⟨o, ho, rfl⟩, hnot⟩
  · rintro ⟨⟨o, ho, rfl⟩, hnot⟩
    exact ⟨o, ⟨ho, hnot⟩, rfl⟩

/-- More options with defaults of their own change nothing about the others. -/
theorem merged_agree (hmore : ∀ key ∈ more.keys, key ∈ names) (given : Options R) :
    AgreeBut names (defaults.merged (given.without names))
      ((defaults.update more).merged given) := by
  intro key hkey
  have hout : key ∉ more.keys := fun h => hkey (hmore key h)
  have hknown : (defaults.update more).has key = defaults.has key := by
    rw [Bool.eq_iff_iff, has_eq_true_iff, has_eq_true_iff, mem_keys_update]
    exact or_iff_left hout
  rw [merged, merged, without, List.filter_filter]
  calc (defaults.update (given.filter _)).get key
      = (defaults.update (given.filter fun o => (defaults.update more).has o.1)).get key :=
        get_update_filter given fun value => by simp [hkey, hknown]
    _ = ((defaults.update more).update _).get key :=
        get_update_congr _ (get_update_of_not_mem hout).symm

end Options

namespace LineStep

variable [Scalar R] {n : Nat} {names : List String} {options options' : Options R}
  {s s' : Situation R n}

/-- The options that a step along a line and the checks before it read. -/
def readKeys : List String :=
  ["line_search", "alpha0", "tau", "c1", "max_backtracking", "min_alpha", "line_search_tol",
    "line_search_max_iter", "line_search_max_step", "fallback_alpha", "step_tol", "f_tol"]

/-- The checks of a search do not see other options. -/
theorem checked_iff_of_agree (h : Options.AgreeBut names options options')
    (hnames : ∀ key ∈ readKeys, key ∉ names) : Checked options ↔ Checked options' := by
  have hrange (key : String) (hkey : key ∈ readKeys) (range : OptionRange) :
      options.InRange range key ↔ options'.InRange range key := h.inRange (hnames key hkey) range
  have hpositive : (∀ key ∈ ["alpha0", "line_search_max_step", "fallback_alpha", "line_search_tol"],
      options.InRange .positive key) ↔
      ∀ key ∈ ["alpha0", "line_search_max_step", "fallback_alpha", "line_search_tol"],
        options'.InRange .positive key := by
    refine forall₂_congr fun key hkey => hrange key ?_ .positive
    simp only [List.mem_cons, List.not_mem_nil, or_false] at hkey
    rcases hkey with rfl | rfl | rfl | rfl <;> decide
  have hsearch := h "line_search" (hnames _ (by decide))
  have htau := hrange "tau" (by decide) .betweenZeroAndOne
  constructor
  · rintro ⟨hname, hall, hreduction⟩
    exact ⟨hsearch ▸ hname, hpositive.mp hall, htau.mp hreduction⟩
  · rintro ⟨hname, hall, hreduction⟩
    exact ⟨hsearch ▸ hname, hpositive.mpr hall, htau.mpr hreduction⟩

/-- A step along a line does not see other options. -/
theorem descend_of_agree (h : Options.AgreeBut names s.options s'.options)
    (hnames : ∀ key ∈ readKeys, key ∉ names) (hregion : s.region = s'.region)
    (it : Iterate R n) (p : Vector R n) : descend s it p = descend s' it p := by
  have hget (key : String) (hkey : key ∈ readKeys) : s.options.get key = s'.options.get key :=
    h key (hnames key hkey)
  have hname : searchName s.options = searchName s'.options := by
    rw [searchName, searchName, hget "line_search" (by decide)]
  have hgiven : backtrackingOptions s.options it p = backtrackingOptions s'.options it p := by
    rw [backtrackingOptions, backtrackingOptions, hget "alpha0" (by decide),
      hget "tau" (by decide), hget "c1" (by decide), hget "max_backtracking" (by decide),
      hget "min_alpha" (by decide)]
  have hsearch : searchAlong s it p = searchAlong s' it p := by
    simp only [searchAlong, Options.whole, Options.real, hname, hgiven, hregion,
      hget "max_backtracking" (by decide), hget "line_search_max_iter" (by decide),
      hget "line_search_max_step" (by decide), hget "line_search_tol" (by decide)]
  have hstagnates : stagnates s.options it = stagnates s'.options it := by
    funext x value
    simp only [stagnates, Options.real, hget "step_tol" (by decide), hget "f_tol" (by decide)]
  simp only [descend, Options.real, hsearch, hstagnates, hregion,
    hget "fallback_alpha" (by decide)]

end LineStep

/-! ## Steps that restart -/

theorem SteepestDescent.method_step [Scalar R] {n : Nat} (s : Situation R n) (count : Nat)
    (it : (method : Method R).State n) :
    (method : Method R).step s count it = (fun r => (.state r.1, r.2)) <$> step s it := by
  simp only [method, map_eq_pure_bind]

namespace ConjugateGradient

def ownKeys : List String := ["beta_formula", "restart_every"]

theorem readKeys_shared : ∀ key ∈ LineStep.readKeys, key ∉ ownKeys := by decide

/-- In `n` dimensions the options ask for a known formula and for a restart after every step. -/
structure AlwaysRestarts [Scalar R] (options : Options R) (n : Nat) : Prop where
  formula : ∃ formula, options.get "beta_formula" = .ok formula ∧
    (formula.isText fletcherReeves || formula.isText polakRibiere) = true
  restart : ∃ every, options.whole "restart_every" = .ok every ∧
    (every = 1 ∨ every = 0 ∧ n = 1)

/-- An iterate about to be left along its negative gradient. -/
def facing [Scalar R] {n : Nat} (it : Iterate R n) : State R n :=
  { iterate := it, direction := -it.gradient, beta := 0.0, restarted := true }

theorem downhill_facing [Scalar R] {n : Nat} (it : Iterate R n) :
    downhill (facing it) = -it.gradient := by
  unfold downhill facing
  split
  · rfl
  · rfl

theorem AlwaysRestarts.period_eq [Scalar R] {options : Options R} {n : Nat}
    (h : AlwaysRestarts options n) : period options n = .ok 1 := by
  obtain ⟨every, hevery, rfl | ⟨rfl, rfl⟩⟩ := h.restart
  · rw [period, hevery]
    rfl
  · rw [period, hevery]
    rfl

variable {n : Nat} {formula? : Option (Setting ℝ)}

theorem method_step (s : Situation ℝ n) (count : Nat) (st : State ℝ n) :
    (method formula?).step s count st = (fun r => (.state r.1, r.2)) <$> step s count st := by
  simp only [method, map_eq_pure_bind]

theorem restarted_direction (g d : Vector ℝ n) {beta : ℝ} (h : beta = 0) : -g + beta * d = -g := by
  ext i hi
  simp [h]

theorem liftM_ok {Q E α : Type} {A : Q → Type} (a : α) :
    (liftM (.ok a : Except E α) : Dialogue Q A E α) = pure a := rfl

/-- With a restart after every step, a step from the negative gradient is one of steepest descent. -/
theorem step_facing {s s' : Situation ℝ n} (hs : Options.AgreeBut ownKeys s.options s'.options)
    (hregion : s.region = s'.region) (hrestarts : AlwaysRestarts s'.options n) (count : Nat)
    (it : Iterate ℝ n) :
    step s' count (facing it) = (fun r => (facing r.1, r.2)) <$> SteepestDescent.step s it := by
  have hsame : LineStep.descend s' it (-it.gradient) = LineStep.descend s it (-it.gradient) :=
    (LineStep.descend_of_agree hs readKeys_shared hregion it _).symm
  unfold step SteepestDescent.step
  rw [downhill_facing, map_bind]
  dsimp only [facing]
  rw [hsame]
  refine bind_congr fun r => ?_
  obtain ⟨_ | next, status⟩ := r
  · rfl
  · dsimp only
    have hdue : decide (((count + 1 : Nat) : Int) % 1 = 0) = true := by simp
    rw [hrestarts.period_eq, liftM_ok, pure_bind, if_pos hdue, hdue, pure_bind,
      restarted_direction _ _ RealScalar.zero_literal]
    rfl

end ConjugateGradient

/-! ## Runs -/

/-- The snapshots show one point with one value, and the same of what every gradient method shows. -/
structure Snapshot.DescentAlike (v v' : Snapshot R) : Prop where
  value : v.value = v'.value
  point : v.point = v'.point
  others : v.others = v'.others
  descent : v.detail.descent? = v'.detail.descent?

namespace Criterion

variable [Scalar R]

variable {v v' : Snapshot R} {k : Nat}

theorem holding_congr {criteria : List (Criterion R)}
    (h : ∀ c ∈ criteria, c.holds v k = c.holds v' k) :
    holding v k criteria = holding v' k criteria := by
  induction criteria with
  | nil => rfl
  | cons c criteria ih =>
      rw [holding, holding, h c (by simp), ih fun c' hc' => h c' (by simp [hc'])]

theorem measureNth_congr {criteria : List (Criterion R)}
    (h : ∀ c ∈ criteria, c.measure v k = c.measure v' k) (i : Nat) :
    measureNth v k i criteria = measureNth v' k i criteria := by
  induction criteria generalizing i with
  | nil => rfl
  | cons c criteria ih =>
      cases i with
      | zero =>
          rw [measureNth, measureNth]
          exact h c (by simp)
      | succ i =>
          rw [measureNth, measureNth]
          exact ih (fun c' hc' => h c' (by simp [hc'])) i

/-- A criterion of the library looks at the value and at the point only. -/
theorem Bundled.blind {c : Criterion R} (hc : c.Bundled) : c.Blind Snapshot.DescentAlike := by
  rintro v v' k ⟨hvalue, hpoint, -, -⟩
  induction hc with
  | gradientNorm threshold =>
      simp only [holds, measure, hpoint, and_self]
  | valueDistance least threshold relative =>
      simp only [holds, measure, hvalue, and_self]
  | pointDistance minimum threshold relative =>
      simp only [holds, measure, hpoint, and_self]
  | iterations limit =>
      simp only [holds, measure, and_self]
  | compound mode _ ih =>
      have hholding := holding_congr fun c hc => (ih c hc).1
      have hmeasure := measureNth_congr fun c hc => (ih c hc).2
      simp only [holds, measure, hholding, hmeasure, and_self]

end Criterion

theorem Dialogue.play_map {Q E α β σ : Type} {A : Q → Type}
    (answer : (q : Q) → σ → Except E (A q) × σ) (g : α → β) (d : Dialogue Q A E α) (s : σ) :
    (g <$> d).play answer s = ((d.play answer s).1.map g, (d.play answer s).2) := by
  rw [map_eq_pure_bind]
  refine (play_bind answer d _ s).trans ?_
  rcases d.play answer s with ⟨e | a, t⟩
  · rfl
  · rfl

namespace Solver

variable {f : Subject ℝ} {formula? : Option (Setting ℝ)}
  {a : Accepted ℝ f.n} {a' : Accepted ℝ f.n}

/-- What was accepted for the two methods is the same, but for the options that one of them does not
know, and those ask for restarts. -/
structure Restarting (f : Subject ℝ) (a a' : Accepted ℝ f.n) : Prop where
  options : Options.AgreeBut ConjugateGradient.ownKeys a.options a'.options
  region : a.region = a'.region
  start : a.start = a'.start
  restarts : ConjugateGradient.AlwaysRestarts a'.options f.n

theorem classify_of_agree [Scalar R] {names : List String} {options options' : Options R}
    (h : Options.AgreeBut names options options') (hx : "max_x_norm" ∉ names)
    (hf : "max_abs_f" ∉ names) {v v' : Snapshot R} (hv : v.DescentAlike v') (reported : Status) :
    classify options v reported = classify options' v' reported := by
  obtain ⟨value, point, others, detail⟩ := v
  obtain ⟨value', point', others', detail'⟩ := v'
  obtain ⟨rfl, rfl, rfl, -⟩ := hv
  simp only [classify, Options.real, h _ hx, h _ hf]
  rfl

theorem opening_along (a : Accepted ℝ f.n) :
    opening SteepestDescent.method f a =
      let started := (Iterate.start (a.region.project a.start)).run f.objective {}
      (started.1.map Produced.state, started.2) :=
  Dialogue.play_map (Ledger.answer f.objective) Produced.state (Iterate.start _) {}

theorem opening_facing (a : Accepted ℝ f.n) :
    opening (ConjugateGradient.method formula?) f a =
      let started := (Iterate.start (a.region.project a.start)).run f.objective {}
      (started.1.map fun it => .state (ConjugateGradient.facing it), started.2) :=
  Dialogue.play_map (Ledger.answer f.objective)
    (fun it => Produced.state (ConjugateGradient.facing it)) (Iterate.start _) {}

theorem attemptStep_along (a : Accepted ℝ f.n) (ledger : Ledger ℝ f.n) (count : Nat)
    (it : (SteepestDescent.method : Method ℝ).State f.n) :
    attemptStep (a.task ledger) count it =
      let made := (SteepestDescent.step (a.situation f.objective.name) it).run f.objective ledger
      (made.1.map fun r => (.state r.1, r.2), made.2) := by
  refine (attemptStep_task (m := SteepestDescent.method) ledger count it).trans ?_
  rw [SteepestDescent.method_step]
  exact Dialogue.play_map _ _ _ ledger

theorem attemptStep_facing (h : Restarting f a a') (ledger : Ledger ℝ f.n) (count : Nat)
    (it : (SteepestDescent.method : Method ℝ).State f.n) :
    attemptStep (m := ConjugateGradient.method formula?) (a'.task ledger) count
        (ConjugateGradient.facing it) =
      let made := (SteepestDescent.step (a.situation f.objective.name) it).run f.objective ledger
      (made.1.map fun r => (.state (ConjugateGradient.facing r.1), r.2), made.2) := by
  have hagree : Options.AgreeBut ConjugateGradient.ownKeys
      (a.situation f.objective.name).options (a'.situation f.objective.name).options := h.options
  have hstep := ConjugateGradient.step_facing hagree h.region h.restarts count it
  refine (attemptStep_task (m := ConjugateGradient.method formula?) ledger count _).trans ?_
  rw [ConjugateGradient.method_step, hstep, Functor.map_map]
  exact Dialogue.play_map _ _ _ ledger

noncomputable def facing (formula? : Option (Setting ℝ)) {n : Nat}
    (it : (SteepestDescent.method : Method ℝ).State n) :
    (ConjugateGradient.method formula?).State n :=
  ConjugateGradient.facing it

theorem mirrors_facing (h : Restarting f a a') :
    Mirrors f a a' (facing formula?) Snapshot.DescentAlike where
  start := by
    rw [opening_facing, opening_along, ← h.region, ← h.start]
    rcases (Iterate.start (a.region.project a.start)).run f.objective {} with ⟨e | it, ledger⟩
    · rfl
    · rfl
  step ledger count it := by
    refine (attemptStep_facing h ledger count it).trans ?_
    rw [attemptStep_along]
    rcases (SteepestDescent.step (a.situation f.objective.name) it).run f.objective ledger with
      ⟨e | r, left⟩
    · rfl
    · rfl
  produces := by
    refine .inr ⟨fun typeName => ?_, fun ledger count it typeName status => ?_⟩
    · rw [opening_along]
      rcases (Iterate.start (a.region.project a.start)).run f.objective {} with ⟨e | it, ledger⟩
      · nofun
      · nofun
    · rw [attemptStep_along]
      rcases (SteepestDescent.step (a.situation f.objective.name) it).run f.objective ledger with
        ⟨e | r, left⟩
      · nofun
      · nofun
  view it := ⟨rfl, rfl, rfl, rfl⟩
  finite it := rfl
  judge it reported :=
    (classify_of_agree h.options (by decide) (by decide) ⟨rfl, rfl, rfl, rfl⟩ reported).symm

section

variable {order : Order ℝ} {s : Solver (SteepestDescent.method : Method ℝ)}
  {c : Solver (ConjugateGradient.method formula? : Method ℝ)}

def Order.shared (order : Order ℝ) : Order ℝ :=
  { order with options := order.options.without ConjugateGradient.ownKeys }

/-- In `n` dimensions the order asks conjugate gradients, with the default for the formula, for a
known formula and for a restart after every step. -/
def Order.AlwaysRestarts (order : Order ℝ) (formula? : Option (Setting ℝ)) (n : Nat) : Prop :=
  ConjugateGradient.AlwaysRestarts
    ((ConjugateGradient.method formula?).defaults.merged order.options) n

theorem merged_shared (given : Options ℝ) :
    Options.AgreeBut ConjugateGradient.ownKeys
      ((SteepestDescent.method : Method ℝ).defaults.merged
        (given.without ConjugateGradient.ownKeys))
      ((ConjugateGradient.method formula?).defaults.merged given) := by
  have hown : ∀ key ∈ (ConjugateGradient.defaults
      (formula?.getD (.text ConjugateGradient.polakRibiere))).keys,
      key ∈ ConjugateGradient.ownKeys := fun _ h => h
  exact Options.merged_agree hown given

theorem mem_keys_defaults_facing {key : String} :
    key ∈ (ConjugateGradient.method formula?).defaults.keys ↔
      key ∈ (SteepestDescent.method : Method ℝ).defaults.keys ∨
        key ∈ ConjugateGradient.ownKeys :=
  Options.mem_keys_update

/-- Steepest descent accepts the shared options exactly if conjugate gradients accept all. -/
theorem acceptOptions_shared {given : Options ℝ}
    (hrestarts : ConjugateGradient.AlwaysRestarts
      ((ConjugateGradient.method formula?).defaults.merged given) f.n) :
    s.acceptOptions (given.without ConjugateGradient.ownKeys) =
        .ok ((SteepestDescent.method : Method ℝ).defaults.merged
          (given.without ConjugateGradient.ownKeys)) ↔
      c.acceptOptions given =
        .ok ((ConjugateGradient.method formula?).defaults.merged given) := by
  have hagree : Options.AgreeBut ConjugateGradient.ownKeys _
      ((ConjugateGradient.method formula?).defaults.merged given) := merged_shared given
  rw [acceptOptions_eq_ok_iff, acceptOptions_eq_ok_iff]
  refine and_congr ?_ (and_congr ?_ (and_congr ?_ ⟨fun _ => rfl, fun _ => rfl⟩))
  · refine imp_congr Iff.rfl (forall_congr' fun key => ?_)
    rw [Options.mem_keys_without, mem_keys_defaults_facing]
    tauto
  · refine forall₂_congr fun key hkey => hagree.inRange ?_ _
    simp only [List.mem_cons, List.not_mem_nil, or_false] at hkey
    rcases hkey with rfl | rfl <;> decide
  · refine LineStep.validate_eq_ok_iff.trans ?_
    refine (LineStep.checked_iff_of_agree hagree ConjugateGradient.readKeys_shared).trans ?_
    refine Iff.trans ?_ ConjugateGradient.validate_eq_ok_iff.symm
    refine ⟨fun h => ⟨h, hrestarts.formula, ?_⟩, And.left⟩
    obtain ⟨every, hevery, h⟩ := hrestarts.restart
    exact ⟨every, hevery, by omega⟩

/-- What steepest descent accepts of the shared order is what conjugate gradients accept, with the
options that each of them has in force. -/
theorem acceptOrder_shared (hrestarts : order.AlwaysRestarts formula? f.n) (region : Region ℝ f.n)
    (start : Vector ℝ f.n) :
    s.acceptOrder f.n order.shared =
        .ok ⟨(SteepestDescent.method : Method ℝ).defaults.merged order.shared.options, region,
          start⟩ ↔
      c.acceptOrder f.n order =
        .ok ⟨(ConjugateGradient.method formula?).defaults.merged order.options, region, start⟩ := by
  rw [acceptOrder_eq_ok_iff, acceptOrder_eq_ok_iff, accept_eq_ok_iff, accept_eq_ok_iff]
  refine and_congr Iff.rfl (and_congr ?_ (and_congr ?_ (acceptOptions_shared hrestarts)))
  · rw [acceptStart_eq_ok_iff, acceptStart_eq_ok_iff]
    rfl
  · rw [acceptRegion_eq_ok_iff, acceptRegion_eq_ok_iff]
    rfl

theorem merged_of_acceptOrder {R : Type} [Scalar R] {m : Method R} {s : Solver m} {n : Nat}
    {order : Order R} {a : Accepted R n} (h : s.acceptOrder n order = .ok a) :
    m.defaults.merged order.options = a.options := by
  obtain ⟨-, -, hoptions⟩ := accept_eq_ok_iff.mp (accept_of_acceptOrder h)
  exact (acceptOptions_eq_ok_iff.mp hoptions).2.2.2

/-- Both orders are refused, or what is accepted of them is related. -/
theorem refused_or_restarting (hrestarts : order.AlwaysRestarts formula? f.n) :
    ((∃ e, s.acceptOrder f.n order.shared = .error e) ∧ ∃ e, c.acceptOrder f.n order = .error e) ∨
      ∃ a a', s.acceptOrder f.n order.shared = .ok a ∧ c.acceptOrder f.n order = .ok a' ∧
        Restarting f a a' := by
  cases hs : s.acceptOrder f.n order.shared with
  | ok a =>
      obtain ⟨options, region, start⟩ := a
      obtain rfl := merged_of_acceptOrder hs
      have hc := (acceptOrder_shared (c := c) hrestarts region start).mp hs
      exact .inr ⟨_, _, rfl, hc, merged_shared order.options, rfl, rfl, hrestarts⟩
  | error e =>
      cases hc : c.acceptOrder f.n order with
      | error e' => exact .inl ⟨⟨e, rfl⟩, e', rfl⟩
      | ok a =>
          obtain ⟨options, region, start⟩ := a
          obtain rfl := merged_of_acceptOrder hc
          cases hs.symm.trans ((acceptOrder_shared (s := s) hrestarts region start).mpr hc)

/-- Conjugate gradients that restart after every step make the run of steepest descent. On every
objective, from every start, in every region and with all options that the two share, both runs are
refused, or both fail alike, or both return results that agree in the status, the number of steps,
the evaluations, the cause of the end and what was measured there, and whose states agree in point,
value, gradient, step length and step. -/
theorem restarted_gradients_descend (f : Subject ℝ) {order : Order ℝ}
    (hrestarts : order.AlwaysRestarts formula? f.n)
    (hblind : ∀ k ∈ order.criterion?, k.Blind Snapshot.DescentAlike)
    (s : Solver (SteepestDescent.method : Method ℝ))
    (c : Solver (ConjugateGradient.method formula? : Method ℝ))
    {σ τ : Type} (visit : Snapshot ℝ → Nat → σ → σ) (seen : σ)
    (visit' : Snapshot ℝ → Nat → τ → τ) (seen' : τ) :
    let descent := (exec (solve f order.shared visit) (s, seen)).1
    let conjugate := (exec (solve f order visit') (c, seen')).1
    (∃ e e', s.acceptOrder f.n order.shared = .error e ∧ c.acceptOrder f.n order = .error e' ∧
      descent = .error e ∧ conjugate = .error e') ∨
    (∃ e, descent = .error e ∧ conjugate = .error e) ∨
    ∃ r r', descent = .ok r ∧ conjugate = .ok r' ∧ r.Alike Snapshot.DescentAlike r' := by
  intro descent conjugate
  obtain ⟨⟨e, hs⟩, e', hc⟩ | ⟨a, a', hs, hc, h⟩ :=
    refused_or_restarting (s := s) (c := c) hrestarts
  · left
    refine ⟨e, e', hs, hc, ?_, ?_⟩
    · simp only [descent, solve, exec_solveWatched, hs]
    · simp only [conjugate, solve, exec_solveWatched, hc]
  · right
    have hlook : WatchAlike f Snapshot.DescentAlike (fun _ _ => True) (.onlooker visit)
        (.onlooker visit') := fun _ _ _ _ _ _ _ _ => ⟨rfl, rfl, trivial⟩
    have hasked : asked? (SteepestDescent.method : Method ℝ) order.shared =
        asked? (ConjugateGradient.method formula?) order := rfl
    have hruns := matched_runAccepted (mirrors_facing h) hlook hasked hblind rfl rfl (s, seen)
      (c, seen') ⟨⟨rfl, rfl⟩, trivial⟩
    have hdescent : descent =
        (exec (runAccepted f a order.shared (.onlooker visit)) (s, seen)).1 := by
      simp only [descent, solve, exec_solveWatched, hs]
    have hconjugate : conjugate =
        (exec (runAccepted f a' order (.onlooker visit')) (c, seen')).1 := by
      simp only [conjugate, solve, exec_solveWatched, hc]
    rw [hdescent, hconjugate]
    obtain ⟨e, he, he'⟩ | ⟨r, t, r', t', hr, hr', ⟨halike, -⟩, -⟩ := hruns
    · exact .inl ⟨e, he, he'⟩
    · exact .inr ⟨r, r', congrArg Prod.fst hr, congrArg Prod.fst hr', halike⟩

end

noncomputable def restartedOnSaddle : Order ℝ :=
  { twoStepsOnSaddle with options := [("restart_every", .whole 1)] }

/-- Both methods return from two steps on the saddle. -/
theorem saddle_restarted_descends :
    restartedOnSaddle.AlwaysRestarts (some (.text ConjugateGradient.fletcherReeves)) saddle.n ∧
      (∀ k ∈ restartedOnSaddle.criterion?, k.Blind Snapshot.DescentAlike) ∧
      ∃ r r', (exec (solve saddle restartedOnSaddle.shared fun _ _ _ => ())
          (new SteepestDescent.method none, ())).1 = .ok r ∧
        (exec (solve saddle restartedOnSaddle fun _ _ _ => ())
          (new (ConjugateGradient.method (some (.text ConjugateGradient.fletcherReeves))) none,
            ())).1 = .ok r' ∧
        0 < r.history.size ∧ r.Alike Snapshot.DescentAlike r' := by
  have hrestarts :
      restartedOnSaddle.AlwaysRestarts (some (.text ConjugateGradient.fletcherReeves)) saddle.n :=
    ⟨⟨.text ConjugateGradient.fletcherReeves, rfl, rfl⟩, 1, rfl, .inl rfl⟩
  have hblind : ∀ k ∈ restartedOnSaddle.criterion?, k.Blind Snapshot.DescentAlike := by
    rintro _ ⟨⟩
    exact (Criterion.Bundled.iterations 2).blind
  refine ⟨hrestarts, hblind, ?_⟩
  obtain ⟨r, final, hrun⟩ :=
    saddle_run_returns (o := .steepestDescent) rfl (new SteepestDescent.method none)
  have hshared : restartedOnSaddle.shared = twoStepsOnSaddle := rfl
  have hdescent : (exec (solve saddle restartedOnSaddle.shared fun _ _ _ => ())
      (new SteepestDescent.method none, ())).1 = .ok r := by
    rw [hshared]
    exact congrArg Prod.fst hrun
  obtain ⟨_, _, -, -, hfails, -⟩ | ⟨_, hfails, -⟩ | ⟨r₁, r', hr, hr', halike⟩ :=
    restarted_gradients_descend saddle hrestarts hblind (new SteepestDescent.method none)
      (new (ConjugateGradient.method (some (.text ConjugateGradient.fletcherReeves))) none)
      (fun _ _ _ => ()) () (fun _ _ _ => ()) ()
  · cases hdescent.symm.trans hfails
  · cases hdescent.symm.trans hfails
  · obtain rfl : r = r₁ := Except.ok.inj (hdescent.symm.trans hr)
    exact ⟨r, r', hr, hr', history_ne_of_real hrun, halike⟩

end Solver

end Minima
