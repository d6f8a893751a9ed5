import Minima.Proofs.Brackets
import Minima.Proofs.CubicRounds
import Minima.Proofs.SearchBudgets

/-!
# Limits of iterations

A search makes no more iterations than its limit and gives the limit as its reason only when it has used
it up, whatever it is answered, with two exceptions. Step adaptation spends the limit twice, once on
walking and once on refining, so that it makes more iterations than the limit whenever refining uses its
share up. And cubic interpolation gives the limit as its reason also when it ends before, because it has
found no new step in a window that is still too wide. Besides, a width that does not compare with the
tolerance, as one between infinite ends, is neither reason to go on nor to report the tolerance.
-/

namespace Minima.LineSearch

open Dialogue

variable {R α : Type} {σ : Type}

/-- Whatever it is answered, the dialogue comes to a result as `post` says, if it comes to one. -/
abbrev ComesTo (post : α → Prop) (d : Probe R α) : Prop :=
  d.Meets (fun _ => True) post (fun _ => True)

theorem ComesTo.play {post : α → Prop} {d : Probe R α} (hd : ComesTo post d)
    {answer : R → σ → Attempt R R × σ} {s s' : σ} {a : α}
    (h : d.play answer s = (.ok a, s')) : post a := by
  induction d generalizing s with
  | done b =>
      cases h
      exact hd
  | fail e => cases h
  | ask q next ih =>
      rw [Dialogue.play] at h
      split at h
      · exact ih _ (hd.2 _) h
      · cases h

variable [Scalar R]

/-! ## What is kept -/

def Outcome.span (r : Outcome R) : Span R := ⟨r.left, r.right⟩

/-- The width does not compare with the tolerance. -/
def Span.Undecided (s : Span R) (tol : R) : Prop := ¬ tol < s.width ∧ ¬ s.width ≤ tol

/-- No more turns have been made than the limit, and fewer only where the interval is not too wide. -/
structure Turned (tol : R) (limit : Nat) (s : Span R) (count : Nat) : Prop where
  count_le : count ≤ limit
  not_wide : count < limit → ¬ tol < s.width

/-- No more iterations are reported than the limit, and the limit as the reason only if they are as
many, unless the width does not compare with the tolerance. -/
structure Outcome.Kept (tol : R) (limit : Nat) (r : Outcome R) : Prop where
  iterations_le : r.iterations ≤ limit
  exhausts : r.stop = .iterationLimit → r.iterations = limit ∨ r.span.Undecided tol

structure Outcome.Limited (tol : R) (limit : Nat) (r : Outcome R) : Prop where
  iterations_le : (∀ low high, r.extra ≠ .bracket false low high) → r.iterations ≤ limit
  exhausts : (∀ low high, r.extra ≠ .bracket false low high) → r.stop = .iterationLimit →
    r.iterations = limit ∨ r.span.Undecided tol ∨
      r.method = .cubic ∧ ∃ w : Window R, w.span = r.span ∧ tol < w.span.width ∧ w.round = .exhausted
  /-- Step adaptation that has found a bracket. -/
  adapted : ∀ low high, r.extra = .bracket false low high →
    ∃ walked refined, r.iterations = walked + refined ∧ walked ≤ limit ∧ refined ≤ limit ∧
      (1 ≤ limit → 1 ≤ walked) ∧
      (r.stop = .iterationLimit → refined = limit ∨ r.span.Undecided tol)

variable {tol : R} {limit : Nat} {s : Span R} {count : Nat}

theorem Outcome.Kept.limited {r : Outcome R} (h : r.Kept tol limit)
    (hextra : ∀ low high, r.extra ≠ .bracket false low high) : r.Limited tol limit where
  iterations_le _ := h.iterations_le
  exhausts _ hstop := (h.exhausts hstop).imp_right .inl
  adapted low high h := absurd h (hextra low high)

theorem stop_eq_iterationLimit (hturned : Turned tol limit s count)
    (h : (if s.width ≤ tol then StopReason.tolerance else .iterationLimit) = .iterationLimit) :
    count = limit ∨ s.Undecided tol := by
  have hnarrow : ¬ s.width ≤ tol := by
    intro hle
    rw [if_pos hle] at h
    cases h
  rcases Nat.eq_or_lt_of_le hturned.count_le with heq | hless
  · exact .inl heq
  · exact .inr ⟨hturned.not_wide hless, hnarrow⟩

/-! ## Intervals -/

theorem finish_kept (hturned : Turned tol limit s count) (kind : Kind) (extra : Extra R) :
    ComesTo (fun r => r.Kept tol limit ∧ r.extra = extra) (finish kind tol extra s count) :=
  meets_question_bind trivial fun _ =>
    meets_pure ⟨⟨hturned.count_le, stop_eq_iterationLimit hturned⟩, rfl⟩

theorem shrinkLoop_turns (step : Span R → Probe R (Span R)) (tol : R) (fuel count : Nat)
    (s : Span R) :
    ComesTo (fun r => Turned tol (count + fuel) r.1 r.2) (shrinkLoop step tol fuel count s) := by
  induction fuel generalizing count s with
  | zero => exact meets_pure ⟨le_rfl, fun h => absurd h (Nat.lt_irrefl _)⟩
  | succ fuel ih =>
      unfold shrinkLoop
      refine meets_ite (fun _ => ?_) fun hnarrow => meets_pure ⟨Nat.le_add_right .., fun _ => hnarrow⟩
      refine meets_bind (meets_anything (step s)) fun s' _ => ?_
      rw [← Nat.succ_add_eq_add_succ]
      exact ih (count + 1) s'

theorem goldenLoop_turns (tol : R) (fuel count : Nat) (g : GoldenState R) :
    ComesTo (fun r => Turned tol (count + fuel) r.1 r.2) (goldenLoop tol fuel count g) := by
  induction fuel generalizing count g with
  | zero => exact meets_pure ⟨le_rfl, fun h => absurd h (Nat.lt_irrefl _)⟩
  | succ fuel ih =>
      unfold goldenLoop
      refine meets_ite (fun _ => ?_) fun hnarrow => meets_pure ⟨Nat.le_add_right .., fun _ => hnarrow⟩
      refine meets_bind (meets_anything (goldenStep g)) fun g' _ => ?_
      rw [← Nat.succ_add_eq_add_succ]
      exact ih (count + 1) g'

/-- A loop that turns, and the report of where it has ended. -/
theorem interval_kept {loop : Probe R (Span R × Nat)}
    (hloop : ComesTo (fun r => Turned tol limit r.1 r.2) loop) (kind : Kind) (extra : Extra R) :
    ComesTo (fun r => r.Kept tol limit ∧ r.extra = extra)
      (loop >>= fun r => finish kind tol extra r.1 r.2) :=
  meets_bind hloop fun _ hturned => finish_kept hturned kind extra

theorem shrinking_kept (step : Span R → Probe R (Span R)) (tol : R) (limit : Nat) (s : Span R)
    (kind : Kind) (extra : Extra R) :
    ComesTo (fun r => r.Kept tol limit ∧ r.extra = extra)
      (shrinkLoop step tol limit 0 s >>= fun r => finish kind tol extra r.1 r.2) := by
  have hloop := shrinkLoop_turns step tol limit 0 s
  rw [Nat.zero_add] at hloop
  exact interval_kept hloop kind extra

theorem goldenSection_kept (s : Span R) (tol : R) (limit : Nat) :
    ComesTo (fun r => r.Kept tol limit ∧ r.extra = .nothing) (goldenSection s tol limit) := by
  refine meets_bind (meets_anything (goldenStart s)) fun g _ => ?_
  have hloop := goldenLoop_turns tol limit 0 g
  rw [Nat.zero_add] at hloop
  exact interval_kept hloop .goldenSection .nothing

/-! ## Step adaptation -/

/-- Walking on takes a turn if there is one, and no more than there are. -/
theorem expandLoop_turns (s : Span R) (direction expand : R) (fuel count : Nat) (bracket : Span R)
    (h prev curr fCurr : R) :
    ComesTo (fun r => count + min 1 fuel ≤ r.2 ∧ r.2 ≤ count + fuel)
      (expandLoop s direction expand fuel count bracket h prev curr fCurr) := by
  induction fuel generalizing count h prev curr fCurr with
  | zero => exact meets_pure ⟨le_rfl, le_rfl⟩
  | succ fuel ih =>
      have hhere : count + min 1 (fuel + 1) ≤ count + 1 ∧ count + 1 ≤ count + (fuel + 1) := by omega
      unfold expandLoop
      refine meets_ite (fun _ => meets_pure hhere) fun _ => ?_
      refine meets_question_bind trivial fun fNext => ?_
      refine meets_ite (fun _ => meets_pure hhere) fun _ => ?_
      refine (ih (count + 1) _ _ _ _).mono (fun _ h => h) (fun r hr => ?_) fun _ h => h
      omega

theorem bracket?_turns (s : Span R) (limit : Nat) (alpha0 h expand : R) :
    ComesTo (fun r => (r.1 = none → r.2 = 0) ∧ (r.1 ≠ none → min 1 limit ≤ r.2 ∧ r.2 ≤ limit))
      (bracket? s limit alpha0 h expand) := by
  refine meets_question_bind trivial fun phi0 => ?_
  refine meets_bind (meets_anything _) fun direction? _ => ?_
  cases direction? with
  | none => exact meets_pure ⟨fun _ => rfl, fun h => absurd rfl h⟩
  | some direction =>
      refine meets_question_bind trivial fun fCurr => ?_
      refine meets_bind (expandLoop_turns ..) fun r hr => meets_pure ⟨nofun, fun _ => ?_⟩
      rwa [Nat.zero_add, Nat.zero_add] at hr

theorem stepAdaptation_limited (s : Span R) (tol : R) (limit : Nat) (options : Options R) :
    ComesTo (Outcome.Limited tol limit) (stepAdaptation s tol limit options) := by
  refine meets_lift_bind (fun start _ => ?_) fun _ _ => trivial
  refine meets_lift_bind (fun given _ => ?_) fun _ _ => trivial
  refine meets_lift_bind (fun growth _ => ?_) fun _ _ => trivial
  refine meets_bind (bracket?_turns ..) fun ⟨found, walked⟩ ⟨hnone, hsome⟩ => ?_
  refine meets_bind (goldenSection_kept ..) fun inner ⟨hinner, _⟩ => meets_pure ?_
  cases found with
  | none =>
      -- nothing was walked, and the whole interval is refined
      obtain rfl : walked = 0 := hnone rfl
      refine Outcome.Kept.limited ⟨?_, ?_⟩ (by simp)
      · rw [Nat.zero_add]
        exact hinner.iterations_le
      · rw [Nat.zero_add]
        exact hinner.exhausts
  | some bracket =>
      obtain ⟨hleast, hmost⟩ := hsome nofun
      refine ⟨fun h => absurd rfl (h _ _), fun h => absurd rfl (h _ _), fun low high _ => ?_⟩
      exact ⟨walked, inner.iterations, rfl, hmost, hinner.iterations_le, by omega, hinner.exhausts⟩

/-! ## Cubic interpolation -/

/-- Where the refinement of a window ends after no more turns than there are: before, only if the window
is not too wide, or there is no new step in it. -/
def CubicEnd.Turned (tol : R) (limit : Nat) : CubicEnd R → Prop
  | .settled w count =>
    count ≤ limit ∧ (count < limit → tol < w.span.width → w.round = .exhausted)
  | .degenerate _ count left => count + left = limit

theorem cubicLoop_turns (tol : R) (fuel count : Nat) (w : Window R) :
    ComesTo (CubicEnd.Turned tol (count + fuel)) (cubicLoop tol fuel count w) := by
  induction fuel generalizing count w with
  | zero => exact meets_pure ⟨le_rfl, fun h => absurd h (Nat.lt_irrefl _)⟩
  | succ fuel ih =>
      rw [cubicLoop_succ, ← Nat.succ_add_eq_add_succ]
      refine meets_ite (fun _ => ?_) fun hnarrow =>
        meets_pure ⟨by omega, fun _ hwide => absurd hwide hnarrow⟩
      cases hround : w.round with
      | degenerate => exact meets_pure rfl
      | exhausted => exact meets_pure ⟨Nat.le_add_right .., fun _ _ => hround⟩
      | asks x => exact meets_question_bind trivial fun value => ih (count + 1) _

theorem cubic_limited (s : Span R) (tol : R) (limit : Nat) :
    ComesTo (Outcome.Limited tol limit) (cubic s tol limit) := by
  refine meets_bind (meets_anything (cubicStart s)) fun w _ => ?_
  have hloop := cubicLoop_turns tol limit 0 w
  rw [Nat.zero_add] at hloop
  refine meets_bind hloop fun last hlast => ?_
  cases last with
  | settled w count =>
      obtain ⟨hle, hearly⟩ := hlast
      refine meets_pure ⟨fun _ => hle, fun _ hstop => ?_, nofun⟩
      by_cases hwide : tol < w.span.width
      · rcases Nat.eq_or_lt_of_le hle with heq | hless
        · exact .inl heq
        · exact .inr (.inr ⟨rfl, w, rfl, hwide, hearly hless hwide⟩)
      · have hturned : LineSearch.Turned tol limit w.span count := ⟨hle, fun _ => hwide⟩
        exact (stop_eq_iterationLimit hturned hstop).imp_right .inl
  | degenerate w count left =>
      have hsum : count + left = limit := hlast
      refine meets_bind (goldenSection_kept w.span tol left) fun inner ⟨hinner, _⟩ => meets_pure ?_
      refine Outcome.Kept.limited ⟨?_, fun hstop => ?_⟩ nofun
      · have := hinner.iterations_le
        show count + inner.iterations ≤ limit
        omega
      · refine (hinner.exhausts hstop).imp_left fun heq => ?_
        show count + inner.iterations = limit
        omega

/-! ## Backtracking -/

theorem backtrackingLoop_turns (b : Backtracking R) (fuel count : Nat) (alpha : R) :
    ComesTo (fun r => r.2.2.1 ≤ count + fuel + 1 ∧ r.2.2.2 ≠ .iterationLimit)
      (b.loop fuel count alpha) := by
  induction fuel generalizing count alpha with
  | zero =>
      refine meets_question_bind trivial fun value => ?_
      refine meets_ite (fun _ => meets_pure ⟨le_rfl, nofun⟩) fun _ => ?_
      exact meets_ite (fun _ => meets_pure ⟨le_rfl, nofun⟩) fun _ => meets_pure ⟨le_rfl, nofun⟩
  | succ fuel ih =>
      have hhere : count + 1 ≤ count + (fuel + 1) + 1 := by omega
      refine meets_question_bind trivial fun value => ?_
      refine meets_ite (fun _ => meets_pure ⟨hhere, nofun⟩) fun _ => ?_
      refine meets_ite (fun _ => meets_pure ⟨hhere, nofun⟩) fun _ => ?_
      rw [← Nat.succ_add_eq_add_succ count fuel]
      exact ih (count + 1) _

theorem armijo_limited (s : Span R) (tol : R) {maxIter : Int} (hpos : 1 ≤ maxIter)
    (options : Options R) :
    ComesTo (Outcome.Limited tol maxIter.toNat) (armijo s maxIter options) := by
  refine meets_lift_bind (fun b hb => ?_) fun _ _ => trivial
  have hlimit := Backtracking.limit_le hpos hb
  refine meets_bind (backtrackingLoop_turns b (b.limit - 1) 0 b.alpha0) ?_
  rintro ⟨alpha, value, iterations, stop⟩ ⟨hle, hstop⟩
  refine meets_pure (Outcome.Kept.limited ⟨?_, fun h => absurd h hstop⟩ nofun)
  show iterations ≤ maxIter.toNat
  dsimp only at hle
  omega

/-! ## Every search -/

theorem searchWith_limited (kind : Kind) (s : Span R) (tol : R) {limit : Int} (hpos : 1 ≤ limit)
    (options : Options R) :
    ComesTo (Outcome.Limited tol limit.toNat) (searchWith kind s tol limit options) := by
  have hkept {d : Probe R (Outcome R)} {extra : Extra R}
      (hd : ComesTo (fun r => r.Kept tol limit.toNat ∧ r.extra = extra) d)
      (hextra : ∀ low high, extra ≠ .bracket false low high) :
      ComesTo (Outcome.Limited tol limit.toNat) d :=
    hd.mono (fun _ h => h) (fun _ hr => hr.1.limited (hr.2 ▸ hextra)) fun _ h => h
  cases kind with
  | armijo => exact armijo_limited s tol hpos options
  | dichotomy =>
      exact meets_lift_bind (fun delta _ => hkept (shrinking_kept ..) nofun) fun _ _ => trivial
  | intervalHalving => exact hkept (shrinking_kept ..) nofun
  | goldenSection => exact hkept (goldenSection_kept ..) nofun
  | stepAdaptation => exact stepAdaptation_limited s tol limit.toNat options
  | cubic => exact cubic_limited s tol limit.toNat

/-- Whatever it is answered, a search keeps its limit and reports it truthfully, but for step adaptation
that has found a bracket, which may spend the limit a second time on refining it, and for cubic
interpolation that has found no new step. -/
theorem limit_kept_or_spent_twice {request : Request R} {options : Options R}
    (hlimit : 1 ≤ request.limit) {answer : R → σ → Attempt R R × σ} {s s' : σ} {r : Outcome R}
    (h : (search request options).play answer s = (.ok r, s')) :
    r.Limited request.tol request.limit.toNat := by
  suffices hsearch : ComesTo (Outcome.Limited request.tol request.limit.toNat)
      (search request options) from hsearch.play h
  unfold search
  cases hkind : Kind.ofKey? (if request.method == defaultKey then Kind.armijo.key
      else request.method) with
  | none =>
      simp only [hkind]
      trivial
  | some kind =>
      simp only [hkind]
      refine meets_ite (fun _ => trivial) fun _ => ?_
      have hcount := meets_countedFrom 0 (searchWith_limited kind ⟨request.left, request.right⟩
        request.tol hlimit options)
      exact meets_bind hcount fun _ hr =>
        meets_pure ⟨hr.iterations_le, hr.exhausts, hr.adapted⟩

/-! ## A limit that is spent twice -/

noncomputable def oneIteration : Request ℝ := { adapting 1 with tol := 0.1 }

noncomputable def valley (x : ℝ) : ℝ := |x - 0.25|

/-- The first step leads to the bottom of the valley, and the second one out of it. -/
theorem bracket?_valley :
    (bracket? (⟨0, 1⟩ : Span ℝ) 1 0 0.25 2.0).Follows (answering valley)
      [0, 1 / 4, 1 / 4, 1 / 4 + 1.0 * (0.25 * 2.0)] (some ⟨0, 3 / 4⟩, 1) := by
  have hstep : (⟨0, 1⟩ : Span ℝ).confine (0 + 1.0 * 0.25) = 1 / 4 := by
    rw [Span.confine_eq]
    norm_num
  have hbetween : Span.between (0 : ℝ) (1 / 4 + 1.0 * (0.25 * 2.0)) = ⟨0, 3 / 4⟩ := by
    rw [Span.between, if_neg (by norm_num)]
    norm_num
  have hfalling : (fallingDirection? (⟨0, 1⟩ : Span ℝ) 0 0.25 (valley 0) [1.0, -1.0]).Follows
      (answering valley) [1 / 4] (some 1.0) := by
    unfold fallingDirection?
    rw [hstep, if_neg (by rw [RealScalar.beq_iff]; norm_num)]
    refine follows_question_bind rfl ?_
    rw [if_pos (by norm_num [valley])]
    exact follows_pure _
  have hexpand : (expandLoop (⟨0, 1⟩ : Span ℝ) 1.0 2.0 1 0 (Span.between 0 (1 / 4)) 0.25 0 (1 / 4)
      (valley (1 / 4))).Follows (answering valley) [1 / 4 + 1.0 * (0.25 * 2.0)]
        (⟨0, 3 / 4⟩, 1) := by
    unfold expandLoop
    rw [if_neg (by norm_num)]
    refine follows_question_bind rfl ?_
    rw [if_pos (by norm_num [valley]), hbetween]
    exact follows_pure _
  have hfirst : ([1 / 4, 1 / 4, 1 / 4 + 1.0 * (0.25 * 2.0)] : List ℝ) =
      [1 / 4] ++ [1 / 4, 1 / 4 + 1.0 * (0.25 * 2.0)] := rfl
  refine follows_question_bind rfl ?_
  rw [hfirst]
  refine follows_bind hfalling ?_
  dsimp only
  rw [hstep]
  exact follows_question_bind rfl (follows_bind hexpand (follows_pure _))

/-- Walking takes the one iteration, and refining takes another one. -/
theorem stepAdaptation_valley : ∃ qs r,
    (stepAdaptation (⟨0, 1⟩ : Span ℝ) 0.1 1 quarterStep).Follows (answering valley) qs r ∧
      r.iterations = 2 := by
  obtain ⟨xs, hgolden, -, -⟩ :=
    goldenSection_follows (answers_answering valley) 0.1 1 ⟨0, 3 / 4⟩
  have hrounds : rounds (goldenRest valley) (0.1 : ℝ) 1 ⟨0, 3 / 4⟩ = 1 := by
    have hwide : (0.1 : ℝ) < Span.width ⟨0, 3 / 4⟩ := by norm_num [Span.width]
    exact if_pos hwide
  rw [hrounds] at hgolden
  have hstart : (⟨0, 1⟩ : Span ℝ).confine 0 = 0 := by
    rw [Span.confine_eq]
    norm_num
  have hfirst : ¬ (0.25 : ℝ) ≤ 0.0 := by norm_num
  have hgrowth : ¬ (2.0 : ℝ) ≤ 1.0 := by norm_num
  let inner : Outcome ℝ :=
    reported .goldenSection 0.1 .nothing valley ((goldenRest valley)^[1] ⟨0, 3 / 4⟩) 1
  have hsearch : (stepAdaptation (⟨0, 1⟩ : Span ℝ) 0.1 1 quarterStep).Follows (answering valley)
      ([0, 1 / 4, 1 / 4, 1 / 4 + 1.0 * (0.25 * 2.0)] ++ (xs.map Scalar.Exact.ofReal ++ []))
      { inner with
        iterations := 1 + inner.iterations
        method := .stepAdaptation
        extra := .bracket false 0 (3 / 4) } := by
    unfold stepAdaptation
    refine follows_lift_bind (a := 0) rfl (follows_lift_bind (a := 0.25) rfl
      (follows_lift_bind (a := 2.0) rfl ?_))
    rw [hstart, if_neg hfirst, if_neg hgrowth]
    exact follows_bind bracket?_valley (follows_bind hgolden (follows_pure _))
  exact ⟨_, _, hsearch, rfl⟩

/-- So two iterations are reported where the limit is one. -/
theorem limit_spent_twice : oneIteration.limit = 1 ∧ ∃ r calls,
    (search oneIteration quarterStep).play (tallied (answering valley)) 0 = (.ok r, calls) ∧
      r.iterations = 2 := by
  obtain ⟨qs, outcome, hfollows, htwo⟩ := stepAdaptation_valley
  have hreports : Reports (answering valley) (fun r => r.iterations = 2)
      (stepAdaptation (⟨0, 1⟩ : Span ℝ) 0.1 1 quarterStep) := hfollows.yields htwo
  have hname : oneIteration.method = Kind.stepAdaptation.key := rfl
  obtain ⟨r, calls, hr, hplay⟩ :=
    play_search hname zero_lt_one (stepAdaptation_failsOnly _ _ _ rfl rfl rfl) hreports
  exact ⟨rfl, _, calls, hplay, hr⟩

/-- What is known of every search, for this one. -/
theorem oneIteration_limited : 1 ≤ oneIteration.limit ∧ ∃ r calls,
    (search oneIteration quarterStep).play (tallied (answering valley)) 0 = (.ok r, calls) ∧
      r.Limited 0.1 1 := by
  have hname : oneIteration.method = Kind.stepAdaptation.key := rfl
  have hreports : Reports (answering valley) (fun _ => True)
      (stepAdaptation (⟨0, 1⟩ : Span ℝ) 0.1 1 quarterStep) := yields_anything _
  obtain ⟨r, calls, -, hplay⟩ :=
    play_search hname zero_lt_one (stepAdaptation_failsOnly _ _ _ rfl rfl rfl) hreports
  exact ⟨le_rfl, _, calls, hplay, limit_kept_or_spent_twice le_rfl hplay⟩

end Minima.LineSearch
