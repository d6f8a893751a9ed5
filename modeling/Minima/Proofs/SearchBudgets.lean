import Minima.LineSearch.Search
import Minima.Proofs.AnswerFailures
import Minima.Proofs.QuestionBudgets

/-!
# Searches end

Every search has a limit of turns, and asks for at most three values in each of them. What comes
before the turns and after them asks for a few more, also where one search gives up and another one
takes over. No search is cut off: whatever is answered, undefined or infinite, it comes to an outcome
or fails over its options.
-/

namespace Minima

open Dialogue

variable {R α β : Type}

/-- The failure is one of the work itself. -/
def Failure.Uncut (e : Failure R) : Prop := e ≠ .cutOff

theorem Failure.uncut_of_numerical {e : Failure R} (h : e.isNumerical = true) : e.Uncut := by
  rintro rfl
  cases h

abbrev Attempt.Halts (a : Attempt R α) : Prop := ∀ e, a = .error e → e.Uncut

/-- Whatever is answered, the dialogue asks at most `k` questions and is not cut off. -/
abbrev Dialogue.Halts {Q : Type} {A : Q → Type} (k : Nat) (d : Dialogue Q A (Failure R) α) : Prop :=
  d.Within (fun _ => True) Failure.Uncut k

namespace Attempt

theorem halts_pure (a : α) : Halts (pure a : Attempt R α) := failsOnly_pure a

theorem halts_throw {e : Failure R} (h : e.Uncut) : Halts (throw e : Attempt R α) :=
  failsOnly_throw h

theorem halts_bind {a : Attempt R α} {k : α → Attempt R β} (ha : a.Halts)
    (hk : ∀ x, (k x).Halts) : Halts (a >>= k) := failsOnly_bind ha hk

theorem halts_ite {c : Prop} [Decidable c] {a b : Attempt R α} (ht : c → a.Halts)
    (hf : ¬c → b.Halts) : (if c then a else b).Halts := failsOnly_ite ht hf

end Attempt

open Attempt

/-! ## Options -/

theorem Options.get_halts (options : Options R) (key : String) : (options.get key).Halts := by
  rw [get]
  cases options.get? key with
  | none => exact halts_throw (by rintro ⟨⟩)
  | some given => exact halts_pure given

variable [Scalar R]

theorem Setting.toReal_halts (given : Setting R) : given.toReal.Halts := by
  cases given with
  | absent => exact halts_throw nofun
  | items l => exact halts_throw nofun
  | flag b => exact halts_pure _
  | real x => exact halts_pure x
  | whole i =>
      rw [toReal]
      cases (Scalar.ofInt? i : Option R) with
      | none => exact halts_throw nofun
      | some x => exact halts_pure x
  | text s =>
      rw [toReal]
      cases (Scalar.ofText? s : Option R) with
      | none => exact halts_throw nofun
      | some x => exact halts_pure x

theorem Setting.toWhole_halts (given : Setting R) : given.toWhole.Halts := by
  cases given with
  | absent => exact halts_throw nofun
  | items l => exact halts_throw nofun
  | flag b => exact halts_pure _
  | whole i => exact halts_pure i
  | real x =>
      refine halts_ite (fun _ => halts_pure _) fun _ => ?_
      exact halts_ite (fun _ => halts_throw nofun) fun _ => halts_throw nofun
  | text s =>
      rw [toWhole]
      cases Text.Numeral.wholeOfText? s with
      | none => exact halts_throw nofun
      | some i => exact halts_pure i

namespace Options

variable (options : Options R) (key : String)

theorem real_halts : (options.real key).Halts :=
  halts_bind (options.get_halts key) Setting.toReal_halts

theorem whole_halts : (options.whole key).Halts :=
  halts_bind (options.get_halts key) Setting.toWhole_halts

theorem realD_halts (default : R) : (options.realD key default).Halts := by
  rw [realD]
  cases options.get? key with
  | none => exact halts_pure default
  | some given => exact given.toReal_halts

theorem wholeD_halts (default : Int) : (options.wholeD key default).Halts := by
  rw [wholeD]
  cases options.get? key with
  | none => exact halts_pure default
  | some given => exact given.toWhole_halts

end Options

namespace LineSearch

variable {fails : Failure R → Prop}

/-! ## Loops -/

theorem finish_within (method : Kind) (tol : R) (extra : Extra R) (s : Span R) (iterations : Nat) :
    (finish method tol extra s iterations).Within (fun _ => True) fails 1 :=
  within_question_bind fun _ => within_pure trivial

theorem shrinkLoop_within {step : Span R → Probe R (Span R)} {k : Nat}
    (hstep : ∀ s, (step s).Within (fun _ => True) fails k) (tol : R) (fuel count : Nat)
    (s : Span R) : (shrinkLoop step tol fuel count s).Within (fun _ => True) fails (fuel * k) := by
  induction fuel generalizing count s with
  | zero => exact within_pure trivial
  | succ fuel ih =>
      unfold shrinkLoop
      refine within_ite (fun _ => ?_) fun _ => within_pure trivial
      refine within_bind (hstep s) (fun s' _ => ih (count + 1) s') ?_
      rw [Nat.succ_mul]
      omega

theorem dichotomyStep_within (delta : R) (s : Span R) :
    (dichotomyStep delta s).Within (fun _ => True) fails 2 := by
  refine within_question_bind fun before => within_question_bind fun after => ?_
  exact within_ite (fun _ => within_pure trivial) fun _ => within_pure trivial

theorem halvingStep_within (s : Span R) :
    (halvingStep s).Within (fun _ => True) fails 3 := by
  refine within_question_bind fun f1 => within_question_bind fun fm =>
    within_question_bind fun f2 => ?_
  refine within_ite (fun _ => within_pure trivial) fun _ => ?_
  exact within_ite (fun _ => within_pure trivial) fun _ => within_pure trivial

theorem goldenStep_within (g : GoldenState R) :
    (goldenStep g).Within (fun _ => True) fails 1 := by
  refine within_ite (fun _ => ?_) fun _ => ?_
  · exact within_question_bind fun fc => within_pure trivial
  · exact within_question_bind fun fd => within_pure trivial

theorem goldenLoop_within (tol : R) (fuel count : Nat) (g : GoldenState R) :
    (goldenLoop tol fuel count g).Within (fun _ => True) fails fuel := by
  induction fuel generalizing count g with
  | zero => exact within_pure trivial
  | succ fuel ih =>
      unfold goldenLoop
      refine within_ite (fun _ => ?_) fun _ => within_pure trivial
      exact within_bind (goldenStep_within g) (fun g' _ => ih (count + 1) g') (by omega)

theorem expandLoop_within (s : Span R) (direction expand : R) (fuel count : Nat)
    (bracket : Span R) (h prev curr fCurr : R) :
    (expandLoop s direction expand fuel count bracket h prev curr fCurr).Within (fun _ => True)
      fails fuel := by
  induction fuel generalizing count h prev curr fCurr with
  | zero => exact within_pure trivial
  | succ fuel ih =>
      unfold expandLoop
      refine within_ite (fun _ => within_pure trivial) fun _ => ?_
      refine within_question_bind fun fNext => ?_
      exact within_ite (fun _ => within_pure trivial) fun _ => ih _ _ _ _ _

theorem fallingDirection?_within (s : Span R) (alpha0 h phi0 : R) (signs : List R) :
    (fallingDirection? s alpha0 h phi0 signs).Within (fun _ => True) fails signs.length := by
  induction signs with
  | nil => exact within_pure trivial
  | cons sign signs ih =>
      unfold fallingDirection?
      refine within_ite (fun _ => ih.weaken (Nat.le_succ _)) fun _ => ?_
      refine within_question_bind fun value => ?_
      exact within_ite (fun _ => within_pure trivial) fun _ => ih

theorem bracket?_within (s : Span R) (limit : Nat) (alpha0 h expand : R) :
    (bracket? s limit alpha0 h expand).Within (fun _ => True) fails (limit + 4) := by
  refine within_question_bind fun phi0 => ?_
  refine within_bind (l := limit + 1) (fallingDirection?_within s alpha0 h phi0 [1.0, -1.0])
    (fun direction? _ => ?_) (by simp only [List.length_cons, List.length_nil]; omega)
  cases direction? with
  | none => exact within_pure trivial
  | some direction =>
      refine within_question_bind fun fCurr => ?_
      exact within_bind (expandLoop_within s direction expand limit 0 _ h alpha0 _ fCurr)
        (fun _ _ => within_pure trivial) (Nat.le_of_eq (Nat.add_zero limit))

/-- What is left of the turns when there is no cubic is no more than there was. -/
theorem cubicLoop_within (tol : R) (fuel count : Nat) (w : Window R) :
    (cubicLoop tol fuel count w).Within
      (fun r => ∀ w' count' left, r = .degenerate w' count' left → left ≤ fuel) fails fuel := by
  induction fuel generalizing count w with
  | zero => exact within_pure nofun
  | succ fuel ih =>
      unfold cubicLoop
      refine within_ite (fun _ => ?_) fun _ => within_pure nofun
      cases stationaryPoint? w with
      | none =>
          refine within_pure ?_
          rintro _ _ _ ⟨⟩
          exact Nat.le_succ fuel
      | some found =>
          refine within_ite (fun _ => within_pure nofun) fun _ => ?_
          refine within_question_bind fun value => (ih _ _).mono (Nat.le_refl fuel) fun r hr => ?_
          intro w' count' left h
          exact Nat.le_succ_of_le (hr w' count' left h)

theorem backtrackingLoop_within (b : Backtracking R) (fuel count : Nat) (alpha : R) :
    (b.loop fuel count alpha).Within (fun _ => True) fails (fuel + 1) := by
  induction fuel generalizing count alpha with
  | zero =>
      refine within_question_bind fun value => ?_
      refine within_ite (fun _ => within_pure trivial) fun _ => ?_
      exact within_ite (fun _ => within_pure trivial) fun _ => within_pure trivial
  | succ fuel ih =>
      refine within_question_bind fun value => ?_
      refine within_ite (fun _ => within_pure trivial) fun _ => ?_
      exact within_ite (fun _ => within_pure trivial) fun _ => ih _ _

/-! ## Search methods -/

theorem goldenSection_within (s : Span R) (tol : R) (limit : Nat) :
    (goldenSection s tol limit).Within (fun _ => True) fails (limit + 3) := by
  have hstart : (goldenStart s).Within (fun _ => True) fails 2 :=
    within_question_bind fun fc => within_question_bind fun fd => within_pure trivial
  refine within_bind (l := limit + 1) hstart (fun g _ => ?_) (by omega)
  exact within_bind (goldenLoop_within tol limit 0 g)
    (fun r _ => finish_within .goldenSection tol .nothing r.1 r.2) (Nat.le_refl _)

theorem cubic_within (s : Span R) (tol : R) (limit : Nat) :
    (cubic s tol limit).Within (fun _ => True) fails (2 * limit + 7) := by
  have hstart : (cubicStart s).Within (fun _ => True) fails 4 :=
    within_question_bind fun y0 => within_question_bind fun y1 =>
      within_question_bind fun y2 => within_question_bind fun y3 => within_pure trivial
  refine within_bind (l := 2 * limit + 3) hstart (fun w _ => ?_) (by omega)
  refine within_bind (l := limit + 3) (cubicLoop_within tol limit 0 w) (fun r hr => ?_) (by omega)
  cases r with
  | settled w count => exact within_pure trivial
  | degenerate w count left =>
      -- the golden section takes over with the turns that are left
      have hleft := hr w count left rfl
      exact within_bind (goldenSection_within w.span tol left) (fun inner _ => within_pure trivial)
        (show left + 3 + 0 ≤ limit + 3 by omega)

theorem stepAdaptation_halts (s : Span R) (tol : R) (limit : Nat) (options : Options R) :
    (stepAdaptation s tol limit options).Halts (2 * limit + 7) := by
  refine within_lift_bind (fun start _ => ?_) (options.realD_halts _ _)
  refine within_lift_bind (fun given _ => ?_) (options.realD_halts _ _)
  refine within_lift_bind (fun growth _ => ?_) (options.realD_halts _ _)
  refine within_bind (l := limit + 3) (bracket?_within s limit _ _ _) (fun r _ => ?_) (by omega)
  exact within_bind (goldenSection_within _ tol limit) (fun inner _ => within_pure trivial)
    (Nat.le_of_eq (Nat.add_zero _))

theorem dichotomy_halts (s : Span R) (tol : R) (limit : Nat) (options : Options R) :
    (dichotomy s tol limit options).Halts (2 * limit + 1) := by
  refine within_lift_bind (fun given _ => ?_) (options.realD_halts _ _)
  exact within_bind (shrinkLoop_within (dichotomyStep_within _) tol limit 0 s)
    (fun r _ => finish_within .dichotomy tol _ r.1 r.2) (by omega)

theorem intervalHalving_within (s : Span R) (tol : R) (limit : Nat) :
    (intervalHalving s tol limit).Within (fun _ => True) fails (3 * limit + 1) :=
  within_bind (shrinkLoop_within halvingStep_within tol limit 0 s)
    (fun r _ => finish_within .intervalHalving tol .nothing r.1 r.2) (by omega)

namespace Backtracking

theorem ofOptions_halts (maxIter : Int) (options : Options R) :
    (ofOptions maxIter options).Halts := by
  refine halts_bind ?_ fun f0 => halts_bind ?_ fun slope => ?_
  · beta_reduce
    cases options.get? "f0" with
    | none => exact halts_throw (by rintro ⟨⟩)
    | some given => exact given.toReal_halts
  · beta_reduce
    cases options.get? "directional_derivative" with
    | none => exact halts_throw (by rintro ⟨⟩)
    | some given => exact given.toReal_halts
  refine halts_bind (options.realD_halts _ _) fun alpha0 => ?_
  refine halts_bind (options.realD_halts _ _) fun tau => ?_
  refine halts_bind (options.realD_halts _ _) fun c1 => ?_
  refine halts_bind (options.realD_halts _ _) fun minAlpha => ?_
  refine halts_bind (options.wholeD_halts _ _) fun given => ?_
  exact halts_ite (fun _ => halts_throw (by rintro ⟨⟩)) fun _ => halts_pure _

/-- A positive limit of turns is kept, whatever the options allow. -/
theorem limit_le {maxIter : Int} {options : Options R} {b : Backtracking R} (hpos : 0 < maxIter)
    (h : ofOptions maxIter options = .ok b) : b.limit ≤ maxIter.toNat := by
  unfold ofOptions at h
  obtain ⟨f0, -, h⟩ := bind_eq_ok.mp h
  obtain ⟨slope, -, h⟩ := bind_eq_ok.mp h
  obtain ⟨alpha0, -, h⟩ := bind_eq_ok.mp h
  obtain ⟨tau, -, h⟩ := bind_eq_ok.mp h
  obtain ⟨c1, -, h⟩ := bind_eq_ok.mp h
  obtain ⟨minAlpha, -, h⟩ := bind_eq_ok.mp h
  obtain ⟨given, -, h⟩ := bind_eq_ok.mp h
  by_cases htau : (0.0 : R) < tau ∧ tau < 1.0
  · rw [if_neg (not_not_intro htau)] at h
    cases h
    simp only [gt_iff_lt, hpos, if_true]
    omega
  · rw [if_pos htau] at h
    cases h

end Backtracking

theorem armijo_halts (s : Span R) {maxIter : Int} (hpos : 0 < maxIter) (options : Options R) :
    (armijo s maxIter options).Halts maxIter.toNat := by
  refine within_lift_bind (fun b hb => ?_) (Backtracking.ofOptions_halts maxIter options)
  have hlimit := Backtracking.limit_le hpos hb
  exact within_bind (backtrackingLoop_within b (b.limit - 1) 0 b.alpha0)
    (fun _ _ => within_pure trivial) (show b.limit - 1 + 1 + 0 ≤ maxIter.toNat by omega)

theorem searchWith_halts (kind : Kind) (s : Span R) (tol : R) {limit : Int} (hpos : 0 < limit)
    (options : Options R) :
    (searchWith kind s tol limit options).Halts (3 * limit.toNat + 7) := by
  cases kind with
  | armijo => exact (armijo_halts s hpos options).weaken (by omega)
  | dichotomy => exact (dichotomy_halts s tol limit.toNat options).weaken (by omega)
  | intervalHalving => exact (intervalHalving_within s tol limit.toNat).weaken (by omega)
  | goldenSection => exact (goldenSection_within s tol limit.toNat).weaken (by omega)
  | stepAdaptation => exact (stepAdaptation_halts s tol limit.toNat options).weaken (by omega)
  | cubic => exact (cubic_within s tol limit.toNat).weaken (by omega)

/-- A search with a positive limit halts, whichever it is. -/
theorem search_halts (request : Request R) (hpos : 0 < request.limit) (options : Options R) :
    (search request options).Halts (3 * request.limit.toNat + 7) := by
  unfold search
  cases hkind : Kind.ofKey? (if request.method == defaultKey then Kind.armijo.key
      else request.method) with
  | none =>
      simp only [hkind]
      exact nofun
  | some kind =>
      simp only [hkind]
      refine within_ite (fun _ => nofun) fun _ => ?_
      exact within_bind (within_countedFrom 0 (searchWith_halts kind _ request.tol hpos options))
        (fun _ _ => within_pure trivial) (Nat.le_of_eq (Nat.add_zero _))

end LineSearch

end Minima
