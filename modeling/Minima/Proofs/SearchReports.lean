import Mathlib.Tactic.NormNum
import Minima.LineSearch.Search
import Minima.Proofs.Readings
import Minima.Scalar.Real

/-!
# What a search reports

A search is played against a function of one variable that counts its calls. The outcome reports as
many evaluations as there were calls, and the value of the function at the step that it reports, with
one exception: backtracking that has used up its tries has shrunk the step once more after the last
trial, and reports the shrunk step with the value at the one before it.
-/

namespace Minima.LineSearch

open Dialogue

variable {R α : Type}

/-- Answer with the values of `phi`, and count the calls. -/
def tallied (phi : R → Attempt R R) (alpha : R) (calls : Nat) : Attempt R R × Nat :=
  (phi alpha, calls + 1)

/-- Told the values of `phi`, the dialogue comes to a result as `post` says, if it comes to one. -/
abbrev Reports (phi : R → Attempt R R) (post : α → Prop) (d : Probe R α) : Prop :=
  d.Yields (fun _ => True) (fun alpha value => phi alpha = .ok value) post

/-- The number of questions that a dialogue adds to its result is the number of calls. -/
theorem play_countedFrom {phi : R → Attempt R R} (d : Probe R α) {n calls count left : Nat} {a : α} :
    (d.countedFrom n).play (tallied phi) calls = (.ok (a, count), left) ↔
      d.play (tallied phi) calls = (.ok a, left) ∧ count + calls = n + left := by
  induction d generalizing n calls with
  | done b =>
      simp only [countedFrom, play, Prod.mk.injEq, Except.ok.injEq]
      grind
  | fail e => simp [countedFrom, play]
  | ask alpha next ih =>
      cases hv : phi alpha with
      | error e => simp [countedFrom, play, tallied, hv]
      | ok value =>
          simp only [countedFrom, play, tallied, hv, ih]
          exact and_congr_right fun _ => by omega

/-- With its questions put in, an outcome reports the calls and is otherwise the same. -/
theorem play_withEvaluations {phi : R → Attempt R R} {d : Probe R (Outcome R)} {r : Outcome R}
    {calls : Nat} :
    (withEvaluations d).play (tallied phi) 0 = (.ok r, calls) ↔
      ∃ outcome, d.play (tallied phi) 0 = (.ok outcome, calls) ∧
        { outcome with evaluations := calls } = r := by
  have hbind := play_bind (tallied phi) d.counted
    (fun found => pure { found.1 with evaluations := found.2 }) 0
  rw [show (withEvaluations d).play (tallied phi) 0 = _ from hbind]
  constructor
  · intro h
    rcases hcount : d.counted.play (tallied phi) 0 with ⟨e | ⟨outcome, count⟩, left⟩
    · rw [hcount] at h
      cases h
    · rw [hcount] at h
      cases h
      obtain ⟨hplay, hcalls⟩ := (play_countedFrom d).mp hcount
      obtain rfl : count = calls := by omega
      exact ⟨outcome, hplay, rfl⟩
  · rintro ⟨outcome, hplay, rfl⟩
    have hcount : d.counted.play (tallied phi) 0 = (.ok (outcome, calls), calls) :=
      (play_countedFrom d).mpr ⟨hplay, by omega⟩
    rw [hcount]
    rfl

theorem Reports.play {phi : R → Attempt R R} {post : α → Prop} {d : Probe R α}
    (hd : Reports phi post d) {calls left : Nat} {a : α}
    (h : d.play (tallied phi) calls = (.ok a, left)) : post a := by
  have hanswer : ∀ alpha calls, True → True →
      True ∧ ∀ value, (tallied phi alpha calls).1 = .ok value → phi alpha = .ok value :=
    fun _ _ _ _ => ⟨trivial, fun _ hvalue => hvalue⟩
  have hplayed := Yields.play hd (I := fun _ => True) hanswer (s := calls) trivial
  exact hplayed.2.1 a (by rw [h])

variable [Scalar R]

/-- The outcome is true of `phi`: it reports the value at its step or, when backtracking has used up
its tries, the value at the refused step from which its step was shrunk. -/
structure Outcome.TrueOf (phi : R → Attempt R R) (limit : Int) (options : Options R)
    (r : Outcome R) : Prop where
  value : r.stop ≠ .backtrackingLimit → phi r.alpha = .ok r.value
  shrunk : r.stop = .backtrackingLimit → r.method = .armijo ∧
    ∃ b tried, Backtracking.ofOptions limit options = .ok b ∧ phi tried = .ok r.value ∧
      b.accepts tried r.value = false ∧ r.alpha = tried * b.tau

variable {phi : R → Attempt R R} {limit : Int} {options : Options R}

/-! ## Intervals -/

/-- Whatever the loop before it has done, a search that ends in the middle of an interval asks for
the value there. -/
theorem finish_reports (method : Kind) (tol : R) (extra : Extra R) (s : Span R) (iterations : Nat) :
    Reports phi (fun r => r.stop ≠ .backtrackingLimit ∧ phi r.alpha = .ok r.value)
      (finish method tol extra s iterations) := by
  refine yields_question_bind trivial fun value hvalue => yields_pure ⟨?_, hvalue⟩
  dsimp only
  split <;> nofun

theorem Outcome.trueOf_of_value {r : Outcome R}
    (h : r.stop ≠ .backtrackingLimit ∧ phi r.alpha = .ok r.value) : r.TrueOf phi limit options where
  value _ := h.2
  shrunk hstop := absurd hstop h.1

theorem goldenSection_reports (s : Span R) (tol : R) (fuel : Nat) :
    Reports phi (fun r => r.stop ≠ .backtrackingLimit ∧ phi r.alpha = .ok r.value)
      (goldenSection s tol fuel) := by
  refine yields_bind (yields_anything _) fun g _ => ?_
  exact yields_bind (yields_anything _) fun r _ => finish_reports ..

/-! ## Backtracking -/

/-- Where backtracking ends: at a step with its value, or at the step that it has shrunk from the
last refused one. -/
theorem Backtracking.loop_reports (b : Backtracking R) (fuel count : Nat) (alpha : R) :
    Reports phi (fun r =>
        (r.2.2.2 ≠ .backtrackingLimit → phi r.1 = .ok r.2.1) ∧
        (r.2.2.2 = .backtrackingLimit →
          ∃ tried, phi tried = .ok r.2.1 ∧ b.accepts tried r.2.1 = false ∧ r.1 = tried * b.tau))
      (b.loop fuel count alpha) := by
  -- on the tries that are left: only the last of them ends at a step that was not tried
  induction fuel generalizing count alpha with
  | zero =>
      refine yields_question_bind trivial fun value hvalue => ?_
      refine yields_ite (fun _ => yields_pure ⟨fun _ => hvalue, nofun⟩) fun hrefused => ?_
      refine yields_ite (fun _ => yields_pure ⟨fun _ => hvalue, nofun⟩) fun _ => ?_
      refine yields_pure ⟨fun hstop => absurd rfl hstop, fun _ => ⟨alpha, hvalue, ?_, rfl⟩⟩
      exact Bool.eq_false_iff.mpr hrefused
  | succ fuel ih =>
      refine yields_question_bind trivial fun value hvalue => ?_
      refine yields_ite (fun _ => yields_pure ⟨fun _ => hvalue, nofun⟩) fun _ => ?_
      exact yields_ite (fun _ => yields_pure ⟨fun _ => hvalue, nofun⟩) fun _ => ih _ _

theorem armijo_reports (s : Span R) :
    Reports phi (Outcome.TrueOf phi limit options) (armijo s limit options) := by
  refine yields_lift_bind fun b hb => ?_
  refine yields_bind (b.loop_reports (b.limit - 1) 0 b.alpha0) ?_
  rintro ⟨alpha, value, iterations, stop⟩ ⟨hvalue, hshrunk⟩
  refine yields_pure ⟨hvalue, fun hstop => ⟨rfl, ?_⟩⟩
  obtain ⟨tried, htried, hrefused, hlast⟩ := hshrunk hstop
  exact ⟨b, tried, hb, htried, hrefused, hlast⟩

/-! ## Cubic interpolation -/

/-- Every sample of the window holds the value at its step. -/
def Window.Sampled (phi : R → Attempt R R) (w : Window R) : Prop := ∀ p ∈ w, phi p.x = .ok p.y

theorem cubicStart_reports (s : Span R) : Reports phi (Window.Sampled phi) (cubicStart s) := by
  refine yields_question_bind trivial fun y0 h0 => yields_question_bind trivial fun y1 h1 =>
    yields_question_bind trivial fun y2 h2 => yields_question_bind trivial fun y3 h3 =>
      yields_pure fun p hp => ?_
  simp only [Vector.mem_mk, List.mem_toArray, List.mem_cons, List.not_mem_nil, or_false] at hp
  rcases hp with rfl | rfl | rfl | rfl
  · exact h0
  · exact h1
  · exact h2
  · exact h3

theorem mem_merge {w : Window R} {p q : Sample R} (h : q ∈ merge w p) : q ∈ w ∨ q = p := by
  simpa [merge] using h

theorem mem_keepFour {v : Vector (Sample R) 5} {q : Sample R} (h : q ∈ keepFour v) : q ∈ v := by
  have hfour : ∀ a b c d : Sample R, q ∈ #v[a, b, c, d] → a ∈ v → b ∈ v → c ∈ v → d ∈ v → q ∈ v := by
    intro a b c d hq ha hb hc hd
    simp only [Vector.mem_mk, List.mem_toArray, List.mem_cons, List.not_mem_nil, or_false] at hq
    rcases hq with rfl | rfl | rfl | rfl
    · exact ha
    · exact hb
    · exact hc
    · exact hd
  have hentry : ∀ i (hi : i < 5), v[i] ∈ v := fun i hi => Vector.getElem_mem hi
  have hchoice : ∀ dropFirst : Bool,
      q ∈ (if dropFirst then #v[v[1], v[2], v[3], v[4]] else #v[v[0], v[1], v[2], v[3]]) → q ∈ v := by
    rintro (_ | _) hq
    · exact hfour _ _ _ _ hq (hentry 0 _) (hentry 1 _) (hentry 2 _) (hentry 3 _)
    · exact hfour _ _ _ _ hq (hentry 1 _) (hentry 2 _) (hentry 3 _) (hentry 4 _)
  exact hchoice _ h

/-- A new sample with its own value keeps the window sampled. -/
theorem Window.Sampled.refine {w : Window R} (hw : w.Sampled phi) {p : Sample R}
    (hp : phi p.x = .ok p.y) : (keepFour (merge w p)).Sampled phi := by
  intro q hq
  rcases mem_merge (mem_keepFour hq) with hq | rfl
  · exact hw q hq
  · exact hp

theorem cubicLoop_reports (tol : R) (fuel count : Nat) {w : Window R} (hw : w.Sampled phi) :
    Reports phi (fun
        | .settled w _ => w.Sampled phi
        | .degenerate w _ _ => w.Sampled phi) (cubicLoop tol fuel count w) := by
  induction fuel generalizing count w with
  | zero => exact yields_pure hw
  | succ fuel ih =>
      unfold cubicLoop
      refine yields_ite (fun _ => ?_) fun _ => yields_pure hw
      cases stationaryPoint? w with
      | none => exact yields_pure hw
      | some found =>
          refine yields_ite (fun _ => yields_pure hw) fun _ => ?_
          exact yields_question_bind trivial fun value hvalue => ih _ (hw.refine hvalue)

theorem cubic_reports (s : Span R) (tol : R) (fuel : Nat) :
    Reports phi (fun r => r.stop ≠ .backtrackingLimit ∧ phi r.alpha = .ok r.value)
      (cubic s tol fuel) := by
  refine yields_bind (cubicStart_reports s) fun w hw => ?_
  refine yields_bind (cubicLoop_reports tol fuel 0 hw) fun finish hfinish => ?_
  cases finish with
  | settled w count =>
      refine yields_pure ⟨?_, hfinish _ (Vector.getElem_mem _)⟩
      dsimp only
      split <;> nofun
  | degenerate w count left =>
      exact yields_bind (goldenSection_reports w.span tol left) fun inner hinner =>
        yields_pure hinner

/-! ## Every search -/

theorem searchWith_reports (kind : Kind) (s : Span R) (tol : R) :
    Reports phi (Outcome.TrueOf phi limit options) (searchWith kind s tol limit options) := by
  cases kind with
  | armijo => exact armijo_reports s
  | dichotomy =>
      refine yields_lift_bind fun delta _ => yields_bind (yields_anything _) fun r _ => ?_
      exact (finish_reports ..).mono (fun _ h => h) fun _ => Outcome.trueOf_of_value
  | intervalHalving =>
      refine yields_bind (yields_anything _) fun r _ => ?_
      exact (finish_reports ..).mono (fun _ h => h) fun _ => Outcome.trueOf_of_value
  | goldenSection =>
      exact (goldenSection_reports ..).mono (fun _ h => h) fun _ => Outcome.trueOf_of_value
  | stepAdaptation =>
      refine yields_lift_bind fun start _ => yields_lift_bind fun given _ =>
        yields_lift_bind fun growth _ => yields_bind (yields_anything _) fun found _ => ?_
      exact yields_bind (goldenSection_reports ..) fun inner hinner =>
        yields_pure (Outcome.trueOf_of_value hinner)
  | cubic => exact (cubic_reports ..).mono (fun _ h => h) fun _ => Outcome.trueOf_of_value

/-- An outcome reports as many evaluations as the function was called, and the value at its step.
Only backtracking that has used up its tries reports the value at another one: the last trial, which
was refused and shrunk to the step that is reported. -/
theorem outcome_true_of_function {phi : R → Attempt R R} {request : Request R} {options : Options R}
    {r : Outcome R} {calls : Nat}
    (h : (search request options).play (tallied phi) 0 = (.ok r, calls)) :
    r.evaluations = calls ∧ r.TrueOf phi request.limit options := by
  unfold search at h
  cases hkind : Kind.ofKey? (if request.method == defaultKey then Kind.armijo.key
      else request.method) with
  | none =>
      simp only [hkind] at h
      cases h
  | some kind =>
      simp only [hkind] at h
      split at h
      · cases h
      · obtain ⟨outcome, hplay, rfl⟩ := play_withEvaluations.mp h
        obtain ⟨hvalue, hshrunk⟩ := (searchWith_reports kind _ request.tol).play hplay
        exact ⟨rfl, hvalue, hshrunk⟩

/-! ## A step that was not tried -/

noncomputable def singleTry : Request ℝ where
  method := "armijo_backtracking"
  left := 0
  right := 1
  tol := 1
  limit := 1

noncomputable def falling : Options ℝ := [("f0", .real 0), ("directional_derivative", .real (-1))]

noncomputable def onceFromOne : Backtracking ℝ where
  f0 := 0
  slope := -1
  alpha0 := 1.0
  tau := 0.5
  c1 := 1e-4
  minAlpha := 1e-12
  limit := 1

theorem ofOptions_falling : Backtracking.ofOptions singleTry.limit falling = .ok onceFromOne := by
  have hrange : ¬ ¬ ((0.0 : ℝ) < 0.5 ∧ (0.5 : ℝ) < 1.0) := by norm_num
  show (if ¬ ((0.0 : ℝ) < 0.5 ∧ (0.5 : ℝ) < 1.0) then
    (throw (.configuration (.armijoShrink 0.5)) : Attempt ℝ PUnit) >>= fun _ => .ok onceFromOne
    else .ok onceFromOne) = _
  rw [if_neg hrange]

/-- The last try of backtracking, if its step is not too small to be shrunk. -/
theorem Backtracking.play_last (b : Backtracking R) {phi : R → Attempt R R} {alpha v : R}
    (hv : phi alpha = .ok v) (hlong : ¬ alpha * b.tau < b.minAlpha) (count calls : Nat) :
    (b.loop 0 count alpha).play (tallied phi) calls =
      (.ok (if b.accepts alpha v then (alpha, v, count + 1, .sufficientDecrease)
        else (alpha * b.tau, v, count + 1, .backtrackingLimit)), calls + 1) := by
  show Dialogue.play _ (.ask alpha _) _ = _
  simp only [play, tallied, hv, bind_done]
  cases b.accepts alpha v with
  | true => rfl
  | false =>
      rw [if_neg Bool.false_ne_true, if_neg hlong]
      rfl

/-- Backtracking reports the step and the value with which its loop has ended. -/
theorem play_armijo {phi : R → Attempt R R} {limit : Int} {options : Options R} {b : Backtracking R}
    (hb : Backtracking.ofOptions limit options = .ok b) {calls left : Nat}
    {last : R × R × Nat × StopReason}
    (hloop : (b.loop (b.limit - 1) 0 b.alpha0).play (tallied phi) calls = (.ok last, left))
    (s : Span R) :
    ∃ outcome, (armijo s limit options).play (tallied phi) calls = (.ok outcome, left) ∧
      outcome.alpha = last.1 ∧ outcome.value = last.2.1 := by
  have hplay (k : R × R × Nat × StopReason → Probe R (Outcome R)) :
      (b.loop (b.limit - 1) 0 b.alpha0 >>= k).play (tallied phi) calls =
        (k last).play (tallied phi) left := by
    refine (play_bind (tallied phi) _ k calls).trans ?_
    rw [hloop]
  rw [armijo, hb]
  exact ⟨_, hplay _, rfl, rfl⟩

/-- The single try is the step one; if it is refused, the outcome reports the step one half. -/
theorem play_singleTry (phi : ℝ → Attempt ℝ ℝ) {v : ℝ} (hv : phi 1.0 = .ok v) :
    ∃ r : Outcome ℝ, (search singleTry falling).play (tallied phi) 0 = (.ok r, 1) ∧
      (r.alpha, r.value) = if onceFromOne.accepts 1.0 v then (1.0, v) else (1.0 * 0.5, v) := by
  have hlong : ¬ (1.0 : ℝ) * onceFromOne.tau < onceFromOne.minAlpha := by
    show ¬ (1.0 : ℝ) * 0.5 < 1e-12
    norm_num
  have hloop := onceFromOne.play_last hv hlong 0 0
  obtain ⟨outcome, hplay, halpha, hvalue⟩ := play_armijo ofOptions_falling hloop ⟨0, 1⟩
  refine ⟨_, play_withEvaluations.mpr ⟨outcome, hplay, rfl⟩, ?_⟩
  rw [halpha, hvalue]
  cases onceFromOne.accepts 1.0 v with
  | true => rfl
  | false => rfl

/-- Where the function falls as the slope says, the try is accepted. -/
theorem falling_true_of_function :
    ∃ r : Outcome ℝ, (search singleTry falling).play (tallied fun a => .ok (-a)) 0 = (.ok r, 1) ∧
      r.evaluations = 1 ∧ r.TrueOf (fun a => .ok (-a)) singleTry.limit falling := by
  obtain ⟨r, hplay, -⟩ := play_singleTry (fun a => .ok (-a)) rfl
  exact ⟨r, hplay, outcome_true_of_function hplay⟩

/-- The identity rises, so the try is refused: the outcome reports the step one half with the value
one, which is not the value there. -/
theorem refused_try_misreported :
    ∃ r : Outcome ℝ, (search singleTry falling).play (tallied Except.ok) 0 = (.ok r, 1) ∧
      r.alpha = 1 / 2 ∧ r.value = 1 ∧ r.value ≠ r.alpha := by
  obtain ⟨r, hplay, hreport⟩ := play_singleTry Except.ok rfl
  have hrefused : onceFromOne.accepts 1.0 1.0 = false := by
    refine decide_eq_false ?_
    show ¬ (1.0 : ℝ) ≤ 0 + 1e-4 * 1.0 * -1
    norm_num
  rw [hrefused] at hreport
  obtain ⟨halpha, hvalue⟩ := Prod.mk.inj hreport
  have hhalf : r.alpha = 1 / 2 := halpha.trans (by norm_num)
  have hone : r.value = 1 := hvalue.trans (by norm_num)
  refine ⟨r, hplay, hhalf, hone, ?_⟩
  rw [hhalf, hone]
  norm_num

end Minima.LineSearch
