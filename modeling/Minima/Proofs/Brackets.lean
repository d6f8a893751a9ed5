import Minima.Proofs.Unimodality

/-!
# Brackets of step adaptation

Step adaptation walks from a point of the interval with growing steps, as long as the value falls. If
the walk leaves the interval or the value no longer falls, the bracket goes back to the point before the
last one, and the minimum is in it. But if the walk is cut off while it still falls, the bracket is the
one of the first step, and the minimum is beyond it.
-/

namespace Minima.LineSearch

open Dialogue

/-! ## The walk -/

def Span.Holds (s : Span ℝ) (x : ℝ) : Prop := s.left ≤ x ∧ x ≤ s.right

/-- Where step adaptation starts in an interval, and with what steps. -/
structure Walk where
  span : Span ℝ
  origin : ℝ
  first : ℝ
  growth : ℝ
  origin_inside : span.Holds origin
  first_pos : 0 < first
  one_lt_growth : 1 < growth

theorem Span.confine_eq (s : Span ℝ) (x : ℝ) : s.confine x = min (max x s.left) s.right := by
  rw [confine, RealScalar.lesser_eq_min, RealScalar.greater_eq_max]

theorem Span.holds_confine {s : Span ℝ} (hs : s.left ≤ s.right) (x : ℝ) : s.Holds (s.confine x) := by
  rw [confine_eq]
  exact ⟨le_min (le_max_right x s.left) hs, min_le_right _ _⟩

namespace Walk

noncomputable def ofNumbers (s : Span ℝ) (hs : s.left < s.right) (start given growth : ℝ) : Walk where
  span := s
  origin := s.confine start
  first := if given ≤ 0.0 then 0.5 * s.width else given
  growth := if growth ≤ 1.0 then 2.0 else growth
  origin_inside := Span.holds_confine hs.le start
  first_pos := by
    have hwidth : 0 < s.width := sub_pos.mpr hs
    exact RealScalar.zero_literal.symm.trans_lt (lt_replaced (by norm_num; positivity))
  one_lt_growth := RealScalar.one_literal.symm.trans_lt (lt_replaced (by norm_num))

/-- The points of the walk in the direction `d`. Only the first step is cut at the border. -/
noncomputable def point (w : Walk) (d : ℝ) : Nat → ℝ
  | 0 => w.origin
  | 1 => w.span.confine (w.origin + d * w.first)
  | k + 2 => w.point d (k + 1) + d * (w.first * w.growth ^ (k + 1))

/-- Each of the first `n` steps leads to a point of the interval with a smaller value. -/
def Falls (w : Walk) (phi : ℝ → ℝ) (d : ℝ) (n : Nat) : Prop :=
  ∀ k < n, w.span.Holds (w.point d (k + 1)) ∧ phi (w.point d (k + 1)) < phi (w.point d k)

/-- The walk still falls when the iterations are used up. -/
def CutOff (w : Walk) (phi : ℝ → ℝ) (limit : Nat) : Prop :=
  ∃ d, (d = 1 ∨ d = -1) ∧ w.Falls phi d (limit + 1)

variable {w : Walk} {phi : ℝ → ℝ} {m d : ℝ} {k n : Nat}

theorem falls_succ :
    w.Falls phi d (n + 1) ↔ w.Falls phi d n ∧
      w.span.Holds (w.point d (n + 1)) ∧ phi (w.point d (n + 1)) < phi (w.point d n) := by
  constructor
  · intro h
    exact ⟨fun k hk => h k (by omega), h n (by omega)⟩
  · rintro ⟨h, hlast⟩ k hk
    rcases Nat.lt_succ_iff_lt_or_eq.mp hk with hk | rfl
    · exact h k hk
    · exact hlast

theorem Falls.mono (h : w.Falls phi d n) (hk : k ≤ n) : w.Falls phi d k :=
  fun j hj => h j (by omega)

end Walk

/-! ## Directions -/

section

variable {phi : ℝ → ℝ} {s : Span ℝ} {m d x y : ℝ} (hd : d = 1 ∨ d = -1)

include hd

/-- Seen in a direction, the minimum lies after a point whose value is not less than one further on. -/
theorem Unimodal.ahead (h : Unimodal phi s m) (hy : s.Holds y) (hxy : d * x < d * y)
    (hge : phi y ≤ phi x) : d * x < d * m := by
  rcases hd with rfl | rfl
  · simp only [one_mul] at hxy ⊢
    exact h.lt_of_ge hy.2 hxy hge
  · simp only [neg_one_mul, neg_lt_neg_iff] at hxy ⊢
    exact h.lt_of_le hy.1 hxy hge

/-- It lies before a point whose value is not less than one on the way. -/
theorem Unimodal.behind (h : Unimodal phi s m) (hx : s.Holds x) (hxy : d * x < d * y)
    (hle : phi x ≤ phi y) : d * m < d * y := by
  rcases hd with rfl | rfl
  · simp only [one_mul] at hxy ⊢
    exact h.lt_of_le hx.1 hxy hle
  · simp only [neg_one_mul, neg_lt_neg_iff] at hxy ⊢
    exact h.lt_of_ge hx.2 hxy hle

theorem Span.between_holds (hx : d * x < d * m) (hy : d * m < d * y) : (between x y).Holds m := by
  rw [between]
  rcases hd with rfl | rfl
  · simp only [one_mul] at hx hy
    rw [if_neg (hx.trans hy).not_gt]
    exact ⟨hx.le, hy.le⟩
  · simp only [neg_one_mul, neg_lt_neg_iff] at hx hy
    rw [if_pos (hy.trans hx)]
    exact ⟨hy.le, hx.le⟩

theorem Span.not_between_holds (hxy : d * x ≤ d * y) (hy : d * y < d * m) :
    ¬ (between x y).Holds m := by
  rw [between]
  rcases hd with rfl | rfl
  · simp only [one_mul] at hxy hy
    rw [if_neg hxy.not_gt]
    exact fun h => absurd h.2 hy.not_ge
  · simp only [neg_one_mul, neg_lt_neg_iff, neg_le_neg_iff] at hxy hy
    split
    · exact fun h => absurd h.1 hy.not_ge
    · exact fun h => absurd (hxy.trans h.1) hy.not_ge

/-- The bracket at the border toward which the walk goes. -/
theorem Span.border_holds (hx : d * x < d * m) (hm : s.Holds m) (y : ℝ) :
    (if (0.0 : ℝ) < d then (⟨Scalar.lesser x y, s.right⟩ : Span ℝ)
      else ⟨s.left, Scalar.greater x y⟩).Holds m := by
  rw [RealScalar.lesser_eq_min, RealScalar.greater_eq_max]
  rcases hd with rfl | rfl
  · simp only [one_mul] at hx
    rw [if_pos (by norm_num)]
    exact ⟨(min_le_left x y).trans hx.le, hm.2⟩
  · simp only [neg_one_mul, neg_lt_neg_iff] at hx
    rw [if_neg (by norm_num)]
    exact ⟨hm.1, hx.le.trans (le_max_left x y)⟩

end

namespace Walk

variable {w : Walk} {phi : ℝ → ℝ} {m d : ℝ} {k n : Nat} (hd : d = 1 ∨ d = -1)

theorem span_le (w : Walk) : w.span.left ≤ w.span.right :=
  w.origin_inside.1.trans w.origin_inside.2

theorem holds_point_one (w : Walk) (d : ℝ) : w.span.Holds (w.point d 1) :=
  Span.holds_confine w.span_le _

theorem falls_one_iff : w.Falls phi d 1 ↔ phi (w.point d 1) < phi w.origin := by
  rw [falls_succ]
  constructor
  · exact fun h => h.2.2
  · exact fun h => ⟨fun k hk => absurd hk (Nat.not_lt_zero k), w.holds_point_one d, h⟩

include hd

/-- The first step leads on, or nowhere. -/
theorem point_zero_le (w : Walk) : d * w.point d 0 ≤ d * w.point d 1 := by
  obtain ⟨hlow, hhigh⟩ := w.origin_inside
  have hpos := w.first_pos
  rw [point, point, Span.confine_eq]
  rcases hd with rfl | rfl
  · simp only [one_mul]
    exact le_min (le_max_of_le_left (by linarith)) hhigh
  · simp only [neg_one_mul, neg_le_neg_iff]
    exact min_le_of_left_le (max_le (by linarith) hlow)

/-- Every other step leads on. -/
theorem point_succ_lt (w : Walk) (k : Nat) : d * w.point d (k + 1) < d * w.point d (k + 2) := by
  have hstep : 0 < w.first * w.growth ^ (k + 1) :=
    mul_pos w.first_pos (pow_pos (zero_lt_one.trans w.one_lt_growth) _)
  have hsquare : d * d = 1 := by rcases hd with rfl | rfl <;> norm_num
  have hnext : d * w.point d (k + 2) =
      d * w.point d (k + 1) + w.first * w.growth ^ (k + 1) := by
    rw [point, mul_add, ← mul_assoc, hsquare, one_mul]
  rw [hnext]
  linarith

/-- A step to a smaller value leads on. -/
theorem Falls.lt (h : w.Falls phi d (k + 1)) : d * w.point d k < d * w.point d (k + 1) := by
  cases k with
  | succ k => exact w.point_succ_lt hd k
  | zero =>
      refine lt_of_le_of_ne (w.point_zero_le hd) fun heq => ?_
      have hnonzero : d ≠ 0 := by rcases hd with rfl | rfl <;> norm_num
      have hsmaller := (h 0 zero_lt_one).2
      rw [mul_left_cancel₀ hnonzero heq] at hsmaller
      exact lt_irrefl _ hsmaller

omit hd in
/-- The points to which a falling walk has led. -/
theorem Falls.holds (h : w.Falls phi d k) : w.span.Holds (w.point d k) := by
  cases k with
  | zero => exact w.origin_inside
  | succ k => exact (h k (Nat.lt_succ_self k)).1

/-- The minimum lies after the point before the last. -/
theorem Falls.ahead (h : w.Falls phi d (k + 1)) (hphi : Unimodal phi w.span m) :
    d * w.point d k < d * m :=
  hphi.ahead hd h.holds (h.lt hd) (falls_succ.mp h).2.2.le

/-- The walk falls in one direction only. -/
theorem Falls.direction_unique {d' : ℝ} (hd' : d' = 1 ∨ d' = -1) (h : w.Falls phi d 1)
    (h' : w.Falls phi d' 1) (hphi : Unimodal phi w.span m) : d = d' := by
  have hahead : d * w.origin < d * m := h.ahead hd hphi
  have hahead' : d' * w.origin < d' * m := h'.ahead hd' hphi
  rcases hd with rfl | rfl
  · rcases hd' with rfl | rfl
    · rfl
    · linarith
  · rcases hd' with rfl | rfl
    · linarith
    · rfl

end Walk

/-! ## The bracket -/

section

variable {w : Walk} {phi : ℝ → ℝ} {m d : ℝ} (hd : d = 1 ∨ d = -1) (hphi : Unimodal phi w.span m)

include hd hphi

/-- From a point to which it has fallen on, the walk ends at a bracket around the minimum, unless it is
cut off while it falls and leaves the bracket as it was. -/
theorem expandLoop_brackets (fuel : Nat) {k : Nat} (h : w.Falls phi d (k + 1)) (bracket : Span ℝ) :
    Reports (answering phi)
      (fun r => (w.Falls phi d (k + 1 + fuel) → r.1 = bracket) ∧
        (¬ w.Falls phi d (k + 1 + fuel) → r.1.Holds m))
      (expandLoop w.span d w.growth fuel k bracket (w.first * w.growth ^ k) (w.point d k)
        (w.point d (k + 1)) (phi (w.point d (k + 1)))) := by
  induction fuel generalizing k with
  | zero => exact yields_pure ⟨fun _ => rfl, fun hnot => absurd h hnot⟩
  | succ fuel ih =>
      have hsize : w.first * w.growth ^ k * w.growth = w.first * w.growth ^ (k + 1) := by
        rw [pow_succ, mul_assoc]
      have hnext : w.point d (k + 1) + d * (w.first * w.growth ^ (k + 1)) = w.point d (k + 2) := rfl
      have hahead := h.ahead hd hphi
      unfold expandLoop
      simp only [hsize, hnext]
      refine yields_ite (fun hout => yields_pure ⟨fun hfalls => ?_, fun _ => ?_⟩) fun hin => ?_
      · -- the walk leaves the interval
        obtain ⟨hlow, hhigh⟩ := (hfalls (k + 1) (by omega)).1
        rcases hout with hout | hout
        · exact absurd hlow hout.not_ge
        · exact absurd hhigh hout.not_ge
      · exact Span.border_holds hd hahead ⟨hphi.left, hphi.right⟩ _
      have hinside : w.span.Holds (w.point d (k + 2)) := by
        obtain ⟨hlow, hhigh⟩ := not_or.mp hin
        exact ⟨not_lt.mp hlow, not_lt.mp hhigh⟩
      refine yields_question_bind trivial fun fNext hvalue => ?_
      obtain rfl : phi (w.point d (k + 2)) = fNext := Except.ok.inj hvalue
      refine yields_ite (fun hrises => yields_pure ⟨fun hfalls => ?_, fun _ => ?_⟩) fun hless => ?_
      · exact absurd hrises (hfalls (k + 1) (by omega)).2.not_ge
      · -- the value no longer falls
        exact Span.between_holds hd hahead (hphi.behind hd h.holds (w.point_succ_lt hd k) hrises)
      · have hfurther : w.Falls phi d (k + 2) := Walk.falls_succ.mpr ⟨h, hinside, not_le.mp hless⟩
        have hcount : k + 1 + (fuel + 1) = k + 1 + 1 + fuel := by omega
        rw [hcount]
        exact ih hfurther

end

/-- What the walk hands on: the bracket of the first step if it is cut off, and otherwise one around the
minimum, the whole interval if no direction falls. -/
structure Walk.Brackets (w : Walk) (phi : ℝ → ℝ) (m : ℝ) (limit : Nat) (found : Option (Span ℝ)) :
    Prop where
  stale : ∀ d, (d = 1 ∨ d = -1) → w.Falls phi d (limit + 1) →
    found = some (Span.between w.origin (w.point d 1))
  around : ¬ w.CutOff phi limit → (found.getD w.span).Holds m

/-- If the walk is cut off after a step beyond the first one, the minimum is not in the bracket. -/
theorem Walk.Brackets.holds_iff {w : Walk} {phi : ℝ → ℝ} {m : ℝ} {limit : Nat}
    {found : Option (Span ℝ)} (h : w.Brackets phi m limit found) (hphi : Unimodal phi w.span m)
    (hlimit : 1 ≤ limit) : (found.getD w.span).Holds m ↔ ¬ w.CutOff phi limit := by
  refine ⟨?_, h.around⟩
  rintro hholds ⟨d, hd, hfalls⟩
  rw [h.stale d hd hfalls] at hholds
  have hbeyond : d * w.point d 1 < d * m := (hfalls.mono (by omega)).ahead hd hphi
  exact Span.not_between_holds hd (w.point_zero_le hd) hbeyond hholds

section

variable {w : Walk} {phi : ℝ → ℝ} {m : ℝ}

/-- The direction of the walk is one in which the first step finds a smaller value. -/
theorem fallingDirection?_finds (signs : List ℝ) :
    Reports (answering phi)
      (fun
        | none => ∀ d ∈ signs, ¬ w.Falls phi d 1
        | some d => d ∈ signs ∧ w.Falls phi d 1)
      (fallingDirection? w.span w.origin w.first (phi w.origin) signs) := by
  induction signs with
  | nil => exact yields_pure (by simp)
  | cons sign signs ih =>
      have hrest (hnot : ¬ w.Falls phi sign 1) :
          Reports (answering phi)
            (fun
              | none => ∀ d ∈ sign :: signs, ¬ w.Falls phi d 1
              | some d => d ∈ sign :: signs ∧ w.Falls phi d 1)
            (fallingDirection? w.span w.origin w.first (phi w.origin) signs) := by
        refine ih.mono (fun _ hq => hq) ?_
        rintro (_ | d) hfound
        · exact List.forall_mem_cons.mpr ⟨hnot, hfound⟩
        · exact ⟨List.mem_cons_of_mem _ hfound.1, hfound.2⟩
      unfold fallingDirection?
      refine yields_ite (fun hsame => hrest ?_) fun _ => ?_
      · have hstays : w.point sign 1 = w.origin := (RealScalar.beq_iff _ _).mp hsame
        rw [Walk.falls_one_iff, hstays]
        exact lt_irrefl _
      · refine yields_question_bind trivial fun value hvalue => ?_
        obtain rfl : phi (w.point sign 1) = value := Except.ok.inj hvalue
        refine yields_ite (fun hless => yields_pure ?_) fun hnot => hrest ?_
        · exact ⟨List.mem_cons_self, Walk.falls_one_iff.mpr hless⟩
        · exact fun hfalls => hnot (Walk.falls_one_iff.mp hfalls)

theorem bracket?_brackets (limit : Nat) (hphi : Unimodal phi w.span m) :
    Reports (answering phi) (fun r => w.Brackets phi m limit r.1)
      (bracket? w.span limit w.origin w.first w.growth) := by
  have hsigns : ([1.0, -1.0] : List ℝ) = [1, -1] := by norm_num
  unfold bracket?
  rw [hsigns]
  refine yields_question_bind trivial fun phi0 hphi0 => ?_
  obtain rfl : phi w.origin = phi0 := Except.ok.inj hphi0
  refine yields_bind (fallingDirection?_finds [1, -1]) fun direction? hfound => ?_
  cases direction? with
  | none =>
      have hnone (d : ℝ) (hd : d = 1 ∨ d = -1) : ¬ w.Falls phi d 1 := hfound d (by simpa using hd)
      refine yields_pure ⟨fun d hd hfalls => ?_, fun _ => ⟨hphi.left, hphi.right⟩⟩
      exact absurd (hfalls.mono (by omega)) (hnone d hd)
  | some d =>
      obtain ⟨hmem, hfirst⟩ := hfound
      have hd : d = 1 ∨ d = -1 := by simpa using hmem
      refine yields_question_bind trivial fun fCurr hvalue => ?_
      obtain rfl : phi (w.point d 1) = fCurr := Except.ok.inj hvalue
      have hloop := expandLoop_brackets hd hphi limit hfirst (Span.between w.origin (w.point d 1))
      rw [pow_zero, mul_one] at hloop
      refine yields_bind hloop fun r hr => yields_pure ⟨fun d' hd' hfalls => ?_, fun hnot => ?_⟩
      · obtain rfl : d = d' := hfirst.direction_unique hd hd' (hfalls.mono (by omega)) hphi
        rw [Nat.add_comm] at hfalls
        exact congrArg some (hr.1 hfalls)
      · refine hr.2 fun hfalls => hnot ⟨d, hd, ?_⟩
        rwa [Nat.add_comm]

end

/-! ## The search -/

section

variable {phi : ℝ → ℝ} {m : ℝ} {s : Span ℝ} {options : Options ℝ} {start given growth : ℝ}

/-- Step adaptation reports the bracket that it refines. -/
theorem stepAdaptation_brackets (hs : s.left < s.right) (tol : ℝ) (limit : Nat)
    (hstart : options.realD "alpha0" s.left = .ok start)
    (hgiven : options.realD "initial_step" (0.5 * s.width) = .ok given)
    (hgrowth : options.realD "expand_factor" 2.0 = .ok growth) (hphi : Unimodal phi s m) :
    Reports (answering phi)
      (fun r => ∃ found, (Walk.ofNumbers s hs start given growth).Brackets phi m limit found ∧
        r.extra = .bracket found.isNone (found.getD s).left (found.getD s).right)
      (stepAdaptation s tol limit options) := by
  refine yields_lift_bind fun start' hstart' => yields_lift_bind fun given' hgiven' =>
    yields_lift_bind fun growth' hgrowth' => ?_
  obtain rfl : start = start' := Except.ok.inj (hstart.symm.trans hstart')
  obtain rfl : given = given' := Except.ok.inj (hgiven.symm.trans hgiven')
  obtain rfl : growth = growth' := Except.ok.inj (hgrowth.symm.trans hgrowth')
  have hbracket := bracket?_brackets (w := Walk.ofNumbers s hs start given growth) limit hphi
  refine yields_bind hbracket fun r hr => yields_bind (yields_anything _) fun inner _ => ?_
  exact yields_pure ⟨r.1, hr, rfl⟩

theorem play_stepAdaptation {request : Request ℝ} (hname : request.method = Kind.stepAdaptation.key)
    (hs : request.left < request.right) (hstart : options.realD "alpha0" request.left = .ok start)
    (hgiven : options.realD "initial_step" (0.5 * Span.width ⟨request.left, request.right⟩) =
      .ok given)
    (hgrowth : options.realD "expand_factor" 2.0 = .ok growth)
    (hphi : Unimodal phi ⟨request.left, request.right⟩ m) :
    ∃ r calls found, (search request options).play (tallied (answering phi)) 0 = (.ok r, calls) ∧
      (Walk.ofNumbers ⟨request.left, request.right⟩ hs start given growth).Brackets phi m
        request.limit.toNat found ∧
      r.extra = .bracket found.isNone (found.getD ⟨request.left, request.right⟩).left
        (found.getD ⟨request.left, request.right⟩).right := by
  obtain ⟨outcome, calls, ⟨found, hfound, hextra⟩, hplay⟩ := play_search hname hs
    (stepAdaptation_failsOnly _ request.tol request.limit.toNat hstart hgiven hgrowth)
    (stepAdaptation_brackets hs request.tol request.limit.toNat hstart hgiven hgrowth hphi)
  exact ⟨_, calls, found, hplay, hfound, hextra⟩

/-- For a function that falls strictly up to a point of the interval, and rises strictly from there on,
step adaptation refines a bracket that contains that point, unless the iterations are used up while the
walk still falls: then the bracket does not contain it. -/
theorem bracket_holds_minimum_iff {request : Request ℝ}
    (hname : request.method = Kind.stepAdaptation.key) (hs : request.left < request.right)
    (hlimit : 1 ≤ request.limit) (hstart : options.realD "alpha0" request.left = .ok start)
    (hgiven : options.realD "initial_step" (0.5 * Span.width ⟨request.left, request.right⟩) =
      .ok given)
    (hgrowth : options.realD "expand_factor" 2.0 = .ok growth)
    (hphi : Unimodal phi ⟨request.left, request.right⟩ m) :
    ∃ r calls fallback low high,
      (search request options).play (tallied (answering phi)) 0 = (.ok r, calls) ∧
      r.extra = .bracket fallback low high ∧
      (low ≤ m ∧ m ≤ high ↔
        ¬ (Walk.ofNumbers ⟨request.left, request.right⟩ hs start given growth).CutOff phi
          request.limit.toNat) := by
  obtain ⟨r, calls, found, hplay, hfound, hextra⟩ :=
    play_stepAdaptation hname hs hstart hgiven hgrowth hphi
  exact ⟨r, calls, _, _, _, hplay, hextra, hfound.holds_iff hphi (by omega)⟩

end

/-! ## A function that falls all the way -/

noncomputable def adapting (limit : Int) : Request ℝ where
  method := "step_adaptation"
  left := 0
  right := 1
  tol := 1
  limit

noncomputable def quarterStep : Options ℝ := [("initial_step", .real 0.25)]

theorem unimodal_neg : Unimodal (fun x => -x) ⟨0, 1⟩ 1 where
  left := zero_le_one
  right := le_rfl
  falls _ _ _ _ hxy := neg_lt_neg hxy
  rises _ hx _ hy hxy := absurd (hx.1.trans_lt hxy) hy.2.not_gt

/-- The walk from zero with a first step of one quarter, and steps that double. -/
noncomputable abbrev doubling : Walk := Walk.ofNumbers ⟨0, 1⟩ zero_lt_one 0 0.25 2.0

theorem doubling_point_one : doubling.point 1 1 = 1 / 4 := by
  norm_num [Walk.point, Walk.ofNumbers, Span.confine_eq]

theorem doubling_point_two : doubling.point 1 2 = 3 / 4 := by
  rw [Walk.point, doubling_point_one]
  norm_num [Walk.ofNumbers]

theorem doubling_point_three : doubling.point 1 3 = 7 / 4 := by
  rw [Walk.point, doubling_point_two]
  norm_num [Walk.ofNumbers]

theorem doubling_origin : doubling.origin = 0 := by
  norm_num [Walk.ofNumbers, Span.confine_eq]

/-- To the left there is nowhere to go. -/
theorem doubling_point_left : doubling.point (-1) 1 = doubling.origin := by
  rw [doubling_origin]
  norm_num [Walk.point, Walk.ofNumbers, Span.confine_eq]

theorem not_cutOff_doubling : ¬ doubling.CutOff (fun x => -x) 2 := by
  rintro ⟨d, rfl | rfl, hfalls⟩
  · obtain ⟨-, hhigh⟩ := (hfalls 2 (by omega)).1
    rw [doubling_point_three] at hhigh
    have hborder : doubling.span.right = 1 := rfl
    rw [hborder] at hhigh
    norm_num at hhigh
  · have hless := (hfalls 0 (by omega)).2
    rw [doubling_point_left] at hless
    exact lt_irrefl _ hless

/-- After two growths the walk has left the interval. -/
theorem second_growth_brackets :
    ∃ r calls fallback low high,
      (search (adapting 2) quarterStep).play (tallied (answering fun x => -x)) 0 = (.ok r, calls) ∧
      r.extra = .bracket fallback low high ∧ low ≤ 1 ∧ 1 ≤ high := by
  obtain ⟨r, calls, fallback, low, high, hplay, hextra, hiff⟩ :
      ∃ r calls fallback low high,
        (search (adapting 2) quarterStep).play (tallied (answering fun x => -x)) 0 =
          (.ok r, calls) ∧
        r.extra = .bracket fallback low high ∧
        (low ≤ 1 ∧ 1 ≤ high ↔ ¬ doubling.CutOff (fun x => -x) 2) :=
    bracket_holds_minimum_iff rfl zero_lt_one (by decide) rfl rfl rfl unimodal_neg
  exact ⟨r, calls, fallback, low, high, hplay, hextra, hiff.mpr not_cutOff_doubling⟩

/-- After a single growth, to three quarters, it is cut off: the bracket is that of the first step, and
the minimum at one is not in it. -/
theorem single_growth_misses :
    Unimodal (fun x => -x) ⟨0, 1⟩ 1 ∧
    ∃ r calls,
      (search (adapting 1) quarterStep).play (tallied (answering fun x => -x)) 0 = (.ok r, calls) ∧
      r.extra = .bracket false 0 (1 / 4) ∧ ¬ (1 : ℝ) ≤ 1 / 4 := by
  obtain ⟨r, calls, found, hplay, hfound, hextra⟩ :
      ∃ r calls found, (search (adapting 1) quarterStep).play
          (tallied (answering fun x => -x)) 0 = (.ok r, calls) ∧
        doubling.Brackets (fun x => -x) 1 1 found ∧
        r.extra = .bracket found.isNone (found.getD ⟨0, 1⟩).left (found.getD ⟨0, 1⟩).right :=
    play_stepAdaptation rfl zero_lt_one rfl rfl rfl unimodal_neg
  have hfalls : doubling.Falls (fun x => -x) 1 2 := by
    have hspan : doubling.span = ⟨0, 1⟩ := rfl
    rw [Walk.falls_succ, Walk.falls_one_iff, doubling_point_one, doubling_point_two, doubling_origin,
      hspan]
    norm_num [Span.Holds]
  have hstale := hfound.stale 1 (.inl rfl) hfalls
  have hbracket : Span.between (0 : ℝ) (1 / 4) = ⟨0, 1 / 4⟩ := if_neg (by norm_num)
  rw [doubling_origin, doubling_point_one, hbracket] at hstale
  rw [hstale] at hextra
  exact ⟨unimodal_neg, r, calls, hplay, hextra, by norm_num⟩

end Minima.LineSearch
