import Minima.Proofs.Contracts
import Minima.Proofs.EngineRuns

/-!
# Objectives and criteria that always answer

An objective is total if it has a value, a gradient and a Hessian of the right size everywhere. Every
computation that consults a total objective ends as its contract says. A criterion fits a dimension
if the minima in it are points of that dimension. Asked about a snapshot of a point of that
dimension, a criterion that fits never fails.
-/

namespace Minima

open Dialogue

variable {R : Type} {n : Nat} {α : Type}

/-- A remembered gradient has as many components as there are variables. -/
def Ledger.Sized (l : Ledger R n) : Prop :=
  ∀ {x : Vector R n} {g : Array R}, l.lastGradient = some (x, g) → g.size = n

theorem Ledger.sized_empty : ({} : Ledger R n).Sized := nofun

variable [Scalar R]

/-- The objective has a value, a gradient and a Hessian of the right size everywhere, by formulas or
by differences. -/
structure Objective.Total (f : Objective R n) : Prop where
  value : ∀ x, ∃ v, f.value x = .ok v
  gradient : ∀ x, ∃ g : Array R, Ledger.rawGradient f x = .ok g ∧ g.size = n
  hessian : ∀ x, ∃ h, Ledger.rawHessian f x = .ok h

namespace Ledger

variable {f : Objective R n} {l : Ledger R n}

theorem value_total (hf : f.Total) (hl : l.Sized) (x : Vector R n) :
    (∃ v, (value f x l).1 = .ok v) ∧ (value f x l).2.Sized := by
  obtain ⟨v, hv⟩ := hf.value x
  unfold value
  cases remembered? l.lastValue x with
  | some v' => exact ⟨⟨v', rfl⟩, hl⟩
  | none =>
      rw [hv]
      exact ⟨⟨v, rfl⟩, hl⟩

theorem gradient_total (hf : f.Total) (hl : l.Sized) (x : Vector R n) :
    (∃ g, (gradient f x l).1 = .ok g ∧ g.size = n) ∧ (gradient f x l).2.Sized := by
  obtain ⟨g, hg, hsize⟩ := hf.gradient x
  unfold gradient
  cases hm : remembered? l.lastGradient x with
  | some g' =>
      refine ⟨⟨g', rfl, ?_⟩, hl⟩
      cases hlast : l.lastGradient with
      | none => simp [hlast, remembered?] at hm
      | some p =>
          obtain ⟨y, g₀⟩ := p
          by_cases hsame : Linear.same y x = true
          · have heq : g₀ = g' := by simpa [hlast, remembered?, hsame] using hm
            exact heq ▸ hl hlast
          · simp [hlast, remembered?, hsame] at hm
  | none =>
      rw [hg]
      refine ⟨⟨g, rfl, hsize⟩, ?_⟩
      rintro _ _ ⟨⟩
      exact hsize

theorem hessian_total (hf : f.Total) (hl : l.Sized) (x : Vector R n) :
    (∃ h, (hessian f x l).1 = .ok h) ∧ (hessian f x l).2.Sized := by
  obtain ⟨h, hh⟩ := hf.hessian x
  unfold hessian
  cases remembered? l.lastHessian x with
  | some h' => exact ⟨⟨h', rfl⟩, hl⟩
  | none =>
      rw [hh]
      exact ⟨⟨h, rfl⟩, hl⟩

theorem answer_total (hf : f.Total) (hl : l.Sized) (q : Question R n) :
    (∃ r, (answer f q l).1 = .ok r) ∧ (answer f q l).2.Sized := by
  cases q with
  | value x => exact value_total hf hl x
  | hessian x => exact hessian_total hf hl x
  | gradient x =>
      obtain ⟨⟨g, hg, hsize⟩, hleft⟩ := gradient_total hf hl x
      simp only [answer]
      rcases hr : gradient f x l with ⟨e | g', l'⟩
      · simp [hr] at hg
      · obtain rfl : g' = g := by simpa [hr] using hg
        rw [hr] at hleft
        refine ⟨⟨⟨g', hsize⟩, ?_⟩, hleft⟩
        show sized g' = _
        rw [sized, dif_pos hsize]
        rfl

end Ledger

/-- On a total objective a computation ends as its contract says. -/
theorem Consult.run_total {f : Objective R n} (hf : f.Total) {l : Ledger R n} (hl : l.Sized)
    {d : Consult R n α} {asks : Question R n → Prop} {post : α → Prop} {fails : Failure R → Prop}
    (hd : d.Meets asks post fails) :
    (d.run f l).2.Sized ∧ (∀ a, (d.run f l).1 = .ok a → post a) ∧
      ∀ e, (d.run f l).1 = .error e → fails e :=
  hd.play (fun q _ _ hs => Ledger.answer_total hf hs q) hl

/-! ## Criteria -/

namespace Criterion

/-- All minima in the criterion are points of dimension `n`, and no part of it is of the caller's
own making. -/
inductive Fits (n : Nat) : Criterion R → Prop
  | gradientNorm (threshold : R) : Fits n (.gradientNorm threshold)
  | valueDistance (least threshold : R) (relative : Bool) :
      Fits n (.valueDistance least threshold relative)
  | pointDistance {minimum : Array R} (threshold : R) (relative : Bool) (h : minimum.size = n) :
      Fits n (.pointDistance minimum threshold relative)
  | iterations (limit : Nat) : Fits n (.iterations limit)
  | compound (mode : Mode) {criteria : List (Criterion R)} (h : ∀ c ∈ criteria, Fits n c) :
      Fits n (.compound mode criteria)

/-- The gauge asks only for gradients at points of dimension `n`, and does not fail. -/
abbrev Answers (n : Nat) (g : Gauge R α) : Prop :=
  g.Meets (fun point => point.size = n) (fun _ => True) (fun _ => False)

variable {v : Snapshot R} {k : Nat}

theorem gradientLength_answers {point : Array R} (h : point.size = n) :
    Answers n (gradientLength point) :=
  meets_question_bind h fun _ => meets_pure trivial

theorem pointGap_returns {minimum point : Array R} (relative : Bool)
    (h : point.size = minimum.size) : ∃ gap, pointGap minimum relative point = .ok gap := by
  unfold pointGap
  rw [dif_pos h]
  exact ⟨_, rfl⟩

theorem holding_answers {criteria : List (Criterion R)}
    (h : ∀ c ∈ criteria, Answers n (c.holds v k)) : Answers n (holding v k criteria) := by
  induction criteria with
  | nil =>
      rw [holding]
      exact meets_pure trivial
  | cons c criteria ih =>
      rw [holding]
      refine meets_bind (h c (by simp)) fun first _ => ?_
      exact meets_bind (ih fun c' hc' => h c' (by simp [hc'])) fun rest _ => meets_pure trivial

theorem holds_answers {c : Criterion R} (hc : c.Fits n) (hv : v.point.size = n) :
    Answers n (c.holds v k) := by
  induction hc with
  | gradientNorm threshold =>
      rw [holds]
      exact meets_bind (gradientLength_answers hv) fun _ _ => meets_pure trivial
  | valueDistance least threshold relative =>
      rw [holds]
      exact meets_pure trivial
  | pointDistance threshold relative h =>
      obtain ⟨gap, hgap⟩ := pointGap_returns relative (hv.trans h.symm)
      rw [holds]
      exact meets_known_bind hgap (meets_pure trivial)
  | iterations limit =>
      rw [holds]
      exact meets_pure trivial
  | compound mode _ ih =>
      rw [holds]
      exact meets_bind (holding_answers ih) fun _ _ => meets_pure trivial

theorem measureNth_answers {criteria : List (Criterion R)}
    (h : ∀ c ∈ criteria, Answers n (c.measure v k)) (i : Nat) :
    Answers n (measureNth v k i criteria) := by
  induction criteria generalizing i with
  | nil =>
      rw [measureNth]
      exact meets_pure trivial
  | cons c criteria ih =>
      cases i with
      | zero =>
          rw [measureNth]
          exact h c (by simp)
      | succ i =>
          rw [measureNth]
          exact ih (fun c' hc' => h c' (by simp [hc'])) i

theorem measure_answers {c : Criterion R} (hc : c.Fits n) (hv : v.point.size = n) :
    Answers n (c.measure v k) := by
  induction hc with
  | gradientNorm threshold =>
      rw [measure]
      exact gradientLength_answers hv
  | valueDistance least threshold relative =>
      rw [measure]
      exact meets_pure trivial
  | pointDistance threshold relative h =>
      obtain ⟨gap, hgap⟩ := pointGap_returns relative (hv.trans h.symm)
      rw [measure, hgap]
      exact meets_pure trivial
  | iterations limit =>
      rw [measure]
      exact meets_pure trivial
  | compound mode hcriteria ih =>
      rw [measure]
      refine meets_bind (holding_answers fun c hc => ?_) fun held _ => measureNth_answers ih _
      exact holds_answers (hcriteria c hc) hv

end Criterion

/-- On a total objective a gauge that answers returns. -/
theorem Solver.gauged_total {f : Objective R n} (hf : f.Total) {l : Ledger R n} (hl : l.Sized)
    {g : Gauge R α} (hg : Criterion.Answers n g) :
    (∃ a, (gauged f g l).1 = .ok a) ∧ (gauged f g l).2.Sized := by
  have hanswer : ∀ (point : Array R) (l : Ledger R n), point.size = n → l.Sized →
      (∃ g, (Ledger.request f (Ledger.gradient f) (Tensor.ofArray point) l).1 = .ok g) ∧
        (Ledger.request f (Ledger.gradient f) (Tensor.ofArray point) l).2.Sized := by
    intro point l hpoint hl
    have hp : Ledger.point? f (Tensor.ofArray point) = .ok ⟨point, hpoint⟩ := by
      simp [Ledger.point?, Tensor.toVector?, Tensor.ofArray, hpoint]
      rfl
    obtain ⟨⟨g, hg, -⟩, hleft⟩ := Ledger.gradient_total hf hl ⟨point, hpoint⟩
    rw [Ledger.request, hp]
    exact ⟨⟨g, hg⟩, hleft⟩
  obtain ⟨hleft, -, hfails⟩ := hg.play hanswer hl
  refine ⟨?_, hleft⟩
  rcases hr : (gauged f g l).1 with e | a
  · exact (hfails e hr).elim
  · exact ⟨a, rfl⟩

end Minima
