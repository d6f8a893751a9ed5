import Minima.Proofs.Acceptance
import Minima.Proofs.Contracts

/-!
# What answers fail with

An attempt fails only in certain ways if all its parts do. So if the functions of an objective fail
only in certain ways, its differences do, and so does whatever is answered from its ledger, apart from
a few failures of arithmetic and of sizes. A dialogue that fails does so in a way of its own, or an
answer has failed.
-/

namespace Minima

variable {R α β : Type}

namespace Attempt

/-- The attempt fails in no other way. -/
def FailsOnly (fails : Failure R → Prop) (a : Attempt R α) : Prop := ∀ e, a = .error e → fails e

variable {fails : Failure R → Prop}

theorem failsOnly_pure (a : α) : FailsOnly fails (pure a : Attempt R α) := nofun

theorem failsOnly_throw {e : Failure R} (h : fails e) :
    FailsOnly fails (throw e : Attempt R α) := by
  rintro _ ⟨⟩
  exact h

theorem failsOnly_bind {a : Attempt R α} {k : α → Attempt R β} (ha : a.FailsOnly fails)
    (hk : ∀ x, (k x).FailsOnly fails) : FailsOnly fails (a >>= k) := by
  intro e he
  rcases bind_eq_error.mp he with he | ⟨x, -, he⟩
  · exact ha e he
  · exact hk x e he

theorem failsOnly_ite {c : Prop} [Decidable c] {a b : Attempt R α} (ht : c → a.FailsOnly fails)
    (hf : ¬c → b.FailsOnly fails) : (if c then a else b).FailsOnly fails := by
  by_cases h : c
  · rw [if_pos h]
    exact ht h
  · rw [if_neg h]
    exact hf h

theorem failsOnly_ofFnM {k : Nat} {f : Fin k → Attempt R α} (hf : ∀ i, (f i).FailsOnly fails) :
    (Vector.ofFnM f).FailsOnly fails := by
  induction k with
  | zero =>
      rw [Vector.ofFnM_zero]
      exact failsOnly_pure _
  | succ k ih =>
      rw [Vector.ofFnM_succ]
      refine failsOnly_bind (ih fun i => hf i.castSucc) fun xs => ?_
      exact failsOnly_bind (hf (Fin.last k)) fun x => failsOnly_pure _

end Attempt

open Attempt

/-- The dialogue ends as its contract says also where answers fail, if their failures are among those
that it allows. -/
theorem Dialogue.Meets.play_failing {Q E σ : Type} {A : Q → Type} {asks : Q → Prop}
    {post : α → Prop} {fails : E → Prop} {d : Dialogue Q A E α}
    {answer : (q : Q) → σ → Except E (A q) × σ} (hd : d.Meets asks post fails)
    (hanswer : ∀ q s e, asks q → (answer q s).1 = .error e → fails e) (s : σ) :
    (∀ a, (d.play answer s).1 = .ok a → post a) ∧
      ∀ e, (d.play answer s).1 = .error e → fails e := by
  induction d generalizing s with
  | done a =>
      constructor
      · rintro _ ⟨⟩
        exact hd
      · intro e he
        cases he
  | fail e =>
      constructor
      · intro a ha
        cases ha
      · rintro _ ⟨⟩
        exact hd
  | ask q next ih =>
      rw [Dialogue.play]
      rcases hr : answer q s with ⟨e | r, s'⟩
      · constructor
        · intro a ha
          cases ha
        · rintro _ ⟨⟩
          exact hanswer q s e hd.1 (congrArg Prod.fst hr)
      · exact ih r (hd.2 r) s'

variable [Scalar R] {n : Nat} {fails : Failure R → Prop}

/-- The failures that the answers of an objective can add to those of its functions. -/
structure Failure.Admits (fails : Failure R → Prop) : Prop where
  division : fails .divisionByZero
  power : fails .powerOverflow
  shape : fails .shapeMismatch

namespace Objective

structure FailsOnly (fails : Failure R → Prop) (f : Objective R n) : Prop where
  value : ∀ x, (f.value x).FailsOnly fails
  gradient : ∀ {g}, f.gradient? = some g → ∀ x, (g x).FailsOnly fails
  hessian : ∀ {h}, f.hessian? = some h → ∀ x, (h x).FailsOnly fails

theorem quotient_failsOnly (hfails : Failure.Admits fails) (guarded : Bool) (a b : R) :
    (quotient guarded a b).FailsOnly fails := by
  refine failsOnly_ite (fun _ => ?_) fun _ => failsOnly_pure _
  exact failsOnly_ite (fun _ => failsOnly_throw hfails.division) fun _ => failsOnly_pure _

theorem squared_failsOnly (hfails : Failure.Admits fails) (h : R) : (squared h).FailsOnly fails :=
  failsOnly_ite (fun _ => failsOnly_throw hfails.power) fun _ => failsOnly_pure _

namespace FailsOnly

omit [Scalar R] in
theorem mono {fails' : Failure R → Prop} {f : Objective R n} (hf : f.FailsOnly fails)
    (h : ∀ e, fails e → fails' e) : f.FailsOnly fails' where
  value x e he := h e (hf.value x e he)
  gradient hg x e he := h e (hf.gradient hg x e he)
  hessian hh x e he := h e (hf.hessian hh x e he)

variable {f : Objective R n} (hf : f.FailsOnly fails) (hfails : Failure.Admits fails)

include hf hfails

theorem differenceGradient (x : Vector R n) (h : R) :
    (f.differenceGradient x h).FailsOnly fails := by
  refine failsOnly_ofFnM fun i => ?_
  refine failsOnly_bind (hf.value _) fun a => failsOnly_bind (hf.value _) fun b => ?_
  exact quotient_failsOnly hfails _ _ _

theorem curvature (x : Vector R n) (h centre : R) (i : Fin n) :
    (f.curvature x h centre i).FailsOnly fails := by
  refine failsOnly_bind (hf.value _) fun a => failsOnly_bind (hf.value _) fun b => ?_
  exact failsOnly_bind (squared_failsOnly hfails h) fun den => quotient_failsOnly hfails _ _ _

theorem mixed (x : Vector R n) (h : R) (i j : Fin n) : (f.mixed x h i j).FailsOnly fails := by
  refine failsOnly_bind (hf.value _) fun a => failsOnly_bind (hf.value _) fun b => ?_
  refine failsOnly_bind (hf.value _) fun c => failsOnly_bind (hf.value _) fun d => ?_
  exact failsOnly_bind (squared_failsOnly hfails h) fun den => quotient_failsOnly hfails _ _ _

theorem differenceHessian (x : Vector R n) (h : R) :
    (f.differenceHessian x h).FailsOnly fails := by
  refine failsOnly_bind (hf.value x) fun centre => ?_
  refine failsOnly_bind (failsOnly_ofFnM fun i => hf.curvature hfails x h centre i) fun diagonal =>
    ?_
  refine failsOnly_bind (failsOnly_ofFnM fun i => failsOnly_ofFnM fun j => ?_) fun upper =>
    failsOnly_pure _
  exact failsOnly_ite (fun _ => hf.mixed hfails x h i j) fun _ => failsOnly_pure _

theorem rawGradient (x : Vector R n) : (Ledger.rawGradient f x).FailsOnly fails := by
  unfold Ledger.rawGradient
  cases hg : f.gradient? with
  | some g => exact hf.gradient hg x
  | none => exact failsOnly_bind (hf.differenceGradient hfails x _) fun g => failsOnly_pure _

theorem rawHessian (x : Vector R n) : (Ledger.rawHessian f x).FailsOnly fails := by
  unfold Ledger.rawHessian
  cases hh : f.hessian? with
  | some h =>
      refine failsOnly_bind (hf.hessian hh x) fun entries => ?_
      by_cases hsize : entries.size = n * n
      · rw [dif_pos hsize]
        exact failsOnly_pure _
      · rw [dif_neg hsize]
        exact failsOnly_throw hfails.shape
  | none => exact hf.differenceHessian hfails x _

end FailsOnly

end Objective

namespace Ledger

variable {f : Objective R n} (hf : f.FailsOnly fails) (hfails : Failure.Admits fails)
  (l : Ledger R n)

theorem value_failsOnly (hf : f.FailsOnly fails) (l : Ledger R n) (x : Vector R n) :
    (value f x l).1.FailsOnly fails := by
  unfold value
  cases remembered? l.lastValue x with
  | some v => exact failsOnly_pure v
  | none =>
      have hvalue := hf.value x
      cases hv : f.value x with
      | error e =>
          rw [hv] at hvalue
          exact hvalue
      | ok v => exact failsOnly_pure v

include hf hfails

theorem gradient_failsOnly (x : Vector R n) : (gradient f x l).1.FailsOnly fails := by
  unfold gradient
  cases remembered? l.lastGradient x with
  | some g => exact failsOnly_pure g
  | none =>
      have hgradient := hf.rawGradient hfails x
      cases hg : rawGradient f x with
      | error e =>
          rw [hg] at hgradient
          exact hgradient
      | ok g => exact failsOnly_pure g

theorem hessian_failsOnly (x : Vector R n) : (hessian f x l).1.FailsOnly fails := by
  unfold hessian
  cases remembered? l.lastHessian x with
  | some h => exact failsOnly_pure h
  | none =>
      have hhessian := hf.rawHessian hfails x
      cases hh : rawHessian f x with
      | error e =>
          rw [hh] at hhessian
          exact hhessian
      | ok h => exact failsOnly_pure h

theorem answer_failsOnly (q : Question R n) : (answer f q l).1.FailsOnly fails := by
  cases q with
  | value x => exact value_failsOnly hf l x
  | hessian x => exact hessian_failsOnly hf hfails l x
  | gradient x =>
      have hgradient := gradient_failsOnly hf hfails l x
      rcases hr : gradient f x l with ⟨e | g, l'⟩
      · rw [hr] at hgradient
        simp only [answer, hr]
        rintro _ ⟨⟩
        exact hgradient e rfl
      · simp only [answer, hr]
        show (sized g).FailsOnly fails
        unfold sized
        by_cases hsize : g.size = n
        · rw [dif_pos hsize]
          exact failsOnly_pure _
        · rw [dif_neg hsize]
          exact failsOnly_throw hfails.shape

/-- A gradient that is asked for at a point of the right size fails only as the objective does. -/
theorem request_failsOnly {point : Array R} (hsize : point.size = n) :
    (request f (gradient f) (Tensor.ofArray point) l).1.FailsOnly fails := by
  have hpoint : point? f (Tensor.ofArray point) = .ok ⟨point, hsize⟩ := by
    simp [point?, Tensor.toVector?, Tensor.ofArray, hsize]
    rfl
  rw [request, hpoint]
  exact gradient_failsOnly hf hfails l _

end Ledger

end Minima
