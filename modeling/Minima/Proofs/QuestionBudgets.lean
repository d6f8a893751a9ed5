import Minima.Proofs.Contracts

/-!
# How much a dialogue asks

A dialogue stays within a budget if no answers can make it ask more questions than that. What it
comes to in a result and in a failure is said along with it, so that a loop can hand on what is left
of its budget. The rules follow the constructors and the combinators as those of contracts do, and
add up the budgets of the parts.
-/

namespace Minima.Dialogue

variable {Q Q' : Type} {A : Q → Type} {A' : Q' → Type} {E α β γ σ : Type}

/-- Whatever is answered, no more than `k` questions are asked, and the dialogue ends in a result as
`post` says or in a failure as `fails` says. -/
def Within (post : α → Prop) (fails : E → Prop) : Nat → Dialogue Q A E α → Prop
  | _, .done a => post a
  | _, .fail e => fails e
  | k, .ask _ next => 0 < k ∧ ∀ r, (next r).Within post fails (k - 1)

section

variable {post mid : α → Prop} {fails : E → Prop} {d : Dialogue Q A E α} {k l b : Nat}

theorem Within.mono {post' : α → Prop} (h : d.Within post fails k) (hk : k ≤ l)
    (hpost : ∀ a, post a → post' a) : d.Within post' fails l := by
  induction d generalizing k l with
  | done a => exact hpost a h
  | fail e => exact h
  | ask q next ih =>
      obtain ⟨hpos, hnext⟩ := h
      exact ⟨by omega, fun r => ih r (hnext r) (by omega)⟩

/-- A larger budget is enough. -/
theorem Within.weaken (h : d.Within post fails k) (hk : k ≤ l) : d.Within post fails l :=
  h.mono hk fun _ h => h

theorem within_pure {a : α} (h : post a) : (pure a : Dialogue Q A E α).Within post fails k := h

theorem within_bind {f : α → Dialogue Q A E β} {post : β → Prop} (hd : d.Within mid fails k)
    (hf : ∀ a, mid a → (f a).Within post fails l) (hb : k + l ≤ b) :
    (d >>= f).Within post fails b := by
  show (d.bind f).Within post fails b
  induction d generalizing k b with
  | done a => exact (hf a hd).weaken (by omega)
  | fail e => exact hd
  | ask q next ih =>
      obtain ⟨hpos, hnext⟩ := hd
      exact ⟨by omega, fun r => ih r (hnext r) (by omega)⟩

theorem within_question_bind {q : Q} {f : A q → Dialogue Q A E β} {post : β → Prop}
    (hf : ∀ r, (f r).Within post fails k) : (question q >>= f).Within post fails (k + 1) :=
  ⟨Nat.succ_pos k, hf⟩

theorem within_lift_bind {a : Except E α} {f : α → Dialogue Q A E β} {post : β → Prop}
    (hok : ∀ x, a = .ok x → (f x).Within post fails k) (herror : ∀ e, a = .error e → fails e) :
    (liftM a >>= f).Within post fails k := by
  cases a with
  | ok x => exact hok x rfl
  | error e => exact herror e rfl

theorem within_lift {a : Except E α} (hok : ∀ x, a = .ok x → post x)
    (herror : ∀ e, a = .error e → fails e) :
    (liftM a : Dialogue Q A E α).Within post fails k := by
  cases a with
  | ok x => exact hok x rfl
  | error e => exact herror e rfl

theorem within_ite {c : Prop} [Decidable c] {d' : Dialogue Q A E α}
    (ht : c → d.Within post fails k) (hf : ¬c → d'.Within post fails k) :
    (if c then d else d').Within post fails k := by
  by_cases h : c
  · rw [if_pos h]
    exact ht h
  · rw [if_neg h]
    exact hf h

/-- Two branches that come together. -/
theorem within_join {c : Prop} [Decidable c] {d' : Dialogue Q A E α} {f : α → Dialogue Q A E β}
    {post : β → Prop} (ht : d.Within mid fails k) (hf : d'.Within mid fails k)
    (hnext : ∀ a, mid a → (f a).Within post fails l) (hb : k + l ≤ b) :
    (if c then d >>= f else d' >>= f).Within post fails b :=
  within_ite (fun _ => within_bind ht hnext hb) fun _ => within_bind hf hnext hb

/-- If one question stands for each, a dialogue asks as many others as it does of its own. -/
theorem within_inline {put : (q : Q) → Dialogue Q' A' E (A q)} (hd : d.Within post fails k)
    (hput : ∀ q, (put q).Within (fun _ => True) fails 1) : (d.inline put).Within post fails k := by
  induction d generalizing k with
  | done a => exact hd
  | fail e => exact hd
  | ask q next ih =>
      obtain ⟨hpos, hnext⟩ := hd
      exact within_bind (hput q) (fun r _ => ih r (hnext r)) (by omega)

theorem within_countedFrom (n : Nat) (hd : d.Within post fails k) :
    (d.countedFrom n).Within (fun p => post p.1) fails k := by
  induction d generalizing k n with
  | done a => exact hd
  | fail e => exact hd
  | ask q next ih => exact ⟨hd.1, fun r => ih r (n + 1) (hd.2 r)⟩

/-- Every turn of a loop has the same budget. -/
theorem within_foldlM {f : β → γ → Dialogue Q A E β}
    (hf : ∀ b c, (f b c).Within (fun _ => True) fails k) (items : List γ) (b : β) :
    (items.foldlM f b).Within (fun _ => True) fails (items.length * k) := by
  induction items generalizing b with
  | nil => exact within_pure trivial
  | cons c items ih =>
      rw [List.foldlM_cons]
      refine within_bind (hf b c) (fun b' _ => ih b') ?_
      rw [List.length_cons, Nat.succ_mul]
      omega

theorem within_ofFnM {n : Nat} {f : Fin n → Dialogue Q A E β}
    (hf : ∀ i, (f i).Within (fun _ => True) fails k) :
    (Vector.ofFnM f).Within (fun _ => True) fails (n * k) := by
  induction n with
  | zero =>
      rw [Vector.ofFnM_zero]
      exact within_pure trivial
  | succ n ih =>
      rw [Vector.ofFnM_succ]
      refine within_bind (ih fun i => hf i.castSucc) (fun xs _ => ?_)
        (Nat.le_of_eq (Nat.succ_mul n k).symm)
      exact within_bind (hf (Fin.last n)) (fun x _ => within_pure trivial) (Nat.le_of_eq (Nat.add_zero k))

/-- Played against a source that spends one at most on each answer and fails as `fails` says, a
dialogue spends no more than its budget, and ends as it says. -/
theorem Within.play {answer : (q : Q) → σ → Except E (A q) × σ} {spent : σ → Nat}
    (hd : d.Within post fails k)
    (hanswer : ∀ q s, spent (answer q s).2 ≤ spent s + 1 ∧ ∀ e, (answer q s).1 = .error e → fails e)
    (s : σ) :
    spent (d.play answer s).2 ≤ spent s + k ∧ (∀ a, (d.play answer s).1 = .ok a → post a) ∧
      ∀ e, (d.play answer s).1 = .error e → fails e := by
  induction d generalizing s k with
  | done a =>
      refine ⟨Nat.le_add_right _ _, ?_, fun _ h => by cases h⟩
      rintro _ ⟨⟩
      exact hd
  | fail e =>
      refine ⟨Nat.le_add_right _ _, fun _ h => (by cases h), ?_⟩
      rintro _ ⟨⟩
      exact hd
  | ask q next ih =>
      obtain ⟨hpos, hnext⟩ := hd
      obtain ⟨hspent, hfails⟩ := hanswer q s
      rcases hr : answer q s with ⟨e | r, s'⟩
      · rw [hr] at hspent hfails
        simp only [Dialogue.play, hr]
        refine ⟨by dsimp only at hspent; omega, fun _ h => (by cases h), ?_⟩
        rintro _ ⟨⟩
        exact hfails e rfl
      · rw [hr] at hspent
        obtain ⟨hrest, hpost, herror⟩ := ih r (hnext r) s'
        simp only [Dialogue.play, hr]
        exact ⟨by dsimp only at hspent; omega, hpost, herror⟩

end

end Minima.Dialogue
