import Minima.Dialogue

/-!
# Contracts of dialogues

A dialogue meets a contract if all its questions are of a kind and all its leaves are, whatever is
answered on the way. The rules below follow the constructors of a dialogue and the combinators that
methods and searches are written with. A dialogue that meets a contract, run against a source that
answers every question of that kind, ends as the contract says.
-/

namespace Minima.Dialogue

variable {Q Q' : Type} {A : Q → Type} {A' : Q' → Type} {E α β γ σ : Type}

/-- Whatever is answered, all questions are as `asks` says, and the dialogue ends in a result as
`post` says or in a failure as `fails` says. -/
def Meets (asks : Q → Prop) (post : α → Prop) (fails : E → Prop) : Dialogue Q A E α → Prop
  | .done a => post a
  | .fail e => fails e
  | .ask q next => asks q ∧ ∀ r, (next r).Meets asks post fails

abbrev FailsOnly (fails : E → Prop) (d : Dialogue Q A E α) : Prop :=
  d.Meets (fun _ => True) (fun _ => True) fails

section

variable {asks : Q → Prop} {post mid : α → Prop} {fails : E → Prop} {d : Dialogue Q A E α}

theorem Meets.mono {asks' : Q → Prop} {post' : α → Prop} {fails' : E → Prop}
    (h : d.Meets asks post fails) (hasks : ∀ q, asks q → asks' q) (hpost : ∀ a, post a → post' a)
    (hfails : ∀ e, fails e → fails' e) : d.Meets asks' post' fails' := by
  induction d with
  | done a => exact hpost a h
  | fail e => exact hfails e h
  | ask q next ih => exact ⟨hasks q h.1, fun r => ih r (h.2 r)⟩

theorem meets_anything (d : Dialogue Q A E α) :
    d.Meets (fun _ => True) (fun _ => True) (fun _ => True) := by
  induction d with
  | done a => trivial
  | fail e => trivial
  | ask q next ih => exact ⟨trivial, ih⟩

theorem meets_pure {a : α} (h : post a) :
    (pure a : Dialogue Q A E α).Meets asks post fails := h

theorem meets_bind {k : α → Dialogue Q A E β} {post : β → Prop} (hd : d.Meets asks mid fails)
    (hk : ∀ a, mid a → (k a).Meets asks post fails) : (d >>= k).Meets asks post fails := by
  show (d.bind k).Meets asks post fails
  induction d with
  | done a => exact hk a hd
  | fail e => exact hd
  | ask q next ih => exact ⟨hd.1, fun r => ih r (hd.2 r)⟩

theorem meets_question_bind {q : Q} {k : A q → Dialogue Q A E β} {post : β → Prop} (hq : asks q)
    (hk : ∀ r, (k r).Meets asks post fails) : (question q >>= k).Meets asks post fails :=
  ⟨hq, hk⟩

theorem meets_lift_bind {a : Except E α} {k : α → Dialogue Q A E β} {post : β → Prop}
    (hok : ∀ x, a = .ok x → (k x).Meets asks post fails) (herror : ∀ e, a = .error e → fails e) :
    (liftM a >>= k).Meets asks post fails := by
  cases a with
  | ok x => exact hok x rfl
  | error e => exact herror e rfl

/-- An attempt that is known to succeed. -/
theorem meets_known_bind {a : Except E α} {x : α} {k : α → Dialogue Q A E β} {post : β → Prop}
    (hx : a = .ok x) (hk : (k x).Meets asks post fails) :
    (liftM a >>= k).Meets asks post fails := by
  subst hx
  exact hk

theorem meets_ite {c : Prop} [Decidable c] {d' : Dialogue Q A E α}
    (ht : c → d.Meets asks post fails) (hf : ¬c → d'.Meets asks post fails) :
    (if c then d else d').Meets asks post fails := by
  by_cases h : c
  · rw [if_pos h]
    exact ht h
  · rw [if_neg h]
    exact hf h

/-- Two branches that come together. -/
theorem meets_join {c : Prop} [Decidable c] {d' : Dialogue Q A E α} {k : α → Dialogue Q A E β}
    {post : β → Prop} (ht : d.Meets asks mid fails) (hf : d'.Meets asks mid fails)
    (hk : ∀ a, mid a → (k a).Meets asks post fails) :
    (if c then d >>= k else d' >>= k).Meets asks post fails :=
  meets_ite (fun _ => meets_bind ht hk) fun _ => meets_bind hf hk

theorem meets_lift {a : Except E α} (hok : ∀ x, a = .ok x → post x)
    (herror : ∀ e, a = .error e → fails e) :
    (liftM a : Dialogue Q A E α).Meets asks post fails := by
  cases a with
  | ok x => exact hok x rfl
  | error e => exact herror e rfl

/-- A dialogue meets its contract in other questions if what stands for a question always answers. -/
theorem meets_inline {put : (q : Q) → Dialogue Q' A' E (A q)} {asks' : Q' → Prop}
    (hd : d.Meets asks post fails)
    (hput : ∀ q, asks q → (put q).Meets asks' (fun _ => True) fails) :
    (d.inline put).Meets asks' post fails := by
  induction d with
  | done a => exact hd
  | fail e => exact hd
  | ask q next ih => exact meets_bind (hput q hd.1) fun r _ => ih r (hd.2 r)

theorem meets_countedFrom (n : Nat) (hd : d.Meets asks post fails) :
    (d.countedFrom n).Meets asks (fun p => post p.1) fails := by
  induction d generalizing n with
  | done a => exact hd
  | fail e => exact hd
  | ask q next ih => exact ⟨hd.1, fun r => ih r (n + 1) (hd.2 r)⟩

theorem meets_foldlM {f : β → γ → Dialogue Q A E β}
    (hf : ∀ b c, (f b c).Meets asks (fun _ => True) fails) (l : List γ) (b : β) :
    (l.foldlM f b).Meets asks (fun _ => True) fails := by
  induction l generalizing b with
  | nil => exact meets_pure trivial
  | cons c l ih =>
      rw [List.foldlM_cons]
      exact meets_bind (hf b c) fun b' _ => ih b'

theorem meets_ofFnM {n : Nat} {f : Fin n → Dialogue Q A E β} (hf : ∀ i, (f i).FailsOnly fails) :
    (Vector.ofFnM f).FailsOnly fails := by
  induction n with
  | zero =>
      rw [Vector.ofFnM_zero]
      exact meets_pure trivial
  | succ n ih =>
      rw [Vector.ofFnM_succ]
      refine meets_bind (ih fun i => hf i.castSucc) fun xs _ => ?_
      exact meets_bind (hf (Fin.last n)) fun x _ => meets_pure trivial

/-- Run against a source that answers all its questions and keeps `I`, a dialogue ends as its
contract says, and `I` still holds. -/
theorem Meets.play {answer : (q : Q) → σ → Except E (A q) × σ} {I : σ → Prop}
    (hd : d.Meets asks post fails)
    (hanswer : ∀ q s, asks q → I s → (∃ r, (answer q s).1 = .ok r) ∧ I (answer q s).2)
    {s : σ} (hs : I s) :
    I (d.play answer s).2 ∧ (∀ a, (d.play answer s).1 = .ok a → post a) ∧
      ∀ e, (d.play answer s).1 = .error e → fails e := by
  induction d generalizing s with
  | done a =>
      refine ⟨hs, ?_, ?_⟩
      · rintro _ ⟨⟩
        exact hd
      · rintro _ ⟨⟩
  | fail e =>
      refine ⟨hs, ?_, ?_⟩
      · rintro _ ⟨⟩
      · rintro _ ⟨⟩
        exact hd
  | ask q next ih =>
      obtain ⟨⟨r, hr⟩, hleft⟩ := hanswer q s hd.1 hs
      have hplay : (ask q next).play answer s = (next r).play answer (answer q s).2 := by
        rw [Dialogue.play, ← Prod.eta (answer q s), hr]
      rw [hplay]
      exact ih r (hd.2 r) hleft

end

end Minima.Dialogue
