import Minima.Proofs.Contracts

/-!
# What true answers lead to

A contract holds whatever is answered. Here only some answers are true, and a dialogue that is given
true answers asks questions of a kind and comes to a result of a kind, if it comes to one. The rules
follow the constructors and the combinators as those of contracts do. Played against a source that
answers truly, a dialogue does as it says, and so do the questions that it puts on the way.
-/

namespace Minima.Dialogue

variable {Q Q' : Type} {A : Q → Type} {A' : Q' → Type} {E α β γ σ : Type}

/-- As long as the answers are true, all questions are as `asks` says, and a result is as `post`
says. -/
def Yields (asks : Q → Prop) (told : (q : Q) → A q → Prop) (post : α → Prop) :
    Dialogue Q A E α → Prop
  | .done a => post a
  | .fail _ => True
  | .ask q next => asks q ∧ ∀ r, told q r → (next r).Yields asks told post

/-- The questions that are put when the dialogue is played. -/
def asked (answer : (q : Q) → σ → Except E (A q) × σ) : Dialogue Q A E α → σ → List Q
  | .done _, _ => []
  | .fail _, _ => []
  | .ask q next, s =>
    match answer q s with
    | (.ok r, s') => q :: (next r).asked answer s'
    | (.error _, _) => [q]

theorem asked_ask (answer : (q : Q) → σ → Except E (A q) × σ) (q : Q)
    (next : A q → Dialogue Q A E α) (s : σ) :
    ∃ rest, (Dialogue.ask q next).asked answer s = q :: rest := by
  rw [asked]
  rcases answer q s with ⟨e | r, s'⟩
  · exact ⟨[], rfl⟩
  · exact ⟨_, rfl⟩

section

variable {asks : Q → Prop} {told : (q : Q) → A q → Prop} {post mid : α → Prop}
  {d : Dialogue Q A E α}

theorem Yields.mono {asks' : Q → Prop} {post' : α → Prop} (h : d.Yields asks told post)
    (hasks : ∀ q, asks q → asks' q) (hpost : ∀ a, post a → post' a) :
    d.Yields asks' told post' := by
  induction d with
  | done a => exact hpost a h
  | fail e => trivial
  | ask q next ih => exact ⟨hasks q h.1, fun r hr => ih r (h.2 r hr)⟩

theorem yields_anything (d : Dialogue Q A E α) :
    d.Yields (fun _ => True) told (fun _ => True) := by
  induction d with
  | done a => trivial
  | fail e => trivial
  | ask q next ih => exact ⟨trivial, fun r _ => ih r⟩

theorem yields_pure {a : α} (h : post a) : (pure a : Dialogue Q A E α).Yields asks told post := h

theorem yields_bind {k : α → Dialogue Q A E β} {post : β → Prop} (hd : d.Yields asks told mid)
    (hk : ∀ a, mid a → (k a).Yields asks told post) : (d >>= k).Yields asks told post := by
  show (d.bind k).Yields asks told post
  induction d with
  | done a => exact hk a hd
  | fail e => trivial
  | ask q next ih => exact ⟨hd.1, fun r hr => ih r (hd.2 r hr)⟩

theorem yields_question_bind {q : Q} {k : A q → Dialogue Q A E β} {post : β → Prop} (hq : asks q)
    (hk : ∀ r, told q r → (k r).Yields asks told post) :
    (question q >>= k).Yields asks told post :=
  ⟨hq, hk⟩

theorem yields_lift_bind {a : Except E α} {k : α → Dialogue Q A E β} {post : β → Prop}
    (hok : ∀ x, a = .ok x → (k x).Yields asks told post) :
    (liftM a >>= k).Yields asks told post := by
  cases a with
  | ok x => exact hok x rfl
  | error e => trivial

theorem yields_lift {a : Except E α} (hok : ∀ x, a = .ok x → post x) :
    (liftM a : Dialogue Q A E α).Yields asks told post := by
  cases a with
  | ok x => exact hok x rfl
  | error e => trivial

theorem yields_ite {c : Prop} [Decidable c] {d' : Dialogue Q A E α}
    (ht : c → d.Yields asks told post) (hf : ¬c → d'.Yields asks told post) :
    (if c then d else d').Yields asks told post := by
  by_cases h : c
  · rw [if_pos h]
    exact ht h
  · rw [if_neg h]
    exact hf h

/-- Two branches that come together. -/
theorem yields_join {c : Prop} [Decidable c] {d' : Dialogue Q A E α} {k : α → Dialogue Q A E β}
    {post : β → Prop} (ht : d.Yields asks told mid) (hf : d'.Yields asks told mid)
    (hk : ∀ a, mid a → (k a).Yields asks told post) :
    (if c then d >>= k else d' >>= k).Yields asks told post :=
  yields_ite (fun _ => yields_bind ht hk) fun _ => yields_bind hf hk

/-- In other questions a dialogue asks what is put in the place of its own. -/
theorem yields_inline {put : (q : Q) → Dialogue Q' A' E (A q)} {asks' : Q' → Prop}
    {told' : (q : Q') → A' q → Prop} (d : Dialogue Q A E α)
    (hput : ∀ q, (put q).Yields asks' told' fun _ => True) :
    (d.inline put).Yields asks' told' fun _ => True := by
  induction d with
  | done a => trivial
  | fail e => trivial
  | ask q next ih => exact yields_bind (hput q) fun r _ => ih r

/-- What every turn of a loop hands on. -/
theorem yields_foldlM {f : β → γ → Dialogue Q A E β} {inv : β → Prop}
    (hf : ∀ b c, inv b → (f b c).Yields asks told inv) (l : List γ) {b : β} (hb : inv b) :
    (l.foldlM f b).Yields asks told inv := by
  induction l generalizing b with
  | nil => exact yields_pure hb
  | cons c l ih =>
      rw [List.foldlM_cons]
      exact yields_bind (hf b c hb) fun b' hb' => ih hb'

/-- What each entry of a vector comes to. -/
theorem yields_ofFnM_get {n : Nat} {f : Fin n → Dialogue Q A E β} {each : Fin n → β → Prop}
    (hf : ∀ i, (f i).Yields asks told (each i)) :
    (Vector.ofFnM f).Yields asks told fun xs => ∀ i, each i (xs.get i) := by
  induction n with
  | zero =>
      rw [Vector.ofFnM_zero]
      exact yields_pure fun i => i.elim0
  | succ n ih =>
      rw [Vector.ofFnM_succ]
      refine yields_bind (ih fun i => hf i.castSucc) fun xs hxs => ?_
      refine yields_bind (hf (Fin.last n)) fun x hx => yields_pure fun i => ?_
      cases i using Fin.lastCases with
      | last =>
          have hlast : (xs.push x).get (Fin.last n) = x := Vector.getElem_push_eq
          rwa [hlast]
      | cast i =>
          have hcast : (xs.push x).get i.castSucc = xs.get i := Vector.getElem_push_lt i.isLt
          rw [hcast]
          exact hxs i

theorem yields_ofFnM {n : Nat} {f : Fin n → Dialogue Q A E β} {each : β → Prop}
    (hf : ∀ i, (f i).Yields asks told each) :
    (Vector.ofFnM f).Yields asks told fun xs => ∀ x ∈ xs, each x := by
  refine (yields_ofFnM_get hf).mono (fun _ h => h) fun xs hxs x hx => ?_
  obtain ⟨i, hi, rfl⟩ := Vector.getElem_of_mem hx
  exact hxs ⟨i, hi⟩

/-- Played against a source that answers its questions truly while `I` holds of it, a dialogue puts
the questions and comes to the result that it says, and `I` still holds. -/
theorem Yields.play {answer : (q : Q) → σ → Except E (A q) × σ} {I : σ → Prop}
    (hd : d.Yields asks told post)
    (hanswer : ∀ q s, asks q → I s → I (answer q s).2 ∧ ∀ r, (answer q s).1 = .ok r → told q r)
    {s : σ} (hs : I s) :
    I (d.play answer s).2 ∧ (∀ a, (d.play answer s).1 = .ok a → post a) ∧
      ∀ q ∈ d.asked answer s, asks q := by
  induction d generalizing s with
  | done a =>
      refine ⟨hs, ?_, by simp [asked]⟩
      rintro _ ⟨⟩
      exact hd
  | fail e =>
      refine ⟨hs, ?_, by simp [asked]⟩
      rintro _ ⟨⟩
  | ask q next ih =>
      obtain ⟨hleft, htrue⟩ := hanswer q s hd.1 hs
      rcases hr : answer q s with ⟨e | r, s'⟩
      · rw [hr] at hleft
        simp only [Dialogue.play, asked, hr]
        refine ⟨hleft, fun _ h => (by cases h), ?_⟩
        simpa using hd.1
      · rw [hr] at hleft htrue
        obtain ⟨hI, hpost, hasked⟩ := ih r (hd.2 r (htrue r rfl)) hleft
        simp only [Dialogue.play, asked, hr]
        refine ⟨hI, hpost, ?_⟩
        simp only [List.mem_cons, forall_eq_or_imp]
        exact ⟨hd.1, hasked⟩

/-- If every answer is true, the questions that are put are of the kind, whatever the source is. -/
theorem Yields.of_asked {answer : (q : Q) → σ → Except E (A q) × σ} {s : σ}
    (hd : d.Yields asks (fun _ _ => True) post) : ∀ q ∈ d.asked answer s, asks q := by
  have hanswer : ∀ q s, asks q → True → True ∧ ∀ r, (answer q s).1 = .ok r → True :=
    fun _ _ _ _ => ⟨trivial, fun _ _ => trivial⟩
  exact (hd.play hanswer trivial).2.2

end

/-! ## What is left of the source -/

section

variable {answer : (q : Q) → σ → Except E (A q) × σ} {post mid : α → σ → Prop} {fails : σ → Prop}
  {d : Dialogue Q A E α} {s : σ}

/-- Played from `s`, the dialogue comes to a result and leaves the source as `post` says, or it fails
and leaves it as `fails` says. -/
def Leaves (answer : (q : Q) → σ → Except E (A q) × σ) (post : α → σ → Prop) (fails : σ → Prop)
    (d : Dialogue Q A E α) (s : σ) : Prop :=
  match d.play answer s with
  | (.ok a, s') => post a s'
  | (.error _, s') => fails s'

theorem Leaves.ok (h : d.Leaves answer post fails s) {a : α} {s' : σ}
    (hplay : d.play answer s = (.ok a, s')) : post a s' := by
  unfold Leaves at h
  rwa [hplay] at h

theorem Leaves.error (h : d.Leaves answer post fails s) {e : E} {s' : σ}
    (hplay : d.play answer s = (.error e, s')) : fails s' := by
  unfold Leaves at h
  rwa [hplay] at h

theorem Leaves.mono {post' : α → σ → Prop} {fails' : σ → Prop} (h : d.Leaves answer post fails s)
    (hpost : ∀ a s', post a s' → post' a s') (hfails : ∀ s', fails s' → fails' s') :
    d.Leaves answer post' fails' s := by
  unfold Leaves at h ⊢
  rcases hr : d.play answer s with ⟨e | a, s'⟩
  · rw [hr] at h
    exact hfails s' h
  · rw [hr] at h
    exact hpost a s' h

theorem leaves_pure {a : α} (h : post a s) :
    (pure a : Dialogue Q A E α).Leaves answer post fails s := h

theorem leaves_bind {k : α → Dialogue Q A E β} {post : β → σ → Prop}
    (hd : d.Leaves answer mid fails s)
    (hk : ∀ a s', mid a s' → (k a).Leaves answer post fails s') :
    (d >>= k).Leaves answer post fails s := by
  have hplay := play_bind answer d k s
  unfold Leaves at hd ⊢
  rw [show (d >>= k).play answer s = _ from hplay]
  rcases hr : d.play answer s with ⟨e | a, s'⟩
  · rw [hr] at hd
    exact hd
  · rw [hr] at hd
    exact hk a s' hd

theorem leaves_question_bind {q : Q} {k : A q → Dialogue Q A E β} {post : β → σ → Prop}
    (hok : ∀ r s', answer q s = (.ok r, s') → (k r).Leaves answer post fails s')
    (herror : ∀ e s', answer q s = (.error e, s') → fails s') :
    (question q >>= k).Leaves answer post fails s := by
  show Leaves answer post fails (.ask q k) s
  unfold Leaves
  rw [play]
  rcases hr : answer q s with ⟨e | r, s'⟩
  · exact herror e s' hr
  · exact hok r s' hr

theorem leaves_lift_bind {a : Except E α} {k : α → Dialogue Q A E β} {post : β → σ → Prop}
    (hok : ∀ x, a = .ok x → (k x).Leaves answer post fails s) (herror : fails s) :
    (liftM a >>= k).Leaves answer post fails s := by
  cases a with
  | ok x => exact hok x rfl
  | error e => exact herror

theorem leaves_ite {c : Prop} [Decidable c] {d' : Dialogue Q A E α}
    (ht : c → d.Leaves answer post fails s) (hf : ¬c → d'.Leaves answer post fails s) :
    (if c then d else d').Leaves answer post fails s := by
  by_cases h : c
  · rw [if_pos h]
    exact ht h
  · rw [if_neg h]
    exact hf h

theorem leaves_join {c : Prop} [Decidable c] {d' : Dialogue Q A E α} {k : α → Dialogue Q A E β}
    {post : β → σ → Prop} (ht : d.Leaves answer mid fails s) (hf : d'.Leaves answer mid fails s)
    (hk : ∀ a s', mid a s' → (k a).Leaves answer post fails s') :
    (if c then d >>= k else d' >>= k).Leaves answer post fails s :=
  leaves_ite (fun _ => leaves_bind ht hk) fun _ => leaves_bind hf hk

/-- A dialogue that asks of a kind leaves the source as every answer of that kind does. -/
theorem Yields.leaves {asks : Q → Prop} {told : (q : Q) → A q → Prop} {post : α → Prop}
    {I : σ → Prop} (hd : d.Yields asks told post)
    (hok : ∀ q s r s', asks q → I s → answer q s = (.ok r, s') → told q r ∧ I s')
    (herror : ∀ q s e s', asks q → I s → answer q s = (.error e, s') → fails s')
    (hfail : ∀ s, I s → fails s) (hs : I s) :
    d.Leaves answer (fun a s' => post a ∧ I s') fails s := by
  induction d generalizing s with
  | done a => exact ⟨hd, hs⟩
  | fail e => exact hfail s hs
  | ask q next ih =>
      unfold Leaves
      rw [Dialogue.play]
      rcases hr : answer q s with ⟨e | r, s'⟩
      · exact herror q s e s' hd.1 hs hr
      · obtain ⟨htold, hI⟩ := hok q s r s' hd.1 hs hr
        exact ih r (hd.2 r htold) hI

end

end Minima.Dialogue
