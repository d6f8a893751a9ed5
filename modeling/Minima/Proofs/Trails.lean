import Minima.Proofs.Readings

/-!
# What a dialogue asks

Read with fixed answers, a dialogue puts its questions one after the other and comes to a result. The
rules below follow the constructors and the combinators, so that both are known at once. What is known
of a dialogue whatever it is answered, or as long as it is told the truth, holds of them in particular.
-/

namespace Minima.Dialogue

variable {Q Q' : Type} {A : Q → Type} {A' : Q' → Type} {E α β : Type}
  {answer : (q : Q) → Except E (A q)} {d : Dialogue Q A E α} {k : α → Dialogue Q A E β}

theorem read_bind_of_ok {a : α} (h : d.read answer = .ok a) :
    (d >>= k).read answer = (k a).read answer := by
  show (d.bind k).read answer = _
  rw [read_bind, h]

theorem read_bind_of_error {e : E} (h : d.read answer = .error e) :
    (d >>= k).read answer = .error e := by
  show (d.bind k).read answer = _
  rw [read_bind, h]

theorem read_bind_eq_ok_iff {b : β} :
    (d >>= k).read answer = .ok b ↔ ∃ a, d.read answer = .ok a ∧ (k a).read answer = .ok b := by
  cases h : d.read answer with
  | ok a => simp [read_bind_of_ok h]
  | error e => simp [read_bind_of_error h]

theorem read_lift_bind {attempt : Except E α} {a : α} (h : attempt = .ok a) :
    (liftM attempt >>= k).read answer = (k a).read answer := by
  subst h
  rfl

theorem read_question_bind {q : Q} {k : A q → Dialogue Q A E β} {r : A q}
    (h : answer q = .ok r) : (question q >>= k).read answer = (k r).read answer := by
  show (ask q k).read answer = _
  rw [read, h]

/-- The questions that are put when the dialogue is read. -/
def trail (answer : (q : Q) → Except E (A q)) : Dialogue Q A E α → List Q
  | .done _ | .fail _ => []
  | .ask q next =>
    match answer q with
    | .ok r => q :: (next r).trail answer
    | .error _ => [q]

/-- Read with these answers, the dialogue puts the questions and comes to the result. -/
structure Follows (answer : (q : Q) → Except E (A q)) (qs : List Q) (a : α)
    (d : Dialogue Q A E α) : Prop where
  read : d.read answer = .ok a
  trail : d.trail answer = qs

section

variable {qs qs' : List Q} {a : α} {b : β} {q : Q}

theorem follows_pure (a : α) : (pure a : Dialogue Q A E α).Follows answer [] a := ⟨rfl, rfl⟩

theorem follows_ask {next : A q → Dialogue Q A E α} {r : A q} (h : answer q = .ok r)
    (hnext : (next r).Follows answer qs a) : (ask q next).Follows answer (q :: qs) a :=
  ⟨by rw [read, h]; exact hnext.read, by rw [trail, h]; exact congrArg (q :: ·) hnext.trail⟩

theorem follows_question_bind {r : A q} {k : A q → Dialogue Q A E β} (h : answer q = .ok r)
    (hk : (k r).Follows answer qs b) :
    (question q >>= k).Follows answer (q :: qs) b :=
  follows_ask h hk

theorem follows_lift_bind {attempt : Except E α} (h : attempt = .ok a)
    (hk : (k a).Follows answer qs b) : (liftM attempt >>= k).Follows answer qs b := by
  subst h
  exact hk

/-- What follows a question is known from its answer. -/
theorem Follows.of_ask {next : A q → Dialogue Q A E α} (h : (ask q next).Follows answer qs a) :
    ∃ r rest, answer q = .ok r ∧ qs = q :: rest ∧ (next r).Follows answer rest a := by
  obtain ⟨hread, htrail⟩ := h
  rw [Dialogue.read] at hread
  rw [Dialogue.trail] at htrail
  cases hq : answer q with
  | error e => simp [hq] at hread
  | ok r =>
      rw [hq] at hread htrail
      exact ⟨r, (next r).trail answer, rfl, htrail.symm, hread, rfl⟩

theorem follows_bind (hd : d.Follows answer qs a) (hk : (k a).Follows answer qs' b) :
    (d >>= k).Follows answer (qs ++ qs') b := by
  show (d.bind k).Follows answer (qs ++ qs') b
  induction d generalizing qs with
  | done c =>
      obtain ⟨⟨⟩, rfl⟩ := hd
      exact hk
  | fail e => cases hd.read
  | ask q next ih =>
      obtain ⟨r, rest, hr, rfl, hnext⟩ := hd.of_ask
      exact follows_ask hr (ih r hnext)

/-- What goes on with another dialogue puts the questions of both. -/
theorem Follows.of_bind (h : (d >>= k).Follows answer qs b) :
    ∃ a first rest, d.Follows answer first a ∧ (k a).Follows answer rest b ∧ qs = first ++ rest := by
  change (d.bind k).Follows answer qs b at h
  induction d generalizing qs with
  | done c => exact ⟨c, [], qs, follows_pure c, h, rfl⟩
  | fail e => cases h.read
  | ask q next ih =>
      obtain ⟨r, rest, hr, rfl, hnext⟩ := h.of_ask
      obtain ⟨c, first, rest, hfirst, hrest, rfl⟩ := ih r hnext
      exact ⟨c, q :: first, rest, follows_ask hr hfirst, hrest, rfl⟩

theorem Follows.of_question_bind {k : A q → Dialogue Q A E β}
    (h : (question q >>= k).Follows answer qs b) :
    ∃ r rest, answer q = .ok r ∧ qs = q :: rest ∧ (k r).Follows answer rest b :=
  h.of_ask

theorem Follows.of_lift_bind {attempt : Except E α}
    (h : ((liftM attempt : Dialogue Q A E α) >>= k).Follows answer qs b) :
    ∃ a, attempt = .ok a ∧ (k a).Follows answer qs b := by
  cases attempt with
  | ok a => exact ⟨a, rfl, h⟩
  | error e => cases h.read

theorem Follows.of_pure {c : α} (h : (pure c : Dialogue Q A E α).Follows answer qs a) :
    a = c ∧ qs = [] := by
  obtain ⟨⟨⟩, rfl⟩ := h
  exact ⟨rfl, rfl⟩

/-- Questions that are put into others are answered by them. -/
theorem follows_inline {put : (q : Q) → Dialogue Q' A' E (A q)}
    {answer' : (q : Q') → Except E (A' q)}
    (hd : d.Follows (fun q => (put q).read answer') qs a) :
    (d.inline put).Follows answer' (qs.flatMap fun q => (put q).trail answer') a := by
  induction d generalizing qs with
  | done c =>
      obtain ⟨⟨⟩, rfl⟩ := hd
      exact follows_pure _
  | fail e => cases hd.read
  | ask q next ih =>
      obtain ⟨r, rest, hr, rfl, hnext⟩ := hd.of_ask
      exact follows_bind ⟨hr, rfl⟩ (ih r hnext)

theorem follows_countedFrom (n : Nat) (h : d.Follows answer qs a) :
    (d.countedFrom n).Follows answer qs (a, n + qs.length) := by
  induction d generalizing n qs with
  | done c =>
      obtain ⟨⟨⟩, rfl⟩ := h
      exact follows_pure _
  | fail e => cases h.read
  | ask q next ih =>
      obtain ⟨r, rest, hr, rfl, hnext⟩ := h.of_ask
      refine follows_ask hr ?_
      have hrest := ih r (n + 1) hnext
      rwa [Nat.succ_add_eq_add_succ] at hrest

theorem Follows.of_countedFrom {n count : Nat} (h : (d.countedFrom n).Follows answer qs (a, count)) :
    d.Follows answer qs a ∧ count = n + qs.length := by
  induction d generalizing n qs with
  | done c =>
      obtain ⟨⟨⟩, rfl⟩ := h
      exact ⟨follows_pure _, rfl⟩
  | fail e => cases h.read
  | ask q next ih =>
      obtain ⟨r, rest, hr, rfl, hnext⟩ := h.of_ask
      obtain ⟨hrest, rfl⟩ := ih r hnext
      exact ⟨follows_ask hr hrest, Nat.succ_add_eq_add_succ n rest.length⟩

/-- Told the same answers, the dialogue comes to no other result. -/
theorem Follows.yields {post : α → Prop} (h : d.Follows answer qs a) (ha : post a) :
    d.Yields (fun _ => True) (fun q r => answer q = .ok r) post := by
  induction d generalizing qs with
  | done c =>
      obtain ⟨⟨⟩, -⟩ := h
      exact ha
  | fail e => cases h.read
  | ask q next ih =>
      obtain ⟨r, rest, hr, -, hnext⟩ := h.of_ask
      refine ⟨trivial, fun r' hr' => ?_⟩
      obtain rfl : r = r' := Except.ok.inj (hr.symm.trans hr')
      exact ih r hnext

/-- A dialogue that cannot fail comes to a result as its contract says if all its questions are
answered. -/
theorem Meets.follows {asks : Q → Prop} {post : α → Prop} (hd : d.Meets asks post fun _ => False)
    (hanswer : ∀ q, asks q → ∃ r, answer q = .ok r) :
    ∃ qs a, d.Follows answer qs a ∧ (∀ q ∈ qs, asks q) ∧ post a := by
  induction d with
  | done a => exact ⟨[], a, follows_pure a, by simp, hd⟩
  | fail e => exact hd.elim
  | ask q next ih =>
      obtain ⟨hq, hnext⟩ := hd
      obtain ⟨r, hr⟩ := hanswer q hq
      obtain ⟨qs, a, hfollows, hasked, ha⟩ := ih r (hnext r)
      exact ⟨q :: qs, a, follows_ask hr hfollows, List.forall_mem_cons.mpr ⟨hq, hasked⟩, ha⟩

/-- After the same dialogue, what puts the first questions still puts the first ones. -/
theorem trail_bind_mono {γ : Type} (d : Dialogue Q A E α) {k : α → Dialogue Q A E β}
    {k' : α → Dialogue Q A E γ} (h : ∀ a, (k a).trail answer <+: (k' a).trail answer) :
    (d >>= k).trail answer <+: (d >>= k').trail answer := by
  show (d.bind k).trail answer <+: (d.bind k').trail answer
  induction d with
  | done a => exact h a
  | fail e => exact List.prefix_rfl
  | ask q next ih =>
      rw [bind_ask, bind_ask, Dialogue.trail, Dialogue.trail]
      cases answer q with
      | error e => exact List.prefix_rfl
      | ok r => exact (List.prefix_cons_inj q).mpr (ih r)

end

end Minima.Dialogue
