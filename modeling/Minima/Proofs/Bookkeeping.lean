import Minima.Proofs.EqualPoints

/-!
# The books of an objective

A ledger keeps the same books for values, gradients and Hessians: a counter, and the last successful
request with its answer. Whatever is called, in whatever order and at whatever points, the answers
are those of the functions themselves, and a counter stands at the number of requests of its kind
that were made of the right shape and at a point that does not equal the one of the last success.

The memory may hold another point than the last success had, since a request that it answers is a
success as well. As equality of points is symmetric and transitive, the two points equal the same
points, and this is what the count is carried by.
-/

namespace Minima

variable {R : Type} {n : Nat}

namespace Ledger

/-- What there are books of. -/
inductive Kind where
  | value
  | gradient
  | hessian
deriving DecidableEq

abbrev Kind.Result (R : Type) (n : Nat) : Kind → Type
  | .value => R
  | .gradient => Array R
  | .hessian => Linear.Square R n

def count (l : Ledger R n) : Kind → Nat
  | .value => l.values
  | .gradient => l.gradients
  | .hessian => l.hessians

def last (l : Ledger R n) : (k : Kind) → Option (Vector R n × k.Result R n)
  | .value => l.lastValue
  | .gradient => l.lastGradient
  | .hessian => l.lastHessian

def counted (l : Ledger R n) : Kind → Ledger R n
  | .value => { l with values := l.values + 1 }
  | .gradient => { l with gradients := l.gradients + 1 }
  | .hessian => { l with hessians := l.hessians + 1 }

def keeping (l : Ledger R n) : (k : Kind) → Vector R n × k.Result R n → Ledger R n
  | .value, p => { l with lastValue := some p }
  | .gradient, p => { l with lastGradient := some p }
  | .hessian, p => { l with lastHessian := some p }

section

variable (l : Ledger R n) {k k' : Kind}

@[simp] theorem count_counted : (l.counted k).count k = l.count k + 1 := by cases k <;> rfl

@[simp] theorem last_counted : (l.counted k).last k' = l.last k' := by cases k <;> cases k' <;> rfl

@[simp] theorem count_keeping (p : Vector R n × k.Result R n) :
    (l.keeping k p).count k' = l.count k' := by cases k <;> cases k' <;> rfl

@[simp] theorem last_keeping (p : Vector R n × k.Result R n) : (l.keeping k p).last k = some p := by
  cases k <;> rfl

theorem count_counted_of_ne (h : k' ≠ k) : (l.counted k).count k' = l.count k' := by
  cases k <;> cases k' <;> first | rfl | exact absurd rfl h

theorem last_keeping_of_ne (p : Vector R n × k.Result R n) (h : k' ≠ k) :
    (l.keeping k p).last k' = l.last k' := by
  cases k <;> cases k' <;> first | rfl | exact absurd rfl h

end

variable [Scalar R]

def evaluate (f : Objective R n) : (k : Kind) → Vector R n → Attempt R (k.Result R n)
  | .value => f.value
  | .gradient => rawGradient f
  | .hessian => rawHessian f

/-- A request at a point of the right dimension. -/
def serve (f : Objective R n) :
    (k : Kind) → Vector R n → Ledger R n → Attempt R (k.Result R n) × Ledger R n
  | .value => value f
  | .gradient => gradient f
  | .hessian => hessian f

variable {f : Objective R n} {k k' : Kind} {x : Vector R n} {l : Ledger R n}

/-! All three kinds of requests are served in the same way. -/

theorem serve_remembered {a : k.Result R n} (h : remembered? (l.last k) x = some a) :
    serve f k x l = (.ok a, l) := by
  cases k <;> simp only [serve, value, gradient, hessian, last] at h ⊢ <;> rw [h]

theorem serve_ok {a : k.Result R n} (h : remembered? (l.last k) x = none)
    (ha : evaluate f k x = .ok a) :
    serve f k x l = (.ok a, (l.counted k).keeping k (x, a)) := by
  cases k <;> simp only [serve, value, gradient, hessian, last, evaluate] at h ha ⊢ <;>
    rw [h, ha] <;> rfl

theorem serve_error {e : Failure R} (h : remembered? (l.last k) x = none)
    (he : evaluate f k x = .error e) : serve f k x l = (.error e, l.counted k) := by
  cases k <;> simp only [serve, value, gradient, hessian, last, evaluate] at h he ⊢ <;>
    rw [h, he] <;> rfl

theorem serve_others (h : k' ≠ k) :
    (serve f k x l).2.count k' = l.count k' ∧ (serve f k x l).2.last k' = l.last k' := by
  cases hm : remembered? (l.last k) x with
  | some a =>
      rw [serve_remembered hm]
      exact ⟨rfl, rfl⟩
  | none =>
      cases ha : evaluate f k x with
      | error e =>
          rw [serve_error hm ha]
          exact ⟨count_counted_of_ne l h, last_counted l⟩
      | ok a =>
          rw [serve_ok hm ha, count_keeping, last_keeping_of_ne _ _ h, last_counted]
          exact ⟨count_counted_of_ne l h, rfl⟩

theorem serve_truthful (hf : f.RespectsEquality) (hl : l.Truthful f) :
    (serve f k x l).1 = evaluate f k x ∧ (serve f k x l).2.Truthful f := by
  cases k with
  | value => exact value_truthful hf hl x
  | gradient => exact gradient_truthful hf hl x
  | hessian => exact hessian_truthful hf hl x

/-! ## Calls -/

/-- A call of one who holds the objective. -/
inductive Call (R : Type) where
  | request (k : Kind) (t : Tensor R)
  | reset

inductive Reply (R : Type) where
  | value (v : R)
  | gradient (g : Array R)
  | hessian (h : Tensor R)
  | nothing

def Reply.of : (k : Kind) → k.Result R n → Reply R
  | .value, v => .value v
  | .gradient, g => .gradient g
  | .hessian, h => .hessian (Tensor.ofRows n (h.toArray.map Vector.toArray))

/-- An inquiry whose answer is rewritten. -/
def relayed {α β : Type} (q : Inquiry R α) (g : α → β) : Inquiry R β := fun n f l =>
  ((q n f l).1.map g, (q n f l).2)

def Call.inquiry : Call R → Inquiry R (Reply R)
  | .request .value t => relayed (Inquiry.value t) .value
  | .request .gradient t => relayed (Inquiry.gradient t) .gradient
  | .request .hessian t => relayed (Inquiry.hessian t) .hessian
  | .reset => relayed Inquiry.reset fun _ => .nothing

/-- The reply of an objective that nothing is kept of. -/
def plainReply (f : Objective R n) : Call R → Attempt R (Reply R)
  | .request k t => do return .of k (← evaluate f k (← point? f t))
  | .reset => return .nothing

def replies (f : Objective R n) : Ledger R n → List (Call R) → List (Attempt R (Reply R))
  | _, [] => []
  | l, c :: calls => (c.inquiry n f l).1 :: replies f (c.inquiry n f l).2 calls

/-- The ledger after calls on an objective that nothing has been asked of. -/
def after (f : Objective R n) (calls : List (Call R)) : Ledger R n :=
  calls.foldl (fun l c => (c.inquiry n f l).2) {}

variable {t : Tensor R}

theorem inquiry_misshapen (f : Objective R n) (k : Kind) (l : Ledger R n)
    (h : t.toVector? n = none) :
    (Call.request k t).inquiry n f l = (.error (.configuration (.pointShape f.name n t.shape)), l) := by
  have hp : point? f t = .error (.configuration (.pointShape f.name n t.shape)) := by
    rw [point?, h]
    rfl
  cases k <;> simp only [Call.inquiry, relayed, Inquiry.value, Inquiry.gradient, Inquiry.hessian,
    request, hp] <;> rfl

theorem inquiry_request (f : Objective R n) (k : Kind) (l : Ledger R n)
    (h : t.toVector? n = some x) :
    (Call.request k t).inquiry n f l =
      ((serve f k x l).1.map (Reply.of k), (serve f k x l).2) := by
  have hp : point? f t = .ok x := by
    rw [point?, h]
    rfl
  cases k with
  | value => simp only [Call.inquiry, relayed, Inquiry.value, request, hp, serve]; rfl
  | gradient => simp only [Call.inquiry, relayed, Inquiry.gradient, request, hp, serve]; rfl
  | hessian =>
      simp only [Call.inquiry, relayed, Inquiry.hessian, request, hp, serve]
      rcases hessian f x l with ⟨e | a, l'⟩ <;> rfl

theorem plainReply_request (f : Objective R n) (k : Kind) (h : t.toVector? n = some x) :
    plainReply f (.request k t) = (evaluate f k x).map (Reply.of k) := by
  have hp : point? f t = .ok x := by
    rw [point?, h]
    rfl
  simp only [plainReply, hp]
  show (evaluate f k x >>= fun a => pure (Reply.of k a)) = _
  cases evaluate f k x <;> rfl

theorem inquiry_truthful (hf : f.RespectsEquality) (hl : l.Truthful f) (c : Call R) :
    (c.inquiry n f l).1 = plainReply f c ∧ (c.inquiry n f l).2.Truthful f := by
  cases c with
  | reset => exact ⟨rfl, truthful_empty f⟩
  | request k t =>
      cases ht : t.toVector? n with
      | none =>
          rw [inquiry_misshapen f k l ht]
          have hp : point? f t = .error (.configuration (.pointShape f.name n t.shape)) := by
            rw [point?, ht]
            rfl
          refine ⟨?_, hl⟩
          rw [plainReply, hp]
          rfl
      | some x =>
          obtain ⟨ha, hleft⟩ := serve_truthful (k := k) (x := x) hf hl
          rw [inquiry_request f k l ht, plainReply_request f k ht, ha]
          exact ⟨rfl, hleft⟩

theorem replies_truthful (hf : f.RespectsEquality) (hl : l.Truthful f) (calls : List (Call R)) :
    replies f l calls = calls.map (plainReply f) := by
  induction calls generalizing l with
  | nil => rfl
  | cons c calls ih =>
      obtain ⟨hreply, hleft⟩ := inquiry_truthful hf hl c
      rw [replies, List.map_cons, hreply, ih hleft]

/-! ## What is counted -/

/-- The point of the last successful request of a kind since the last reset. The calls are listed
from the latest to the earliest. -/
def lastSuccess (f : Objective R n) (k : Kind) : List (Call R) → Option (Vector R n)
  | [] | .reset :: _ => none
  | .request k' t :: earlier =>
    match t.toVector? n with
    | some x => if k' = k ∧ (evaluate f k x).isOk then some x else lastSuccess f k earlier
    | none => lastSuccess f k earlier

/-- Is the call a request of the kind, of the right shape, and at a point that does not equal the one
of the last success? -/
def fresh (f : Objective R n) (k : Kind) (earlier : List (Call R)) : Call R → Bool
  | .reset => false
  | .request k' t =>
    match t.toVector? n with
    | some x => k' = k && (lastSuccess f k earlier).all fun y => !Linear.same y x
    | none => false

def freshRequests (f : Objective R n) (k : Kind) : List (Call R) → Nat
  | [] | .reset :: _ => 0
  | c :: earlier => (fresh f k earlier c).toNat + freshRequests f k earlier

/-- A remembered pair stands for the last success if its point equals the same points. -/
def StandsFor {α : Type} : Option (Vector R n × α) → Option (Vector R n) → Prop :=
  Option.Rel fun p y => ∀ z, Linear.same p.1 z = Linear.same y z

/-- The books after the calls, the latest of which is listed first. -/
structure Kept (f : Objective R n) (l : Ledger R n) (earlier : List (Call R)) : Prop where
  truthful : l.Truthful f
  count : ∀ k, l.count k = freshRequests f k earlier
  last : ∀ k, StandsFor (l.last k) (lastSuccess f k earlier)

theorem StandsFor.remembered_eq_none_iff {α : Type} {memory : Option (Vector R n × α)}
    {point : Option (Vector R n)} (h : StandsFor memory point) (x : Vector R n) :
    remembered? memory x = none ↔ (point.all fun y => !Linear.same y x) = true := by
  cases h with
  | none => exact ⟨fun _ => rfl, fun _ => rfl⟩
  | @some p y h =>
      obtain ⟨z, a⟩ := p
      simp only [remembered?, Option.all_some, Bool.not_eq_true', ← h x]
      by_cases hsame : Linear.same z x = true
      · simp [hsame]
      · simp [hsame]

variable {earlier : List (Call R)}

theorem kept_nil (f : Objective R n) : Kept f {} [] where
  truthful := truthful_empty f
  count k := by cases k <;> rfl
  last k := by cases k <;> exact .none

theorem Kept.reset (f : Objective R n) (earlier : List (Call R)) :
    Kept f {} (.reset :: earlier) where
  truthful := truthful_empty f
  count k := by cases k <;> rfl
  last k := by cases k <;> exact .none

theorem freshRequests_request (f : Objective R n) (k k' : Kind) (t : Tensor R)
    (earlier : List (Call R)) :
    freshRequests f k (.request k' t :: earlier) =
      (fresh f k earlier (.request k' t)).toNat + freshRequests f k earlier := by
  simp [freshRequests]

theorem fresh_of_ne (h : k' ≠ k) : fresh f k earlier (.request k' t) = false := by
  simp only [fresh, decide_eq_false h, Bool.false_and]
  split <;> rfl

theorem fresh_own (ht : t.toVector? n = some x) :
    fresh f k earlier (.request k t) =
      (lastSuccess f k earlier).all fun y => !Linear.same y x := by
  simp [fresh, ht]

theorem lastSuccess_of_ne (h : k' ≠ k) :
    lastSuccess f k (.request k' t :: earlier) = lastSuccess f k earlier := by
  simp only [lastSuccess, if_neg (fun both => h both.1 : ¬(k' = k ∧ _))]
  split <;> rfl

theorem lastSuccess_ok {a : k.Result R n} (ht : t.toVector? n = some x)
    (ha : evaluate f k x = .ok a) : lastSuccess f k (.request k t :: earlier) = some x := by
  simp [lastSuccess, ht, ha, Except.isOk, Except.toBool]

theorem lastSuccess_error {e : Failure R} (ht : t.toVector? n = some x)
    (he : evaluate f k x = .error e) :
    lastSuccess f k (.request k t :: earlier) = lastSuccess f k earlier := by
  simp [lastSuccess, ht, he, Except.isOk, Except.toBool]

theorem Kept.misshapen (h : Kept f l earlier) (k : Kind) (ht : t.toVector? n = none) :
    Kept f l (.request k t :: earlier) where
  truthful := h.truthful
  count k' := by
    have hfresh : fresh f k' earlier (.request k t) = false := by simp only [fresh, ht]
    rw [freshRequests_request, hfresh, h.count k', Bool.toNat_false, Nat.zero_add]
  last k' := by
    simp only [lastSuccess, ht]
    exact h.last k'

/-- A request keeps the books of its kind: it is counted if it is fresh, and then remembered if it
succeeds. One that is answered from memory becomes the last success in the place of an equal one. -/
theorem Kept.own [Scalar.Lawful R] (hf : f.RespectsEquality) (h : Kept f l earlier)
    (ht : t.toVector? n = some x) :
    (serve f k x l).2.count k = (fresh f k earlier (.request k t)).toNat + l.count k ∧
      StandsFor ((serve f k x l).2.last k) (lastSuccess f k (.request k t :: earlier)) := by
  have hstands := h.last k
  cases hm : remembered? (l.last k) x with
  | some a =>
      have hfresh : fresh f k earlier (.request k t) ≠ true := by
        intro hall
        rw [fresh_own ht, ← hstands.remembered_eq_none_iff x, hm] at hall
        cases hall
      have ha : evaluate f k x = .ok a := by
        rw [← (serve_truthful hf h.truthful).1, serve_remembered hm]
      rw [serve_remembered hm, lastSuccess_ok ht ha, Bool.eq_false_of_not_eq_true hfresh]
      refine ⟨by simp, ?_⟩
      cases hl : l.last k with
      | none => simp [hl, remembered?] at hm
      | some p =>
          obtain ⟨y, b⟩ := p
          by_cases hsame : Linear.same y x = true
          · exact .some (Linear.same_congr hsame)
          · simp [hl, remembered?, hsame] at hm
  | none =>
      have hfresh : fresh f k earlier (.request k t) = true := by
        rw [fresh_own ht, ← hstands.remembered_eq_none_iff x, hm]
      rw [hfresh, Bool.toNat_true, Nat.add_comm]
      cases ha : evaluate f k x with
      | error e =>
          rw [serve_error hm ha, lastSuccess_error ht ha, last_counted]
          exact ⟨count_counted l, hstands⟩
      | ok a =>
          rw [serve_ok hm ha, lastSuccess_ok ht ha, last_keeping, count_keeping]
          exact ⟨count_counted l, .some fun _ => rfl⟩

theorem Kept.request [Scalar.Lawful R] (hf : f.RespectsEquality) (h : Kept f l earlier)
    (ht : t.toVector? n = some x) : Kept f (serve f k x l).2 (.request k t :: earlier) := by
  obtain ⟨hcount, hlast⟩ := h.own (k := k) hf ht
  refine ⟨(serve_truthful hf h.truthful).2, fun k' => ?_, fun k' => ?_⟩
  · rw [freshRequests_request]
    by_cases hk : k' = k
    · subst hk
      rw [hcount, h.count k']
    · rw [(serve_others hk).1, fresh_of_ne (Ne.symm hk), h.count k', Bool.toNat_false, Nat.zero_add]
  · by_cases hk : k' = k
    · subst hk
      exact hlast
    · rw [(serve_others hk).2, lastSuccess_of_ne (Ne.symm hk)]
      exact h.last k'

theorem Kept.inquiry [Scalar.Lawful R] (hf : f.RespectsEquality) (h : Kept f l earlier)
    (c : Call R) : Kept f (c.inquiry n f l).2 (c :: earlier) := by
  cases c with
  | reset => exact .reset f earlier
  | request k t =>
      cases ht : t.toVector? n with
      | none =>
          rw [inquiry_misshapen f k l ht]
          exact h.misshapen k ht
      | some x =>
          rw [inquiry_request f k l ht]
          exact h.request hf ht

/-- The books of an objective are kept along any calls. -/
theorem kept_after [Scalar.Lawful R] (hf : f.RespectsEquality) (calls : List (Call R)) :
    Kept f (after f calls) calls.reverse := by
  induction calls using List.reverseRecOn with
  | nil => exact kept_nil f
  | append_singleton calls c ih =>
      rw [after, List.foldl_append, List.reverse_append]
      exact ih.inquiry hf c

/-! ## What a request does -/

/-- What a request for `k` at `t` does to a ledger `l` of the objective `f`. -/
structure Conduct (f : Objective R n) (l : Ledger R n) (k : Kind) (t : Tensor R) : Prop where
  /-- A wrong shape is refused, and nothing else happens. -/
  misshapen : t.toVector? n = none →
    (Call.request k t).inquiry n f l = (.error (.configuration (.pointShape f.name n t.shape)), l)
  /-- A failing evaluation is counted once and leaves the memory as it was. -/
  failing : ∀ {x e}, t.toVector? n = some x → evaluate f k x = .error e →
    ((Call.request k t).inquiry n f l).1 = .error e ∧
      ((Call.request k t).inquiry n f l).2.count k = l.count k + 1 ∧
      ((Call.request k t).inquiry n f l).2.last k = l.last k
  /-- The other kinds, and so the values that differences take, have no part in it. -/
  others : ∀ {k'}, k' ≠ k →
    ((Call.request k t).inquiry n f l).2.count k' = l.count k' ∧
      ((Call.request k t).inquiry n f l).2.last k' = l.last k'
  /-- The request is either counted, and then any objective in the place of `f` is evaluated, or not,
  and then any objective in the place of `f` makes no difference. -/
  evaluated : ∀ {x}, t.toVector? n = some x →
    (((Call.request k t).inquiry n f l).2.count k = l.count k + 1 ∧
      ∀ g : Objective R n,
        ((Call.request k t).inquiry n g l).1 = (evaluate g k x).map (Reply.of k)) ∨
    (((Call.request k t).inquiry n f l).2 = l ∧
      ∀ g : Objective R n, (Call.request k t).inquiry n g l = (Call.request k t).inquiry n f l)

theorem conduct_of_truthful (hf : f.RespectsEquality) (hl : l.Truthful f) (k : Kind)
    (t : Tensor R) : Conduct f l k t where
  misshapen ht := inquiry_misshapen f k l ht
  failing := by
    intro x e ht he
    have hm : remembered? (l.last k) x = none := by
      cases hm : remembered? (l.last k) x with
      | none => rfl
      | some a =>
          have ha : evaluate f k x = .ok a := by
            rw [← (serve_truthful hf hl).1, serve_remembered hm]
          cases ha.symm.trans he
    rw [inquiry_request f k l ht, serve_error hm he]
    exact ⟨rfl, count_counted l, last_counted l⟩
  others := by
    intro k' hk
    cases ht : t.toVector? n with
    | none =>
        rw [inquiry_misshapen f k l ht]
        exact ⟨rfl, rfl⟩
    | some x =>
        rw [inquiry_request f k l ht]
        exact serve_others hk
  evaluated := by
    intro x ht
    cases hm : remembered? (l.last k) x with
    | some a =>
        right
        refine ⟨by rw [inquiry_request f k l ht, serve_remembered hm], fun g => ?_⟩
        rw [inquiry_request g k l ht, inquiry_request f k l ht, serve_remembered hm,
          serve_remembered hm]
    | none =>
        left
        have hserve (g : Objective R n) : (serve g k x l).1 = evaluate g k x ∧
            (serve g k x l).2.count k = l.count k + 1 := by
          cases ha : evaluate g k x with
          | error e =>
              rw [serve_error hm ha]
              exact ⟨rfl, count_counted l⟩
          | ok a =>
              rw [serve_ok hm ha, count_keeping]
              exact ⟨rfl, count_counted l⟩
        refine ⟨by rw [inquiry_request f k l ht, (hserve f).2], fun g => ?_⟩
        rw [inquiry_request g k l ht, (hserve g).1]

/-- The memory of an objective does not show in its replies, and its counters are exact. -/
theorem books_are_exact [Scalar.Lawful R] (hf : f.Congruent) (calls : List (Call R)) :
    replies f {} calls = calls.map (plainReply f) ∧
      (∀ k, (after f calls).count k = freshRequests f k calls.reverse) ∧
      ∀ k t, Conduct f (after f calls) k t := by
  have hkept := kept_after hf.respectsEquality calls
  refine ⟨replies_truthful hf.respectsEquality (truthful_empty f) calls, hkept.count, ?_⟩
  intro k t
  exact conduct_of_truthful hf.respectsEquality hkept.truthful k t

/-! A double that fails at one, asked at the two zeros, at one, nowhere, and at a plane point. -/

/-- The function that is zero except at one, where it fails. -/
def faultAtOne : Objective Float 1 where
  name := "fault"
  value x := if x.get 0 == 1.0 then throw .divisionByZero else pure 0.0
  gradient? := none
  hessian? := none

theorem congruent_faultAtOne : faultAtOne.Congruent where
  value := by
    intro x y h
    have hxy : (x.get 0 == y.get 0) = true := Linear.same_iff.mp h 0 (by decide)
    have hone : (x.get 0 == 1.0) = (y.get 0 == 1.0) := by
      rw [Bool.eq_iff_iff]
      exact ⟨Scalar.Lawful.beq_trans (Scalar.Lawful.beq_symm hxy), Scalar.Lawful.beq_trans hxy⟩
    show (if x.get 0 == 1.0 then _ else _) = if y.get 0 == 1.0 then _ else _
    rw [hone]
  gradient h := nomatch h
  hessian h := nomatch h
  guarded _ := rfl

/-- The two zeros, one, nowhere, and a point of the plane. -/
def fiveCalls : List (Call Float) :=
  [.request .value (Tensor.ofArray #[-0.0]), .request .value (Tensor.ofArray #[0.0]),
    .request .value (Tensor.ofArray #[1.0]), .request .value (Tensor.ofArray #[0.0 / 0.0]),
    .request .gradient (Tensor.ofArray #[0.0, 0.0])]

theorem faultAtOne_books :
    replies faultAtOne {} fiveCalls = fiveCalls.map (plainReply faultAtOne) ∧
      (after faultAtOne fiveCalls).values = 3 ∧ (after faultAtOne fiveCalls).gradients = 0 := by
  obtain ⟨hreplies, hcount, -⟩ := books_are_exact congruent_faultAtOne fiveCalls
  have hvalues : freshRequests faultAtOne .value fiveCalls.reverse = 3 := by decide +kernel
  have hgradients : freshRequests faultAtOne .gradient fiveCalls.reverse = 0 := by decide +kernel
  exact ⟨hreplies, (hcount .value).trans hvalues, (hcount .gradient).trans hgradients⟩

end Ledger

end Minima
