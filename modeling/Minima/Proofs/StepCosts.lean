import Minima.Proofs.Bookkeeping
import Minima.Proofs.Coherence
import Minima.Proofs.FixedSteps

/-!
# What steps cost

A step along a line asks for values, and for a single gradient at the point that it accepts. Equal
points have equal values, so a point with a smaller value is a new one, and its gradient has to be
evaluated. Newton's method asks for a Hessian first, at a point that it has not asked about before.
The methods that ask for values only leave the derivatives alone.
-/

namespace Minima

open Dialogue

variable {R : Type} [Scalar R] {n : Nat} {f : Objective R n}

/-! ## Answers and the ledger -/

def Question.kind : Question R n → Ledger.Kind
  | .value _ => .value
  | .gradient _ => .gradient
  | .hessian _ => .hessian

namespace Ledger

variable {l l' : Ledger R n} {k : Kind} {q : Question R n} {r : Attempt R (Answer q)}

/-- The ledgers have the same counts and memories of all kinds but one. -/
def AgreeBut (k : Kind) (l l' : Ledger R n) : Prop :=
  ∀ k', k' ≠ k → l'.count k' = l.count k' ∧ l'.last k' = l.last k'

omit [Scalar R] in
theorem AgreeBut.trans {l'' : Ledger R n} (h : AgreeBut k l l') (h' : AgreeBut k l' l'') :
    AgreeBut k l l'' :=
  fun k' hk => ⟨(h' k' hk).1.trans (h k' hk).1, (h' k' hk).2.trans (h k' hk).2⟩

/-- To answer a question is to serve the request for it, though the answer may be refused for its
size. -/
theorem serve_of_answer (h : answer f q l = (r, l')) :
    ∃ a, serve f q.kind q.point l = (a, l') ∧ ∀ x, r = .ok x → ∃ b, a = .ok b := by
  cases q with
  | value x => exact ⟨r, h, fun v hv => ⟨v, hv⟩⟩
  | hessian x => exact ⟨r, h, fun v hv => ⟨v, hv⟩⟩
  | gradient x =>
      rcases hg : gradient f x l with ⟨e | g, l''⟩
      · simp only [answer, hg] at h
        cases h
        exact ⟨.error e, hg, fun _ h => by cases h⟩
      · simp only [answer, hg] at h
        cases h
        exact ⟨.ok g, hg, fun _ _ => ⟨g, rfl⟩⟩

theorem agreeBut_of_answer (h : answer f q l = (r, l')) : AgreeBut q.kind l l' := by
  obtain ⟨a, hserve, -⟩ := serve_of_answer h
  intro k' hk
  have hothers := serve_others (f := f) (x := q.point) (l := l) hk
  rwa [hserve] at hothers

/-- A remembered answer costs nothing. -/
theorem eq_of_answer_remembered {b : q.kind.Result R n}
    (hm : remembered? (l.last q.kind) q.point = some b) (h : answer f q l = (r, l')) : l' = l := by
  obtain ⟨a, hserve, -⟩ := serve_of_answer h
  rw [serve_remembered hm] at hserve
  exact (Prod.mk.inj hserve).2.symm

/-- An answer that is not remembered is counted, and remembered if there is one. -/
theorem counted_of_answer_absent (hm : remembered? (l.last q.kind) q.point = none)
    (h : answer f q l = (r, l')) :
    l'.count q.kind = l.count q.kind + 1 ∧
      ∀ x, r = .ok x → ∃ b, l'.last q.kind = some (q.point, b) := by
  obtain ⟨a, hserve, hok⟩ := serve_of_answer h
  cases hevaluate : evaluate f q.kind q.point with
  | ok b =>
      rw [serve_ok hm hevaluate] at hserve
      cases hserve
      rw [count_keeping, count_counted]
      exact ⟨rfl, fun _ _ => ⟨b, last_keeping _ _⟩⟩
  | error e =>
      rw [serve_error hm hevaluate] at hserve
      cases hserve
      refine ⟨count_counted l, fun x hx => ?_⟩
      obtain ⟨b, hb⟩ := hok x hx
      cases hb

theorem told_of_answer {x : Answer q} (hf : f.RespectsEquality) (hl : l.Truthful f)
    (h : answer f q l = (.ok x, l')) : truth f q x ∧ l'.Truthful f := by
  obtain ⟨hplain, hleft⟩ := answer_truthful hf hl q
  rw [h] at hplain hleft
  exact ⟨hplain.symm, hleft⟩

omit [Scalar R] in
theorem AgreeBut.refl (k : Kind) (l : Ledger R n) : AgreeBut k l l := fun _ _ => ⟨rfl, rfl⟩

end Ledger

/-- A computation that asks for values only leaves the derivatives as they are. -/
theorem Consult.ByValues.leaves {α : Type} {post : α → Prop} {d : Consult R n α} {l : Ledger R n}
    (hd : d.ByValues post) (hf : f.RespectsEquality) (hl : l.Truthful f) :
    d.Leaves (Ledger.answer f) (fun a l' => post a ∧ l'.Truthful f ∧ l.AgreeBut .value l')
      (l.AgreeBut .value) l := by
  have hkind : ∀ q : Question R n, q.IsValue → q.kind = .value := by
    rintro (x | x | x) hq
    · rfl
    · exact hq.elim
    · exact hq.elim
  refine Yields.leaves hd ?_ ?_ (fun _ h => h.2) ⟨hl, .refl _ l⟩
  · rintro q l₁ r l₂ hq ⟨htrue, hagree⟩ h
    refine ⟨trivial, (Ledger.told_of_answer hf htrue h).2, hagree.trans ?_⟩
    exact hkind q hq ▸ Ledger.agreeBut_of_answer h
  · rintro q l₁ e l₂ hq ⟨htrue, hagree⟩ h
    exact hagree.trans (hkind q hq ▸ Ledger.agreeBut_of_answer h)

/-! ## Methods along a line -/

/-- The ledger remembers the gradient where the iterate is, and the iterate has the value there. -/
structure Iterate.Remembered (f : Objective R n) (it : Iterate R n) (l : Ledger R n) : Prop where
  truthful : l.Truthful f
  value : f.value it.point = .ok it.value
  gradient : ∃ g, l.last .gradient = some (it.point, g)

theorem Ledger.remembered?_eq_none {α : Type} {memory : Option (Vector R n × α)} {x y : Vector R n}
    {a : α} (h : memory = some (y, a)) (hsame : Linear.same y x = false) :
    remembered? memory x = none := by
  simp [remembered?, h, hsame]

section

variable [Scalar.Ordered R] {it : Iterate R n} {l : Ledger R n}

/-- A point with a smaller value is another one. -/
theorem Iterate.Remembered.not_same (h : it.Remembered f l) (hf : f.RespectsEquality)
    {x : Vector R n} {v : R} (hv : f.value x = .ok v) (hless : v < it.value) :
    Linear.same it.point x = false := by
  rw [Bool.eq_false_iff]
  intro hsame
  have heq : it.value = v := Except.ok.inj (h.value.symm.trans ((hf.value hsame).trans hv))
  exact Scalar.lt_irrefl v (heq ▸ hless)

/-- What is asked in a step along a line costs a gradient at most. -/
structure LineStep.Strains (l l' : Ledger R n) : Prop where
  least : l.gradients ≤ l'.gradients
  most : l'.gradients ≤ l.gradients + 1
  hessians : l'.hessians = l.hessians

/-- What a step along a line from `it` with the ledger `l` comes to with the ledger `l'`: if it leads
on it costs a gradient, which is remembered. -/
structure LineStep.Costs (f : Objective R n) (it : Iterate R n) (l : Ledger R n)
    (r : Option (Iterate R n) × Status) (l' : Ledger R n) : Prop extends LineStep.Strains l l' where
  stays : r.1 = none → r.2 ≠ .running
  leads : ∀ next ∈ r.1, next.Remembered f l' ∧ l'.gradients = l.gradients + 1 ∧
    l'.lastHessian = l.lastHessian ∧ Linear.same it.point next.point = false

namespace LineStep

omit [Scalar R] [Scalar.Ordered R] in
theorem strains_of_agreeBut {l l' : Ledger R n} (h : l.AgreeBut .value l') : Strains l l' := by
  have hgradients : l'.gradients = l.gradients := (h .gradient nofun).1
  exact ⟨hgradients.ge, hgradients.le.trans (Nat.le_succ _), (h .hessian nofun).1⟩

omit [Scalar.Ordered R] in
theorem searchAlong_byValues {s : Situation R n} (it : Iterate R n) (p : Vector R n) :
    (searchAlong s it p).ByValues fun _ => True := by
  refine (searchAlong_tries it p).mono ?_ fun _ h => h
  rintro _ ⟨alpha, rfl⟩
  trivial

theorem descend_leaves {s : Situation R n} (hf : f.RespectsEquality) (h : it.Remembered f l)
    (p : Vector R n) :
    (descend s it p).Leaves (Ledger.answer f) (Costs f it l) (Strains l) l := by
  obtain ⟨g, hg⟩ := h.gradient
  -- before the step is accepted only values are asked for
  have hrejects {l' : Ledger R n} (hagree : l.AgreeBut .value l') {status : Status}
      (hend : status ≠ .running) : Costs f it l (none, status) l' := by
    exact ⟨strains_of_agreeBut hagree, fun _ => hend, nofun⟩
  refine leaves_bind (((searchAlong_byValues it p).leaves hf h.truthful).mono (fun _ _ h => h)
    fun _ => strains_of_agreeBut) ?_
  rintro outcome l₁ ⟨-, htrue₁, hagree₁⟩
  have hfound : (pure outcome.alpha : Consult R n R).Leaves (Ledger.answer f)
      (fun _ l' => l' = l₁) (Strains l) l₁ := leaves_pure rfl
  refine leaves_join hfound ?_ ?_
  · cases s.options.real "fallback_alpha" with
    | ok alpha => exact leaves_pure rfl
    | error e => exact strains_of_agreeBut hagree₁
  rintro alpha _ rfl
  refine leaves_question_bind (fun value l₂ hvalue => ?_) fun e l₂ hvalue => ?_
  · obtain ⟨htold, htrue₂⟩ := Ledger.told_of_answer hf htrue₁ hvalue
    have hagree₂ := hagree₁.trans (Ledger.agreeBut_of_answer hvalue)
    refine leaves_ite (fun _ => leaves_pure (hrejects hagree₂ nofun)) fun _ => ?_
    refine leaves_ite (fun _ => leaves_pure (hrejects hagree₂ nofun)) fun hless => ?_
    refine leaves_lift_bind (fun stalled _ => ?_) (strains_of_agreeBut hagree₂)
    -- the gradient that is remembered belongs to another point
    have hsame := h.not_same hf htold (not_not.mp hless)
    have habsent := Ledger.remembered?_eq_none ((hagree₂ .gradient nofun).2.trans hg) hsame
    have hgradients : l₂.gradients = l.gradients := (hagree₂ .gradient nofun).1
    have hhessians : l₂.hessians = l.hessians := (hagree₂ .hessian nofun).1
    refine leaves_question_bind (fun gradient l₃ hgradient => ?_) fun e l₃ hgradient => ?_
    · obtain ⟨hcount, hlast⟩ := Ledger.counted_of_answer_absent habsent hgradient
      have hcount' : l₃.gradients = l₂.gradients + 1 := hcount
      have hagree₃ := Ledger.agreeBut_of_answer hgradient .hessian nofun
      have htrue₃ := (Ledger.told_of_answer hf htrue₂ hgradient).2
      have hstrains : Strains l l₃ := ⟨by omega, by omega, hagree₃.1.trans hhessians⟩
      refine leaves_pure ⟨hstrains, nofun, ?_⟩
      rintro _ ⟨⟩
      exact ⟨⟨htrue₃, htold, hlast gradient rfl⟩, by omega,
        hagree₃.2.trans (hagree₂ .hessian nofun).2, hsame⟩
    · have hcount : l₃.gradients = l₂.gradients + 1 :=
        (Ledger.counted_of_answer_absent habsent hgradient).1
      have hagree₃ := Ledger.agreeBut_of_answer hgradient .hessian nofun
      exact ⟨by omega, by omega, hagree₃.1.trans hhessians⟩
  · exact strains_of_agreeBut (hagree₁.trans (Ledger.agreeBut_of_answer hvalue))

end LineStep

/-- The books after `k` steps along lines, the last of which led to `it`: a gradient for every point,
and for Newton's method a Hessian for every point but the last. -/
structure Iterate.Abreast (f : Objective R n) (newton : Bool) (k : Nat) (it : Iterate R n)
    (l : Ledger R n) : Prop extends it.Remembered f l where
  gradients : l.gradients = k + 1
  hessians : l.hessians = if newton then k else 0
  ahead : newton = true → Ledger.remembered? (l.last .hessian) it.point = none

structure LineStep.Spent (newton : Bool) (k : Nat) (l : Ledger R n) : Prop where
  least : k ≤ l.gradients
  most : l.gradients ≤ k + 1
  hessians : l.hessians = if newton then k else 0

variable {s : Situation R n} {newton : Bool} {k count : Nat}

omit [Scalar.Ordered R] in
theorem Iterate.Abreast.spent (h : it.Abreast f newton k l) : LineStep.Spent newton k l :=
  ⟨h.gradients ▸ Nat.le_succ k, h.gradients.le, h.hessians⟩

/-- The part of a step that all methods along a line share, after Newton's method has asked for the
Hessian. -/
theorem LineStep.descend_spends (newton : Bool) (hf : f.RespectsEquality) (h : it.Remembered f l)
    (hgradients : l.gradients = k + 1) (hhessians : l.hessians = if newton then k + 1 else 0)
    (hhere : newton = true → ∃ b, l.last .hessian = some (it.point, b)) (p : Vector R n) :
    (descend s it p).Leaves (Ledger.answer f)
      (fun r l' => Spent newton (k + 1) l' ∧ (r.1 = none → r.2 ≠ .running) ∧
        ∀ next ∈ r.1, next.Abreast f newton (k + 1) l')
      (Spent newton (k + 1)) l := by
  have hspent {l' : Ledger R n} (hs : Strains l l') : Spent newton (k + 1) l' :=
    ⟨hgradients ▸ hs.least, hgradients ▸ hs.most, hs.hessians.trans hhessians⟩
  refine (descend_leaves hf h p).mono ?_ fun _ => hspent
  intro r l' hcosts
  refine ⟨hspent hcosts.toStrains, hcosts.stays, fun next hnext => ?_⟩
  obtain ⟨hremembered, hcount, hlast, hsame⟩ := hcosts.leads next hnext
  refine ⟨hremembered, by omega, hcosts.hessians.trans hhessians, fun hnewton => ?_⟩
  obtain ⟨b, hb⟩ := hhere hnewton
  exact Ledger.remembered?_eq_none (hlast.trans hb) hsame

theorem SteepestDescent.step_spends (hf : f.RespectsEquality) (h : it.Abreast f false k l) :
    (step s it).Leaves (Ledger.answer f)
      (fun r l' => LineStep.Spent false (k + 1) l' ∧
        (r.2 = .running → r.1.Abreast f false (k + 1) l'))
      (LineStep.Spent false (k + 1)) l := by
  refine leaves_bind
    (LineStep.descend_spends false hf h.toRemembered h.gradients h.hessians nofun _) ?_
  rintro ⟨_ | next, status⟩ l' ⟨hspent, hstays, hleads⟩
  · exact leaves_pure ⟨hspent, fun hrun => absurd hrun (hstays rfl)⟩
  · exact leaves_pure ⟨hspent, fun _ => hleads next rfl⟩

theorem ConjugateGradient.step_spends {st : ConjugateGradient.State R n} (hf : f.RespectsEquality)
    (h : st.iterate.Abreast f false k l) :
    (step s count st).Leaves (Ledger.answer f)
      (fun r l' => LineStep.Spent false (k + 1) l' ∧
        (r.2 = .running → r.1.iterate.Abreast f false (k + 1) l'))
      (LineStep.Spent false (k + 1)) l := by
  refine leaves_bind
    (LineStep.descend_spends false hf h.toRemembered h.gradients h.hessians nofun _) ?_
  rintro ⟨_ | next, status⟩ l' ⟨hspent, hstays, hleads⟩
  · exact leaves_pure ⟨hspent, fun hrun => absurd hrun (hstays rfl)⟩
  · refine leaves_lift_bind (fun period _ => ?_) hspent
    refine leaves_ite (fun _ => leaves_pure ⟨hspent, fun _ => hleads next rfl⟩) fun _ => ?_
    exact leaves_lift_bind (fun beta _ => leaves_pure ⟨hspent, fun _ => hleads next rfl⟩) hspent

theorem QuasiNewton.step_spends {st : QuasiNewton.State R n} (hf : f.RespectsEquality)
    (h : st.iterate.Abreast f false k l) :
    (step s count st).Leaves (Ledger.answer f)
      (fun r l' => LineStep.Spent false (k + 1) l' ∧
        (r.2 = .running → r.1.iterate.Abreast f false (k + 1) l'))
      (LineStep.Spent false (k + 1)) l := by
  refine leaves_bind
    (LineStep.descend_spends false hf h.toRemembered h.gradients h.hessians nofun _) ?_
  rintro ⟨_ | next, status⟩ l' ⟨hspent, hstays, hleads⟩
  · exact leaves_pure ⟨hspent, fun hrun => absurd hrun (hstays rfl)⟩
  · refine leaves_lift_bind (fun eps _ => ?_) hspent
    refine leaves_ite (fun _ => ?_) fun _ => leaves_pure ⟨hspent, fun _ => hleads next rfl⟩
    exact leaves_lift_bind (fun b _ => leaves_pure ⟨hspent, fun _ => hleads next rfl⟩) hspent

/-- The Hessian at the point of the iterate has not been asked for before. -/
theorem Newton.step_spends {st : Newton.State R n} (hf : f.RespectsEquality)
    (h : st.iterate.Abreast f true k l) :
    (step s st).Leaves (Ledger.answer f)
      (fun r l' => LineStep.Spent true (k + 1) l' ∧
        (r.2 = .running → r.1.iterate.Abreast f true (k + 1) l'))
      (LineStep.Spent true (k + 1)) l := by
  have hasks {a : Attempt R (Linear.Square R n)} {l₁ : Ledger R n}
      (ha : Ledger.answer f (.hessian st.iterate.point) l = (a, l₁)) :
      l₁.hessians = k + 1 ∧ l₁.gradients = k + 1 ∧
        l₁.last .gradient = l.last .gradient ∧
        ∀ x, a = .ok x → ∃ b, l₁.last .hessian = some (st.iterate.point, b) := by
    obtain ⟨hcount, hlast⟩ := Ledger.counted_of_answer_absent (h.ahead rfl) ha
    have hagree := Ledger.agreeBut_of_answer ha .gradient nofun
    have hhessians : l.hessians = k := h.hessians
    exact ⟨hcount.trans (congrArg (· + 1) hhessians), hagree.1.trans h.gradients, hagree.2, hlast⟩
  refine leaves_question_bind (fun hessian l₁ ha => ?_) fun e l₁ ha => ?_
  · obtain ⟨hhessians, hgradients, hgradient, hlast⟩ := hasks ha
    have hspent : LineStep.Spent true (k + 1) l₁ :=
      ⟨hgradients.ge, hgradients.le.trans (Nat.le_succ _), hhessians⟩
    have htrue := (Ledger.told_of_answer hf h.truthful ha).2
    have hremembered : st.iterate.Remembered f l₁ := ⟨htrue, h.value, hgradient ▸ h.gradient⟩
    refine leaves_lift_bind (fun found _ => ?_) hspent
    refine leaves_bind (LineStep.descend_spends true hf hremembered hgradients hhessians
      (fun _ => hlast hessian rfl) _) ?_
    rintro ⟨_ | next, status⟩ l' ⟨hspent, hstays, hleads⟩
    · exact leaves_pure ⟨hspent, fun hrun => absurd hrun (hstays rfl)⟩
    · exact leaves_pure ⟨hspent, fun _ => hleads next rfl⟩
  · obtain ⟨hhessians, hgradients, -, -⟩ := hasks ha
    exact ⟨hgradients.ge, hgradients.le.trans (Nat.le_succ _), hhessians⟩

end

/-! ## Points with a value and a gradient -/

/-- The ledger `l'` has a value and a gradient at `x` more than `l`. -/
structure Ledger.Advances (f : Objective R n) (l : Ledger R n) (x : Vector R n)
    (l' : Ledger R n) : Prop where
  truthful : l'.Truthful f
  values : l'.values = l.values + 1
  gradients : l'.gradients = l.gradients + 1
  hessian : l'.hessians = l.hessians ∧ l'.last .hessian = l.last .hessian
  value : ∃ b, l'.last .value = some (x, b)
  gradient : ∃ g, l'.last .gradient = some (x, g)

/-- The ledger `l'` has been asked for a value and perhaps for a gradient, more than `l`. -/
structure Ledger.Falters (l l' : Ledger R n) : Prop where
  values : l'.values = l.values + 1
  least : l.gradients ≤ l'.gradients
  most : l'.gradients ≤ l.gradients + 1
  hessians : l'.hessians = l.hessians

section

variable {α : Type} {l : Ledger R n} {x : Vector R n} {post : α → Ledger R n → Prop}
  {fails : Ledger R n → Prop} {next : R → Vector R n → Consult R n α}

theorem leaves_new_point (hf : f.RespectsEquality) (hl : l.Truthful f)
    (hv : Ledger.remembered? (l.last .value) x = none)
    (hg : Ledger.remembered? (l.last .gradient) x = none)
    (hok : ∀ v g l', truth f (.value x) v → l.Advances f x l' →
      (next v g).Leaves (Ledger.answer f) post fails l')
    (herror : ∀ l', l.Falters l' → fails l') :
    (Consult.value x >>= fun v => Consult.gradient x >>= next v).Leaves (Ledger.answer f) post
      fails l := by
  refine leaves_question_bind (fun v l₁ hvalue => ?_) fun e l₁ hvalue => ?_
  · obtain ⟨htold, htrue⟩ := Ledger.told_of_answer hf hl hvalue
    obtain ⟨hvalues, hlast⟩ := Ledger.counted_of_answer_absent hv hvalue
    have hvalues : l₁.values = l.values + 1 := hvalues
    have hagree := Ledger.agreeBut_of_answer hvalue
    have hgradients : l₁.gradients = l.gradients := (hagree .gradient nofun).1
    have hhessians : l₁.hessians = l.hessians := (hagree .hessian nofun).1
    have hg₁ : Ledger.remembered? (l₁.last .gradient) x = none :=
      (hagree .gradient nofun).2.symm ▸ hg
    refine leaves_question_bind (fun g l₂ hgradient => ?_) fun e l₂ hgradient => ?_
    · obtain ⟨hcount, hlast'⟩ := Ledger.counted_of_answer_absent hg₁ hgradient
      have hcount : l₂.gradients = l₁.gradients + 1 := hcount
      have hagree' := Ledger.agreeBut_of_answer hgradient
      exact hok v g l₂ htold
        { truthful := (Ledger.told_of_answer hf htrue hgradient).2
          values := (hagree' .value nofun).1.trans hvalues
          gradients := by omega
          hessian := ⟨(hagree' .hessian nofun).1.trans hhessians,
            (hagree' .hessian nofun).2.trans (hagree .hessian nofun).2⟩
          value := (hagree' .value nofun).2.symm ▸ hlast v rfl
          gradient := hlast' g rfl }
    · have hcount : l₂.gradients = l₁.gradients + 1 :=
        (Ledger.counted_of_answer_absent hg₁ hgradient).1
      have hagree' := Ledger.agreeBut_of_answer hgradient
      exact herror l₂ ⟨(hagree' .value nofun).1.trans hvalues, by omega, by omega,
        (hagree' .hessian nofun).1.trans hhessians⟩
  · have hvalues : l₁.values = l.values + 1 := (Ledger.counted_of_answer_absent hv hvalue).1
    have hagree := Ledger.agreeBut_of_answer hvalue
    have hgradients : l₁.gradients = l.gradients := (hagree .gradient nofun).1
    exact herror l₁ ⟨hvalues, hgradients.ge, by omega, (hagree .hessian nofun).1⟩

/-- At a point that equals the remembered one, nothing is evaluated. -/
theorem leaves_same_point {b : R} {g : Array R} (hf : f.RespectsEquality) (hl : l.Truthful f)
    (hv : Ledger.remembered? (l.last .value) x = some b)
    (hg : Ledger.remembered? (l.last .gradient) x = some g)
    (hok : ∀ v g, truth f (.value x) v → (next v g).Leaves (Ledger.answer f) post fails l)
    (herror : fails l) :
    (Consult.value x >>= fun v => Consult.gradient x >>= next v).Leaves (Ledger.answer f) post
      fails l := by
  refine leaves_question_bind (fun v l₁ hvalue => ?_) fun e l₁ hvalue => ?_
  · have htold := (Ledger.told_of_answer hf hl hvalue).1
    obtain rfl := Ledger.eq_of_answer_remembered hv hvalue
    refine leaves_question_bind (fun g l₂ hgradient => ?_) fun e l₂ hgradient => ?_
    · obtain rfl := Ledger.eq_of_answer_remembered hg hgradient
      exact hok v g htold
    · exact Ledger.eq_of_answer_remembered hg hgradient ▸ herror
  · exact Ledger.eq_of_answer_remembered hv hvalue ▸ herror

end

/-- The books after `k` steps of a fixed length, the last of which led to `it`: a value and a gradient
for every point. -/
structure Iterate.Level (f : Objective R n) (k : Nat) (it : Iterate R n) (l : Ledger R n) : Prop
    extends it.Remembered f l where
  values : l.values = k + 1
  gradients : l.gradients = k + 1
  hessians : l.hessians = 0
  here : ∃ b, l.last .value = some (it.point, b)

theorem Iterate.start_leaves (hf : f.RespectsEquality) (x : Vector R n) :
    (Iterate.start x).Leaves (Ledger.answer f)
      (fun it l => it.Level f 0 l ∧ l.last .hessian = none) (fun _ => True) {} := by
  refine leaves_new_point hf (Ledger.truthful_empty f) rfl rfl (fun v g l hvalue h => ?_)
    fun _ _ => trivial
  exact leaves_pure ⟨⟨⟨h.truthful, hvalue, h.gradient⟩, h.values, h.gradients, h.hessian.1, h.value⟩,
    h.hessian.2⟩

theorem Iterate.Level.abreast {it : Iterate R n} {l : Ledger R n} (h : it.Level f 0 l)
    (hnone : l.last .hessian = none) (newton : Bool) : it.Abreast f newton 0 l where
  toRemembered := h.toRemembered
  gradients := h.gradients
  hessians := by rw [h.hessians, ite_self]
  ahead _ := by rw [hnone]; rfl

namespace GradientDescent

structure Spent (k : Nat) (l : Ledger R n) : Prop where
  least : k ≤ l.gradients
  ordered : l.gradients ≤ l.values
  most : l.values ≤ k + 1
  hessians : l.hessians = 0

variable {s : Situation R n} {it : Iterate R n} {l : Ledger R n} {k count : Nat}

theorem spent_of_level (h : it.Level f k l) : Spent k l :=
  ⟨h.gradients ▸ Nat.le_succ k, (h.gradients.trans h.values.symm).le, h.values.le, h.hessians⟩

/-- A step that goes on has come down to a new point; the last one may come back to the same. -/
theorem step_spends [Scalar.Ordered R] (hf : f.RespectsEquality) (h : it.Level f k l) :
    (step s count it).Leaves (Ledger.answer f)
      (fun r l' => Spent (k + 1) l' ∧
        (r.2 = .running → Scalar.isFinite r.1.value = true → r.1.Level f (k + 1) l'))
      (Spent (k + 1)) l := by
  have hvalues := h.values
  have hgradients := h.gradients
  have hspent : Spent (k + 1) l := ⟨hgradients.ge, by omega, by omega, h.hessians⟩
  obtain ⟨b, hb⟩ := h.here
  obtain ⟨g, hg⟩ := h.gradient
  refine leaves_lift_bind (fun size _ => ?_) hspent
  cases hsame : Linear.same it.point (s.region.project (it.point - size * it.gradient)) with
  | true =>
      refine leaves_same_point (b := b) (g := g) hf h.truthful ?_ ?_ (fun v g htold => ?_) hspent
      · rw [hb, Ledger.remembered?, if_pos hsame]
      · rw [hg, Ledger.remembered?, if_pos hsame]
      refine leaves_lift_bind (fun status hstatus => leaves_pure ⟨hspent, ?_⟩) hspent
      rintro rfl hfinite
      have hnot := h.not_same hf htold (judge_running hstatus hfinite)
      rw [hsame] at hnot
      cases hnot
  | false =>
      refine leaves_new_point hf h.truthful (Ledger.remembered?_eq_none hb hsame)
        (Ledger.remembered?_eq_none hg hsame) (fun v g l' htold hnew => ?_) fun l' hleft => ?_
      · have hlevel (it' : Iterate R n)
            (hpoint : it'.point = s.region.project (it.point - size * it.gradient))
            (hvalue : it'.value = v) : it'.Level f (k + 1) l' :=
          ⟨⟨hnew.truthful, hpoint ▸ hvalue ▸ htold, hpoint ▸ hnew.gradient⟩, by
            rw [hnew.values, hvalues], by rw [hnew.gradients, hgradients],
            hnew.hessian.1.trans h.hessians, hpoint ▸ hnew.value⟩
        have hspent' : Spent (k + 1) l' := spent_of_level (hlevel ⟨v, _, g, size, 0.0⟩ rfl rfl)
        refine leaves_lift_bind (fun status _ => leaves_pure ⟨hspent', fun _ _ => ?_⟩) hspent'
        exact hlevel _ rfl rfl
      · obtain ⟨hv, hleast, hmost, hhessians⟩ := hleft
        exact ⟨by omega, by omega, by omega, hhessians.trans h.hessians⟩

end GradientDescent

end Minima
