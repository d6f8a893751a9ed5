import Minima.Proofs.EngineRuns

/-!
# What is accepted

The checks before a run are a chain of refusals. Each check passes exactly under a condition on what
it is given, and a configuration is accepted exactly if nothing of it is refused. The conditions
speak of the name of the solver, the dimension and the configuration, and of no function.
-/

namespace Minima

variable {R : Type} {α β : Type}

namespace Attempt

theorem bind_eq_ok {a : Attempt R α} {k : α → Attempt R β} {b : β} :
    a >>= k = .ok b ↔ ∃ x, a = .ok x ∧ k x = .ok b := by
  cases a with
  | error e => simp [bind, Except.bind]
  | ok x => simp [bind, Except.bind]

theorem bind_eq_error {a : Attempt R α} {k : α → Attempt R β} {e : Failure R} :
    a >>= k = .error e ↔ a = .error e ∨ ∃ x, a = .ok x ∧ k x = .error e := by
  cases a with
  | error e' => simp [bind, Except.bind]
  | ok x => simp [bind, Except.bind]

/-- A check before the rest. -/
theorem check_eq_ok {a : Attempt R Unit} {k : Unit → Attempt R β} {b : β} :
    a >>= k = .ok b ↔ a = .ok () ∧ k () = .ok b := by
  rw [bind_eq_ok]
  exact ⟨fun ⟨_, h⟩ => h, fun h => ⟨(), h⟩⟩

theorem pure_eq_ok {a b : α} : (pure a : Attempt R α) = .ok b ↔ a = b := by
  simp [pure, Except.pure]

theorem throw_eq_ok {e : Failure R} {a : α} : (throw e : Attempt R α) = .ok a ↔ False := by
  simp [throw, throwThe, MonadExceptOf.throw]

theorem ok_bind {a : α} {k : α → Attempt R β} : (.ok a : Attempt R α) >>= k = k a := rfl

theorem throw_bind {e : Failure R} {k : α → Attempt R β} :
    (throw e : Attempt R α) >>= k = throw e := rfl

/-- A refusal before the rest. -/
theorem refuse_eq_ok {c : Prop} [Decidable c] {e : Failure R} {k : Unit → Attempt R β} {b : β} :
    (if c then (throw e : Attempt R Unit) >>= k else k ()) = .ok b ↔ ¬c ∧ k () = .ok b := by
  by_cases h : c
  · rw [if_pos h, throw_bind, throw_eq_ok]
    exact ⟨False.elim, fun hnot => hnot.1 h⟩
  · rw [if_neg h]
    exact ⟨fun hk => ⟨h, hk⟩, And.right⟩

end Attempt

namespace Options

theorem has_eq_true_iff {options : Options R} {key : String} :
    options.has key = true ↔ key ∈ options.keys := by
  rw [has, get?, List.lookup_isSome_iff]
  constructor
  · rintro ⟨o, ho, heq⟩
    exact List.mem_map.mpr ⟨o, ho, (beq_iff_eq.mp heq).symm⟩
  · intro h
    obtain ⟨o, ho, heq⟩ := List.mem_map.mp h
    exact ⟨o, ho, beq_iff_eq.mpr heq.symm⟩

theorem get?_put_of_ne {options : Options R} {key key' : String} (h : key' ≠ key)
    (value : Setting R) : (options.put key value).get? key' = options.get? key' := by
  have hkey : (key' == key) = false := beq_false_of_ne h
  unfold put get?
  split
  · clear * - hkey
    induction options with
    | nil => rfl
    | cons o options ih =>
        obtain ⟨name, given⟩ := o
        rw [List.map_cons, List.lookup_cons, List.lookup_cons, ih]
        by_cases hname : name = key
        · subst hname
          simp [hkey]
        · simp [hname]
  · rw [List.lookup_append, List.lookup_cons, hkey]
    simp

theorem get?_put_self (options : Options R) (key : String) (value : Setting R) :
    (options.put key value).get? key = some value := by
  unfold put
  by_cases h : options.has key = true
  · rw [if_pos h]
    unfold has at h
    unfold get? at h ⊢
    induction options with
    | nil => cases h
    | cons o options ih =>
        obtain ⟨name, given⟩ := o
        by_cases hname : name = key
        · subst hname
          simp
        · have hkey : (key == name) = false := beq_false_of_ne (Ne.symm hname)
          rw [List.lookup_cons, hkey] at h
          simpa [hname, hkey, List.lookup_cons] using ih h
  · have hnone : options.lookup key = none := by
      rwa [has, get?, Option.not_isSome_iff_eq_none] at h
    rw [if_neg h, get?, List.lookup_append, hnone]
    simp

theorem mem_keys_put {options : Options R} {key key' : String} {value : Setting R} :
    key ∈ (options.put key' value).keys ↔ key = key' ∨ key ∈ options.keys := by
  rw [← has_eq_true_iff, ← has_eq_true_iff, has, has]
  by_cases h : key = key'
  · subst h
    simp [get?_put_self]
  · simp [get?_put_of_ne h, h]

theorem mem_keys_update {options more : Options R} {key : String} :
    key ∈ (options.update more).keys ↔ key ∈ options.keys ∨ key ∈ more.keys := by
  induction more generalizing options with
  | nil => simp [update, keys]
  | cons o more ih =>
      refine ih.trans ?_
      rw [mem_keys_put, keys, keys, keys, List.map_cons, List.mem_cons]
      tauto

/-- Options put over others leave those with other names. -/
theorem get_update_of_not_mem {options more : Options R} {key : String} (h : key ∉ more.keys) :
    (options.update more).get key = options.get key := by
  induction more generalizing options with
  | nil => rfl
  | cons o more ih =>
      obtain ⟨hne, hrest⟩ := not_or.mp (List.mem_cons.not.mp h)
      refine (ih hrest).trans ?_
      rw [get, get, get?_put_of_ne hne]

/-- The defaults under those of the given options that are known. -/
def merged (defaults given : Options R) : Options R :=
  defaults.update (given.filter fun o => defaults.has o.1)

theorem not_mem_keys_filter {options : Options R} {key : String} (h : key ∉ options.keys)
    (p : String × Setting R → Bool) : key ∉ keys (options.filter p) := by
  intro hkey
  obtain ⟨o, ho, rfl⟩ := List.mem_map.mp hkey
  exact h (List.mem_map_of_mem (List.mem_filter.mp ho).1)

/-- An option stays in front while others are put after it. -/
theorem update_cons {key : String} (value : Setting R) {options more : Options R}
    (hoptions : key ∉ options.keys) (hmore : key ∉ more.keys) :
    ∃ rest : Options R, key ∉ rest.keys ∧
      Options.update ((key, value) :: options) more = (key, value) :: rest := by
  induction more generalizing options with
  | nil => exact ⟨options, hoptions, rfl⟩
  | cons o more ih =>
      obtain ⟨hne, hrest⟩ := not_or.mp (List.mem_cons.not.mp hmore)
      have hput : Options.put ((key, value) :: options) o.1 o.2 =
          (key, value) :: options.put o.1 o.2 := by
        have hkey : (o.1 == key) = false := beq_false_of_ne (Ne.symm hne)
        have hhas : Options.has ((key, value) :: options) o.1 = options.has o.1 := by
          rw [has, get?, List.lookup_cons, hkey]
          rfl
        have hname : (key == o.1) = false := beq_false_of_ne hne
        rw [put, hhas, put]
        split
        · rw [List.map_cons, hname]
          rfl
        · rfl
      have hfresh : key ∉ (options.put o.1 o.2).keys := fun hset =>
        (mem_keys_put.mp hset).elim hne hoptions
      obtain ⟨rest, hapart, hupdate⟩ := ih hfresh hrest
      exact ⟨rest, hapart, (congrArg (Options.update · more) hput).trans hupdate⟩

/-- A known option that is given, and not given anew after that, is the one in force. -/
theorem get_merged_update {defaults given : Options R} {key : String} (value : Setting R)
    (hknown : key ∈ defaults.keys) (hgiven : key ∉ given.keys) :
    (defaults.merged (Options.update [(key, value)] given)).get key = .ok value := by
  have hempty : key ∉ keys ([] : Options R) := List.not_mem_nil
  obtain ⟨rest, hrest, hupdate⟩ := update_cons value hempty hgiven
  have hkept : List.filter (fun o => defaults.has o.1) ((key, value) :: rest) =
      (key, value) :: rest.filter fun o => defaults.has o.1 :=
    List.filter_cons_of_pos (has_eq_true_iff.mpr hknown)
  rw [hupdate, merged, hkept]
  refine (get_update_of_not_mem (not_mem_keys_filter hrest _)).trans ?_
  rw [get, get?_put_self]
  rfl

/-- The options agree on all names but the given ones. -/
def AgreeBut (names : List String) (options options' : Options R) : Prop :=
  ∀ key ∉ names, options.get key = options'.get key

/-- Given options leave the defaults with other names. -/
theorem agreeBut_merged (defaults given : Options R) :
    AgreeBut given.keys (defaults.merged given) defaults :=
  fun _ hkey => get_update_of_not_mem (not_mem_keys_filter hkey _)

/-- Options are resolved if all of them are known or others are ignored. -/
theorem resolve_eq_ok_iff {given defaults options : Options R} {owner : String} {strict : Bool} :
    given.resolve defaults owner strict = .ok options ↔
      (strict = true → ∀ key ∈ given.keys, key ∈ defaults.keys) ∧
        defaults.merged given = options := by
  have hunknown : (given.unknown defaults).isEmpty = true ↔
      ∀ key ∈ given.keys, key ∈ defaults.keys := by
    rw [List.isEmpty_iff, unknown, ← List.length_eq_zero_iff, List.length_mergeSort,
      List.length_eq_zero_iff, List.filter_eq_nil_iff]
    simp [has_eq_true_iff]
  unfold resolve
  cases strict with
  | false => simp [merged, Attempt.pure_eq_ok]
  | true =>
      by_cases h : (given.unknown defaults).isEmpty = true
      · have hknown := hunknown.mp h
        simpa [h, merged, Attempt.pure_eq_ok] using fun _ => hknown
      · simp only [h, Bool.not_false, Bool.and_self, if_true, Attempt.throw_eq_ok, false_iff]
        rintro ⟨hknown, -⟩
        exact h (hunknown.mpr (hknown trivial))

variable [Scalar R]

/-- The option is a number in the range. -/
def InRange (options : Options R) (range : OptionRange) (key : String) : Prop :=
  ∃ x, options.real key = .ok x ∧ range.covers x = true

/-- The option is a positive whole number. -/
def IsCount (options : Options R) (key : String) : Prop :=
  ∃ i, options.whole key = .ok i ∧ 0 < i

section

variable {names : List String} {options options' : Options R} {key : String}

theorem AgreeBut.real (h : AgreeBut names options options') (hkey : key ∉ names) :
    options.real key = options'.real key := by
  rw [Options.real, Options.real, h key hkey]

theorem AgreeBut.whole (h : AgreeBut names options options') (hkey : key ∉ names) :
    options.whole key = options'.whole key := by
  rw [Options.whole, Options.whole, h key hkey]

theorem AgreeBut.inRange (h : AgreeBut names options options') (hkey : key ∉ names)
    (range : OptionRange) : options.InRange range key ↔ options'.InRange range key := by
  rw [InRange, InRange, h.real hkey]

end

theorem require_eq_ok_iff {options : Options R} {owner key : String} {range : OptionRange} :
    options.require owner key range = .ok () ↔ options.InRange range key := by
  rw [require, Attempt.bind_eq_ok, InRange]
  refine exists_congr fun x => and_congr_right fun _ => ?_
  cases range.covers x <;> simp [Attempt.pure_eq_ok, Attempt.throw_eq_ok]

/-- The same check of several options passes if each of them passes it. -/
theorem requireAll_eq_ok_iff {options : Options R} {owner : String} {range : OptionRange}
    {keys : List String} {u : PUnit} :
    (forIn keys PUnit.unit fun key _ => do
        options.require owner key range
        pure (ForInStep.yield PUnit.unit) : Attempt R PUnit) = .ok u ↔
      ∀ key ∈ keys, options.InRange range key := by
  induction keys with
  | nil => simp [Attempt.pure_eq_ok]
  | cons key keys ih =>
      have hfirst : options.require owner key range = .ok () ↔ _ := require_eq_ok_iff
      rw [List.forall_mem_cons, ← ih, ← hfirst]
      cases hr : options.require owner key range with
      | error e => simp [hr, bind, Except.bind]
      | ok u => simp [hr, bind, Except.bind, pure, Except.pure]

theorem requireCount_eq_ok_iff {options : Options R} {owner key : String} :
    options.requireCount owner key = .ok () ↔ options.IsCount key := by
  rw [requireCount, Attempt.bind_eq_ok, IsCount]
  refine exists_congr fun i => and_congr_right fun _ => ?_
  by_cases h : 0 < i <;> simp [h, Attempt.pure_eq_ok, Attempt.throw_eq_ok]

end Options

namespace Solver

variable [Scalar R] {m : Method R}

theorem acceptStart_eq_ok_iff {owner : String} {n : Nat} {start : Tensor R} {x : Vector R n} :
    acceptStart owner n start = .ok x ↔
      start.shape.length = 1 ∧ start.toVector? n = some x ∧ Linear.isFinite x = true := by
  unfold acceptStart
  by_cases hshape : start.shape.length = 1
  · cases hv : start.toVector? n with
    | none => simp [hshape, Attempt.throw_eq_ok]
    | some y =>
        cases hy : Linear.isFinite y with
        | true =>
            simp only [hshape, ne_eq, not_true, if_false, hy, Bool.not_true, Bool.false_eq_true,
              Attempt.pure_eq_ok, Option.some.injEq, true_and]
            constructor
            · rintro rfl
              exact ⟨rfl, hy⟩
            · exact And.left
        | false =>
            simp only [hshape, ne_eq, not_true, if_false, hy, Bool.not_false, if_true,
              Attempt.throw_bind, Attempt.throw_eq_ok, Option.some.injEq, true_and, false_iff]
            rintro ⟨rfl, hfinite⟩
            simp [hy] at hfinite
  · simp [hshape, Attempt.throw_bind, Attempt.throw_eq_ok]

theorem acceptRegion_eq_ok_iff {owner : String} {n : Nat} {constraints : Constraints R}
    {region : Region R n} :
    acceptRegion owner n constraints = .ok region ↔ constraints.region? n = some region := by
  unfold acceptRegion
  cases constraints.region? n <;> simp [Attempt.pure_eq_ok, Attempt.throw_eq_ok]

/-- Options are accepted if they are known, the bounds are positive and the method finds no fault
with them. -/
theorem acceptOptions_eq_ok_iff {s : Solver m} {given options : Options R} :
    s.acceptOptions given = .ok options ↔
      (m.refusesUnknown = true → ∀ key ∈ given.keys, key ∈ m.defaults.keys) ∧
        (∀ key ∈ ["max_x_norm", "max_abs_f"], options.InRange .positive key) ∧
        m.validate s.name options = .ok () ∧ m.defaults.merged given = options := by
  unfold acceptOptions
  simp only [Attempt.bind_eq_ok, Options.requireAll_eq_ok_iff, Options.resolve_eq_ok_iff,
    Attempt.pure_eq_ok]
  constructor
  · rintro ⟨x, ⟨hknown, hx⟩, u, hbounds, u', hvalid, rfl⟩
    exact ⟨hknown, hbounds, hvalid, hx⟩
  · rintro ⟨hknown, hbounds, hvalid, hx⟩
    exact ⟨options, ⟨hknown, hx⟩, ⟨⟩, hbounds, ⟨⟩, hvalid, rfl⟩

theorem accept_eq_ok_iff {s : Solver m} {n : Nat} {c : Configuration R} {a : Accepted R n} :
    s.accept n c = .ok a ↔
      acceptStart s.name n c.start = .ok a.start ∧
        acceptRegion s.name n c.constraints = .ok a.region ∧
        s.acceptOptions c.options = .ok a.options := by
  obtain ⟨options, region, start⟩ := a
  simp only [accept, Attempt.bind_eq_ok, Attempt.pure_eq_ok, Accepted.mk.injEq]
  constructor
  · rintro ⟨start, hstart, region, hregion, options, hoptions, rfl, rfl, rfl⟩
    exact ⟨hstart, hregion, hoptions⟩
  · rintro ⟨hstart, hregion, hoptions⟩
    exact ⟨start, hstart, region, hregion, options, hoptions, rfl, rfl, rfl⟩

theorem bounds_of_accept {s : Solver m} {n : Nat} {c : Configuration R} {a : Accepted R n}
    (h : s.accept n c = .ok a) : ∀ key ∈ ["max_x_norm", "max_abs_f"], a.options.InRange .positive key :=
  (acceptOptions_eq_ok_iff.mp (accept_eq_ok_iff.mp h).2.2).2.1

theorem validate_of_accept {s : Solver m} {n : Nat} {c : Configuration R} {a : Accepted R n}
    (h : s.accept n c = .ok a) : m.validate s.name a.options = .ok () :=
  (acceptOptions_eq_ok_iff.mp (accept_eq_ok_iff.mp h).2.2).2.2.1

theorem everywhere_of_accept {s : Solver m} {n : Nat} {c : Configuration R} {a : Accepted R n}
    (h : s.accept n c = .ok a) (hfree : c.constraints = .free) : a.region = .everywhere := by
  obtain ⟨-, hregion, -⟩ := accept_eq_ok_iff.mp h
  rw [acceptRegion_eq_ok_iff, hfree] at hregion
  exact (Option.some.inj hregion).symm

/-- Why a solver refuses a configuration for an objective of `n` variables. -/
inductive Refused (s : Solver m) (n : Nat) (c : Configuration R) : Prop
  | notVector (h : c.start.shape.length ≠ 1)
  | wrongSize (h : c.start.toVector? n = none)
  | notFinite {x : Vector R n} (hx : c.start.toVector? n = some x) (h : Linear.isFinite x = false)
  | wrongRegion (h : c.constraints.region? n = none)
  | unknownOption {key : String} (hstrict : m.refusesUnknown = true) (hgiven : key ∈ c.options.keys)
      (h : key ∉ m.defaults.keys)
  | badBound {key : String} (hkey : key ∈ ["max_x_norm", "max_abs_f"])
      (h : ¬ (m.defaults.merged c.options).InRange .positive key)
  | invalid (h : m.validate s.name (m.defaults.merged c.options) ≠ .ok ())

theorem Refused.not_accepted {s : Solver m} {n : Nat} {c : Configuration R} (h : s.Refused n c)
    (a : Accepted R n) : s.accept n c ≠ .ok a := by
  intro ha
  obtain ⟨hstart, hregion, hoptions⟩ := accept_eq_ok_iff.mp ha
  obtain ⟨hshape, hsize, hfinite⟩ := acceptStart_eq_ok_iff.mp hstart
  obtain ⟨hknown, hbounds, hvalid, hmerged⟩ := acceptOptions_eq_ok_iff.mp hoptions
  cases h with
  | notVector h => exact h hshape
  | wrongSize h => simp [h] at hsize
  | notFinite hx h =>
      obtain rfl := Option.some.inj (hsize.symm.trans hx)
      simp [h] at hfinite
  | wrongRegion h => simp [acceptRegion_eq_ok_iff, h] at hregion
  | unknownOption hstrict hgiven h => exact h (hknown hstrict _ hgiven)
  | badBound hkey h => exact h (hmerged ▸ hbounds _ hkey)
  | invalid h => exact h (hmerged ▸ hvalid)

/-- There are no other reasons to refuse a configuration. -/
theorem accept_of_not_refused {s : Solver m} {n : Nat} {c : Configuration R}
    (hnot : ¬ s.Refused n c) : ∃ a, s.accept n c = .ok a := by
  have hshape : c.start.shape.length = 1 := by
    by_contra h
    exact hnot (.notVector h)
  have hvalid : m.validate s.name (m.defaults.merged c.options) = .ok () := by
    by_contra h
    exact hnot (.invalid h)
  have hknown : m.refusesUnknown = true → ∀ key ∈ c.options.keys, key ∈ m.defaults.keys := by
    intro hstrict key hkey
    by_contra h
    exact hnot (.unknownOption hstrict hkey h)
  have hbounds : ∀ key ∈ ["max_x_norm", "max_abs_f"],
      (m.defaults.merged c.options).InRange .positive key := by
    intro key hkey
    by_contra h
    exact hnot (.badBound hkey h)
  have hoptions : s.acceptOptions c.options = .ok (m.defaults.merged c.options) :=
    acceptOptions_eq_ok_iff.mpr ⟨hknown, hbounds, hvalid, rfl⟩
  cases hsize : c.start.toVector? n with
  | none => exact absurd (.wrongSize hsize) hnot
  | some x =>
      cases hfinite : Linear.isFinite x with
      | false => exact absurd (.notFinite hsize hfinite) hnot
      | true =>
          cases hregion : c.constraints.region? n with
          | none => exact absurd (.wrongRegion hregion) hnot
          | some region =>
              exact ⟨⟨m.defaults.merged c.options, region, x⟩, accept_eq_ok_iff.mpr
                ⟨acceptStart_eq_ok_iff.mpr ⟨hshape, hsize, hfinite⟩,
                  acceptRegion_eq_ok_iff.mpr hregion, hoptions⟩⟩

/-- A configuration is accepted exactly if there is no reason to refuse it. -/
theorem refused_iff {s : Solver m} {n : Nat} {c : Configuration R} :
    s.Refused n c ↔ ∃ e, s.accept n c = .error e := by
  constructor
  · intro h
    cases ha : s.accept n c with
    | error e => exact ⟨e, rfl⟩
    | ok a => exact absurd ha (h.not_accepted a)
  · rintro ⟨e, he⟩
    by_contra hnot
    obtain ⟨a, ha⟩ := accept_of_not_refused hnot
    rw [ha] at he
    cases he

end Solver

end Minima
