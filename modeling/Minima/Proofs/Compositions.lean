import Mathlib.Data.List.Forall2
import Minima.Criterion
import Minima.Proofs.Trails

/-!
# Compositions of criteria

Criteria are put together to trees: with the two operators, and with lists of any length. What is made
of a tree is flat where the modes agree, and it means what the tree means. It consults the leaves from
left to right, each of them, and comes to the truth value of the tree; and when it holds it shows what
is shown by the leaf at which one arrives by entering the first part that holds, again and again.

The flat criterion is compared with the one that nests as the tree does. That they hold alike is an
equation of dialogues, so it is one whatever is answered. That they measure alike is one of readings:
the nested criterion consults a leaf more often than the flat one.
-/

namespace Minima

namespace Criterion

variable {R : Type}

/-- What a combination comes to when its parts hold or do not. -/
def Mode.verdict : Mode → List Bool → Bool
  | .any, held => held.any id
  | .all, held => held.all id

theorem Mode.verdict_singleton (mode : Mode) (b : Bool) : mode.verdict [b] = b := by
  cases mode <;> simp [Mode.verdict]

theorem Mode.verdict_append (mode : Mode) (held more : List Bool) :
    mode.verdict (held ++ more) = mode.verdict [mode.verdict held, mode.verdict more] := by
  cases mode <;> simp [Mode.verdict]

theorem Mode.true_mem_of_verdict {mode : Mode} {held : List Bool} (h : mode.verdict held = true)
    (hne : held ≠ []) : true ∈ held := by
  cases mode with
  | any => simpa [Mode.verdict] using h
  | all =>
      obtain ⟨b, held, rfl⟩ := List.exists_cons_of_ne_nil hne
      have hall : ∀ c ∈ b :: held, c = true := by simpa [Mode.verdict] using h
      simp [hall b (by simp)]

theorem Mode.all_of_verdict {held : List Bool} (h : Mode.all.verdict held = true) :
    ∀ b ∈ held, b = true := by
  simpa [Mode.verdict] using h

theorem Mode.any_of_verdict {held : List Bool} (h : Mode.any.verdict held = false) :
    true ∉ held := by
  simpa [Mode.verdict] using h

theorem Mode.ofKey?_key (mode : Mode) : Mode.ofKey? mode.key = some mode := by
  cases mode <;> rfl

def Single : Criterion R → Prop
  | .compound .. => False
  | _ => True

def Filled (c : Criterion R) : Prop := ∀ mode, c.parts mode ≠ []

theorem single_custom (name : String) (threshold : R) (measure : Snapshot R → Nat → Gauge R R)
    (verdict : Snapshot R → Nat → Gauge R Bool) :
    (Criterion.custom name threshold measure verdict).Single :=
  trivial

theorem Single.filled {c : Criterion R} (h : c.Single) : c.Filled := by
  intro mode
  cases c with
  | compound => exact h.elim
  | _ => simp [parts]

theorem filled_compound {mode : Mode} {criteria : List (Criterion R)} (h : criteria ≠ []) :
    (Criterion.compound mode criteria).Filled := by
  intro outer
  rw [parts]
  split
  · exact h
  · simp

theorem flatMap_parts_ne_nil {mode : Option Mode} {criteria : List (Criterion R)}
    (h : ∀ c ∈ criteria, c.Filled) (hne : criteria ≠ []) : criteria.flatMap (parts mode) ≠ [] := by
  obtain ⟨c, rest, rfl⟩ := List.exists_cons_of_ne_nil hne
  simp [h c (by simp) mode]

/-- Either a criterion is the one part of itself, or it is of the mode and its parts are its own. -/
theorem parts_cases (mode : Mode) (c : Criterion R) :
    parts (some mode) c = [c] ∨ ∃ inner, c = .compound mode inner ∧ parts (some mode) c = inner := by
  cases c with
  | compound inner criteria =>
      rw [parts]
      split
      next h => exact .inr ⟨criteria, by rw [Option.some.inj h], rfl⟩
      next h => exact .inl rfl
  | _ => exact .inl rfl

/-- How operators of one mode are nested makes no difference to the criteria that are listed. -/
theorem join_assoc (mode : Mode) (a b c : Criterion R) :
    join mode (join mode a b) c = join mode a (join mode b c) := by
  simp [join, parts]

section

variable [Scalar R] {s : Snapshot R} {k : Nat}

/-! ## What flat combinations hold -/

theorem holds_compound (mode : Mode) (criteria : List (Criterion R)) :
    holds s k (.compound mode criteria) = (do
      let held ← holding s k criteria
      return mode.verdict held) := by
  rw [holds]
  cases mode <;> rfl

theorem holding_append (criteria more : List (Criterion R)) :
    holding s k (criteria ++ more) = (do
      let held ← holding s k criteria
      let others ← holding s k more
      return held ++ others) := by
  induction criteria with
  | nil => simp [holding]
  | cons c criteria ih => simp [holding, ih]

theorem holds_compound_singleton (mode : Mode) (c : Criterion R) :
    holds s k (.compound mode [c]) = holds s k c := by
  simp [holds_compound, holding, Mode.verdict_singleton]

theorem holds_compound_append (mode : Mode) (criteria more : List (Criterion R)) :
    holds s k (.compound mode (criteria ++ more)) = (do
      let first ← holds s k (.compound mode criteria)
      let second ← holds s k (.compound mode more)
      return mode.verdict [first, second]) := by
  simp only [holds_compound, holding_append, bind_assoc, pure_bind]
  simp only [mode.verdict_append]

theorem holds_compound_cons (mode : Mode) (c : Criterion R) (more : List (Criterion R)) :
    holds s k (.compound mode (c :: more)) = (do
      let first ← holds s k c
      let second ← holds s k (.compound mode more)
      return mode.verdict [first, second]) := by
  have happend := holds_compound_append (s := s) (k := k) mode [c] more
  rwa [holds_compound_singleton] at happend

theorem holds_compound_parts (mode : Mode) (c : Criterion R) :
    holds s k (.compound mode (parts (some mode) c)) = holds s k c := by
  obtain hc | ⟨inner, rfl, hinner⟩ := parts_cases mode c
  · rw [hc, holds_compound_singleton]
  · rw [hinner]

/-- Taking criteria apart where the modes agree makes no difference to what is asked and held. -/
theorem holds_compound_flat (mode : Mode) (criteria : List (Criterion R)) :
    holds s k (.compound mode (criteria.flatMap (parts (some mode)))) =
      holds s k (.compound mode criteria) := by
  induction criteria with
  | nil => rfl
  | cons c criteria ih =>
      rw [List.flatMap_cons, holds_compound_append, holds_compound_parts, ih, holds_compound_cons]

/-! ## What combinations say -/

/-- Consulted with these answers, the criterion says whether it holds. -/
def Tells (answer : Array R → Except (Failure R) (Array R)) (s : Snapshot R) (k : Nat)
    (c : Criterion R) (held : Bool) : Prop :=
  (holds s k c).read answer = .ok held

variable {answer : Array R → Except (Failure R) (Array R)}

theorem Tells.unique {c : Criterion R} {held held' : Bool} (h : Tells answer s k c held)
    (h' : Tells answer s k c held') : held = held' :=
  Except.ok.inj (h.symm.trans h')

/-- Criteria that are consulted one after the other come to a list if each of them says something. -/
theorem read_holding_iff {criteria : List (Criterion R)} {flags : List Bool} :
    (holding s k criteria).read answer = .ok flags ↔
      List.Forall₂ (Tells answer s k) criteria flags := by
  induction criteria generalizing flags with
  | nil =>
      rw [holding, List.forall₂_nil_left_iff]
      exact ⟨fun h => (Except.ok.inj h).symm, fun h => by rw [h]; rfl⟩
  | cons c criteria ih =>
      rw [holding, Dialogue.read_bind_eq_ok_iff, List.forall₂_cons_left_iff]
      constructor
      · rintro ⟨held, hc, hrest⟩
        obtain ⟨others, hothers, hflags⟩ := Dialogue.read_bind_eq_ok_iff.mp hrest
        exact ⟨held, others, hc, ih.mp hothers, (Except.ok.inj hflags).symm⟩
      · rintro ⟨held, others, hc, hothers, rfl⟩
        exact ⟨held, hc, Dialogue.read_bind_eq_ok_iff.mpr ⟨others, ih.mpr hothers, rfl⟩⟩

theorem exists_mem_of_forall₂ {criteria : List (Criterion R)} {flags : List Bool}
    (h : List.Forall₂ (Tells answer s k) criteria flags) :
    ∀ c ∈ criteria, ∃ held ∈ flags, Tells answer s k c held := by
  induction h with
  | nil => simp
  | @cons c held criteria flags hc hrest ih =>
      intro d hd
      obtain rfl | hd := List.mem_cons.mp hd
      · exact ⟨held, by simp, hc⟩
      · obtain ⟨other, hother, hd⟩ := ih d hd
        exact ⟨other, by simp [hother], hd⟩

theorem exists_forall₂ {criteria : List (Criterion R)}
    (h : ∀ c ∈ criteria, ∃ held, Tells answer s k c held) :
    ∃ flags, List.Forall₂ (Tells answer s k) criteria flags := by
  induction criteria with
  | nil => exact ⟨[], .nil⟩
  | cons c criteria ih =>
      obtain ⟨held, hc⟩ := h c (by simp)
      obtain ⟨flags, hflags⟩ := ih fun d hd => h d (by simp [hd])
      exact ⟨held :: flags, .cons hc hflags⟩

/-- A combination says something if all its criteria do, for it consults them all. -/
theorem tells_compound_iff {mode : Mode} {criteria : List (Criterion R)} {held : Bool} :
    Tells answer s k (.compound mode criteria) held ↔
      ∃ flags, List.Forall₂ (Tells answer s k) criteria flags ∧ mode.verdict flags = held := by
  rw [Tells, holds_compound, Dialogue.read_bind_eq_ok_iff]
  refine exists_congr fun flags => and_congr read_holding_iff ?_
  exact ⟨Except.ok.inj, congrArg Except.ok⟩

/-- All the criteria say something, and this is the first that says yes. -/
inductive FirstToHold (answer : Array R → Except (Failure R) (Array R)) (s : Snapshot R) (k : Nat) :
    List (Criterion R) → Criterion R → Prop
  | here {c : Criterion R} {after : List (Criterion R)} (hc : Tells answer s k c true)
      (hafter : ∀ d ∈ after, ∃ held, Tells answer s k d held) : FirstToHold answer s k (c :: after) c
  | later {b c : Criterion R} {criteria : List (Criterion R)} (hb : Tells answer s k b false)
      (hrest : FirstToHold answer s k criteria c) : FirstToHold answer s k (b :: criteria) c

namespace FirstToHold

theorem mem {criteria : List (Criterion R)} {c : Criterion R}
    (h : FirstToHold answer s k criteria c) : c ∈ criteria := by
  induction h with
  | here hc hafter => simp
  | later hb hrest ih => simp [ih]

theorem append {criteria more : List (Criterion R)} {c : Criterion R}
    (h : FirstToHold answer s k criteria c) (hmore : ∀ d ∈ more, ∃ held, Tells answer s k d held) :
    FirstToHold answer s k (criteria ++ more) c := by
  induction h with
  | here hc hafter =>
      refine .here hc fun d hd => ?_
      obtain hd | hd := List.mem_append.mp hd
      · exact hafter d hd
      · exact hmore d hd
  | later hb hrest ih => exact .later hb ih

theorem after {before criteria : List (Criterion R)} {c : Criterion R}
    (hbefore : ∀ b ∈ before, Tells answer s k b false) (h : FirstToHold answer s k criteria c) :
    FirstToHold answer s k (before ++ criteria) c := by
  induction before with
  | nil => exact h
  | cons b before ih =>
      exact .later (hbefore b (by simp)) (ih fun d hd => hbefore d (by simp [hd]))

/-- Among criteria that all say something, and one of them yes, there is a first that says yes. -/
theorem exists_of_forall₂ {criteria : List (Criterion R)} {flags : List Bool}
    (h : List.Forall₂ (Tells answer s k) criteria flags) (htrue : true ∈ flags) :
    ∃ c, FirstToHold answer s k criteria c := by
  induction h with
  | nil => simp at htrue
  | @cons c held criteria flags hc hrest ih =>
      cases held with
      | true =>
          exact ⟨c, .here hc fun d hd => (exists_mem_of_forall₂ hrest d hd).imp fun _ => And.right⟩
      | false =>
          obtain ⟨d, hd⟩ := ih (by simpa using htrue)
          exact ⟨d, .later hc hd⟩

/-- The first that says yes is found in the list of what is said. -/
theorem measureNth_eq {criteria : List (Criterion R)} {c : Criterion R}
    (h : FirstToHold answer s k criteria c) :
    ∃ flags i, (holding s k criteria).read answer = .ok flags ∧ flags.findIdx? id = some i ∧
      measureNth s k i criteria = measure s k c := by
  induction h with
  | @here c criteria hc hafter =>
      obtain ⟨flags, hflags⟩ := exists_forall₂ hafter
      exact ⟨true :: flags, 0, read_holding_iff.mpr (.cons hc hflags), rfl, by rw [measureNth]⟩
  | later hb hrest ih =>
      obtain ⟨flags, i, hflags, hi, hmeasure⟩ := ih
      refine ⟨false :: flags, i + 1, read_holding_iff.mpr (.cons hb (read_holding_iff.mp hflags)),
        ?_, by rw [measureNth, hmeasure]⟩
      rw [List.findIdx?_cons, hi]
      rfl

/-- A combination shows what its first criterion shows that holds. -/
theorem measure_compound {mode : Mode} {criteria : List (Criterion R)} {c : Criterion R}
    (h : FirstToHold answer s k criteria c) :
    (measure s k (.compound mode criteria)).read answer = (measure s k c).read answer := by
  obtain ⟨flags, i, hflags, hi, hmeasure⟩ := h.measureNth_eq
  rw [measure, Dialogue.read_bind_of_ok hflags, hi]
  exact congrArg (Dialogue.read answer) hmeasure

end FirstToHold

theorem tells_parts {mode : Mode} {c : Criterion R} {held : Bool} (h : Tells answer s k c held) :
    ∀ d ∈ parts (some mode) c, ∃ held, Tells answer s k d held := by
  obtain hc | ⟨inner, rfl, hinner⟩ := parts_cases mode c
  · intro d hd
    obtain rfl : d = c := by simpa [hc] using hd
    exact ⟨held, h⟩
  · obtain ⟨flags, hflags, -⟩ := tells_compound_iff.mp h
    rw [hinner]
    exact fun d hd => (exists_mem_of_forall₂ hflags d hd).imp fun _ => And.right

/-- When a criterion does not hold, none of the parts holds of which one would do. -/
theorem tells_parts_any {c : Criterion R} (h : Tells answer s k c false) :
    ∀ d ∈ parts (some .any) c, Tells answer s k d false := by
  obtain hc | ⟨inner, rfl, hinner⟩ := parts_cases .any c
  · simpa [hc] using h
  · intro d hd
    obtain ⟨flags, hflags, hverdict⟩ := tells_compound_iff.mp h
    obtain ⟨held, hmem, hd'⟩ := exists_mem_of_forall₂ hflags d (hinner ▸ hd)
    cases held with
    | false => exact hd'
    | true => exact absurd hmem (Mode.any_of_verdict hverdict)

/-- A criterion that holds shows what the first of its parts shows that holds. -/
theorem exists_firstToHold_parts (mode : Mode) {c : Criterion R} (hfilled : c.Filled)
    (h : Tells answer s k c true) :
    ∃ d, FirstToHold answer s k (parts (some mode) c) d ∧
      (measure s k d).read answer = (measure s k c).read answer := by
  obtain hc | ⟨inner, rfl, hinner⟩ := parts_cases mode c
  · exact ⟨c, by rw [hc]; exact .here h (by simp), rfl⟩
  · obtain ⟨flags, hflags, hverdict⟩ := tells_compound_iff.mp h
    have hne : flags ≠ [] := by
      rintro rfl
      exact hfilled (some mode) (hinner.trans (List.forall₂_nil_right_iff.mp hflags))
    obtain ⟨d, hd⟩ := FirstToHold.exists_of_forall₂ hflags (Mode.true_mem_of_verdict hverdict hne)
    exact ⟨d, by rwa [hinner], hd.measure_compound.symm⟩

/-- Taking criteria apart where the modes agree makes no difference to what is shown by the first that
holds, provided that all of them hold when all have to. -/
theorem FirstToHold.flat {mode : Mode} {criteria : List (Criterion R)} {c : Criterion R}
    (h : FirstToHold answer s k criteria c) (hfilled : ∀ d ∈ criteria, d.Filled)
    (hall : mode = .all → ∀ d ∈ criteria, Tells answer s k d true) :
    ∃ d, FirstToHold answer s k (criteria.flatMap (parts (some mode))) d ∧
      (measure s k d).read answer = (measure s k c).read answer := by
  induction h with
  | @here c after hc hafter =>
      obtain ⟨d, hd, hmeasure⟩ := exists_firstToHold_parts mode (hfilled c (by simp)) hc
      refine ⟨d, hd.append fun e he => ?_, hmeasure⟩
      obtain ⟨c', hc', he⟩ := List.mem_flatMap.mp he
      obtain ⟨held, hheld⟩ := hafter c' hc'
      exact tells_parts hheld e he
  | @later b c criteria hb hrest ih =>
      cases mode with
      | all => exact absurd (Tells.unique hb (hall rfl b (by simp))) (by decide)
      | any =>
          obtain ⟨d, hd, hmeasure⟩ := ih (fun e he => hfilled e (by simp [he])) (by simp)
          exact ⟨d, hd.after (tells_parts_any hb), hmeasure⟩

end

end Criterion

/-- What is written down to put criteria together: the operators take two, the lists are as long as
one likes. A list without criteria makes none. -/
inductive Composition (R : Type) where
  | leaf (c : Criterion R) (single : c.Single)
  | join (mode : Criterion.Mode) (a b : Composition R)
  | combine (mode : Criterion.Mode) (first : Composition R) (rest : List (Composition R))

namespace Composition

open Criterion

variable {R : Type}

/-- The criterion that nests as the composition does. -/
def nested : Composition R → Criterion R
  | .leaf c _ => c
  | .join mode a b => .compound mode [a.nested, b.nested]
  | .combine mode first rest => .compound mode (first.nested :: rest.map nested)

/-- The leaves from left to right. -/
def leaves : Composition R → List (Criterion R)
  | .leaf c _ => [c]
  | .join _ a b => a.leaves ++ b.leaves
  | .combine _ first rest => first.leaves ++ rest.flatMap leaves

/-- The truth value of the composition when it is known of each leaf whether it fires. -/
def truth (fires : Criterion R → Bool) : Composition R → Bool
  | .leaf c _ => fires c
  | .join mode a b => mode.verdict [a.truth fires, b.truth fires]
  | .combine mode first rest => mode.verdict (first.truth fires :: rest.map (truth fires))

mutual

/-- The value of the composition when its leaves take their answers from a list, and what is left of
the list. -/
def settle : Composition R → List Bool → Bool × List Bool
  | .leaf _ _, held => (held.headD false, held.tail)
  | .join mode a b, held =>
    let first := a.settle held
    let second := b.settle first.2
    (mode.verdict [first.1, second.1], second.2)
  | .combine mode first rest, held =>
    let one := first.settle held
    let others := settleAll rest one.2
    (mode.verdict (one.1 :: others.1), others.2)

def settleAll : List (Composition R) → List Bool → List Bool × List Bool
  | [], held => ([], held)
  | t :: ts, held =>
    let one := t.settle held
    let others := settleAll ts one.2
    (one.1 :: others.1, others.2)

end

/-- The value of the composition when this is what its leaves answer, from left to right. -/
def verdict (t : Composition R) (held : List Bool) : Bool := (t.settle held).1

mutual

/-- The leaf at which one arrives by entering the first part that fires. -/
def reached (fires : Criterion R → Bool) : Composition R → Option (Criterion R)
  | .leaf c _ => some c
  | .join _ a b =>
    if a.truth fires then a.reached fires
    else if b.truth fires then b.reached fires
    else none
  | .combine _ first rest =>
    if first.truth fires then first.reached fires else reachedAmong fires rest

def reachedAmong (fires : Criterion R → Bool) : List (Composition R) → Option (Criterion R)
  | [] => none
  | t :: ts => if t.truth fires then t.reached fires else reachedAmong fires ts

end

mutual

def build : Composition R → Attempt R (Criterion R)
  | .leaf c _ => pure c
  | .join mode a b => do
    let first ← a.build
    let second ← b.build
    return Criterion.join mode first second
  | .combine mode first rest => do
    let one ← first.build
    let others ← buildAll rest
    compound? (one :: others) mode.key

def buildAll : List (Composition R) → Attempt R (List (Criterion R))
  | [] => pure []
  | t :: ts => do
    let one ← t.build
    let others ← buildAll ts
    return one :: others

end

/-! ## Leaves and combinations -/

/-- The composition combines others, of which there is one at least. -/
inductive Combines : Composition R → Mode → List (Composition R) → Prop
  | join (mode : Mode) (a b : Composition R) : Combines (.join mode a b) mode [a, b]
  | combine (mode : Mode) (first : Composition R) (rest : List (Composition R)) :
      Combines (.combine mode first rest) mode (first :: rest)

/-- What holds of leaves, and of a combination when it holds of what is combined, holds of all
compositions. -/
theorem combines_induction {motive : Composition R → Prop}
    (leaf : ∀ c single, motive (.leaf c single))
    (combines : ∀ t mode ts, Combines t mode ts → (∀ u ∈ ts, motive u) → motive t)
    (t : Composition R) : motive t := by
  induction t using nested.induct with
  | case1 c single => exact leaf c single
  | case2 mode a b iha ihb => exact combines _ mode _ (.join mode a b) (by simp [iha, ihb])
  | case3 mode first rest ihfirst ihrest =>
      exact combines _ mode _ (.combine mode first rest) (by simpa [ihfirst] using ihrest)

namespace Combines

variable {t : Composition R} {mode : Mode} {ts : List (Composition R)}

theorem ne_nil (h : t.Combines mode ts) : ts ≠ [] := by
  cases h <;> simp

theorem nested (h : t.Combines mode ts) : t.nested = .compound mode (ts.map nested) := by
  cases h <;> simp [Composition.nested]

theorem leaves (h : t.Combines mode ts) : t.leaves = ts.flatMap leaves := by
  cases h <;> simp [Composition.leaves]

theorem truth {fires : Criterion R → Bool} (h : t.Combines mode ts) :
    t.truth fires = mode.verdict (ts.map (truth fires)) := by
  cases h <;> simp [Composition.truth]

theorem settle (h : t.Combines mode ts) (held : List Bool) :
    t.settle held = (mode.verdict (settleAll ts held).1, (settleAll ts held).2) := by
  cases h <;> simp [Composition.settle, settleAll]

theorem reached {fires : Criterion R → Bool} (h : t.Combines mode ts) :
    t.reached fires = reachedAmong fires ts := by
  cases h <;> simp [Composition.reached, reachedAmong]

end Combines

/-! ## What is made -/

/-- The criterion that is flat where the modes agree. -/
def flat : Composition R → Criterion R
  | .leaf c _ => c
  | .join mode a b => .compound mode ([a.flat, b.flat].flatMap (parts (some mode)))
  | .combine mode first rest =>
    .compound mode ((first.flat :: rest.map flat).flatMap (parts (some mode)))

theorem Combines.flat {t : Composition R} {mode : Mode} {ts : List (Composition R)}
    (h : t.Combines mode ts) :
    t.flat = .compound mode ((ts.map flat).flatMap (parts (some mode))) := by
  cases h <;> simp [Composition.flat]

theorem flat_filled (t : Composition R) : t.flat.Filled := by
  induction t using combines_induction with
  | leaf c single => rw [flat]; exact single.filled
  | combines t mode ts h ih =>
      rw [h.flat]
      refine filled_compound (flatMap_parts_ne_nil ?_ (by simpa using h.ne_nil))
      simpa using ih

theorem compound?_eq_ok {criteria : List (Criterion R)} (mode : Mode)
    (h : criteria.flatMap (parts (some mode)) ≠ []) :
    compound? criteria mode.key = .ok (.compound mode (criteria.flatMap (parts (some mode)))) := by
  rw [compound?, Mode.ofKey?_key, if_neg (by simpa using h)]
  rfl

mutual

/-- A composition makes its flat criterion. -/
theorem build_eq : ∀ t : Composition R, t.build = .ok t.flat
  | .leaf c single => by rw [build, flat]; rfl
  | .join mode a b => by
    rw [build, build_eq a, build_eq b, flat, List.flatMap_cons, List.flatMap_singleton]
    rfl
  | .combine mode first rest => by
    rw [build, build_eq first, buildAll_eq rest, flat]
    exact compound?_eq_ok mode (flatMap_parts_ne_nil
      (by simp [flat_filled]) (List.cons_ne_nil _ _))

theorem buildAll_eq : ∀ ts : List (Composition R), buildAll ts = .ok (ts.map flat)
  | [] => rfl
  | t :: ts => by
    rw [buildAll, build_eq t, buildAll_eq ts]
    rfl

end

/-! ## Consulting the leaves -/

theorem settleAll_append {fires : Criterion R → Bool} {ts : List (Composition R)}
    (h : ∀ t ∈ ts, ∀ rest, t.settle (t.leaves.map fires ++ rest) = (t.truth fires, rest))
    (rest : List Bool) :
    settleAll ts ((ts.flatMap leaves).map fires ++ rest) = (ts.map (truth fires), rest) := by
  induction ts with
  | nil => simp [settleAll]
  | cons t ts ih => simp [settleAll, h t (by simp), ih fun u hu => h u (by simp [hu])]

theorem settle_append (fires : Criterion R → Bool) (t : Composition R) (rest : List Bool) :
    t.settle (t.leaves.map fires ++ rest) = (t.truth fires, rest) := by
  induction t using combines_induction generalizing rest with
  | leaf c single => simp [leaves, settle, truth]
  | combines t mode ts h ih => rw [h.settle, h.leaves, settleAll_append ih, h.truth]

/-- The truth value of a composition is its value when the leaves answer as they fire. -/
theorem verdict_map (fires : Criterion R → Bool) (t : Composition R) :
    t.verdict (t.leaves.map fires) = t.truth fires := by
  have h := settle_append fires t []
  rw [List.append_nil] at h
  rw [verdict, h]

variable [Scalar R] {s : Snapshot R} {k : Nat}

theorem holding_map_congr {f g : Composition R → Criterion R} {ts : List (Composition R)}
    (h : ∀ t ∈ ts, holds s k (f t) = holds s k (g t)) :
    holding s k (ts.map f) = holding s k (ts.map g) := by
  induction ts with
  | nil => rfl
  | cons t ts ih =>
      rw [List.map_cons, List.map_cons, holding, holding, h t (by simp),
        ih fun u hu => h u (by simp [hu])]

/-- The flat criterion is consulted as the one that nests. -/
theorem holds_flat (t : Composition R) : holds s k t.flat = holds s k t.nested := by
  induction t using combines_induction with
  | leaf c single => rw [flat, nested]
  | combines t mode ts h ih =>
      rw [h.flat, h.nested, holds_compound_flat, holds_compound, holds_compound,
        holding_map_congr ih]

theorem mapM_leavesAll_bind {β : Type} {ts : List (Composition R)}
    (h : ∀ t ∈ ts, ∀ (more : List (Criterion R)) (next : Bool × List Bool → Gauge R β),
      ((t.leaves ++ more).mapM (holds s k) >>= fun held => next (t.settle held)) =
        holds s k t.nested >>= fun b => more.mapM (holds s k) >>= fun held => next (b, held))
    (more : List (Criterion R)) (next : List Bool × List Bool → Gauge R β) :
    ((ts.flatMap leaves ++ more).mapM (holds s k) >>= fun held => next (settleAll ts held)) =
      holding s k (ts.map nested) >>= fun bs =>
        more.mapM (holds s k) >>= fun held => next (bs, held) := by
  induction ts generalizing next with
  | nil => simp [holding, settleAll]
  | cons t ts ih =>
      simp only [List.flatMap_cons, List.append_assoc, settleAll, List.map_cons, holding, bind_assoc,
        pure_bind]
      rw [h t (by simp) _ fun p => next (p.1 :: (settleAll ts p.2).1, (settleAll ts p.2).2)]
      refine bind_congr fun b => ?_
      exact ih (fun u hu => h u (by simp [hu])) fun p => next (b :: p.1, p.2)

/-- A composition takes the answers that its leaves give, and leaves the rest to what comes after. -/
theorem mapM_leaves_bind {β : Type} (t : Composition R) (more : List (Criterion R))
    (next : Bool × List Bool → Gauge R β) :
    ((t.leaves ++ more).mapM (holds s k) >>= fun held => next (t.settle held)) =
      holds s k t.nested >>= fun b => more.mapM (holds s k) >>= fun held => next (b, held) := by
  induction t using combines_induction generalizing more next with
  | leaf c single => simp [leaves, nested, settle]
  | combines t mode ts h ih =>
      rw [h.leaves, h.nested, holds_compound]
      simp only [h.settle, bind_assoc, pure_bind]
      exact mapM_leavesAll_bind ih more fun p => next (mode.verdict p.1, p.2)

/-- The leaves are consulted from left to right, each of them, before anything is made of what they
say. -/
theorem holds_nested (t : Composition R) :
    holds s k t.nested = (do
      let held ← t.leaves.mapM (holds s k)
      return t.verdict held) := by
  have h := mapM_leaves_bind (s := s) (k := k) t [] fun p => pure p.1
  simpa [verdict] using h.symm

/-! ## What the leaves say -/

variable {answer : Array R → Except (Failure R) (Array R)} {fires : Criterion R → Bool}

theorem read_mapM_of_tells {criteria : List (Criterion R)}
    (h : ∀ c ∈ criteria, Tells answer s k c (fires c)) :
    (criteria.mapM (holds s k)).read answer = .ok (criteria.map fires) := by
  induction criteria with
  | nil => rfl
  | cons c criteria ih =>
      rw [List.mapM_cons, Dialogue.read_bind_of_ok (h c (by simp)),
        Dialogue.read_bind_of_ok (ih fun d hd => h d (by simp [hd]))]
      rfl

/-- Consulting criteria one after the other fails as the first does that fails. -/
theorem read_mapM_of_error {before after : List (Criterion R)} {c : Criterion R} {e : Failure R}
    (hbefore : ∀ b ∈ before, ∃ held, Tells answer s k b held)
    (hc : (holds s k c).read answer = .error e) :
    ((before ++ c :: after).mapM (holds s k)).read answer = .error e := by
  induction before with
  | nil =>
      rw [List.nil_append, List.mapM_cons]
      exact Dialogue.read_bind_of_error hc
  | cons b before ih =>
      obtain ⟨held, hb⟩ := hbefore b (by simp)
      rw [List.cons_append, List.mapM_cons, Dialogue.read_bind_of_ok hb]
      exact Dialogue.read_bind_of_error (ih fun d hd => hbefore d (by simp [hd]))

theorem nested_tells {t : Composition R} (h : ∀ c ∈ t.leaves, Tells answer s k c (fires c)) :
    Tells answer s k t.nested (t.truth fires) := by
  rw [Tells, holds_nested, Dialogue.read_bind_of_ok (read_mapM_of_tells h), verdict_map]
  rfl

theorem flat_tells {t : Composition R} (h : ∀ c ∈ t.leaves, Tells answer s k c (fires c)) :
    Tells answer s k t.flat (t.truth fires) := by
  rw [Tells, holds_flat]
  exact nested_tells h

/-- Among compositions of which one fires there is a first that does. It is the one that is entered,
and the criteria that are made of them agree on it. -/
theorem exists_first (answer : Array R → Except (Failure R) (Array R)) (s : Snapshot R) (k : Nat)
    {ts : List (Composition R)} (h : true ∈ ts.map (truth fires)) :
    ∃ t ∈ ts, t.truth fires = true ∧ reachedAmong fires ts = t.reached fires ∧
      ∀ f : Composition R → Criterion R, (∀ u ∈ ts, Tells answer s k (f u) (u.truth fires)) →
        FirstToHold answer s k (ts.map f) (f t) := by
  induction ts with
  | nil => simp at h
  | cons u ts ih =>
      cases hu : u.truth fires with
      | true =>
          refine ⟨u, by simp, hu, by simp [reachedAmong, hu], fun f hf => ?_⟩
          refine .here (hu ▸ hf u (by simp)) fun c hc => ?_
          obtain ⟨v, hv, rfl⟩ := List.mem_map.mp hc
          exact ⟨_, hf v (by simp [hv])⟩
      | false =>
          obtain ⟨t, ht, htrue, hreached, hfirst⟩ := ih (by simpa [hu] using h)
          refine ⟨t, by simp [ht], htrue, by simp [reachedAmong, hu, hreached], fun f hf => ?_⟩
          exact .later (hu ▸ hf u (by simp)) (hfirst f fun v hv => hf v (by simp [hv]))

/-- When a composition fires, both criteria show what the leaf shows at which one arrives. -/
theorem exists_reached {t : Composition R} (h : ∀ c ∈ t.leaves, Tells answer s k c (fires c))
    (htrue : t.truth fires = true) :
    ∃ c ∈ t.leaves, t.reached fires = some c ∧ fires c = true ∧
      (measure s k t.flat).read answer = (measure s k c).read answer ∧
      (measure s k t.nested).read answer = (measure s k c).read answer := by
  induction t using combines_induction with
  | leaf c single =>
      rw [truth] at htrue
      exact ⟨c, by simp [leaves], by rw [reached], htrue, by rw [flat], by rw [nested]⟩
  | combines t mode ts hts ih =>
      rw [hts.leaves] at h
      have hleaves : ∀ u ∈ ts, ∀ c ∈ u.leaves, Tells answer s k c (fires c) :=
        fun u hu c hc => h c (List.mem_flatMap.mpr ⟨u, hu, hc⟩)
      rw [hts.truth] at htrue
      obtain ⟨u, hu, hutrue, hreached, hfirst⟩ := exists_first answer s k
        (Mode.true_mem_of_verdict htrue (by simpa using hts.ne_nil))
      obtain ⟨c, hc, hcreached, hfires, hflat, hnested⟩ := ih u hu (hleaves u hu) hutrue
      refine ⟨c, hts.leaves ▸ List.mem_flatMap.mpr ⟨u, hu, hc⟩, ?_, hfires, ?_, ?_⟩
      · rw [hts.reached, hreached, hcreached]
      · have hfilled : ∀ d ∈ ts.map flat, d.Filled := by simpa using fun v _ => v.flat_filled
        have hall : mode = .all → ∀ d ∈ ts.map flat, Tells answer s k d true := by
          rintro rfl d hd
          obtain ⟨v, hv, rfl⟩ := List.mem_map.mp hd
          have hvtrue := Mode.all_of_verdict htrue _ (List.mem_map_of_mem hv)
          exact hvtrue ▸ flat_tells (hleaves v hv)
        obtain ⟨d, hd, hmeasure⟩ :=
          (hfirst flat fun v hv => flat_tells (hleaves v hv)).flat hfilled hall
        rw [hts.flat, hd.measure_compound, hmeasure, hflat]
      · have hnestedFirst := hfirst nested fun v hv => nested_tells (hleaves v hv)
        rw [hts.nested, hnestedFirst.measure_compound, hnested]

/-! ## Flattening keeps the meaning -/

/-- A criterion means what a composition says. -/
structure Means (c : Criterion R) (t : Composition R) : Prop where
  /-- It asks what the criterion asks that nests as the composition does, and holds when that does. -/
  nested : ∀ s k, holds s k c = holds s k t.nested
  /-- It consults every leaf, from left to right, before it decides. -/
  consults : ∀ s k, holds s k c = (do
    let held ← t.leaves.mapM (holds s k)
    return t.verdict held)
  /-- When no leaf fails, it comes to the truth value of the composition. -/
  decides : ∀ s k answer fires, (∀ x ∈ t.leaves, (holds s k x).read answer = .ok (fires x)) →
    (holds s k c).read answer = .ok (t.truth fires)
  /-- It fails as the first of the leaves does that fails. -/
  fails : ∀ s k answer before x after e, t.leaves = before ++ x :: after →
    (∀ y ∈ before, ∃ held, (holds s k y).read answer = .ok held) →
    (holds s k x).read answer = .error e → (holds s k c).read answer = .error e
  /-- When it holds, it shows what the criterion shows that nests: that of the leaf at which one
  arrives. -/
  shows : ∀ s k answer fires, (∀ x ∈ t.leaves, (holds s k x).read answer = .ok (fires x)) →
    t.truth fires = true →
    ∃ x ∈ t.leaves, t.reached fires = some x ∧ fires x = true ∧
      (measure s k c).read answer = (measure s k x).read answer ∧
      (measure s k t.nested).read answer = (measure s k x).read answer

theorem flat_means (t : Composition R) : Means t.flat t where
  nested _ _ := holds_flat t
  consults _ _ := (holds_flat t).trans (holds_nested t)
  decides _ _ _ _ h := flat_tells h
  fails s k answer before x after e hleaves hbefore hx := by
    rw [holds_flat, holds_nested, hleaves]
    exact Dialogue.read_bind_of_error (read_mapM_of_error hbefore hx)
  shows _ _ _ _ h htrue := exists_reached h htrue

/-- **Flattening keeps the meaning.** Whatever criteria are put together, and however, a criterion is
made that means what was written down; and of operators of one mode it makes no difference how they are
nested. -/
theorem build_means (t : Composition R) :
    (∃ c, t.build = .ok c ∧ Means c t) ∧
      ∀ (mode : Mode) (a b c : Criterion R),
        Criterion.join mode (Criterion.join mode a b) c =
          Criterion.join mode a (Criterion.join mode b c) :=
  ⟨⟨t.flat, build_eq t, flat_means t⟩, join_assoc⟩

/-- A criterion of which it is known what it shows and whether it holds. -/
def known (value : R) (held : Bool) : Composition R :=
  .leaf (.custom "known" 0.0 (fun _ _ => pure value) fun _ _ => pure held)
    (single_custom ..)

/-- Of criteria that do not hold there is nothing to be said: the flat one shows the second leaf here,
the first that holds, but the nested one enters its second part. -/
example (s : Snapshot R) (k : Nat) (answer : Array R → Except (Failure R) (Array R)) (x y z : R) :
    let t := join .all (join .all (known x false) (known y true)) (known z true)
    (measure s k t.flat).read answer = .ok y ∧ (measure s k t.nested).read answer = .ok z := by
  simp only [known, flat, nested]
  exact ⟨rfl, rfl⟩

end Composition

end Minima
