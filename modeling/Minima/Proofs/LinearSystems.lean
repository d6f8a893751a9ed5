import Minima.Scalar.Real
import Minima.Linear.Solve
import Minima.Proofs.RealVectors
import Mathlib.Data.List.Perm.Basic
import Mathlib.Tactic.Linarith
import Mathlib.Tactic.LinearCombination
import Mathlib.Tactic.Push
import Mathlib.Tactic.Ring

/-!
# Elimination solves what is determined

Over the reals, as many equations as unknowns are solved by elimination if only zero makes all their
left sides vanish. Then some leading coefficient is not zero, since a vector along the first axis
would make the left sides vanish otherwise, and what is left after the elimination of the first
unknown is determined again.
-/

namespace Minima.Linear

open scoped List

variable {n : Nat}

namespace Equation

/-! ## The pivot -/

/-- What the search for the pivot makes of an equation: the largest coefficient so far, the place of
its equation, and the place of the next one. -/
noncomputable def weighed (best : ℝ × Nat × Nat) (e : Equation ℝ (n + 1)) : ℝ × Nat × Nat :=
  if best.1 < |e.leading| then (|e.leading|, best.2.2, best.2.2 + 1)
  else (best.1, best.2.1, best.2.2 + 1)

/-- The search has come to the end of `seen` and points to the largest leading coefficient. -/
structure Points (seen : List (Equation ℝ (n + 1))) (best : ℝ × Nat × Nat) : Prop where
  next : best.2.2 = seen.length
  chosen : ∃ e, seen[best.2.1]? = some e ∧ best.1 = |e.leading|
  largest : ∀ e ∈ seen, |e.leading| ≤ best.1

section

variable {first : Equation ℝ (n + 1)} {rest seen : List (Equation ℝ (n + 1))}
  {best : ℝ × Nat × Nat}

theorem Points.weighed (h : Points seen best) (e : Equation ℝ (n + 1)) :
    Points (seen ++ [e]) (weighed best e) := by
  obtain ⟨hnext, ⟨c, hc, hbest⟩, hlargest⟩ := h
  unfold Equation.weighed
  by_cases hless : best.1 < |e.leading|
  · rw [if_pos hless]
    refine ⟨by simp [hnext], ⟨e, by simp [hnext], rfl⟩, fun e' he' => ?_⟩
    rcases List.mem_append.mp he' with he' | he'
    · exact (hlargest e' he').trans hless.le
    · rw [List.mem_singleton.mp he']
  · rw [if_neg hless]
    refine ⟨by simp [hnext], ⟨c, ?_, hbest⟩, fun e' he' => ?_⟩
    · obtain ⟨hlt, -⟩ := List.getElem?_eq_some_iff.mp hc
      rw [List.getElem?_append_left hlt]
      exact hc
    · rcases List.mem_append.mp he' with he' | he'
      · exact hlargest e' he'
      · rw [List.mem_singleton.mp he']
        exact not_lt.mp hless

theorem Points.foldl (h : Points seen best) (rest : List (Equation ℝ (n + 1))) :
    Points (seen ++ rest) (rest.foldl Equation.weighed best) := by
  induction rest generalizing seen best with
  | nil => simpa using h
  | cons e rest ih => simpa using ih (h.weighed e)

/-- The pivot has a leading coefficient that no other equation exceeds. -/
theorem pivot_largest (first : Equation ℝ (n + 1)) (rest : List (Equation ℝ (n + 1))) :
    ∃ p, (first :: rest)[pivot first rest]? = some p ∧
      ∀ e ∈ first :: rest, |e.leading| ≤ |p.leading| := by
  have hfirst : Points [first] (|first.leading|, 0, 1) :=
    ⟨rfl, ⟨first, rfl, rfl⟩, by simp⟩
  obtain ⟨-, ⟨p, hp, hbest⟩, hlargest⟩ := hfirst.foldl rest
  exact ⟨p, hp, hbest ▸ hlargest⟩

/-- The equation at a place, and the others, with the first one in its place. -/
def exchanged (first : Equation ℝ (n + 1)) (rest : List (Equation ℝ (n + 1))) (i : Nat) :
    Equation ℝ (n + 1) × List (Equation ℝ (n + 1)) :=
  if i = 0 then (first, rest) else (rest[i - 1]?.getD first, rest.set (i - 1) first)

theorem exchanged_perm {p : Equation ℝ (n + 1)} {i : Nat} (h : (first :: rest)[i]? = some p) :
    ∃ others, exchanged first rest i = (p, others) ∧ p :: others ~ first :: rest := by
  cases i with
  | zero =>
      obtain rfl : first = p := by simpa using h
      exact ⟨rest, rfl, .refl _⟩
  | succ i =>
      have hi : rest[i]? = some p := by simpa using h
      obtain ⟨hlt, hget⟩ := List.getElem?_eq_some_iff.mp hi
      refine ⟨rest.set i first, by simp [exchanged, hi], ?_⟩
      calc p :: rest.set i first ~ p :: first :: rest.eraseIdx i :=
            (List.set_perm_cons_eraseIdx hlt first).cons p
        _ ~ first :: p :: rest.eraseIdx i := .swap first p _
        _ ~ first :: rest := by
            rw [← hget]
            exact (List.getElem_cons_eraseIdx_perm hlt).cons first

end

/-! ## Elimination -/

noncomputable def left (e : Equation ℝ n) (x : Vector ℝ n) : ℝ := dot e.coefficients x

/-- Only zero makes the left sides of all equations vanish. -/
def Determined (eqs : List (Equation ℝ n)) : Prop :=
  ∀ y : Vector ℝ n, (∀ e ∈ eqs, e.left y = 0) → y = 0

section

variable {p : Equation ℝ (n + 1)} {others eqs : List (Equation ℝ (n + 1))}

theorem left_cons (e : Equation ℝ (n + 1)) (t : ℝ) (y : Vector ℝ n) :
    e.left (cons t y) = e.leading * t + dot e.tail y := dot_cons e.coefficients t y

/-- What is left of an equation differs from it by a multiple of the pivot equation, whatever the
first unknown is. -/
theorem left_eliminate (hp : p.leading ≠ 0) (e : Equation ℝ (n + 1)) (t : ℝ) (y : Vector ℝ n) :
    (eliminate p e).left y = e.left (cons t y) - e.leading / p.leading * p.left (cons t y) := by
  have htails : (eliminate p e).left y = dot e.tail y - e.leading / p.leading * dot p.tail y := by
    simp only [left, eliminate, dot_real, dotProduct, get_zipWith, sub_mul, Finset.sum_sub_distrib,
      Finset.mul_sum, mul_assoc]
  have hcancel : e.leading / p.leading * p.leading = e.leading := div_mul_cancel₀ _ hp
  rw [htails, left_cons, left_cons]
  linear_combination t * hcancel

/-- The first unknown can be chosen so that the left side becomes anything. -/
theorem left_cons_div (hp : p.leading ≠ 0) (v : ℝ) (y : Vector ℝ n) :
    p.left (cons ((v - dot p.tail y) / p.leading) y) = v := by
  rw [left_cons, mul_div_cancel₀ _ hp, sub_add_cancel]

theorem foldr_sub (v : ℝ) (l : List (ℝ × ℝ)) :
    l.foldr (fun c acc => acc - c.1 * c.2) v = v - (l.map fun c => c.1 * c.2).sum := by
  induction l with
  | nil => simp
  | cons c l ih =>
      rw [List.foldr_cons, ih, List.map_cons, List.sum_cons]
      ring

theorem left_substitute (hp : p.leading ≠ 0) (y : Vector ℝ n) :
    p.left (cons (p.substitute y) y) = p.value := by
  have hproducts : ((p.tail.zip y).toList.map fun c => c.1 * c.2).sum = dot p.tail y := by
    rw [toList_eq_ofFn, List.map_ofFn, List.sum_ofFn, dot_real]
    simp [dotProduct, get_eq_getElem]
  rw [substitute, foldr_sub, hproducts]
  exact left_cons_div hp p.value y

theorem eq_zero_of_cons {t : ℝ} {y : Vector ℝ n} (h : cons t y = 0) : t = 0 ∧ y = 0 := by
  have hget : Fin.cons t y.get = (0 : Fin (n + 1) → ℝ) := by rw [← get_cons, h, get_zero]
  constructor
  · exact congrFun hget 0
  · refine ext_get (funext fun i => ?_)
    rw [get_zero]
    exact congrFun hget i.succ

theorem Determined.exists_leading (h : Determined eqs) : ∃ e ∈ eqs, e.leading ≠ 0 := by
  by_contra hnone
  push Not at hnone
  have haxis : cons 1 (0 : Vector ℝ n) = 0 := by
    refine h _ fun e he => ?_
    rw [left_cons, hnone e he, dot_zero, zero_mul, zero_add]
  exact one_ne_zero (eq_zero_of_cons haxis).1

/-- What is left after an elimination is determined again. -/
theorem Determined.eliminate (h : Determined (p :: others)) (hp : p.leading ≠ 0) :
    Determined (others.map p.eliminate) := by
  intro y hy
  obtain ⟨t, ht⟩ : ∃ t, p.left (cons t y) = 0 := ⟨_, left_cons_div hp 0 y⟩
  have hvanish : ∀ e ∈ p :: others, e.left (cons t y) = 0 := by
    intro e he
    rcases List.mem_cons.mp he with rfl | he
    · exact ht
    · have hleft := left_eliminate hp e t y
      rw [hy _ (List.mem_map_of_mem he), ht, mul_zero, sub_zero] at hleft
      exact hleft.symm
  exact (eq_zero_of_cons (h _ hvanish)).2

theorem Determined.perm {eqs' : List (Equation ℝ n)} {eqs : List (Equation ℝ n)}
    (h : Determined eqs) (hperm : eqs' ~ eqs) : Determined eqs' :=
  fun y hy => h y fun e he => hy e (hperm.mem_iff.mpr he)

end

theorem solve?_exchanged {first p : Equation ℝ (n + 1)} {rest others : List (Equation ℝ (n + 1))}
    (h : exchanged first rest (pivot first rest) = (p, others)) :
    solve? (n + 1) (first :: rest) =
      if p.leading == 0.0 then none
      else (solve? n (others.map p.eliminate)).map fun y => cons (p.substitute y) y := by
  show (match exchanged first rest (pivot first rest) with
    | (p, others) =>
      if p.leading == 0.0 then none
      else (solve? n (others.map p.eliminate)).map fun y => cons (p.substitute y) y) = _
  rw [h]

theorem solve?_cons {first p : Equation ℝ (n + 1)} {rest others : List (Equation ℝ (n + 1))}
    (h : exchanged first rest (pivot first rest) = (p, others)) (hp : p.leading ≠ 0) :
    solve? (n + 1) (first :: rest) =
      (solve? n (others.map p.eliminate)).map fun y => cons (p.substitute y) y := by
  have hzero : ¬ (p.leading == (0.0 : ℝ)) = true := by
    rw [RealScalar.beq_iff]
    norm_num
    exact hp
  rw [solve?_exchanged h]
  exact if_neg hzero

/-- As many equations as unknowns, if they are determined, are solved. -/
theorem solve?_determined {eqs : List (Equation ℝ n)} (hlength : eqs.length = n)
    (h : Determined eqs) : ∃ x, solve? n eqs = some x ∧ ∀ e ∈ eqs, e.left x = e.value := by
  induction n with
  | zero =>
      obtain rfl := List.length_eq_zero_iff.mp hlength
      exact ⟨#v[], rfl, by simp⟩
  | succ n ih =>
      cases eqs with
      | nil => cases hlength
      | cons first rest =>
          obtain ⟨p, hchosen, hlargest⟩ := pivot_largest first rest
          obtain ⟨others, hexchanged, hperm⟩ := exchanged_perm hchosen
          have hp : p.leading ≠ 0 := by
            obtain ⟨e, he, hne⟩ := h.exists_leading
            exact abs_pos.mp ((abs_pos.mpr hne).trans_le (hlargest e he))
          have hothers : (others.map p.eliminate).length = n := by
            have hsame := hperm.length_eq.trans hlength
            simpa using hsame
          obtain ⟨y, hsolved, hy⟩ := ih hothers ((h.perm hperm).eliminate hp)
          refine ⟨cons (p.substitute y) y, ?_, fun e he => ?_⟩
          · rw [solve?_cons hexchanged hp, hsolved]
            rfl
          · rcases List.mem_cons.mp (hperm.mem_iff.mpr he) with rfl | he
            · exact left_substitute hp y
            · have hleft := left_eliminate hp e (p.substitute y) y
              rw [hy _ (List.mem_map_of_mem he), left_substitute hp] at hleft
              have hvalue : (p.eliminate e).value = e.value - e.leading / p.leading * p.value := rfl
              linarith

end Equation

/-- A system whose matrix takes only zero to zero is solved. -/
theorem solve?_of_injective {a : Square ℝ n} (ha : ∀ y, a.mulVec y = 0 → y = 0) (b : Vector ℝ n) :
    ∃ x, solve? a b = some x ∧ a.mulVec x = b := by
  have hlist : (a.zip b).toList.map (fun r => (⟨r.1, r.2⟩ : Equation ℝ n)) =
      List.ofFn fun i => ⟨a.get i, b.get i⟩ := by
    rw [toList_eq_ofFn, List.map_ofFn]
    simp [get_eq_getElem, Function.comp_def]
  have hcomponent (x : Vector ℝ n) (i : Fin n) : (a.mulVec x).get i = dot (a.get i) x :=
    get_map _ _ i
  have hdetermined : Equation.Determined (List.ofFn fun i => (⟨a.get i, b.get i⟩ : Equation ℝ n)) := by
    intro y hy
    refine ha y (ext_get (funext fun i => ?_))
    rw [hcomponent, get_zero]
    exact hy _ (List.mem_ofFn.mpr ⟨i, rfl⟩)
  obtain ⟨x, hx, hholds⟩ := Equation.solve?_determined (by simp) hdetermined
  refine ⟨x, by rw [solve?, hlist, hx], ext_get (funext fun i => ?_)⟩
  rw [hcomponent]
  exact hholds _ (List.mem_ofFn.mpr ⟨i, rfl⟩)

end Minima.Linear
