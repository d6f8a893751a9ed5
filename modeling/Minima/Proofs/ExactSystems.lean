import Minima.Proofs.ExactScalars
import Minima.Proofs.LinearSystems

/-!
# Elimination among exact scalars

With reals among exact scalars elimination does what it does over the reals: pivots are compared and
tested in the same way, and nothing is divided by zero. So a system of reals that is determined has
the same solution.
-/

namespace Minima.Linear

open Scalar Scalar.Exact

variable {R : Type} [Scalar R] [Exact R] {n : Nat}

theorem map_cons {α β : Type} (f : α → β) (a : α) (x : Vector α n) :
    (cons a x).map f = cons (f a) (x.map f) := by
  apply Vector.ext
  intro i hi
  cases i <;> simp [cons]

namespace Equation

def ofReals (e : Equation ℝ n) : Equation R n where
  coefficients := e.coefficients.map ofReal
  value := ofReal e.value

variable {p : Equation ℝ (n + 1)}

theorem leading_ofReals (e : Equation ℝ (n + 1)) :
    (e.ofReals : Equation R (n + 1)).leading = ofReal e.leading := get_map ..

theorem tail_ofReals (e : Equation ℝ (n + 1)) :
    (e.ofReals : Equation R (n + 1)).tail = e.tail.map ofReal := by
  apply ext_get
  funext i
  rw [get_map, tail, tail, get_ofFn, get_ofFn]
  exact get_map ..

/-- The same equation is chosen. -/
theorem pivot_ofReals (first : Equation ℝ (n + 1)) (rest : List (Equation ℝ (n + 1))) :
    pivot (first.ofReals : Equation R (n + 1)) (rest.map ofReals) = pivot first rest := by
  -- the size of the best coefficient so far is carried along as a scalar
  have hcarry (best : ℝ × Nat × Nat) :
      (rest.map ofReals).foldl
          (fun (best : R × Nat × Nat) (e : Equation R (n + 1)) =>
            if best.1 < Scalar.abs e.leading then
              (Scalar.abs e.leading, best.2.2, best.2.2 + 1)
            else (best.1, best.2.1, best.2.2 + 1))
          (ofReal best.1, best.2) =
        (ofReal (rest.foldl weighed best).1, (rest.foldl weighed best).2) := by
    induction rest generalizing best with
    | nil => rfl
    | cons e rest ih =>
        rw [List.map_cons, List.foldl_cons, List.foldl_cons, leading_ofReals, abs_ofReal, weighed]
        by_cases hless : best.1 < |e.leading|
        · rw [if_pos (ofReal_lt.mpr hless), if_pos hless]
          exact ih (|e.leading|, best.2.2, best.2.2 + 1)
        · rw [if_neg (mt ofReal_lt.mp hless), if_neg hless]
          exact ih (best.1, best.2.1, best.2.2 + 1)
  have hfirst : Scalar.abs (first.ofReals : Equation R (n + 1)).leading = ofReal |first.leading| := by
    rw [leading_ofReals, abs_ofReal]
  unfold pivot
  rw [hfirst]
  exact congrArg (fun best => best.2.1) (hcarry (|first.leading|, 0, 1))

theorem eliminate_ofReals (hp : p.leading ≠ 0) (e : Equation ℝ (n + 1)) :
    eliminate (p.ofReals : Equation R (n + 1)) e.ofReals = (eliminate p e).ofReals := by
  have hfactor : (e.ofReals : Equation R (n + 1)).leading / (p.ofReals : Equation R (n + 1)).leading =
      ofReal (e.leading / p.leading) := by
    rw [leading_ofReals, leading_ofReals, div_ofReal hp]
  have hcoefficients : (eliminate (p.ofReals : Equation R (n + 1)) e.ofReals).coefficients =
      (eliminate p e).coefficients.map ofReal := by
    apply ext_get
    funext i
    rw [get_map, eliminate, eliminate, get_zipWith, get_zipWith, hfactor, tail_ofReals, tail_ofReals,
      get_map, get_map, mul_ofReal, sub_ofReal]
  have hvalue : (eliminate (p.ofReals : Equation R (n + 1)) e.ofReals).value =
      ofReal (eliminate p e).value := by
    rw [eliminate, eliminate, hfactor, ofReals, ofReals, mul_ofReal, sub_ofReal]
  exact Equation.mk.injEq .. |>.mpr ⟨hcoefficients, hvalue⟩

theorem substitute_ofReals (hp : p.leading ≠ 0) (y : Vector ℝ n) :
    substitute (p.ofReals : Equation R (n + 1)) (y.map ofReal) = ofReal (substitute p y) := by
  have hrest (v : ℝ) (l : List (ℝ × ℝ)) :
      (l.map (Prod.map ofReal ofReal)).foldr (fun c acc => acc - c.1 * c.2) (ofReal v : R) =
        ofReal (l.foldr (fun c acc => acc - c.1 * c.2) v) := by
    induction l with
    | nil => rfl
    | cons c l ih =>
        rw [List.map_cons, List.foldr_cons, List.foldr_cons, ih]
        show _ - ofReal c.1 * ofReal c.2 = _
        rw [mul_ofReal, sub_ofReal]
  have hzip : ((p.tail.map ofReal).zip (y.map ofReal) : Vector (R × R) n).toList =
      ((p.tail.zip y).toList).map (Prod.map ofReal ofReal) := by
    rw [← Vector.toList_map]
    congr 1
    apply Vector.ext
    intro i hi
    simp
  unfold substitute
  rw [tail_ofReals, hzip]
  show List.foldr _ (ofReal p.value) _ / _ = _
  rw [hrest, leading_ofReals, div_ofReal hp]

theorem exchanged_ofReals (first : Equation ℝ (n + 1)) (rest : List (Equation ℝ (n + 1)))
    (i : Nat) :
    (if i = 0 then ((first.ofReals : Equation R (n + 1)), rest.map (ofReals (R := R)))
      else ((rest.map (ofReals (R := R)))[i - 1]?.getD first.ofReals,
        (rest.map ofReals).set (i - 1) first.ofReals)) =
      ((exchanged first rest i).1.ofReals, (exchanged first rest i).2.map ofReals) := by
  by_cases hi : i = 0
  · rw [if_pos hi, exchanged, if_pos hi]
  · rw [if_neg hi, exchanged, if_neg hi, List.getElem?_map, Option.getD_map, List.map_set]

/-- Elimination comes to the same solution. -/
theorem solve?_ofReals (eqs : List (Equation ℝ n)) :
    solve? n (eqs.map (ofReals (R := R))) = (solve? n eqs).map fun x => x.map ofReal := by
  induction n with
  | zero =>
      rw [solve?, solve?]
      simp
  | succ n ih =>
      cases eqs with
      | nil => rfl
      | cons first rest =>
          rcases h : exchanged first rest (pivot first rest) with ⟨p, others⟩
          have hzero : ((ofReal p.leading : R) == 0.0) = (p.leading == (0.0 : ℝ)) := by
            rw [literal, ofReal_beq]
            rfl
          rw [solve?_exchanged h, List.map_cons, solve?, pivot_ofReals]
          simp only [exchanged_ofReals, h, leading_ofReals, hzero]
          by_cases hp : (p.leading == (0.0 : ℝ)) = true
          · rw [if_pos hp, if_pos hp, Option.map_none]
          · have hne : p.leading ≠ 0 := by
              intro heq
              apply hp
              rw [heq, RealScalar.beq_iff]
              norm_num
            have hothers : (others.map ofReals).map (eliminate (p.ofReals : Equation R (n + 1))) =
                (others.map p.eliminate).map ofReals := by
              rw [List.map_map, List.map_map]
              exact List.map_congr_left fun e _ => eliminate_ofReals hne e
            have hback (y : Vector ℝ n) :
                cons (substitute (p.ofReals : Equation R (n + 1)) (y.map ofReal)) (y.map ofReal) =
                  (cons (p.substitute y) y).map ofReal := by
              rw [substitute_ofReals hne, map_cons]
            rw [if_neg hp, if_neg hp, hothers, ih, Option.map_map, Option.map_map]
            exact congrArg (Option.map · _) (funext hback)

end Equation

/-- A system of reals has the same solution among exact scalars. -/
theorem solve?_ofReals (a : Square ℝ n) (b : Vector ℝ n) :
    solve? (a.map fun row => row.map (ofReal (R := R))) (b.map ofReal) =
      (solve? a b).map fun x => x.map ofReal := by
  rw [solve?, solve?, ← Equation.solve?_ofReals]
  congr 1
  rw [← Vector.toList_map, ← Vector.toList_map, ← Vector.toList_map]
  congr 1
  apply Vector.ext
  intro i hi
  simp [Equation.ofReals]

end Minima.Linear
