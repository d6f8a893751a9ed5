import Minima.Proofs.DampingLadder
import Minima.Proofs.DoubleGrowth
import Minima.Proofs.Presets
import Minima.Proofs.RealVectors

/-!
# The ladder of dampings over the doubles

Dampings grow until they are infinite, and there are only so many doubles. An infinite damping makes
every entry on the diagonal infinite or undefined, and no such pivot is refused. So the ladder ends for
every Hessian, also if the limit is infinite and never passed: the options allow such limits, as only
the first damping and the scale are checked, and not their product.
-/

namespace Minima

open Linear

/-! ## Scalars beyond all numbers -/

namespace Double

open Float.Model (UnpackedFloat)

variable {x y : Float}

/-- Positively infinite, or undefined. -/
def Beyond (x : Float) : Prop :=
  x.toModel.unpack = .infinity .positive ∨ x.toModel.unpack = .notANumber

theorem Beyond.not_le_zero (h : Beyond x) : ¬ x ≤ 0.0 := by
  intro hle
  rcases h with hx | hx
  · have hzero : (Scalar.infinity : Float) ≤ 0.0 :=
      Scalar.Ordered.le_trans (infinity_le_iff.mpr hx) hle
    exact absurd hzero (by decide)
  · have hdefined : x.toModel.unpack.isNaN = false := (Scalar.Ordered.defined_of_le hle).1
    rw [hx] at hdefined
    cases hdefined

theorem beyond_repack {a : UnpackedFloat} (h : a = .infinity .positive ∨ a = .notANumber) :
    repack a = .infinity .positive ∨ repack a = .notANumber := by
  rcases h with rfl | rfl
  · exact .inl rfl
  · exact .inr rfl

/-- Whatever is subtracted, even infinity. -/
theorem Beyond.sub (h : Beyond x) (y : Float) : Beyond (x - y) := by
  apply beyond_repack
  rcases h with hx | hx
  · rw [hx]
    cases y.toModel.unpack with
    | infinity s =>
        cases s with
        | positive => exact .inr rfl
        | negative => exact .inl rfl
    | notANumber => exact .inr rfl
    | zero s => exact .inl rfl
    | finite s m e hm => exact .inl rfl
  · rw [hx]
    exact .inr rfl

theorem beyond_add_infinite (h : Scalar.infinity ≤ y) (x : Float) : Beyond (x + y) := by
  apply beyond_repack
  rw [infinity_le_iff.mp h]
  cases x.toModel.unpack with
  | infinity s =>
      cases s with
      | positive => exact .inl rfl
      | negative => exact .inr rfl
  | notANumber => exact .inr rfl
  | zero s => exact .inl rfl
  | finite s m e hm => exact .inl rfl

theorem infinity_le_mul_one (h : Scalar.infinity ≤ x) : Scalar.infinity ≤ x * 1.0 := by
  rw [infinity_le_iff]
  show repack (.mul _ x.toModel.unpack (1.0 : Float).toModel.unpack) = _
  rw [infinity_le_iff.mp h]
  rfl

end Double

/-- No pivot is refused if all entries on the diagonal are infinite or undefined: what is subtracted from
them does not bring them back. -/
theorem Linear.cholesky?_isSome_of_beyond {n : Nat} {a : Square Float n}
    (h : ∀ i, Double.Beyond ((a.get i).get i)) : (cholesky? n a).isSome = true := by
  induction n with
  | zero => rfl
  | succ n ih =>
      have hpivot : ¬ (a.get ⟨0, n.succ_pos⟩).get ⟨0, n.succ_pos⟩ ≤ 0.0 := (h 0).not_le_zero
      unfold cholesky?
      dsimp only
      rw [if_neg hpivot, Option.isSome_map]
      apply ih
      intro i
      simp only [Square.ofFn, get_ofFn]
      exact (h i.succ).sub _

/-! ## Growing dampings -/

namespace Newton

variable {n : Nat} {h : Square Float n} {g : Vector Float n} {first limit : Float} {k : Nat}

theorem rung_succ (first : Float) (k : Nat) : rung first (k + 1) = raised first (rung first k) :=
  Function.iterate_succ_apply' ..

theorem raised_of_pos {x : Float} (hpos : 0.0 < x) : raised first x = x * 10.0 := by
  rw [raised, Double.beq_zero_of_pos hpos]
  rfl

/-- After the first rung all dampings are positive. -/
theorem rung_pos (hfirst : 0.0 < first) (k : Nat) : 0.0 < rung first (k + 1) := by
  induction k with
  | zero => exact hfirst
  | succ k ih =>
      rw [rung_succ, raised_of_pos ih]
      exact Double.mul_ten_pos ih

/-- Dampings grow as long as they are not infinite. -/
theorem rung_grows (hfirst : 0.0 < first) (hbelow : ¬ Scalar.infinity ≤ rung first k) :
    rung first k < rung first (k + 1) := by
  cases k with
  | zero => exact hfirst
  | succ k =>
      rw [rung_succ first (k + 1), raised_of_pos (rung_pos hfirst k)]
      exact Double.lt_mul_ten (rung_pos hfirst k) hbelow

/-- Some damping is infinite. -/
theorem exists_rung_infinite (hfirst : 0.0 < first) :
    ∃ k ≤ 2 ^ 64, Scalar.infinity ≤ rung first k := by
  -- otherwise there were more doubles in growing order than there are patterns of bits
  by_contra hnone
  push Not at hnone
  have hgrows : ∀ k < 2 ^ 64, rung first k < rung first (k + 1) :=
    fun k hk => rung_grows hfirst (hnone k hk.le)
  exact absurd (Double.length_growing hgrows) (Nat.lt_irrefl _)

/-! ## Ladders end -/

/-- An infinite damping is not refused, whatever the limit is. -/
theorem not_refused_of_infinite {damping : Float} (hinfinite : Scalar.infinity ≤ damping)
    (h : Square Float n) (limit : Float) : ¬ Refused h limit damping := by
  intro hrefused
  have hfactor : (cholesky? n (damped h damping)).isSome = true := by
    apply cholesky?_isSome_of_beyond
    intro i
    simp only [damped, Square.add, Square.scale, Square.identity, Square.ofFn, get_zipWith, get_map,
      get_ofFn, if_true]
    exact Double.beyond_add_infinite (Double.infinity_le_mul_one hinfinite) _
  rw [hrefused.indefinite] at hfactor
  cases hfactor

/-- The ladder is refused on all rungs before the `k`-th, and not on that one. -/
structure EndsOn (h : Square Float n) (limit first : Float) (k : Nat) : Prop where
  before : ∀ j < k, Refused h limit (rung first j)
  lands : ¬ Refused h limit (rung first k)

/-- The ladder ends on the first rung that is not refused, and there is one as soon as the damping is
infinite. -/
theorem exists_endsOn (hfirst : 0.0 < first) (h : Square Float n) (limit : Float) :
    ∃ k ≤ 2 ^ 64, EndsOn h limit first k := by
  classical
  obtain ⟨top, htop, hinfinite⟩ := exists_rung_infinite hfirst
  have htop' : ¬ Refused h limit (rung first top) := not_refused_of_infinite hinfinite h limit
  have hexists : ∃ k, ¬ Refused h limit (rung first k) := ⟨top, htop'⟩
  refine ⟨Nat.find hexists, (Nat.find_min' hexists htop').trans htop, ?_, Nat.find_spec hexists⟩
  intro j hj
  exact not_not.mp (Nat.find_min hexists hj)

/-- On the rung on which it ends, the ladder is past the limit, or it has found a factor. -/
theorem EndsOn.past_or_found (hends : EndsOn h limit first k) :
    ¬ rung first k ≤ limit ∨
      rung first k ≤ limit ∧ ∃ l, cholesky? n (damped h (rung first k)) = some l := by
  by_cases hlimit : rung first k ≤ limit
  · refine .inr ⟨hlimit, Option.ne_none_iff_exists'.mp ?_⟩
    intro hnone
    exact hends.lands ⟨hlimit, hnone⟩
  · exact .inl hlimit

theorem EndsOn.ladder_eq (hends : EndsOn h limit first k) {fuel : Nat} (hfuel : k ≤ fuel)
    (g : Vector Float n) :
    ladder h g first limit fuel 0.0 = ladder h g first limit (fuel - k) (rung first k) := by
  obtain ⟨rest, rfl⟩ := Nat.exists_eq_add_of_le' hfuel
  rw [ladder_climb hends.before rest, Nat.add_sub_cancel]
  rfl

/-- With options that pass the check the ladder ends for every gradient and every Hessian, however large
the limit is and whatever entries the Hessian has: after finitely many rungs that are refused it is past
the limit, and there is no direction, or it has found a factor, with which the direction is solved for.
To climb on is not needed, and what a direction may climb is enough. -/
theorem ladder_ends {options : Options Float} {owner : String}
    (hvalid : validate owner options = .ok ()) :
    ∃ first scale, options.real "reg_lambda" = .ok first ∧
      options.real "max_reg_scale" = .ok scale ∧
      ∀ (n : ℕ) (g : Vector Float n) (h : Square Float n),
        ∃ k, EndsOn (symmetrized h) (first * scale) first k ∧
          (∀ fuel ≥ k, ladder (symmetrized h) g first (first * scale) fuel 0.0 =
            direction options g h) ∧
          (¬ rung first k ≤ first * scale ∧ direction options g h = .ok (none, rung first k) ∨
            rung first k ≤ first * scale ∧ ∃ l,
              cholesky? n (damped (symmetrized h) (rung first k)) = some l ∧
              direction options g h =
                solveFactored l (-g) >>= fun p => pure (some p, rung first k)) := by
  obtain ⟨-, ⟨first, hfirst, hpositive⟩, scale, hscale, -⟩ := validate_eq_ok_iff.mp hvalid
  have hpos : (0.0 : Float) < first := of_decide_eq_true hpositive
  refine ⟨first, scale, hfirst, hscale, fun n g h => ?_⟩
  obtain ⟨k, hk, hends⟩ := exists_endsOn hpos (symmetrized h) (first * scale)
  have hdirection := direction_eq_ladder hfirst hscale g h
  have hfuel : k ≤ Scalar.decades scale + 2 := hk.trans (Nat.le_add_right _ 2)
  rw [hends.ladder_eq hfuel] at hdirection
  refine ⟨k, hends, ?_⟩
  rcases hends.past_or_found with hpast | ⟨hlimit, l, hl⟩
  · rw [ladder_past hpast] at hdirection
    refine ⟨fun fuel hfuel => ?_, .inl ⟨hpast, hdirection⟩⟩
    rw [hends.ladder_eq hfuel, ladder_past hpast, hdirection]
  · rw [ladder_found hlimit hl] at hdirection
    refine ⟨fun fuel hfuel => ?_, .inr ⟨hlimit, l, hl, hdirection⟩⟩
    rw [hends.ladder_eq hfuel, ladder_found hlimit hl, hdirection]

/-- The defaults with a first damping whose product with the scale overflows. -/
def overflowing : Options Float :=
  (method : Method Float).defaults.update [("reg_lambda", .real 1e300)]

theorem overflowing_accepted : validate "Newton method" overflowing = .ok () := by
  have hchecked := (validate_eq_ok_iff.mp
    (Offer.newton.validate_defaults (R := Float) "Newton method")).1
  have hothers : ∀ key ∈ LineStep.checkedKeys,
      key ∉ Options.keys [("reg_lambda", (.real 1e300 : Setting Float))] := by decide
  exact validate_eq_ok_iff.mpr ⟨hchecked.update hothers, ⟨1e300, rfl, by decide +kernel⟩,
    1e10, rfl, by decide +kernel⟩

/-- With these options no damping is past the limit, and no number is enough for an entry that is
infinite and negative: the ladder ends on an infinite damping, where the entry is undefined. -/
theorem bottomless_ladder_ends :
    validate "Newton method" overflowing = .ok () ∧ (Scalar.infinity : Float) ≤ 1e300 * 1e10 ∧
      ∃ k, EndsOn (symmetrized #v[#v[-Scalar.infinity]]) (1e300 * 1e10) 1e300 k ∧
        Scalar.infinity ≤ rung (1e300 : Float) k ∧
        ∃ p, direction overflowing #v[1.0] #v[#v[-Scalar.infinity]] = .ok (some p, rung 1e300 k) := by
  obtain ⟨first, scale, hfirst, hscale, hends⟩ := ladder_ends overflowing_accepted
  obtain rfl : (1e300 : Float) = first := Except.ok.inj hfirst
  obtain rfl : (1e10 : Float) = scale := Except.ok.inj hscale
  obtain ⟨k, hk, -, hcases⟩ := hends 1 #v[1.0] #v[#v[-Scalar.infinity]]
  refine ⟨overflowing_accepted, by decide +kernel, k, hk, ?_⟩
  have hfound : (direction overflowing #v[1.0] #v[#v[-Scalar.infinity]]).toOption.map
      (fun r => (r.1.isSome, decide (Scalar.infinity ≤ r.2))) = some (true, true) := by
    decide +kernel
  rcases hcases with ⟨-, hnone⟩ | ⟨-, l, -, hsolved⟩
  · rw [hnone] at hfound
    cases hfound
  · cases hsolve : solveFactored l (-#v[(1.0 : Float)]) with
    | error e =>
        rw [hsolved, hsolve] at hfound
        cases hfound
    | ok p =>
        rw [hsolve] at hsolved
        rw [hsolved] at hfound
        have hinfinite : decide (Scalar.infinity ≤ rung (1e300 : Float) k) = true :=
          (Prod.mk.inj (Option.some.inj hfound)).2
        exact ⟨of_decide_eq_true hinfinite, p, hsolved⟩

end Newton

end Minima
