import Mathlib.Data.List.Sort
import Mathlib.Tactic.FinCases
import Minima.LineSearch.Cubic
import Minima.Proofs.ExactScalars

/-!
# Samples of a function

The samples that cubic interpolation works with are those of the function at reals, one after the other,
whether the values are finite, infinite or undefined. A sample at a new real is sorted in between them
by its place alone. If no value is undefined, the least of five samples is among the four that are kept.
-/

namespace Minima.LineSearch

open Scalar Scalar.Exact

/-! ## Least items -/

section

variable {R α : Type} [Scalar R] {key : α → R} {l : List α} {a : α}

theorem mem_of_leastBy (h : leastBy key l = some a) : a ∈ l := by
  cases l with
  | nil => cases h
  | cons first rest =>
      obtain rfl := Option.some.inj h
      -- on the items: the least so far is handed on
      clear h
      induction rest generalizing first with
      | nil => exact List.mem_singleton.mpr rfl
      | cons b rest ih =>
          rw [List.foldl_cons]
          split
          · exact List.mem_cons_of_mem _ (ih b)
          · exact List.mem_cons.mpr ((List.mem_cons.mp (ih first)).imp_right (List.mem_cons_of_mem _))

variable [Ordered R]

/-- Of keys that are not undefined none is less than the one found. -/
theorem leastBy_le (h : leastBy key l = some a) (hkey : ∀ b ∈ l, isNaN (key b) = false) :
    ∀ b ∈ l, key a ≤ key b := by
  cases l with
  | nil => cases h
  | cons first rest =>
      obtain rfl := Option.some.inj h
      clear h
      induction rest generalizing first with
      | nil =>
          have hfirst := hkey first List.mem_cons_self
          simpa using le_self hfirst
      | cons b rest ih =>
          obtain ⟨hfirst, hb, hrest⟩ :
              isNaN (key first) = false ∧ isNaN (key b) = false ∧
                ∀ c ∈ rest, isNaN (key c) = false := by simpa using hkey
          rw [List.foldl_cons]
          by_cases hless : key b < key first
          · rw [if_pos hless]
            have hleast := ih b (List.forall_mem_cons.mpr ⟨hb, hrest⟩)
            have hbest := hleast b List.mem_cons_self
            exact List.forall_mem_cons.mpr ⟨Ordered.le_trans hbest (Lawful.le_of_lt hless), hleast⟩
          · rw [if_neg hless]
            have hleast := ih first (List.forall_mem_cons.mpr ⟨hfirst, hrest⟩)
            obtain ⟨hbest, hothers⟩ := List.forall_mem_cons.mp hleast
            have hnext := Ordered.le_trans hbest (Lawful.le_of_not_lt hb hfirst hless)
            exact List.forall_mem_cons.mpr ⟨hbest, List.forall_mem_cons.mpr ⟨hnext, hothers⟩⟩

/-- From the least of the values seen on, the search comes to the least of all. -/
theorem argmin_go_le {seen rest : List R} (hdefined : ∀ v ∈ seen ++ rest, isNaN v = false) {best : R}
    {i : Nat} (hbest : seen[i]? = some best) (hleast : ∀ v ∈ seen, best ≤ v) :
    ∃ b, (seen ++ rest)[Linear.argmin.go best i seen.length rest]? = some b ∧
      ∀ v ∈ seen ++ rest, b ≤ v := by
  induction rest generalizing seen best i with
  | nil =>
      rw [List.append_nil]
      exact ⟨best, hbest, hleast⟩
  | cons v rest ih =>
      have happend : seen ++ v :: rest = (seen ++ [v]) ++ rest := by simp
      have hlength : seen.length + 1 = (seen ++ [v]).length := by simp
      have hv : isNaN v = false := hdefined v (by simp)
      have hseen : best ∈ seen := List.mem_of_getElem? hbest
      have hknown : isNaN best = false := hdefined best (List.mem_append_left _ hseen)
      rw [happend] at hdefined ⊢
      rw [Linear.argmin.go, if_neg (by simp [hknown]), hv, Bool.false_or]
      by_cases hless : v < best
      · rw [if_pos (decide_eq_true hless), hlength]
        refine ih hdefined (by simp) fun u hu => ?_
        rcases List.mem_append.mp hu with hu | hu
        · exact Ordered.le_trans (Lawful.le_of_lt hless) (hleast u hu)
        · obtain rfl := List.mem_singleton.mp hu
          exact le_self hv
      · rw [if_neg (by simpa using hless), hlength]
        obtain ⟨hi, -⟩ := List.getElem?_eq_some_iff.mp hbest
        refine ih hdefined (by rwa [List.getElem?_append_left hi]) fun u hu => ?_
        rcases List.mem_append.mp hu with hu | hu
        · exact hleast u hu
        · obtain rfl := List.mem_singleton.mp hu
          exact Lawful.le_of_not_lt hv hknown hless

theorem argmin_le {values : List R} (hne : values ≠ []) (hdefined : ∀ v ∈ values, isNaN v = false) :
    ∃ b, values[Linear.argmin values]? = some b ∧ ∀ v ∈ values, b ≤ v := by
  cases values with
  | nil => exact absurd rfl hne
  | cons v rest =>
      have hv := le_self (hdefined v List.mem_cons_self)
      have hsingle : ∀ u ∈ [v], v ≤ u := List.forall_mem_singleton.mpr hv
      exact argmin_go_le hdefined rfl hsingle

/-- No sample of the window is less than the best one. -/
theorem Window.best_le {w : Window R} (hdefined : ∀ p ∈ w, isNaN p.y = false) (i : Fin 4) :
    (w.get w.best).y ≤ (w.get i).y := by
  have hne : w.toList.map (·.y) ≠ [] := List.ne_nil_of_length_pos (by simp)
  obtain ⟨b, hb, hleast⟩ := argmin_le hne (by simpa using hdefined)
  obtain ⟨hlt, -⟩ := List.getElem?_eq_some_iff.mp hb
  have hbest : w.best.val = Linear.argmin (w.toList.map (·.y)) := by
    rw [List.length_map, Vector.length_toList] at hlt
    rw [Window.best]
    simp [hlt]
  have hvalue : (w.toList.map (·.y))[w.best.val]? = some (w.get w.best).y := by
    simp
    rfl
  rw [← hbest, hvalue] at hb
  obtain rfl := Option.some.inj hb
  exact hleast _ (List.mem_map_of_mem (Vector.mem_toList_iff.mpr (Vector.getElem_mem i.isLt)))

end

/-! ## Samples at reals -/

variable {R : Type} [Scalar R] [Exact R] {phi : ℝ → R}

def sampleAt (phi : ℝ → R) (x : ℝ) : Sample R := ⟨ofReal x, phi x⟩

structure SampledAt {n : Nat} (phi : ℝ → R) (t : Fin n → ℝ) (v : Vector (Sample R) n) : Prop where
  ascending : StrictMono t
  samples : ∀ i, v.get i = sampleAt phi (t i)

/-- Samples of one function are ordered by their places, equal ones included. -/
theorem not_before_sampleAt (x y : ℝ) :
    (!(sampleAt phi y).before (sampleAt phi x)) = decide (x ≤ y) := by
  have hself : ¬ phi x < phi x := lt_irrefl _
  simp only [sampleAt, Sample.before, ofReal_beq, ofReal_lt]
  rcases lt_trichotomy x y with hless | rfl | hless
  · simp [hless.ne', hless.le, hless.not_gt]
  · simp [hself]
  · simp [hless.ne, hless, hless.not_ge]

theorem SampledAt.toList {n : Nat} {t : Fin n → ℝ} {v : Vector (Sample R) n} (h : SampledAt phi t v) :
    v.toList = (List.ofFn t).map (sampleAt phi) := by
  refine List.ext_getElem (by simp) fun i hi hi' => ?_
  simp only [Vector.getElem_toList, List.getElem_map, List.getElem_ofFn]
  exact h.samples ⟨i, by simpa using hi⟩

theorem sampledAt_of_toList {n : Nat} {v : Vector (Sample R) n} {us : List ℝ}
    (hlist : v.toList = us.map (sampleAt phi)) (hsorted : us.Pairwise (· < ·)) :
    ∃ u : Fin n → ℝ, SampledAt phi u v ∧ ∀ y, (∃ j, u j = y) ↔ y ∈ us := by
  obtain rfl : us.length = n := by simpa using (congrArg List.length hlist).symm
  refine ⟨us.get, ⟨fun i j hij => ?_, fun i => ?_⟩, fun y => List.mem_iff_get.symm⟩
  · exact List.pairwise_iff_getElem.mp hsorted i j i.isLt j.isLt hij
  · have hsample : v.toList[i.val]? = some (sampleAt phi us[i.val]) := by
      rw [hlist, List.getElem?_map, List.getElem?_eq_getElem i.isLt]
      rfl
    rw [Vector.getElem?_toList, Vector.getElem?_eq_getElem i.isLt] at hsample
    exact Option.some.inj hsample

/-- Sorted in among ascending places, a new one leaves no two that are the same. -/
theorem pairwise_mergeSort_new {n : Nat} {t : Fin n → ℝ} (ht : StrictMono t) {x : ℝ}
    (hx : ∀ i, t i ≠ x) :
    ((List.ofFn t ++ [x]).mergeSort fun a b => decide (a ≤ b)).Pairwise (· < ·) := by
  have hperm := List.mergeSort_perm (List.ofFn t ++ [x]) fun a b => decide (a ≤ b)
  have hapart : ((List.ofFn t ++ [x]).mergeSort fun a b => decide (a ≤ b)).Nodup := by
    rw [hperm.nodup_iff, List.nodup_append]
    refine ⟨List.nodup_ofFn.mpr ht.injective, List.nodup_singleton x, ?_⟩
    intro y hy z hz
    obtain ⟨i, rfl⟩ := List.mem_ofFn.mp hy
    rw [List.mem_singleton.mp hz]
    exact hx i
  have hordered : ((List.ofFn t ++ [x]).mergeSort fun a b => decide (a ≤ b)).Pairwise (· ≤ ·) :=
    List.pairwise_mergeSort' (· ≤ ·) _
  exact hordered.imp₂ (fun _ _ => lt_of_le_of_ne) hapart

/-- A sample at a new place is sorted in. -/
theorem SampledAt.merge {t : Fin 4 → ℝ} {w : Window R} (h : SampledAt phi t w) {x : ℝ}
    (hx : ∀ i, t i ≠ x) :
    ∃ u, SampledAt phi u (merge w (sampleAt phi x)) ∧
      ∀ y, (∃ j, u j = y) ↔ (∃ i, t i = y) ∨ y = x := by
  have hplaces : ((List.ofFn t ++ [x]).mergeSort fun a b => decide (a ≤ b)).map (sampleAt phi) =
      ((List.ofFn t ++ [x]).map (sampleAt phi)).mergeSort fun a b => !b.before a :=
    List.map_mergeSort fun a _ b _ => (not_before_sampleAt a b).symm
  rw [List.map_append, ← h.toList] at hplaces
  have hlist : (LineSearch.merge w (sampleAt phi x)).toList = _ := hplaces.symm
  have hperm := List.mergeSort_perm (List.ofFn t ++ [x]) fun a b => decide (a ≤ b)
  obtain ⟨u, hu, hmem⟩ := sampledAt_of_toList hlist (pairwise_mergeSort_new h.ascending hx)
  refine ⟨u, hu, fun y => ?_⟩
  rw [hmem, hperm.mem_iff, List.mem_append, List.mem_ofFn, List.mem_singleton]

/-! ## Four of five -/

/-- The last of five samples is dropped only if one of the first three is chosen as the least, and the
first only if one of the last three is. -/
theorem keepFour_cases {R : Type} [Scalar R] (v : Vector (Sample R) 5) :
    ∃ i, leastBy (fun i => (v.get i).y) (List.finRange 5) = some i ∧
      (i ≤ 2 ∧ (∀ k, (keepFour v).get k = v.get k.castSucc) ∨
        2 ≤ i ∧ ∀ k, (keepFour v).get k = v.get k.succ) := by
  obtain ⟨i, hi⟩ : ∃ i, leastBy (fun i => (v.get i).y) (List.finRange 5) = some i := ⟨_, rfl⟩
  have hfirst (k : Fin 4) : #v[v[0], v[1], v[2], v[3]].get k = v.get k.castSucc := by
    fin_cases k <;> rfl
  have hlast (k : Fin 4) : #v[v[1], v[2], v[3], v[4]].get k = v.get k.succ := by
    fin_cases k <;> rfl
  refine ⟨i, hi, ?_⟩
  have hi' : leastBy (fun i : Fin 5 => v[i].y) (List.finRange 5) = some i := hi
  unfold keepFour
  simp only [hi', Option.getD_some]
  rcases Nat.lt_trichotomy i.val 2 with hless | heq | hmore
  · exact .inl ⟨hless.le, by simpa [hless] using hfirst⟩
  · by_cases hends : v[0].y < v[4].y
    · exact .inl ⟨heq.le, by simpa [heq, hends] using hfirst⟩
    · exact .inr ⟨heq.ge, by simpa [heq, hends] using hlast⟩
  · exact .inr ⟨hmore.le, by simpa [hmore, hmore.not_gt] using hlast⟩

namespace SampledAt

variable {u : Fin 5 → ℝ} {v : Vector (Sample R) 5} (h : SampledAt phi u v)

include h

/-- The four that are kept are samples in order again, and of five the least is among them unless a
value is undefined. -/
theorem keepFour_cases :
    ∃ i : Fin 5, ((∀ x, isNaN (phi x) = false) → ∀ j, phi (u i) ≤ phi (u j)) ∧
      (i ≤ 2 ∧ SampledAt phi (u ∘ Fin.castSucc) (keepFour v) ∨
        2 ≤ i ∧ SampledAt phi (u ∘ Fin.succ) (keepFour v)) := by
  obtain ⟨i, hi, hcases⟩ := LineSearch.keepFour_cases v
  refine ⟨i, fun hphi j => ?_, ?_⟩
  · have hvalue (j : Fin 5) : (v.get j).y = phi (u j) := congrArg Sample.y (h.samples j)
    have hle := leastBy_le hi (fun b _ => by rw [hvalue]; exact hphi _) j (List.mem_finRange j)
    rwa [hvalue, hvalue] at hle
  · rcases hcases with ⟨hlow, hkept⟩ | ⟨hhigh, hkept⟩
    · refine .inl ⟨hlow, h.ascending.comp Fin.strictMono_castSucc, fun k => ?_⟩
      rw [hkept, h.samples]
      rfl
    · refine .inr ⟨hhigh, h.ascending.comp Fin.strictMono_succ, fun k => ?_⟩
      rw [hkept, h.samples]
      rfl

theorem keepFour :
    ∃ e : Fin 4 → Fin 5, SampledAt phi (u ∘ e) (keepFour v) ∧
      ((∀ x, isNaN (phi x) = false) → ∃ k, ∀ j, phi (u (e k)) ≤ phi (u j)) := by
  obtain ⟨i, hleast, ⟨hlow, hkept⟩ | ⟨hhigh, hkept⟩⟩ := h.keepFour_cases
  · have hlast : i ≠ Fin.last 4 := ne_of_lt (lt_of_le_of_lt hlow (by decide))
    exact ⟨Fin.castSucc, hkept, fun hphi => ⟨i.castPred hlast, by simpa using hleast hphi⟩⟩
  · have hfirst : i ≠ 0 := ne_of_gt (lt_of_lt_of_le (by decide) hhigh)
    exact ⟨Fin.succ, hkept, fun hphi => ⟨i.pred hfirst, by simpa using hleast hphi⟩⟩

end SampledAt

end Minima.LineSearch
