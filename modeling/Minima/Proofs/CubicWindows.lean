import Minima.Proofs.CubicRounds

/-!
# Windows of cubic interpolation

The window of cubic interpolation has four samples, one after the other. A new sample lies between the
outer two and at a step of its own, so that the five have an order, and the four that are kept are
those around the least value: wherever the new sample lies, the minimum stays between the outer two.
-/

namespace Minima.LineSearch

open Dialogue Scalar

variable {phi : ℝ → ℝ} {s : Span ℝ} {m tol : ℝ}

/-! ## Samples in order -/

/-- The samples lie one after the other. -/
def Ascending {n : Nat} (v : Vector (Sample ℝ) n) : Prop := StrictMono fun i => (v.get i).x

namespace Ascending

variable {n : Nat} {v : Vector (Sample ℝ) (n + 1)} (h : Ascending v) {p : Sample ℝ}

include h

theorem first_le (hp : p ∈ v) : (v.get 0).x ≤ p.x := by
  obtain ⟨i, hi, rfl⟩ := Vector.getElem_of_mem hp
  exact h.monotone (Fin.zero_le ⟨i, hi⟩)

theorem le_last (hp : p ∈ v) : p.x ≤ (v.get (Fin.last n)).x := by
  obtain ⟨i, hi, rfl⟩ := Vector.getElem_of_mem hp
  exact h.monotone (Fin.le_last ⟨i, hi⟩)

end Ascending

/-- The samples of the window lie one after the other and hold the values at their steps, and the
minimum lies between the outer two. -/
structure Window.Keeps (phi : ℝ → ℝ) (m : ℝ) (w : Window ℝ) : Prop where
  ascending : Ascending w
  sampled : w.Sampled (answering phi)
  unimodal : Unimodal phi w.span m

theorem Window.Keeps.sampledAt {w : Window ℝ} (h : w.Keeps phi m) :
    SampledAt phi (fun i => (w.get i).x) w where
  ascending := h.ascending
  samples i := by
    have hvalue : phi (w.get i).x = (w.get i).y :=
      Except.ok.inj (h.sampled (w.get i) (Vector.getElem_mem i.isLt))
    rw [sampleAt, hvalue]
    rfl

theorem SampledAt.keeps {t : Fin 4 → ℝ} {w : Window ℝ} (h : SampledAt phi t w)
    (hm : Unimodal phi ⟨t 0, t 3⟩ m) : w.Keeps phi m where
  ascending i j hij := by
    simp only [h.samples]
    exact h.ascending hij
  sampled p hp := by
    obtain ⟨i, hi, rfl⟩ := Vector.getElem_of_mem hp
    have hsample : w[i] = sampleAt phi (t ⟨i, hi⟩) := h.samples ⟨i, hi⟩
    rw [hsample]
    rfl
  unimodal := by
    rw [h.span_eq]
    exact hm

/-! ## Four of five -/

/-- The four that are kept have the minimum between them. -/
theorem keepFour_keeps {u : Fin 5 → ℝ} {v : Vector (Sample ℝ) 5} (hv : SampledAt phi u v)
    (h : Unimodal phi ⟨u 0, u 4⟩ m) : (keepFour v).Keeps phi m := by
  obtain ⟨i, hleast, ⟨hi, hkept⟩ | ⟨hi, hkept⟩⟩ := hv.keepFour_cases
  · have hlow : u 0 ≤ u i := hv.ascending.monotone (Fin.zero_le i)
    have hbefore : u i < u 3 := hv.ascending (lt_of_le_of_lt hi (by decide))
    have hhigh : u 3 ≤ u 4 := hv.ascending.monotone (by decide)
    exact hkept.keeps (h.dropRight hlow hbefore hhigh (hleast (fun _ => rfl) 3))
  · have hlow : u 0 ≤ u 1 := hv.ascending.monotone (by decide)
    have hbefore : u 1 < u i := hv.ascending (lt_of_lt_of_le (by decide) hi)
    have hhigh : u i ≤ u 4 := hv.ascending.monotone (Fin.le_last i)
    exact hkept.keeps (h.dropLeft hlow hbefore hhigh (hleast (fun _ => rfl) 1))

/-! ## Refining a window -/

/-- A sample between the outer two and at a new step refines the window. -/
theorem SampledAt.refine_keeps {t : Fin 4 → ℝ} {w : Window ℝ} (h : SampledAt phi t w)
    (hm : Unimodal phi ⟨t 0, t 3⟩ m) {x : ℝ} (hlow : t 0 < x) (hhigh : x < t 3)
    (hnew : ∀ i, t i ≠ x) :
    (LineSearch.keepFour (LineSearch.merge w (sampleAt phi x))).Keeps phi m := by
  obtain ⟨u, hu, hplaces⟩ := h.merge hnew
  have hbetween (j : Fin 5) : t 0 ≤ u j ∧ u j ≤ t 3 := by
    rcases (hplaces (u j)).mp ⟨j, rfl⟩ with ⟨i, hi⟩ | hx
    · rw [← hi]
      exact ⟨h.ascending.monotone (Fin.zero_le i), h.ascending.monotone (Fin.le_last i)⟩
    · rw [hx]
      exact ⟨hlow.le, hhigh.le⟩
  -- the outer two stay where they are
  obtain ⟨j, hfirst⟩ := (hplaces (t 0)).mpr (.inl ⟨0, rfl⟩)
  obtain ⟨k, hlast⟩ := (hplaces (t 3)).mpr (.inl ⟨3, rfl⟩)
  have hle : u 0 ≤ t 0 := hfirst ▸ hu.ascending.monotone (Fin.zero_le j)
  have hge : t 3 ≤ u 4 := hlast ▸ hu.ascending.monotone (Fin.le_last k)
  exact keepFour_keeps hu (hm.restrict (hbetween 0).1 (hbetween 4).2 (hle.trans hm.left)
    (hm.right.trans hge))

theorem cubicStart_keeps (hs : s.left < s.right) (h : Unimodal phi s m) :
    Reports (answering phi) (Window.Keeps phi m) (cubicStart s) := by
  have hgrid : SampledAt phi (grid s) (gridWindow phi s) := sampledAt_gridWindow phi hs
  refine (cubicStart_follows (answers_answering phi) s).yields (hgrid.keeps ?_)
  rw [grid_first, grid_last]
  exact h

theorem cubicLoop_keeps (tol : ℝ) (fuel count : Nat) {w : Window ℝ} (h : w.Keeps phi m) :
    Reports (answering phi) (fun
        | .settled w _ => Window.Keeps phi m w
        | .degenerate w _ _ => Window.Keeps phi m w) (cubicLoop tol fuel count w) := by
  induction fuel generalizing count w with
  | zero => exact yields_pure h
  | succ fuel ih =>
      rw [cubicLoop_succ]
      refine yields_ite (fun _ => ?_) fun _ => yields_pure h
      cases hround : w.round with
      | degenerate => exact yields_pure h
      | exhausted => exact yields_pure h
      | asks x =>
          obtain ⟨z, rfl, hlow, hhigh, hnew⟩ := h.sampledAt.round_asks hround
          refine yields_question_bind trivial fun value hvalue => ih _ ?_
          obtain rfl := Except.ok.inj hvalue
          exact h.sampledAt.refine_keeps h.unimodal hlow hhigh hnew

end Minima.LineSearch
