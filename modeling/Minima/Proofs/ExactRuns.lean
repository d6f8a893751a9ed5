import Minima.Method.Scripted
import Minima.Problem.Catalogue
import Minima.Proofs.EngineRuns
import Minima.Proofs.Memory
import Minima.Scalar.Real
import Mathlib.Tactic.NormNum

/-!
# Runs over the reals

Over the reals nothing is undefined or infinite, so a start is refused only for its shape and a set
up that returns leaves a running solver. Equal points are the same point.
-/

namespace Minima

theorem Linear.isFinite_real {n : Nat} (x : Vector ℝ n) : Linear.isFinite x = true := by
  simp [Linear.isFinite]

theorem Snapshot.isFinite_real (v : Snapshot ℝ) : v.isFinite = true := by
  simp [Snapshot.isFinite]

theorem Linear.same_real {n : Nat} {x y : Vector ℝ n} (h : Linear.same x y = true) : x = y := by
  unfold Linear.same at h
  rw [Vector.isEqv_iff_rel] at h
  ext i hi
  exact (RealScalar.beq_iff _ _).mp (h i hi)

theorem Linear.same_iff_eq {n : Nat} {x y : Vector ℝ n} : Linear.same x y = true ↔ x = y := by
  refine ⟨same_real, ?_⟩
  rintro rfl
  unfold Linear.same
  rw [Vector.isEqv_iff_rel]
  exact fun i hi => (RealScalar.beq_iff _ _).mpr rfl

theorem Objective.respectsEquality_real {n : Nat} (f : Objective ℝ n) : f.RespectsEquality where
  value h := by rw [Linear.same_real h]
  gradient h := by rw [Linear.same_real h]
  hessian h := by rw [Linear.same_real h]

namespace Solver

variable {m : Method ℝ}

/-- The defaults of the method pass the checks that are made of options. -/
structure Presettable (m : Method ℝ) : Prop where
  norm : ∃ x, m.defaults.real "max_x_norm" = .ok x ∧ 0 < x
  value : ∃ x, m.defaults.real "max_abs_f" = .ok x ∧ 0 < x
  valid : ∀ owner, m.validate owner m.defaults = .ok ()

theorem require_positive {options : Options ℝ} {owner key : String} {x : ℝ}
    (h : options.real key = .ok x) (hx : 0 < x) : options.require owner key .positive = .ok () := by
  have hcovers : OptionRange.positive.covers x = true := by
    simp [OptionRange.covers]
    norm_num
    exact hx
  simp only [Options.require, h, bind, Except.bind, hcovers]
  rfl

theorem acceptOptions_nil (h : Presettable m) (s : Solver m) :
    s.acceptOptions [] = .ok m.defaults := by
  obtain ⟨⟨x, hx, hpos⟩, ⟨y, hy, hypos⟩, hvalid⟩ := h
  simp [acceptOptions, Options.resolve, Options.unknown, Options.keys, Options.update,
    require_positive hx hpos, require_positive hy hypos, hvalid, bind, Except.bind, pure,
    Except.pure]

/-- A start of the right length is accepted with the defaults of the method, in constraints that fit. -/
theorem accept_within (h : Presettable m) (s : Solver m) {n : Nat} (x : Vector ℝ n)
    {constraints : Constraints ℝ} {region : Region ℝ n}
    (hregion : constraints.region? n = some region) :
    s.accept n { start := Tensor.ofVector x, constraints } =
      .ok { options := m.defaults, region, start := x } := by
  have hstart : acceptStart s.name n (Tensor.ofVector x) = .ok x := by
    simp [acceptStart, Tensor.ofVector, Tensor.ofArray, Tensor.toVector?, Linear.isFinite_real,
      pure, Except.pure]
  have haccept : acceptRegion s.name n constraints = .ok region := by
    rw [acceptRegion, hregion]
    rfl
  simp only [accept, hstart, haccept, acceptOptions_nil h s, bind, Except.bind]
  rfl

theorem accept_vector (h : Presettable m) (s : Solver m) {n : Nat} (x : Vector ℝ n) :
    s.accept n { start := Tensor.ofVector x } =
      .ok { options := m.defaults, region := .everywhere, start := x } :=
  accept_within h s x rfl

end Solver

namespace Scripted

variable {script : Script ℝ}

theorem presettable (h : script.defaults = []) : Solver.Presettable (method script) where
  norm := ⟨1e12, by rw [method, h]; rfl, by norm_num⟩
  value := ⟨1e100, by rw [method, h]; rfl, by norm_num⟩
  valid _ := rfl

noncomputable def fromOrigin : Configuration ℝ := { start := Tensor.ofVector #v[0] }

noncomputable def acceptedOrigin (options : Options ℝ) : Solver.Accepted ℝ 1 :=
  { options, region := .everywhere, start := #v[0] }

/-! ## A run that goes home -/

/-- A method whose first step shows the origin of the plane and succeeds. -/
noncomputable def homing : Method ℝ :=
  method { hasCriterion := true, stages := #[⟨.success, .show 0 (Tensor.ofArray #[0, 0]) none⟩] }

/-- The function `x² + y²` on the plane. -/
noncomputable def bowl : Subject ℝ where
  n := 2
  objective := Catalogue.plane "bowl" (fun x y => x ^ 2 + y ^ 2) none none fun _ _ => true

noncomputable def farPoint : Vector ℝ 2 := #v[3, 4]

noncomputable def away : Snapshot ℝ := { value := 3 ^ 2 + 4 ^ 2, point := #[3, 4] }

noncomputable def home : Snapshot ℝ := { value := 0, point := #[0, 0] }

noncomputable def fromAway : Configuration ℝ := { start := Tensor.ofVector farPoint }

noncomputable def acceptedAway : Solver.Accepted ℝ bowl.n :=
  { options := homing.defaults, region := .everywhere, start := farPoint }

theorem homing_accepts (s : Solver homing) : s.accept bowl.n fromAway = .ok acceptedAway :=
  Solver.accept_vector (presettable rfl) s farPoint

theorem homing_starts (s : Solver homing) :
    ∃ s₀, exec (Solver.launch bowl acceptedAway) s = (.ok away, s₀) ∧ s₀.state? = some ⟨2, away⟩ := by
  have ho : ∃ ledger, Solver.opening homing bowl acceptedAway = (.ok (.state away), ledger) :=
    ⟨_, rfl⟩
  obtain ⟨ledger, ho⟩ := ho
  obtain ⟨events, h⟩ := Solver.exec_launch bowl acceptedAway s
  rw [ho] at h
  exact ⟨_, h, rfl⟩

theorem homing_steps {s₀ : Solver homing} {t : Task ℝ} (ht : s₀.task? = some t) (hn : t.n = 2)
    (hs : s₀.state? = some ⟨2, away⟩) (hrun : s₀.status = .running) :
    ∃ s₁, exec Solver.iterate s₀ = (.ok .success, s₁) ∧ s₁.snapshot? = some home := by
  obtain ⟨⟨n, objective, ledger⟩, options, region⟩ := t
  dsimp only at hn
  subst hn
  obtain ⟨events, h⟩ := Solver.exec_iterate_live ht hs (by rw [hrun]; rfl)
  have ha : (Solver.attemptStep ⟨⟨2, objective, ledger⟩, options, region⟩ s₀.iterations
      (show homing.State 2 from away)).1 = .ok (.state home, .success) := by
    cases s₀.iterations with
    | zero => rfl
    | succ k => rfl
  have hc : Solver.concluded options (⟨2, away⟩ : Σ n, homing.State n)
      (.ok (.state home, .success) : Attempt ℝ (Produced (homing.State 2) × Status)) =
      .ok (⟨2, home⟩, .success) := by
    have hclass : Solver.classify options home .success = .ok .success :=
      Solver.classify_ended (Snapshot.isFinite_real home) (by decide)
    show (Solver.classify options home .success).map _ = _
    rw [hclass]
    rfl
  rw [ha, hc] at h
  exact ⟨_, h, rfl⟩

end Scripted

end Minima
