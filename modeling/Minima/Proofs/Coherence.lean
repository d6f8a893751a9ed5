import Minima.Proofs.EqualPoints
import Minima.Proofs.LimitedRuns
import Minima.Proofs.SessionInvariants

/-!
# States are coherent

A state carries its value, its point and its gradient separately, through steps that are rejected,
repeated from memory, sorted, partly improved or given up by a numerical failure. Still the value is
that of the objective at the point, the gradient of a gradient method is the gradient there, and a
simplex has a vertex more than there are variables, each with its own value, and shows the value of
the first. It holds of every state of a run, whatever is asked of the objective between the steps,
since a truthful ledger answers as the functions do.
-/

namespace Minima

theorem NelderMead.Simplex.head_values {R : Type} {n : Nat} (simplex : NelderMead.Simplex R n) :
    (simplex.toList.map Vertex.value).head? = some simplex.best.value := by
  have hpos : 0 < simplex.toList.length := by simp
  rw [List.head?_map, List.head?_eq_getElem?, List.getElem?_eq_getElem hpos]
  simp [best]
  rfl

variable {R : Type} [Scalar R] {n : Nat}

/-- What a snapshot of a method on offer has to do with the objective. -/
structure Offer.Coherent (o : Offer) (f : Objective R n) (v : Snapshot R) : Prop where
  value : ∃ x : Vector R n,
    x.toArray = v.point ∧ v.points.head? = some x.toArray ∧ f.value x = .ok v.value
  gradient : (o.method : Method R).usesGradient = true →
    ∃ (x : Vector R n) (d : Descent R) (g : Array R), x.toArray = v.point ∧
      v.detail.descent? = some d ∧ d.gradient = some (Tensor.ofArray g) ∧
      Ledger.rawGradient f x = .ok g
  simplex : o = .nelderMead →
    ∃ (vertices : List (Vector R n × R)) (stepType : String) (diameter : R),
      vertices.length = n + 1 ∧ v.points = vertices.map (fun p => p.1.toArray) ∧
      v.detail = .simplex (some (Tensor.ofArray (vertices.map Prod.snd).toArray)) stepType diameter ∧
      (∀ p ∈ vertices, f.value p.1 = .ok p.2) ∧ (vertices.map Prod.snd).head? = some v.value

/-- An answer is what the functions of the objective come to. -/
def truth (f : Objective R n) : Lore R n := fun q r => Ledger.plainAnswer f q = .ok r

section

variable {r : Region R n} {f : Objective R n}

theorem rawGradient_of_truth {x g : Vector R n} (h : truth f (.gradient x) g) :
    Ledger.rawGradient f x = .ok g.toArray := by
  obtain ⟨g', hg, hsized⟩ := Attempt.bind_eq_ok.mp h
  unfold Ledger.sized at hsized
  by_cases hsize : g'.size = n
  · rw [dif_pos hsize] at hsized
    cases hsized
    exact hg
  · rw [dif_neg hsize] at hsized
    cases hsized

/-- Whatever else a gradient method shows, its snapshot is coherent. -/
theorem Iterate.Grounded.coherent (o : Offer) {it : Iterate R n} (h : it.Grounded r (truth f))
    (detail : Detail R) (hdetail : detail.descent? = some it.descent) (ho : o ≠ .nelderMead) :
    o.Coherent f (it.snapshot detail) where
  value := ⟨it.point, rfl, rfl, h.sampled.value⟩
  gradient _ := ⟨it.point, it.descent, it.gradient.toArray, rfl, hdetail, rfl,
    rawGradient_of_truth h.gradient⟩
  simplex heq := absurd heq ho

theorem NelderMead.State.Grounded.coherent {st : NelderMead.State R n}
    (h : st.Grounded r (truth f)) : Offer.nelderMead.Coherent f st.view where
  value := ⟨st.simplex.best.point, rfl, rfl, (Simplex.Grounded.get h _).value⟩
  gradient hgradient := by cases hgradient
  simplex _ := by
    have hvalues : (st.simplex.toList.map fun v => (v.point, v.value)).map Prod.snd =
        st.simplex.toList.map Vertex.value := by
      rw [List.map_map]
      rfl
    refine ⟨st.simplex.toList.map fun v => (v.point, v.value), st.stepType, st.simplex.diameter,
      ?_, ?_, ?_, ?_, ?_⟩
    · simp
    · rw [points_view, List.map_map]
      rfl
    · have harray : st.simplex.toArray.map Vertex.value =
          (st.simplex.toList.map Vertex.value).toArray := by
        rw [← List.map_toArray]
        rfl
      rw [hvalues, ← harray]
      rfl
    · intro p hp
      obtain ⟨v, hv, rfl⟩ := List.mem_map.mp hp
      exact (h v (Vector.mem_toList_iff.mp hv)).value
    · rw [hvalues]
      exact st.simplex.head_values

theorem Offer.coherent_view {o : Offer} {st : (o.method : Method R).State n}
    (h : o.Grounded r (truth f) st) : o.Coherent f ((o.method : Method R).view st) := by
  cases o with
  | nelderMead => exact NelderMead.State.Grounded.coherent h
  | hookeJeeves =>
      exact ⟨⟨(HookeJeeves.State.base st).point, rfl, rfl, Sampled.value h⟩, nofun, nofun⟩
  | newton =>
      refine Iterate.Grounded.coherent .newton h _ ?_ nofun
      cases (Newton.State.found? st) <;> rfl
  | gradientDescent => exact Iterate.Grounded.coherent .gradientDescent h _ rfl nofun
  | steepestDescent => exact Iterate.Grounded.coherent .steepestDescent h _ rfl nofun
  | conjugateGradient => exact Iterate.Grounded.coherent .conjugateGradient h _ rfl nofun
  | fletcherReeves => exact Iterate.Grounded.coherent .fletcherReeves h _ rfl nofun
  | polakRibiere => exact Iterate.Grounded.coherent .polakRibiere h _ rfl nofun
  | quasiNewton => exact Iterate.Grounded.coherent .quasiNewton h _ rfl nofun

end

/-! ## Truthful ledgers -/

namespace Solver

variable {m : Method R} {f : Subject R} {a : Accepted R f.n} {P : m.State f.n → Prop}
  {s : Solver m}

theorem gaugesKeep_truthful (hf : f.objective.RespectsEquality) :
    GaugesKeep f (Ledger.Truthful f.objective) := by
  intro t l hl
  exact Ledger.request_truthful (fun x => (Ledger.gradient_truthful hf hl x).2) hl t

/-- A truthful ledger tells the truth, and stays truthful. -/
theorem answer_tells_truth (hf : f.objective.RespectsEquality) (q : Question R f.n)
    (l : Ledger R f.n) (hl : Ledger.Truthful f.objective l) :
    Ledger.Truthful f.objective (Ledger.answer f.objective q l).2 ∧
      ∀ r, (Ledger.answer f.objective q l).1 = .ok r → truth f.objective q r := by
  obtain ⟨hanswer, hleft⟩ := Ledger.answer_truthful hf hl q
  exact ⟨hleft, fun r hr => hanswer.symm.trans hr⟩

/-- On a truthful ledger, the states of a method on offer rest on what the functions come to. -/
theorem carries_truth (o : Offer) (a : Accepted R f.n) (hf : f.objective.RespectsEquality) :
    Carries (m := o.method) f a (Ledger.Truthful f.objective)
      (o.Grounded a.region (truth f.objective)) :=
  carries_grounded o f a (Ledger.truthful_empty f.objective) (answer_tells_truth hf)

theorem Upholds.alike_self (h : Upholds f a (Ledger.Truthful f.objective) P s)
    (hf : f.objective.RespectsEquality) : s.Alike BothTruthful s := by
  obtain ⟨ledger, hl, htask⟩ := h.task
  refine ⟨rfl, ?_, rfl, rfl, rfl⟩
  rw [htask]
  exact .some ⟨ledger, rfl, hf, hl, hl⟩

end Solver

namespace Session

variable {m : Method R} {f : Subject R} {a : Solver.Accepted R f.n} {P : m.State f.n → Prop}
  {s : Session m}

theorem queriesKeep_truthful (hf : f.objective.RespectsEquality) :
    QueriesKeep f (Ledger.Truthful f.objective) where
  value x _ hl := Ledger.request_truthful (fun y => (Ledger.value_truthful hf hl y).2) hl x
  gradient x _ hl := Ledger.request_truthful (fun y => (Ledger.gradient_truthful hf hl y).2) hl x
  hessian x _ hl := Ledger.request_truthful (fun y => (Ledger.hessian_truthful hf hl y).2) hl x
  empty := Ledger.truthful_empty f.objective

theorem upholds_after (hf : f.objective.RespectsEquality)
    (hcarries : Solver.Carries f a (Ledger.Truthful f.objective) P)
    (h : s.solver.Upholds f a (Ledger.Truthful f.objective) P) (moves : List (Move R)) :
    (s.after moves).solver.Upholds f a (Ledger.Truthful f.objective) P :=
  upholds_moves (queriesKeep_truthful hf) hcarries h moves

/-- After a set up on an objective that does not tell equal points apart, there is a coherent state
after any steps and queries, whatever the steps came to, and all states of a run are coherent. -/
theorem states_are_coherent [Scalar.Lawful R] {o : Offer} {c : Configuration R}
    {s s₀ : Session (o.method : Method R)} {v : Snapshot R} (hf : (exec subject s).1 = .ok f)
    (hcongruent : f.objective.Congruent) (hset : exec (setUp c) s = (.ok v, s₀)) :
    (∀ moves, ∃ u, (s₀.after moves).solver.snapshot? = some u ∧ o.Coherent f.objective u) ∧
      ∀ (σ : Type) (order : Solver.Order R) (w : Solver.Watcher R σ) (seen : σ) (r : Results R)
        (final : Solver (o.method : Method R) × σ), order.toConfiguration = c →
        w.Leaves f (Ledger.Truthful f.objective) →
        exec (Solver.solveWatched f order w) (s.solver, seen) = (.ok r, final) →
        ∀ u ∈ r.final :: r.history.toList, o.Coherent f.objective u := by
  have hrespect := hcongruent.respectsEquality
  obtain ⟨a, ha, hl⟩ := exec_setUp_ok hf hset
  have hcarries := Solver.carries_truth o a hrespect
  refine ⟨?_, ?_⟩
  · intro moves
    have hafter := upholds_after hrespect hcarries (hcarries.launch hl) moves
    obtain ⟨st, hst, hstate⟩ := hafter.state
    have hlive : (s₀.after moves).solver.snapshot? = some ((o.method : Method R).view st) := by
      rw [Solver.snapshot?, hstate]
      rfl
    exact ⟨_, hlive, Offer.coherent_view hst⟩
  · rintro σ order w seen r final rfl hw hr u hu
    obtain ⟨a', -, -, -, -, -, haccept, -⟩ := Solver.chronicle_of_exec_solveWatched hr
    obtain rfl : a = a' := Except.ok.inj (ha.symm.trans (Solver.accept_of_acceptOrder haccept))
    obtain ⟨st, hst, rfl⟩ := Solver.shown_of_solveWatched haccept hcarries
      (Solver.gaugesKeep_truthful hrespect) hw hr u hu
    exact Offer.coherent_view hst

/-! Over the reals equal points are the same, so every objective is congruent. -/

theorem congruent_real {n : Nat} (f : Objective ℝ n) : f.Congruent where
  value h := by rw [Linear.same_real h]
  gradient _ _ _ h := by rw [Linear.same_real h]
  hessian _ _ _ h := by rw [Linear.same_real h]
  guarded h := by rw [Linear.same_real h]

/-- A method on offer is set up on a total objective with whatever it accepts. -/
theorem starts_of_accept {o : Offer} {c : Configuration R} {s : Session (o.method : Method R)}
    {a : Solver.Accepted R f.n} (hf : (exec subject s).1 = .ok f) (htotal : f.objective.Total)
    (ha : s.solver.accept f.n c = .ok a) : ∃ v s₀, exec (setUp c) s = (.ok v, s₀) := by
  have hvalid := Solver.validate_of_accept ha
  obtain ⟨v, s', hl⟩ := Solver.launch_returns htotal hvalid s.solver
  exact ⟨v, _, exec_setUp_of_launch hf ha hl⟩

theorem saddle_starts (o : Offer) :
    ∃ v s₀, exec (setUp Solver.onSaddle)
      { solver := Solver.new o.method none, current := .other Solver.saddle } = (.ok v, s₀) :=
  starts_of_accept rfl Solver.saddle_total (Solver.onSaddle_accepted o _)

/-- The states of Newton's method on the saddle, between and after its steps. -/
theorem saddle_coherent :
    ∃ v s₀ r final, exec (setUp Solver.onSaddle)
        { solver := Solver.new Offer.newton.method none, current := .other Solver.saddle } =
          (.ok v, s₀) ∧
      (∃ u, (s₀.after [.query .hessianHere, .step, .step]).solver.snapshot? = some u ∧
        Offer.newton.Coherent Solver.saddle.objective u) ∧
      exec (Solver.solve Solver.saddle Solver.twoStepsOnSaddle fun _ _ (_ : Unit) => ())
        (Solver.new Offer.newton.method none, ()) = (.ok r, final) ∧ 0 < r.history.size ∧
      ∀ u ∈ r.final :: r.history.toList, Offer.newton.Coherent Solver.saddle.objective u := by
  obtain ⟨v, s₀, hset⟩ := saddle_starts .newton
  obtain ⟨r, final, hr⟩ :=
    Solver.saddle_run_returns (o := .newton) rfl (Solver.new Offer.newton.method none)
  obtain ⟨hsteps, hruns⟩ := states_are_coherent rfl (congruent_real _) hset
  exact ⟨v, s₀, r, final, hset, hsteps _, hr, Solver.history_ne_of_real hr,
    hruns Unit _ _ () r final rfl (Solver.leaves_onlooker _) hr⟩

end Session

end Minima
