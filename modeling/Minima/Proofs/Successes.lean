import Minima.Proofs.Coherence
import Minima.Proofs.DescentSteps
import Minima.Proofs.ReadRuns

/-!
# What a success says

A method along a line does not judge its steps a success, so a run of it that succeeds was stopped by
its criterion. The criterion was asked about the last state, and what it was told is true. It is never
asked about the start.
-/

namespace Minima

open Dialogue

/-! ## Methods along a line do not succeed by themselves -/

section

variable {R : Type} [Scalar R] {n : Nat} {s : Situation R n}

theorem LineStep.descend_unsuccessful (it : Iterate R n) (p : Vector R n) :
    (descend s it p).Always fun r => r.2 ≠ .success := by
  refine yields_bind (yields_anything _) fun outcome _ => ?_
  refine yields_join (yields_anything _) (yields_anything _) fun alpha _ => ?_
  refine yields_question_bind trivial fun value _ => ?_
  refine yields_ite (fun _ => yields_pure nofun) fun _ => ?_
  refine yields_ite (fun _ => yields_pure nofun) fun _ => ?_
  refine yields_lift_bind fun stalled _ => yields_question_bind trivial fun gradient _ => ?_
  refine yields_pure ?_
  cases stalled <;> exact nofun

theorem Offer.step_unsuccessful {o : Offer} (ho : (o.method : Method R).usesLineSearch = true)
    (s : Situation R n) (count : Nat) (st : (o.method : Method R).State n) :
    ((o.method : Method R).step s count st).Always fun r => r.2 ≠ .success := by
  have hline {S : Type} {iterate : S → Iterate R n} {st : S} {d : Consult R n (S × Status)}
      (hd : d.Always (LineStep.TakesOver iterate (fun r => r.2 ≠ .success) st)) :=
    yields_wrapped (Q := fun r => r.2 ≠ .success) hd fun _ _ hr => hr.elim And.left id
  cases o with
  | steepestDescent =>
      exact hline (SteepestDescent.step_takesOver (LineStep.descend_unsuccessful st))
  | newton => exact hline (Newton.step_takesOver (LineStep.descend_unsuccessful st.iterate) trivial)
  | quasiNewton =>
      exact hline (QuasiNewton.step_takesOver (LineStep.descend_unsuccessful st.iterate) count)
  | conjugateGradient | fletcherReeves | polakRibiere =>
      exact hline (ConjugateGradient.step_takesOver (LineStep.descend_unsuccessful st.iterate) count)
  | gradientDescent => cases ho
  | nelderMead => cases ho
  | hookeJeeves => cases ho

/-- They are asked for a criterion. -/
theorem Offer.hasCriterion_along {o : Offer} (ho : (o.method : Method R).usesLineSearch = true) :
    (o.method : Method R).hasCriterion = false := by
  cases o <;> first | rfl | cases ho

end

namespace Solver

variable {R : Type} [Scalar R] {σ : Type} {o : Offer} {f : Subject R}
  {s s' : Solver (o.method : Method R)}

theorem iterate_unsuccessful (ho : (o.method : Method R).usesLineSearch = true) {status : Status}
    (h : exec iterate s = (.ok status, s')) : status ≠ .success := by
  rintro rfl
  obtain ⟨-, -, -, -, t, k, st, next, -, -, hc, -⟩ := exec_iterate_ok h
  obtain ⟨-, -, -, -, hout⟩ | ⟨made, reported, hmade, -, hclass⟩ := concluded_eq_ok hc
  · cases hout
  · obtain rfl := reported_of_classify hclass nofun
    unfold attemptStep at hmade
    by_cases hk : k = t.n
    · rw [dif_pos hk] at hmade
      exact (Offer.step_unsuccessful ho t.situation s.iterations (hk ▸ st)).of_run hmade rfl
    · rw [dif_neg hk] at hmade
      cases hmade

/-- Without a step a run ends with the status of its set up, which is no success. -/
theorem exists_last_of_success {m : Method R} {a : Accepted R f.n} {s s₀ : Solver m}
    {first : Snapshot R} {criterion? : Option (Criterion R)} {w : Watcher R σ} {seen : σ}
    {turns : List (Turn m σ)} {finish : Finish R} {last : Solver m × σ}
    (hl : exec (launch f a) s = (.ok first, s₀))
    (hc : Chronicle criterion? w (s₀, seen) turns finish last) (h : finish.status = .success) :
    ∃ t, turns.getLast? = some t := by
  cases hlast : turns.getLast? with
  | some t => exact ⟨t, rfl⟩
  | none =>
      obtain ⟨-, -, -, hstatus, -⟩ := exec_launch_ok hl
      obtain ⟨-, rfl, -⟩ := hc.idle (List.getLast?_eq_none_iff.mp hlast)
      have hnot : s₀.status ≠ .success := by
        rw [hstatus]
        split <;> decide
      exact absurd h hnot

/-- A run along lines that succeeds was stopped by its criterion, after a step, and the criterion
truly holds of the last state. -/
theorem holds_of_success (ho : (o.method : Method R).usesLineSearch = true)
    (hf : f.objective.RespectsEquality) {order : Order R} {c : Criterion R}
    (hcriterion : order.criterion? = some c) {visit : Snapshot R → Nat → σ → σ} {seen : σ}
    {r : Results R} {final : Solver (o.method : Method R) × σ}
    (hr : exec (solve f order visit) (s, seen) = (.ok r, final)) (hsuccess : r.status = .success) :
    r.cause = .criterion c ∧ 1 ≤ r.iterations ∧ (∃ x : Vector R f.n, r.final.point = x.toArray) ∧
      (c.holds r.final r.iterations).read (plainGauge f.objective) = .ok true := by
  have hasked : asked? (o.method : Method R) order = some c := by
    rw [asked?, Offer.hasCriterion_along ho, ← hcriterion]
    rfl
  obtain ⟨a, first, s₀, turns, finish, last, -, hl, -, hc, hrecounts, -⟩ :=
    chronicle_of_exec_solveWatched hr
  obtain ⟨-, hzero, -⟩ := exec_launch_ok hl
  have hfinish : finish.status = .success := hrecounts.status.symm.trans hsuccess
  obtain ⟨t, hlast⟩ := exists_last_of_success hl hc hfinish
  have hmem := List.mem_of_getLast? hlast
  have hw := hc.happen t hmem
  have hends := hc.last t hlast
  have hview : r.final = t.view := by
    rw [hrecounts.final, hlast]
    rfl
  have hcount : r.iterations = t.made.iterations := by
    obtain ⟨u, hbare, hlast'⟩ := hends.final_eq hw
    have hkept : last.1.iterations = s₀.iterations + turns.length := hc.kept.2.1
    rw [hlast', hzero, Nat.zero_add] at hkept
    rw [hrecounts.iterations, ← hkept]
    exact (iterations_of_bare hbare : u.iterations = _)
  have hpositive : 1 ≤ r.iterations := by
    rw [hrecounts.iterations]
    exact List.length_pos_of_mem hmem
  have hmade := hc.upholds (carries_truth o a hf) (gaugesKeep_truthful hf)
    (fun _ _ _ _ h => h) ((carries_truth o a hf).launch hl) t hmem
  obtain ⟨st, hst, hstate⟩ := hmade.state
  have hlive : (o.method : Method R).view st = t.view := by
    simpa [snapshot?_of_state hstate] using hw.live
  obtain ⟨x, hx, -⟩ := (Offer.coherent_view hst).value
  cases hends with
  | method h => exact absurd hfinish (iterate_unsuccessful ho hw.step)
  | @criterion c' measured final hasked' hstop =>
      obtain rfl : c = c' := Option.some.inj (hasked.symm.trans hasked')
      obtain ⟨-, -, s₁, -, hheld, -⟩ := hstop
      obtain ⟨s₂, hgauge, -⟩ := exec_gauge_of_read hf ⟨hmade.task, st, rfl, hstate⟩
        (c.holds t.view t.made.iterations)
      rw [hw.after_onlooker, hgauge] at hheld
      refine ⟨hrecounts.cause, hpositive, ⟨x, by rw [hview, ← hlive, hx]⟩, ?_⟩
      rw [hview, hcount]
      exact (Prod.mk.inj hheld).1

end Solver

end Minima
