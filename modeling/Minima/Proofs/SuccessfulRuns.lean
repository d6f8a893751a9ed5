import Minima.Proofs.Passages
import Minima.Proofs.Successes

/-!
# Which runs succeed

The criterion is asked after a step that goes on, and never else. So a run of a method along a line
succeeds exactly if its last step goes on, whatever the criterion is. Whether a step goes on can be read
off the two states that it leads between: the value falls, the step is not too small to count, and the
second state is within the bounds of the run.
-/

namespace Minima

open Dialogue

variable {R : Type} [Scalar R] {n : Nat} {s : Situation R n}

/-! ## Steps that go on -/

/-- A step that leads from `it` to `next` and reports `status` goes on exactly if it goes down and is
not too small. -/
def LineStep.Verdict (options : Options R) (it next : Iterate R n) (status : Status) : Prop :=
  status = .running ↔
    next.value < it.value ∧ stagnates options it next.point next.value = .ok false

section

variable [Scalar.Ordered R]

namespace LineStep

theorem verdict_of_stays {options : Options R} (it : Iterate R n) (status : Status)
    (h : status ≠ .running) : Verdict options it it status := by
  constructor
  · intro hrun
    exact absurd hrun h
  · rintro ⟨hfalls, -⟩
    exact absurd hfalls (Scalar.lt_irrefl it.value)

theorem descend_verdict (it : Iterate R n) (p : Vector R n) :
    (descend s it p).Always fun r => Verdict s.options it (r.1.getD it) r.2 := by
  refine yields_bind (yields_anything _) fun outcome _ => ?_
  refine yields_join (yields_anything _) (yields_anything _) fun alpha _ => ?_
  refine yields_question_bind trivial fun value _ => ?_
  refine yields_ite (fun _ => yields_pure (verdict_of_stays it .outOfControl nofun)) fun _ => ?_
  refine yields_ite (fun _ => yields_pure (verdict_of_stays it .noProgress nofun)) fun hless => ?_
  refine yields_lift_bind fun stalled hstalled => ?_
  refine yields_question_bind trivial fun gradient _ => yields_pure ?_
  have hfalls : value < it.value := not_not.mp hless
  constructor
  · intro hrun
    cases stalled with
    | false => exact ⟨hfalls, hstalled⟩
    | true => cases hrun
  · rintro ⟨-, hmoves⟩
    obtain rfl : stalled = false := Except.ok.inj (hstalled.symm.trans hmoves)
    rfl

omit [Scalar.Ordered R] in
theorem TakesOver.verdict {S : Type} {options : Options R} {iterate : S → Iterate R n} {st : S}
    {r : S × Status}
    (h : TakesOver iterate (fun r => Verdict options (iterate st) (r.1.getD (iterate st)) r.2) st r) :
    Verdict options (iterate st) (iterate r.1) r.2 := by
  rcases h with ⟨hrejected, hkept⟩ | hfound
  · rw [hkept]
    exact hrejected
  · exact hfound

end LineStep

end

/-! ## The methods along a line -/

/-- A snapshot shows where an iterate is, and the value there. -/
structure Iterate.ShownBy (it : Iterate R n) (v : Snapshot R) : Prop where
  value : v.value = it.value
  point : v.point = it.point.toArray

omit [Scalar R] in
theorem Iterate.ShownBy.agree {it it' : Iterate R n} {v : Snapshot R} (h : it.ShownBy v)
    (h' : it'.ShownBy v) : it.point = it'.point ∧ it.value = it'.value :=
  ⟨Vector.toArray_inj.mp (h.point.symm.trans h'.point), h.value.symm.trans h'.value⟩

namespace Offer

variable {o : Offer}

/-- The first state is where the method begins. -/
theorem start_along (ho : (o.method : Method R).usesLineSearch = true) (s : Situation R n)
    (x : Vector R n) :
    ((o.method : Method R).start s x).Always fun p =>
      ∀ st, p = .state st → ((o.method : Method R).view st).point = x.toArray := by
  have hwrap {S : Type} {wrap : Iterate R n → S} {view : S → Snapshot R}
      (hview : ∀ it, (view (wrap it)).point = it.point.toArray) :
      (do return .state (wrap (← Iterate.start x)) : Consult R n (Produced S)).Always fun p =>
        ∀ st, p = .state st → (view st).point = x.toArray := by
    have hstart : (Iterate.start x).Always fun it => it.point = x :=
      yields_question_bind trivial fun value _ =>
        yields_question_bind trivial fun gradient _ => yields_pure rfl
    refine yields_bind hstart fun it hit => yields_pure ?_
    rintro _ ⟨⟩
    rw [hview, hit]
  cases o with
  | gradientDescent => cases ho
  | nelderMead => cases ho
  | hookeJeeves => cases ho
  | _ => exact hwrap fun _ => rfl

theorem step_verdict [Scalar.Ordered R] (ho : (o.method : Method R).usesLineSearch = true)
    (s : Situation R n) (count : Nat) (st : (o.method : Method R).State n) :
    ((o.method : Method R).step s count st).Always fun r => ∀ next, r.1 = .state next →
      ∃ it it' : Iterate R n, it.ShownBy ((o.method : Method R).view st) ∧
        it'.ShownBy ((o.method : Method R).view next) ∧
        LineStep.Verdict s.options it it' r.2 := by
  have hline {S : Type} {iterate : S → Iterate R n} {view : S → Snapshot R} {st : S}
      {d : Consult R n (S × Status)} (hview : ∀ st, (iterate st).ShownBy (view st))
      (hd : d.Always (LineStep.TakesOver iterate (fun r =>
        LineStep.Verdict s.options (iterate st) (r.1.getD (iterate st)) r.2) st)) :=
    yields_wrapped (Q := fun r => ∀ next, r.1 = .state next →
      ∃ it it' : Iterate R n, it.ShownBy (view st) ∧ it'.ShownBy (view next) ∧
        LineStep.Verdict s.options it it' r.2) hd
      (by rintro next status hr _ ⟨⟩; exact ⟨_, _, hview st, hview next, hr.verdict⟩)
  cases o with
  | steepestDescent =>
      exact hline (fun _ => ⟨rfl, rfl⟩)
        (SteepestDescent.step_takesOver (LineStep.descend_verdict st))
  | newton =>
      exact hline (fun _ => ⟨rfl, rfl⟩)
        (Newton.step_takesOver (LineStep.descend_verdict st.iterate) trivial)
  | quasiNewton =>
      exact hline (fun _ => ⟨rfl, rfl⟩)
        (QuasiNewton.step_takesOver (LineStep.descend_verdict st.iterate) count)
  | conjugateGradient | fletcherReeves | polakRibiere =>
      exact hline (fun _ => ⟨rfl, rfl⟩)
        (ConjugateGradient.step_takesOver (LineStep.descend_verdict st.iterate) count)
  | gradientDescent => cases ho
  | nelderMead => cases ho
  | hookeJeeves => cases ho

end Offer

/-! ## Runs -/

/-- The last state of a passage, and the one before. -/
theorem Passage.last {α : Type} {leads : Nat → Status → α → α → Prop} {k : Nat} {st : α}
    {l : List (Status × α)} (h : Passage leads k st l) {p : Status × α} (hp : p ∈ l.getLast?) :
    ∃ earlier k' u, st :: l.map Prod.snd = earlier ++ [u, p.2] ∧ leads k' p.1 u p.2 := by
  induction h with
  | rest k st => cases hp
  | @step k status st next l h hgoes hl ih =>
      cases l with
      | nil =>
          obtain rfl : (status, next) = p := Option.some.inj hp
          exact ⟨[], k, st, rfl, h⟩
      | cons q l =>
          obtain ⟨earlier, k', u, heq, hlast⟩ := ih (by simpa using hp)
          exact ⟨st :: earlier, k', u, congrArg (st :: ·) heq, hlast⟩

/-- A step from a state that shows `u` to one that shows `v` goes on: it goes down, it is not too small,
and it leads to where a run may be. -/
def Snapshot.LeadsOn (options : Options R) (n : Nat) (u v : Snapshot R) : Prop :=
  ∃ it next : Iterate R n, it.ShownBy u ∧ next.ShownBy v ∧ v.value < u.value ∧
    LineStep.stagnates options it next.point next.value = .ok false ∧ v.WithinBounds options

namespace Solver

variable {σ : Type} {o : Offer} {f : Subject R} {a : Accepted R f.n} {w : Watcher R σ}
  {criterion? : Option (Criterion R)} {t : Turn (o.method : Method R) σ} {finish : Finish R}
  {s s₀ : Solver (o.method : Method R)} {final : Solver (o.method : Method R) × σ}

/-- A run that ends after a turn is a success exactly if the step goes on. -/
theorem Turn.Ends.success_iff (ho : (o.method : Method R).usesLineSearch = true)
    (hw : t.Happens w) (h : t.Ends criterion? finish final) :
    finish.status = .success ↔ t.status = .running := by
  cases h with
  | method hover =>
      constructor
      · intro hsuccess
        exact absurd hsuccess (iterate_unsuccessful ho hw.step)
      · intro hrun
        rw [hrun] at hover
        cases hover
  | criterion hasked hstop => exact ⟨fun _ => hstop.1, fun _ => rfl⟩

variable [Scalar.Ordered R]

/-- The steps of the methods along a line go on exactly where they lead on. -/
theorem tracks_leadsOn (ho : (o.method : Method R).usesLineSearch = true) (a : Accepted R f.n)
    (hf : f.objective.RespectsEquality) :
    Tracks (m := o.method) f a (Ledger.Truthful f.objective)
      (o.Grounded a.region (truth f.objective)) fun _ status st next =>
        status = .running ↔ ((o.method : Method R).view st).LeadsOn a.options f.n
          ((o.method : Method R).view next) where
  toCarries := carries_truth o a hf
  makes := by
    intro ledger count st _ _ next reported status hmade hclass
    rw [attemptStep_task] at hmade
    obtain ⟨it, it', hu, hv, hverdict⟩ :=
      (o.step_verdict ho (a.situation f.objective.name) count st).of_run hmade next rfl
    constructor
    · rintro rfl
      obtain ⟨hfalls, hmoves⟩ := hverdict.mp (classify_running hclass)
      rw [← hu.value, ← hv.value] at hfalls
      exact ⟨it, it', hu, hv, hfalls, hmoves, (classify_ok hclass).2 rfl⟩
    · rintro ⟨jt, jt', hju, hjv, hfalls, hmoves, hwithin⟩
      obtain ⟨hpoint, hvalue⟩ := hju.agree hu
      obtain ⟨hpoint', hvalue'⟩ := hjv.agree hv
      have hsame : LineStep.stagnates a.options it = LineStep.stagnates a.options jt := by
        funext x value
        rw [LineStep.stagnates, LineStep.stagnates, hpoint, hvalue]
      rw [hu.value, hv.value] at hfalls
      rw [← hsame, hpoint', hvalue'] at hmoves
      obtain rfl : reported = .running := hverdict.mpr ⟨hfalls, hmoves⟩
      exact Except.ok.inj (hclass.symm.trans (classify_of_within hwithin))
  absorbs := by
    intro ledger count st _ _ e _ _
    constructor
    · intro hrun
      cases hrun
    · rintro ⟨-, -, -, -, hfalls, -⟩
      exact absurd hfalls (Scalar.lt_irrefl _)

/-- A run along lines that makes a step succeeds exactly if the last one leads on. -/
theorem success_iff_leadsOn (ho : (o.method : Method R).usesLineSearch = true)
    (hf : f.objective.RespectsEquality) {order : Order R} {seen : σ} {r : Results R}
    (hw : w.Leaves f (Ledger.Truthful f.objective))
    (hr : exec (solveWatched f order w) (s, seen) = (.ok r, final)) (hmade : 0 < r.history.size) :
    ∃ (a : Accepted R f.n) (first : Snapshot R) (s₀ : Solver (o.method : Method R))
      (earlier : List (Snapshot R)) (u v : Snapshot R),
      s.acceptOrder f.n order = .ok a ∧ exec (launch f a) s = (.ok first, s₀) ∧
      first :: r.history.toList = earlier ++ [u, v] ∧
      (r.status = .success ↔ u.LeadsOn a.options f.n v) := by
  obtain ⟨a, first, s₀, turns, finish, last, ha, hl, -, hc, hrecounts, -⟩ :=
    chronicle_of_exec_solveWatched hr
  obtain ⟨st, hopening, hstate, hview⟩ := opening_of_exec_launch hl
  have htracks := tracks_leadsOn ho a hf
  obtain ⟨passage, hviews, hpassage, -⟩ := hc.passage htracks (gaugesKeep_truthful hf) hw
    (htracks.toCarries.launch hl) hstate
  have hhistory : r.history.toList = (passage.map Prod.snd).map (o.method : Method R).view := by
    have hsecond := congrArg (List.map Prod.snd) hviews
    rw [List.map_map, List.map_map] at hsecond
    rw [hrecounts.history, List.map_map]
    exact hsecond
  obtain ⟨p, hp⟩ : ∃ p, p ∈ passage.getLast? := by
    have hne : passage ≠ [] := by
      rintro rfl
      simp [← Array.length_toList, hhistory] at hmade
    exact ⟨passage.getLast hne, List.getLast?_eq_some_getLast hne⟩
  obtain ⟨t, ht, hstatus⟩ : ∃ t ∈ turns.getLast?, t.status = p.1 := by
    have hlast := congrArg List.getLast? hviews
    rw [List.getLast?_map, List.getLast?_map, Option.mem_def.mp hp] at hlast
    obtain ⟨t, ht, heq⟩ := Option.map_eq_some_iff.mp hlast
    exact ⟨t, ht, congrArg Prod.fst heq⟩
  obtain ⟨earlier, k, u, hstates, hleads⟩ := hpassage.last hp
  refine ⟨a, first, s₀, earlier.map (o.method : Method R).view, (o.method : Method R).view u,
    (o.method : Method R).view p.2, ha, hl, ?_, ?_⟩
  · have hmap := congrArg (List.map (o.method : Method R).view) hstates
    rw [List.map_cons, List.map_append] at hmap
    rw [hhistory, ← hview]
    exact hmap
  · rw [hrecounts.status, (hc.last t ht).success_iff ho (hc.happen t (List.mem_of_getLast? ht)),
      hstatus]
    exact hleads

end Solver

end Minima
