import Minima.Proofs.MonotoneRuns
import Minima.Proofs.Passages
import Minima.Proofs.Recollections
import Minima.Proofs.SimplexSteps

/-!
# The simplex along a run

Each step of a run of the simplex method advances the simplex, or a numerical failure ends the run and
keeps it. So in every state after a set up, whatever is done and asked between the steps, the vertices
are sorted, each of them is a point of the region, and its value is one that the objective has taken
there. Nothing is assumed of the objective, of the options or of the constraints.
-/

namespace Minima

/-- A passage is a course, if its steps go on where the run does and end as the last one says. -/
theorem Passage.course {α : Type} {leads : Status → α → α → Prop} {going ending : α → α → Prop}
    {k : Nat} {st : α} {l : List (Status × α)} (h : Passage (fun _ => leads) k st l)
    (hgoing : ∀ u v, leads .running u v → going u v)
    (hending : ∀ p ∈ l.getLast?, ∀ u v, leads p.1 u v → ending u v) :
    Course going ending st (l.map Prod.snd) := by
  induction h with
  | rest k st => exact .rest st
  | @step k status st next l h hgoes hl ih =>
      cases l with
      | nil => exact .ends (hending (status, next) rfl st next h)
      | cons p l =>
          obtain rfl := hgoes (List.cons_ne_nil p l)
          exact .leads (hgoing _ _ h) (ih fun q hq => hending q (by simpa using hq))

namespace Solver

section

variable {R : Type} [Scalar R] {m : Method R} {σ : Type} {f : Subject R} {a : Accepted R f.n}
  {I : Ledger R f.n → Prop} {P : m.State f.n → Prop} {going : m.State f.n → m.State f.n → Prop}
  {s s' : Solver m} {st : m.State f.n}

/-- The steps of the method from states with `P` lead on as `going` says, while `I` holds of the
ledger. -/
def Makes (f : Subject R) (a : Accepted R f.n) (I : Ledger R f.n → Prop) (P : m.State f.n → Prop)
    (going : m.State f.n → m.State f.n → Prop) : Prop :=
  ∀ ledger count st, I ledger → P st → ∀ next reported,
    (attemptStep (a.task ledger) count st).1 = .ok (.state next, reported) → going st next

/-- A step from the state fails numerically, and the state is kept. -/
def Absorbs (a : Accepted R f.n) (st next : m.State f.n) : Prop :=
  next = st ∧ ∃ ledger count e,
    (attemptStep (a.task ledger) count st).1 = .error e ∧ e.isNumerical = true

/-- What a step that returns with a status has done to the state. -/
def Goes (a : Accepted R f.n) (going : m.State f.n → m.State f.n → Prop) (status : Status)
    (st next : m.State f.n) : Prop :=
  going st next ∨ status = .outOfControl ∧ Absorbs a st next

theorem Makes.iterate (h : Makes f a I P going) (hs : Upholds f a I P s)
    (hst : s.state? = some ⟨f.n, st⟩) {status : Status} (hi : exec iterate s = (.ok status, s')) :
    ∃ next, s'.state? = some ⟨f.n, next⟩ ∧ Goes a going status st next := by
  obtain ⟨ledger, st', hI, hP, hst', -, hcases⟩ := hs.of_iterate hi
  obtain rfl : st = st' := by simpa [hst] using hst'
  obtain ⟨e, hfails, hkept, rfl⟩ | ⟨next, reported, hmade, hnext, -⟩ := hcases
  · exact ⟨st, hkept.trans hst, .inr ⟨rfl, rfl, ledger, s.iterations, e, hfails⟩⟩
  · exact ⟨next, hnext, .inl (h ledger s.iterations st hI hP next reported hmade)⟩

theorem Makes.tracks (h : Makes f a I P going) (hcarries : Carries f a I P) :
    Tracks f a I P fun _ => Goes a going where
  toCarries := hcarries
  makes ledger count st hI hP next reported _ hmade _ :=
    .inl (h ledger count st hI hP next reported hmade)
  absorbs ledger count _ _ _ e he hnumerical := .inr ⟨rfl, rfl, ledger, count, e, he, hnumerical⟩

/-- The states of a run go on, except that the last one may be kept by the failure that ends the
run. -/
theorem Chronicle.states {criterion? : Option (Criterion R)} {w : Watcher R σ}
    {start final : Solver m × σ} {turns : List (Turn m σ)} {finish : Finish R}
    (hc : Chronicle criterion? w start turns finish final) (hcarries : Carries f a I P)
    (hmakes : Makes f a I P going) (hI : GaugesKeep f I) (hw : w.Leaves f I)
    (h₀ : Upholds f a I P start.1) (hst : start.1.state? = some ⟨f.n, st⟩) :
    ∃ states, turns.map Turn.view = states.map m.view ∧ (∀ x ∈ states, P x) ∧
      Course going (Goes a going finish.status) st states := by
  obtain ⟨passage, hviews, hpassage, hall⟩ := hc.passage (hmakes.tracks hcarries) hI hw h₀ hst
  have hrunning (u v : m.State f.n) (h : Goes a going .running u v) : going u v := by
    rcases h with hgoing | ⟨hfailed, -⟩
    · exact hgoing
    · cases hfailed
  refine ⟨passage.map Prod.snd, ?_, ?_, hpassage.course hrunning fun p hp u v hleads => ?_⟩
  · have hsecond := congrArg (List.map Prod.snd) hviews
    rw [List.map_map, List.map_map] at hsecond
    rw [List.map_map]
    exact hsecond
  · intro x hx
    obtain ⟨p, hp, rfl⟩ := List.mem_map.mp hx
    exact hall p hp
  · have hlast := congrArg List.getLast? hviews
    rw [List.getLast?_map, List.getLast?_map, Option.mem_def.mp hp] at hlast
    obtain ⟨t, ht, heq⟩ := Option.map_eq_some_iff.mp hlast
    obtain ⟨hstatus, -⟩ := Prod.mk.inj heq
    rw [← hstatus] at hleads
    cases hc.last t ht with
    | method hover => exact hleads
    | criterion hcriterion hstop =>
        rw [hstop.1] at hleads
        exact .inl (hrunning u v hleads)

end

/-! ## The simplex method -/

open NelderMead Dialogue

variable {R : Type} [Scalar R] [Scalar.Ordered R] {f : Subject R} {a : Accepted R f.n}
  {I : Ledger R f.n → Prop} {told : Lore R f.n}

/-- The simplex is sorted, and rests on points of the region and on what was told of them. -/
structure Tidy (a : Accepted R f.n) (told : Lore R f.n) (st : NelderMead.State R f.n) : Prop where
  sorted : st.simplex.Sorted
  grounded : st.simplex.Grounded a.region told

def Advances (a : Accepted R f.n) (told : Lore R f.n) (st next : NelderMead.State R f.n) : Prop :=
  Advance (a.situation f.objective.name) told st.simplex next

def Treats (a : Accepted R f.n) (told : Lore R f.n) (status : Status)
    (st next : NelderMead.State R f.n) : Prop :=
  Goes (m := Offer.nelderMead.method) a (Advances a told) status st next

section

variable (hanswer : ∀ q l, I l → I (Ledger.answer f.objective q l).2 ∧
  ∀ r, (Ledger.answer f.objective q l).1 = .ok r → told q r)

include hanswer

theorem advances_of_attemptStep {ledger : Ledger R f.n} {count : Nat}
    {st next : (Offer.nelderMead.method : Method R).State f.n} {reported : Status} (hI : I ledger)
    (hst : State.simplex st |>.Sorted)
    (h : (attemptStep (a.task ledger) count st).1 = .ok (.state next, reported)) :
    Advances a told st next := by
  have hstep : ((Offer.nelderMead.method : Method R).step (a.situation f.objective.name) count
      st).Yields (fun _ => True) told fun r => ∀ next, r.1 = .state next → Advances a told st next :=
    yields_wrapped (step_advances hst) (by rintro next status hadvance _ ⟨⟩; exact hadvance)
  rw [attemptStep_task] at h
  exact (hstep.play (fun q l _ => hanswer q l) hI).2.1 _ h next rfl

theorem opens_of_opening {first : (Offer.nelderMead.method : Method R).State f.n} (hempty : I {})
    (h : (opening Offer.nelderMead.method f a).1 = .ok (.state first)) :
    Opens (a.situation f.objective.name) told (a.region.project a.start) first := by
  have hstart : ((Offer.nelderMead.method : Method R).start (a.situation f.objective.name)
      (a.region.project a.start)).Yields (fun _ => True) told
      fun p => ∀ st, p = .state st → Opens (a.situation f.objective.name) told
        (a.region.project a.start) st := by
    refine yields_bind (start_opens _) fun st hst => yields_pure ?_
    rintro _ ⟨⟩
    exact hst
  exact (hstart.play (fun q l _ => hanswer q l) hempty).2.1 _ h first rfl

/-- The simplex method carries along that its states are tidy, if answers are as `told` says while `I`
holds of the ledger. -/
theorem carries_tidy (a : Accepted R f.n) (hempty : I {}) :
    Carries (m := Offer.nelderMead.method) f a I (Tidy a told) := by
  have hgrounded := carries_grounded .nelderMead f a hempty hanswer
  refine ⟨⟨hgrounded.start.1, fun st hst => ?_⟩, fun ledger count st hI hst => ?_⟩
  · exact ⟨(opens_of_opening hanswer hempty hst).sorted, hgrounded.start.2 st hst⟩
  · obtain ⟨hleft, hnext⟩ := hgrounded.step ledger count st hI hst.grounded
    refine ⟨hleft, fun next reported hmade => ⟨?_, hnext next reported hmade⟩⟩
    exact (advances_of_attemptStep hanswer hI hst.sorted hmade).sorted

/-- Its steps advance the simplex. -/
theorem makes_advances (a : Accepted R f.n) :
    Makes (m := Offer.nelderMead.method) f a I (Tidy a told) (Advances a told) :=
  fun _ _ _ hI hst _ _ hmade => advances_of_attemptStep hanswer hI hst.sorted hmade

end

end Solver

namespace Session

open NelderMead

variable {R : Type} [Scalar R] [Scalar.Ordered R] {f : Subject R} {c : Configuration R}
  {s s₀ : Session (Offer.nelderMead.method : Method R)} {v : Snapshot R}

/-- After a set up of the simplex method the first simplex is made of the start and a corner for each
variable. Whatever is done and asked from there on, the vertices of every state are sorted by value,
and each has a value that the objective takes there. A step that returns replaces the worst vertex by
a better one or draws all others toward the best one, unless a numerical failure ends the run and keeps
the state. The states that a run shows follow each other in the same way. -/
theorem simplices_advance (hf : (exec subject s).1 = .ok f) (hset : exec (setUp c) s = (.ok v, s₀)) :
    ∃ (a : Solver.Accepted R f.n) (first : NelderMead.State R f.n),
      s.solver.accept f.n c = .ok a ∧ s₀.solver.state? = some ⟨f.n, first⟩ ∧
      Opens (a.situation f.objective.name) (taken f.objective) (a.region.project a.start) first ∧
      (∀ moves, ∃ st : NelderMead.State R f.n, (s₀.after moves).solver.state? = some ⟨f.n, st⟩ ∧
        Solver.Tidy a (taken f.objective) st ∧
        ∀ status s', exec iterate (s₀.after moves) = (.ok status, s') →
          ∃ next : NelderMead.State R f.n, s'.solver.state? = some ⟨f.n, next⟩ ∧
            Solver.Treats a (taken f.objective) status st next) ∧
      ∀ (σ : Type) (order : Solver.Order R) (w : Solver.Watcher R σ) (seen : σ) (r : Results R)
        (final : Solver (Offer.nelderMead.method : Method R) × σ), order.toConfiguration = c →
        w.Leaves f (Ledger.Recalls f.objective) →
        exec (Solver.solveWatched f order w) (s.solver, seen) = (.ok r, final) →
        ∃ states : List (NelderMead.State R f.n),
          r.history.toList = states.map (Offer.nelderMead.method : Method R).view ∧
          (∀ st ∈ states, Solver.Tidy a (taken f.objective) st) ∧
          Course (Solver.Advances a (taken f.objective))
            (Solver.Treats a (taken f.objective) r.status) first states := by
  obtain ⟨a, ha, hl⟩ := exec_setUp_ok hf hset
  have hempty := Ledger.recalls_empty f.objective
  have hanswer := Ledger.answer_recalls (f := f.objective)
  have hcarries := Solver.carries_tidy hanswer a hempty
  have hmakes := Solver.makes_advances hanswer a
  obtain ⟨first, hopening, hfirst, -⟩ := Solver.opening_of_exec_launch hl
  have h₀ := hcarries.launch hl
  refine ⟨a, first, ha, hfirst, Solver.opens_of_opening hanswer hempty hopening, ?_, ?_⟩
  · intro moves
    have hafter := upholds_moves (queriesKeep_recalls f) hcarries h₀ moves
    obtain ⟨st, htidy, hst⟩ := hafter.state
    refine ⟨st, hst, htidy, fun status s' hi => ?_⟩
    rw [iterate, exec_ofEngine] at hi
    obtain ⟨hout, rfl⟩ := Prod.mk.inj hi
    exact hmakes.iterate hafter hst (Prod.ext hout rfl)
  · rintro σ order w seen r final rfl hw hr
    obtain ⟨a', _, s₁, turns, finish, last, ha', hl', -, hc, hrecounts, -⟩ :=
      Solver.chronicle_of_exec_solveWatched hr
    obtain rfl : a = a' := Except.ok.inj (ha.symm.trans (Solver.accept_of_acceptOrder ha'))
    obtain rfl : s₀.solver = s₁ := by
      rw [hl] at hl'
      exact (Prod.mk.inj hl').2
    obtain ⟨states, hviews, htidy, hcourse⟩ :=
      hc.states hcarries hmakes (Solver.gaugesKeep_recalls f) hw h₀ hfirst
    rw [← hrecounts.status] at hcourse
    exact ⟨states, by simpa [hrecounts.history] using hviews, htidy, hcourse⟩

/-- On the saddle the simplex has three vertices, before and after a step and in a run. -/
theorem saddle_simplex_advances :
    ∃ v s₀ r final, exec (setUp Solver.onSaddle)
        { solver := Solver.new Offer.nelderMead.method none, current := .other Solver.saddle } =
          (.ok v, s₀) ∧
      exec (Solver.solve Solver.saddle Solver.twoStepsOnSaddle fun _ _ (_ : Unit) => ())
        (Solver.new Offer.nelderMead.method none, ()) = (.ok r, final) ∧ 0 < r.history.size ∧
      ∃ (a : Solver.Accepted ℝ 2) (first st : NelderMead.State ℝ 2)
        (states : List (NelderMead.State ℝ 2)),
        (s₀.after [.step, .query .gradientHere]).solver.state? = some ⟨2, st⟩ ∧
        Solver.Tidy (f := Solver.saddle) a (taken Solver.saddle.objective) st ∧
        r.history.toList = states.map (Offer.nelderMead.method : Method ℝ).view ∧
        Course (Solver.Advances (f := Solver.saddle) a (taken Solver.saddle.objective))
          (Solver.Treats a (taken Solver.saddle.objective) r.status) first states := by
  obtain ⟨v, s₀, hset⟩ := saddle_starts .nelderMead
  obtain ⟨r, final, hr⟩ :=
    Solver.saddle_run_returns (o := .nelderMead) rfl (Solver.new Offer.nelderMead.method none)
  obtain ⟨a, first, -, -, -, hmoves, hruns⟩ := simplices_advance rfl hset
  obtain ⟨st, hst, htidy, -⟩ := hmoves [.step, .query .gradientHere]
  obtain ⟨states, hviews, -, hcourse⟩ :=
    hruns Unit _ _ () r final rfl (Solver.leaves_onlooker _) hr
  exact ⟨v, s₀, r, final, hset, hr, Solver.history_ne_of_real hr, a, first, st, states, hst, htidy,
    hviews, hcourse⟩

end Session

end Minima
