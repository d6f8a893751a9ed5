import Mathlib.Analysis.Real.Sqrt
import Mathlib.Tactic.NormNum
import Minima.Proofs.AnswerFailures
import Minima.Proofs.PatternSteps
import Minima.Proofs.ReadRuns
import Minima.Proofs.RealVectors
import Minima.Proofs.SimplexRuns

/-!
# Runs of pattern search

Along a run the stride is the first one, reduced once for every step that reduces it. A run succeeds
with a step that takes the stride below the least one. If the first stride was not below that already,
this is a step that reduces it, and the point at which it leaves the search is optimal on the mesh of
the stride before: no trial from it, forward or backward along any axis, has a smaller value. Nothing is
assumed of the values, and a failure of the objective can only end a run in the state that it has.
-/

namespace Minima

/-- Some value of the objective fails numerically. -/
def Objective.Stumbles {R : Type} {n : Nat} (f : Objective R n) : Prop :=
  ∃ x e, f.value x = .error e ∧ e.isNumerical = true

namespace HookeJeeves

variable {R : Type} [Scalar R] {n : Nat}

/-- No point at the distance `h` from the base along an axis, brought into the region, has a value below
that of the base. -/
structure MeshOptimal (f : Objective R n) (region : Region R n) (h : R) (b : Base R n) : Prop where
  value : f.value b.point = .ok b.value
  around : ∀ i : Fin n, ∀ y ∈ [b.point.get i + h, b.point.get i - h],
    ∃ v, f.value (region.project (b.point.set i.val y i.isLt)) = .ok v ∧ ¬ v < b.value

def stride (initial reduction : R) (m : Nat) : R := (· * reduction)^[m] initial

theorem stride_succ (initial reduction : R) (m : Nat) :
    stride initial reduction (m + 1) = stride initial reduction m * reduction :=
  Function.iterate_succ_apply' _ _ _

def reductions (passage : List (Status × State R n)) : Nat :=
  passage.countP fun p => p.2.stepType == "reduce_step"

omit [Scalar R] in
theorem reductions_cons (p : Status × State R n) (passage : List (Status × State R n)) :
    reductions (p :: passage) = reductions [p] + reductions passage := by
  simp [reductions, List.countP_cons, Nat.add_comm]

end HookeJeeves

namespace Solver

open Dialogue HookeJeeves

variable {R : Type} [Scalar R] {f : Subject R} {a : Accepted R f.n} {status : Status}
  {st next : HookeJeeves.State R f.n} {initial reduction least : R} {k m : Nat}
  {passage : List (Status × HookeJeeves.State R f.n)}

inductive Treads (f : Subject R) (a : Accepted R f.n) (status : Status)
    (st next : HookeJeeves.State R f.n) : Prop
  | goes {least : R}
      (hadvance : Advance (a.situation f.objective.name) (truth f.objective) st next)
      (hleast : a.options.real "min_step" = .ok least)
      (hends : status = .success → next.stepSize < least)
      (hruns : status = .running → ¬ next.stepSize < least)
  | stays (hstatus : status = .outOfControl) (hkept : next = st) (hstumbles : f.objective.Stumbles)

/-- The step from `old` to `next` takes the stride below the least one, and leaves a base that was
optimal on the mesh before. -/
structure Exhausts (f : Subject R) (a : Accepted R f.n) (reduction least : R)
    (old next : HookeJeeves.State R f.n) : Prop where
  stepType : next.stepType = "reduce_step"
  size : next.stepSize = old.stepSize * reduction
  before : least ≤ old.stepSize
  after : next.stepSize < least
  base : next.base = old.base
  optimal : MeshOptimal f.objective a.region old.stepSize old.base

/-! ## Steps -/

theorem value_of_ledger_error {l : Ledger R f.n} {x : Vector R f.n} {e : Failure R}
    (h : (Ledger.value f.objective x l).1 = .error e) : f.objective.value x = .error e := by
  unfold Ledger.value at h
  cases hm : Ledger.remembered? l.lastValue x with
  | some v => simp [hm] at h
  | none =>
      cases hv : f.objective.value x with
      | error e' => simpa [hm, hv] using h
      | ok v => simp [hm, hv] at h

/-- A step fails with a failure of the objective only. -/
theorem stumbles_of_attemptStep {owner : String}
    (hvalid : HookeJeeves.validate owner a.options = .ok ()) (ledger : Ledger R f.n) (count : Nat)
    (st : (Offer.hookeJeeves.method : Method R).State f.n) {e : Failure R}
    (h : (attemptStep (a.task ledger) count st).1 = .error e) (hnumerical : e.isNumerical = true) :
    f.objective.Stumbles := by
  have hmeets : ((Offer.hookeJeeves.method : Method R).step (a.situation f.objective.name) count
      st).Meets Question.IsValue (fun _ => True) (fun e => ∃ x, f.objective.value x = .error e) :=
    meets_bind (HookeJeeves.step_valued hvalid count st) fun _ _ => meets_pure trivial
  have hanswer (q : Question R f.n) (l : Ledger R f.n) (e : Failure R) (hq : q.IsValue)
      (he : (Ledger.answer f.objective q l).1 = .error e) :
      ∃ x, f.objective.value x = .error e := by
    cases q with
    | value x => exact ⟨x, value_of_ledger_error he⟩
    | gradient x => exact hq.elim
    | hessian x => exact hq.elim
  rw [attemptStep_task] at h
  obtain ⟨x, hx⟩ := (hmeets.play_failing hanswer ledger).2 e h
  exact ⟨x, e, hx, hnumerical⟩

section

variable [Scalar.Ordered R]

/-- Along a truthful ledger the steps of pattern search tread as described. -/
theorem tracks_treads (hf : f.objective.RespectsEquality) {owner : String}
    (hvalid : HookeJeeves.validate owner a.options = .ok ()) :
    Tracks (m := Offer.hookeJeeves.method) f a (Ledger.Truthful f.objective)
      (Offer.hookeJeeves.Grounded a.region (truth f.objective)) fun _ => Treads f a where
  toCarries := carries_truth .hookeJeeves a hf
  makes := by
    intro ledger count st hI _ next reported status hmade hclass
    have hstep : ((Offer.hookeJeeves.method : Method R).step (a.situation f.objective.name) count
        st).Yields (fun _ => True) (truth f.objective) fun r =>
          ∀ next : HookeJeeves.State R f.n, r.1 = .state next →
            Advance (a.situation f.objective.name) (truth f.objective) st next ∧
              ∃ least, a.options.real "min_step" = .ok least ∧
                (r.2 = .success ↔ next.stepSize < least) :=
      yields_wrapped (step_advances count st) (by rintro next status h _ ⟨⟩; exact h)
    rw [attemptStep_task] at hmade
    obtain ⟨hadvance, least, hleast, hsuccess⟩ :=
      (hstep.play (fun q l _ => answer_tells_truth hf q l) hI).2.1 _ hmade next rfl
    refine .goes hadvance hleast (fun hends => ?_) fun hruns => ?_
    · subst hends
      exact hsuccess.mp (reported_of_classify hclass nofun)
    · subst hruns
      rw [← hsuccess, classify_running hclass]
      nofun
  absorbs ledger count st _ _ e he hnumerical :=
    .stays rfl rfl (stumbles_of_attemptStep hvalid ledger count st he hnumerical)

end

/-- The first stride is the one that the options give. -/
theorem size_of_opening {first : (Offer.hookeJeeves.method : Method R).State f.n}
    (h : (opening Offer.hookeJeeves.method f a).1 = .ok (.state first)) :
    a.options.real "initial_step" = .ok (HookeJeeves.State.stepSize first) := by
  have hstart : ((Offer.hookeJeeves.method : Method R).start (a.situation f.objective.name)
      (a.region.project a.start)).Always fun p =>
        ∀ st : HookeJeeves.State R f.n, p = .state st →
          a.options.real "initial_step" = .ok st.stepSize := by
    refine yields_question_bind trivial fun value _ => yields_lift_bind fun size hsize => ?_
    refine yields_pure ?_
    rintro _ ⟨⟩
    exact hsize
  exact hstart.of_run h first rfl

/-! ## Runs -/

/-- One step reduces the stride or keeps it. -/
theorem Treads.stride (h : Treads f a status st next)
    (hreduction : a.options.real "reduction_factor" = .ok reduction)
    (hst : st.stepSize = stride initial reduction m) :
    next.stepSize = stride initial reduction (m + reductions [(status, next)]) ∨
      status = .outOfControl ∧ f.objective.Stumbles := by
  cases h with
  | stays hstatus hkept hstumbles => exact .inr ⟨hstatus, hstumbles⟩
  | goes hadvance =>
      left
      cases hadvance with
      | moves hname hsize hbelow =>
          have hnone : reductions [(status, next)] = 0 := by
            rcases hname with hname | hname <;> simp [reductions, hname]
          rw [hnone, hsize, hst, Nat.add_zero]
      | @reduces factor hname hfactor hsize hbase hstuck =>
          obtain rfl : reduction = factor := Except.ok.inj (hreduction.symm.trans hfactor)
          have hone : reductions [(status, next)] = 1 := by simp [reductions, hname]
          rw [hone, hsize, hst, stride_succ]

/-- The stride of every state of a run is the first one, reduced as often as steps have reduced it. Only
a last state that a failure has kept may repeat the step before. -/
theorem stride_of_passage (h : Passage (fun _ => Treads f a) k st passage)
    (hreduction : a.options.real "reduction_factor" = .ok reduction)
    (hst : st.stepSize = stride initial reduction m)
    {earlier later : List (Status × HookeJeeves.State R f.n)}
    {p : Status × HookeJeeves.State R f.n} (heq : passage = earlier ++ p :: later) :
    p.2.stepSize = stride initial reduction (m + reductions (earlier ++ [p])) ∨
      later = [] ∧ p.1 = .outOfControl ∧ f.objective.Stumbles := by
  -- on the passage: every step adds to the number of reductions, while the run goes on
  induction h generalizing m earlier with
  | rest k st => simp at heq
  | @step k status st next l h hgoes hl ih =>
      cases earlier with
      | nil =>
          obtain ⟨rfl, rfl⟩ := List.cons.inj heq
          rcases h.stride hreduction hst with hstride | ⟨hstatus, hstumbles⟩
          · exact .inl hstride
          · refine .inr ⟨?_, hstatus, hstumbles⟩
            by_contra hmore
            rw [hgoes hmore] at hstatus
            cases hstatus
      | cons q earlier =>
          obtain ⟨rfl, rfl⟩ := List.cons.inj heq
          rcases h.stride hreduction hst with hstride | ⟨hstatus, -⟩
          · rw [List.cons_append, reductions_cons, ← Nat.add_assoc]
            exact ih hstride rfl
          · rw [hgoes (by simp)] at hstatus
            cases hstatus

variable [Scalar.Ordered R] [Scalar.Strict R]

/-- The last step of a run that succeeds has exhausted the mesh. -/
theorem exhausts_of_passage (h : Passage (fun _ => Treads f a) k st passage)
    (hreduction : a.options.real "reduction_factor" = .ok reduction)
    (hleast : a.options.real "min_step" = .ok least)
    (hst : st.base.Grounded a.region (truth f.objective)) (hsize : ¬ st.stepSize < least)
    (hall : ∀ p ∈ passage, p.2.base.Grounded a.region (truth f.objective))
    (hlast : passage.getLast? = some (.success, next)) :
    ∃ earlier old, st :: passage.map Prod.snd = earlier ++ [old, next] ∧
      Exhausts f a reduction least old next := by
  -- on the passage: as long as the run goes on, the stride is not below the least one
  induction h with
  | rest k st => cases hlast
  | @step k status st made l h hgoes hl ih =>
      cases l with
      | nil =>
          obtain ⟨rfl, rfl⟩ := Prod.mk.inj (Option.some.inj hlast)
          refine ⟨[], st, rfl, ?_⟩
          cases h with
          | stays hstatus => cases hstatus
          | @goes least' hadvance hleast' hends _ =>
              obtain rfl : least = least' := Except.ok.inj (hleast.symm.trans hleast')
              have hbelow := hends rfl
              cases hadvance with
              | moves _ hsame _ => exact absurd (hsame ▸ hbelow) hsize
              | @reduces factor hname hfactor hreduced hbase hstuck =>
                  obtain rfl : reduction = factor :=
                    Except.ok.inj (hreduction.symm.trans hfactor)
                  obtain ⟨hdefined, hdefined'⟩ := Scalar.defined_of_lt hbelow
                  rw [hreduced] at hdefined
                  have hbefore : least ≤ st.stepSize :=
                    Scalar.Lawful.le_of_not_lt (Scalar.Strict.defined_of_mul hdefined) hdefined'
                      hsize
                  exact ⟨hname, hreduced, hbefore, hbelow, hbase, hst.value, hstuck⟩
      | cons p l =>
          obtain rfl := hgoes (List.cons_ne_nil p l)
          have hmade : ¬ made.stepSize < least := by
            cases h with
            | stays hstatus => cases hstatus
            | @goes least' _ hleast' _ hruns =>
                obtain rfl : least = least' := Except.ok.inj (hleast.symm.trans hleast')
                exact hruns rfl
          obtain ⟨earlier, old, heq, hexhausts⟩ := ih (hall (.running, made) (by simp)) hmade
            (fun q hq => hall q (by simp [hq])) (by simpa using hlast)
          exact ⟨st :: earlier, old, by rw [List.map_cons, heq]; rfl, hexhausts⟩

/-- What the steps of pattern search come to from the state `first` on. -/
structure Searched (f : Subject R) (a : Accepted R f.n) (initial reduction least : R)
    (first : HookeJeeves.State R f.n) (passage : List (Status × HookeJeeves.State R f.n)) : Prop where
  strides : ∀ earlier p later, passage = earlier ++ p :: later →
    p.2.stepSize = stride initial reduction (reductions (earlier ++ [p])) ∨
      later = [] ∧ p.1 = .outOfControl ∧ f.objective.Stumbles
  success : least ≤ initial → ∀ next, passage.getLast? = some (.success, next) →
    ∃ earlier old, first :: passage.map Prod.snd = earlier ++ [old, next] ∧
      Exhausts f a reduction least old next

end Solver

namespace Session

variable {R : Type} [Scalar R] [Scalar.Ordered R] [Scalar.Strict R] {f : Subject R}
  {c : Configuration R} {s s₀ : Session (Offer.hookeJeeves.method : Method R)} {v : Snapshot R}

/-- After a set up of pattern search on an objective that does not tell equal points apart, the stride
is the first one, reduced once for every step so far that has reduced it, in every run and in steps that
are made one by one. If the first stride is not below the least one and a step ends the run with
success, that step has reduced a stride that was not below the least one to one that is, and the base at
which it stays was optimal on the mesh of the stride before. -/
theorem success_is_mesh_optimal (hf : (exec subject s).1 = .ok f)
    (hcongruent : f.objective.Congruent) (hset : exec (setUp c) s = (.ok v, s₀)) :
    ∃ (a : Solver.Accepted R f.n) (initial reduction least : R) (first : HookeJeeves.State R f.n),
      s.solver.accept f.n c = .ok a ∧ a.options.real "initial_step" = .ok initial ∧
      a.options.real "reduction_factor" = .ok reduction ∧
      a.options.real "min_step" = .ok least ∧
      s₀.solver.state? = some ⟨f.n, first⟩ ∧ first.stepSize = initial ∧
      Passages f c s s₀ (Solver.Searched f a initial reduction least first) := by
  have hrespect := hcongruent.respectsEquality
  obtain ⟨a, ha, -⟩ := exec_setUp_ok hf hset
  have hvalid := Solver.validate_of_accept ha
  obtain ⟨-, ⟨reduction, hreduction, -⟩, ⟨least, hleast, -⟩, -⟩ :=
    HookeJeeves.validate_eq_ok_iff.mp hvalid
  obtain ⟨first, hopening, hstate, hgrounded, hpassages⟩ :=
    passages_of_setUp hf hrespect hset ha (Solver.tracks_treads hrespect hvalid)
  refine ⟨a, first.stepSize, reduction, least, first, ha, Solver.size_of_opening hopening,
    hreduction, hleast, hstate, rfl, hpassages.mono ?_⟩
  rintro passage ⟨hpassage, hall⟩
  constructor
  · intro earlier p later heq
    have hfirst : first.stepSize = HookeJeeves.stride first.stepSize reduction 0 := rfl
    have hstride := Solver.stride_of_passage hpassage hreduction hfirst heq
    rwa [Nat.zero_add] at hstride
  · intro hlong next hlast
    have hsize : ¬ first.stepSize < least := fun hbelow => Scalar.Ordered.not_le_of_lt hbelow hlong
    exact Solver.exhausts_of_passage hpassage hreduction hleast hgrounded hsize hall hlast

end Session

/-! ## The search in a bowl -/

namespace HookeJeeves

open Dialogue Linear

section

variable {R : Type} [Scalar R] {n : Nat} {s : Situation R n} {f : Objective R n}

/-- Where no value is below that of the base, the base stays. -/
theorem read_exploreAxis_lowest {b : Base R n} (hlow : ∀ x, ∃ v, f.value x = .ok v ∧ ¬ v < b.value)
    (h : R) (i : Fin n) : (exploreAxis s h b i).read (Ledger.plainAnswer f) = .ok b := by
  have htried (x : Vector R n) : ∃ tried : Base R n, ¬ tried.value < b.value ∧
      (baseAt s x).read (Ledger.plainAnswer f) = .ok tried := by
    obtain ⟨v, hv, hnot⟩ := hlow (s.region.project x)
    exact ⟨⟨s.region.project x, v⟩, hnot, read_question_bind hv⟩
  obtain ⟨ahead, hahead, hread⟩ := htried (b.point.set i.val (b.point.get i + h) i.isLt)
  obtain ⟨behind, hbehind, hread'⟩ := htried (b.point.set i.val (b.point.get i - h) i.isLt)
  rw [exploreAxis, read_bind_of_ok hread, if_neg hahead, read_bind_of_ok hread', if_neg hbehind]
  rfl

theorem read_explore_lowest {b : Base R n} (hlow : ∀ x, ∃ v, f.value x = .ok v ∧ ¬ v < b.value)
    (h : R) : (explore s h b).read (Ledger.plainAnswer f) = .ok b := by
  have haxes (axes : List (Fin n)) :
      (axes.foldlM (exploreAxis s h) b).read (Ledger.plainAnswer f) = .ok b := by
    induction axes with
    | nil => rfl
    | cons i axes ih =>
        rw [List.foldlM_cons, read_bind_of_ok (read_exploreAxis_lowest hlow h i), ih]
  exact haxes _

/-- A step is read as the state to which it moves, and as a success if the stride is short. -/
theorem read_step_short {count : Nat} {st next : State R n} {least : R}
    (hmove : (move s st).read (Ledger.plainAnswer f) = .ok next)
    (hleast : s.options.real "min_step" = .ok least) (hshort : next.stepSize < least) :
    (step s count st).read (Ledger.plainAnswer f) = .ok (next, .success) := by
  rw [step, read_bind_of_ok hmove, read_lift_bind hleast, if_pos hshort]
  rfl

theorem read_step_long {count : Nat} {st next : State R n} {least : R} {limit : Int}
    (hmove : (move s st).read (Ledger.plainAnswer f) = .ok next)
    (hleast : s.options.real "min_step" = .ok least) (hlong : ¬ next.stepSize < least)
    (hlimit : s.options.whole "max_iter" = .ok limit) (hwithin : ¬ limit ≤ (count + 1 : Nat)) :
    (step s count st).read (Ledger.plainAnswer f) = .ok (next, .running) := by
  rw [step, read_bind_of_ok hmove, read_lift_bind hleast, if_neg hlong, read_lift_bind hlimit,
    if_neg hwithin]
  rfl

/-- There a step only reduces the stride. -/
theorem read_move_lowest {reduction : R} {st : State R n}
    (hlow : ∀ x, ∃ v, f.value x = .ok v ∧ ¬ v < st.base.value)
    (hself : ¬ st.base.value < st.base.value)
    (hreduction : s.options.real "reduction_factor" = .ok reduction) :
    (move s st).read (Ledger.plainAnswer f) =
      .ok { st with stepSize := st.stepSize * reduction, stepType := "reduce_step" } := by
  rw [move, read_bind_of_ok (read_explore_lowest hlow _), if_neg hself, read_lift_bind hreduction]
  rfl

end

end HookeJeeves

namespace Session

open Linear Dialogue HookeJeeves

noncomputable def besideBottom : Configuration ℝ := { start := Tensor.ofVector #v[1, 0] }

noncomputable def bowlAccepted : Solver.Accepted ℝ Scripted.bowl.n :=
  { options := (Offer.hookeJeeves.method : Method ℝ).defaults, region := .everywhere,
    start := #v[1, 0] }

noncomputable def bowlSituation : Situation ℝ 2 := bowlAccepted.situation "bowl"

/-- The search in the bowl goes to the bottom, and reduces the stride from there on. -/
noncomputable def bowlState : Nat → HookeJeeves.State ℝ 2
  | 0 => { base := ⟨bowlAccepted.start, 1 ^ 2 + 0 ^ 2⟩, stepSize := 1.0, stepType := "initial" }
  | k + 1 =>
      { base := ⟨0, 0⟩
        stepSize := stride 1.0 0.5 k
        stepType := if k = 0 then "exploratory" else "reduce_step" }

theorem stride_half (k : Nat) : stride (1.0 : ℝ) 0.5 k = (1 / 2) ^ k := by
  induction k with
  | zero => norm_num [stride]
  | succ k ih =>
      rw [stride_succ, ih, pow_succ]
      norm_num

theorem bowl_lowest (x : Vector ℝ 2) :
    ∃ v, Scripted.bowl.objective.value x = .ok v ∧ ¬ v < (0 : ℝ) :=
  ⟨x.get ⟨0, Nat.two_pos⟩ ^ 2 + x.get ⟨1, Nat.one_lt_two⟩ ^ 2, rfl, not_lt.mpr (by positivity)⟩

theorem read_baseAt_bowl (x : Vector ℝ 2) :
    (baseAt bowlSituation x).read (Ledger.plainAnswer (n := 2) Scripted.bowl.objective) =
      .ok ⟨x, x.get ⟨0, Nat.two_pos⟩ ^ 2 + x.get ⟨1, Nat.one_lt_two⟩ ^ 2⟩ :=
  read_question_bind rfl

theorem bowl_within (k : Nat) :
    (bowlState (k + 1)).view.WithinBounds (Offer.hookeJeeves.method : Method ℝ).defaults := by
  refine ⟨Snapshot.isFinite_real _, ⟨1e12, rfl, ?_⟩, ⟨1e100, rfl, ?_⟩⟩
  · have hlength : (bowlState (k + 1)).view.pointNorm = 0 := norm_zero (n := 2)
    rw [hlength]
    norm_num
  · show ¬ (1e100 : ℝ) < Scalar.abs 0
    norm_num [Scalar.abs]

/-- Forward along the first axis the value grows, and one stride back is the bottom. -/
theorem read_move_to_bottom :
    (move bowlSituation (bowlState 0)).read (Ledger.plainAnswer (n := 2) Scripted.bowl.objective) =
      .ok (bowlState 1) := by
  have hbottom : (#v[1 - 1.0, 0] : Vector ℝ 2) = 0 := by
    ext i hi
    obtain rfl | rfl : i = 0 ∨ i = 1 := by omega
    · norm_num
    · rfl
  have hfirst : (exploreAxis bowlSituation (bowlState 0).stepSize (bowlState 0).base 0).read
      (Ledger.plainAnswer (n := 2) Scripted.bowl.objective) = .ok ⟨0, 0⟩ := by
    rw [exploreAxis, read_bind_of_ok (read_baseAt_bowl _), if_neg,
      read_bind_of_ok (read_baseAt_bowl _), if_pos]
    · show Except.ok (⟨#v[1 - 1.0, 0], (1 - 1.0) ^ 2 + 0 ^ 2⟩ : Base ℝ 2) = .ok ⟨0, 0⟩
      rw [hbottom]
      norm_num
    · show ((1 : ℝ) - 1.0) ^ 2 + 0 ^ 2 < 1 ^ 2 + 0 ^ 2
      norm_num
    · show ¬ ((1 : ℝ) + 1.0) ^ 2 + 0 ^ 2 < 1 ^ 2 + 0 ^ 2
      norm_num
  have hsecond : (exploreAxis bowlSituation (bowlState 0).stepSize ⟨0, 0⟩ 1).read
      (Ledger.plainAnswer (n := 2) Scripted.bowl.objective) = .ok ⟨0, 0⟩ :=
    read_exploreAxis_lowest bowl_lowest _ _
  have hexplore : (explore bowlSituation (bowlState 0).stepSize (bowlState 0).base).read
      (Ledger.plainAnswer (n := 2) Scripted.bowl.objective) = .ok ⟨0, 0⟩ := by
    have haxes : List.finRange 2 = [0, 1] := rfl
    rw [explore, haxes, List.foldlM_cons, read_bind_of_ok hfirst, List.foldlM_cons,
      read_bind_of_ok hsecond]
    rfl
  have hlower : (0 : ℝ) < (bowlState 0).base.value := by norm_num [bowlState]
  rw [move, read_bind_of_ok hexplore, if_pos hlower, read_bind_of_ok (read_baseAt_bowl _), if_neg]
  · rfl
  · exact not_lt.mpr (add_nonneg (sq_nonneg _) (sq_nonneg _))

/-- The first step goes to the bottom. Twenty more reduce the stride, and the last of them takes it
below the least one. -/
theorem bowl_reads :
    Solver.ReadsRun (m := Offer.hookeJeeves.method) Scripted.bowl bowlAccepted none bowlState 20
      .success := by
  have hleast : bowlSituation.options.real "min_step" = .ok 1e-6 := rfl
  have hlimit : bowlSituation.options.whole "max_iter" = .ok 100000 := rfl
  have hreduces (k : Nat) : (move bowlSituation (bowlState (k + 1))).read
      (Ledger.plainAnswer (n := 2) Scripted.bowl.objective) = .ok (bowlState (k + 2)) := by
    refine (read_move_lowest bowl_lowest (lt_irrefl (0 : ℝ)) rfl).trans ?_
    rw [bowlState, bowlState, stride_succ, if_neg (Nat.succ_ne_zero k)]
  have hmove : ∀ k, (move bowlSituation (bowlState k)).read
      (Ledger.plainAnswer (n := 2) Scripted.bowl.objective) = .ok (bowlState (k + 1))
    | 0 => read_move_to_bottom
    | k + 1 => hreduces k
  have hstep (k : Nat) {status : Status}
      (h : (HookeJeeves.step bowlSituation k (bowlState k)).read
        (Ledger.plainAnswer (n := 2) Scripted.bowl.objective) = .ok (bowlState (k + 1), status)) :
      ((Offer.hookeJeeves.method : Method ℝ).step bowlSituation k (bowlState k)).read
          (Ledger.plainAnswer (n := 2) Scripted.bowl.objective) =
        .ok (.state (bowlState (k + 1)), status) :=
    read_bind_of_ok h
  refine ⟨fun k hk => ⟨.running, hstep k ?_, Solver.classify_of_within (bowl_within _)⟩,
    fun _ _ => nofun, ⟨.success, hstep 20 ?_, Solver.classify_ended (Snapshot.isFinite_real _) nofun⟩,
    rfl⟩
  · refine read_step_long (hmove k) hleast ?_ hlimit (by omega)
    have hlong : (1 / 2 : ℝ) ^ 19 ≤ (1 / 2) ^ k :=
      pow_le_pow_of_le_one (by norm_num) (by norm_num) (by omega)
    rw [bowlState, stride_half]
    refine not_lt.mpr (le_trans ?_ hlong)
    norm_num
  · refine read_step_short (hmove 20) hleast ?_
    rw [bowlState, stride_half]
    norm_num

/-- Pattern search from beside the bottom succeeds there: the base is optimal on the last mesh. -/
theorem bowl_search_succeeds :
    ∃ v s₀ r final, exec (setUp besideBottom)
        { solver := Solver.new Offer.hookeJeeves.method none, current := .other Scripted.bowl } =
          (.ok v, s₀) ∧
      exec (Solver.solve Scripted.bowl { toConfiguration := besideBottom } fun _ _ _ => ())
          (Solver.new (Offer.hookeJeeves.method : Method ℝ) none, ()) = (.ok r, final) ∧
      r.status = .success ∧ r.iterations = 21 ∧
      ∃ (a : Solver.Accepted ℝ Scripted.bowl.n) (least : ℝ)
        (old next : HookeJeeves.State ℝ Scripted.bowl.n),
        r.history.back? = some next.view ∧ Solver.Exhausts Scripted.bowl a 0.5 least old next := by
  have ha : (Solver.new Offer.hookeJeeves.method none).accept Scripted.bowl.n besideBottom =
      .ok bowlAccepted := Solver.accept_vector Offer.hookeJeeves.presettable _ #v[1, 0]
  have hacc : (Solver.new Offer.hookeJeeves.method none).acceptOrder Scripted.bowl.n
      { toConfiguration := besideBottom } = .ok bowlAccepted := ha
  obtain ⟨s₀, r, final, hl, hrun, hsuccess, hcount, -, hhistory⟩ :=
    Solver.exec_solve_of_reads (Objective.respectsEquality_real _) hacc (by norm_num) rfl
      (Snapshot.isFinite_real _) bowl_reads (fun _ _ _ => ()) ()
  have hset := exec_setUp_of_launch
    (s := { solver := Solver.new Offer.hookeJeeves.method none, current := .other Scripted.bowl })
    rfl ha hl
  obtain ⟨a, initial, reduction, least, first, ha', hinitial, hreduction, hleast, -, -, hpassages⟩ :=
    success_is_mesh_optimal rfl (congruent_real _) hset
  obtain rfl := Except.ok.inj (ha.symm.trans ha')
  obtain rfl : (1.0 : ℝ) = initial := Except.ok.inj hinitial
  obtain rfl : (0.5 : ℝ) = reduction := Except.ok.inj hreduction
  obtain rfl : (1e-6 : ℝ) = least := Except.ok.inj hleast
  obtain ⟨passage, hviews, hsearched, -, hends⟩ :=
    hpassages.runs Unit _ (.onlooker fun _ _ _ => ()) () r final rfl (fun _ _ _ _ h => h) hrun
  have hmost : passage ≠ [] := by
    rintro rfl
    have hlength := congrArg List.length (hviews.symm.trans hhistory)
    simp at hlength
  have hlast := List.getLast?_eq_some_getLast hmost
  rcases hp : passage.getLast hmost with ⟨status, next⟩
  rw [hp] at hlast
  obtain rfl : status = .success := (hends rfl _ hlast).trans hsuccess
  obtain ⟨-, old, -, hexhausts⟩ := hsearched.success (by norm_num) next hlast
  refine ⟨_, _, r, final, hset, hrun, hsuccess, hcount, _, _, old, next, ?_, hexhausts⟩
  rw [← Array.getLast?_toList, hviews, List.getLast?_map, hlast]
  rfl

end Session

end Minima
