import Minima.History.Cells
import Minima.Proofs.PlanRuns
import Minima.Window.Run

/-!
# The history that a run leaves in the window

While a run is going on its steps are added to the history one by one; the history of a run that has
ended can also be made of its results. Both come to the same table, whatever the window has shown
before: an onlooker sees every step once and in order, a run begins its history anew, and nothing
that comes after a successful run can keep the status from being put into the last row.
-/

namespace Minima

variable {R : Type} [Scalar R] {σ : Type}

/-! ## Tables -/

namespace History

/-- The rows for snapshots that follow each other, of which the first has the number `k`. -/
def rowsFrom (last? : Option (Array R)) (k : Nat) : List (Snapshot R) → List (Row R)
  | [] => []
  | s :: rest => row last? s k :: rowsFrom (some s.point) (k + 1) rest

theorem foldl_add (h : History R) (k : Nat) (l : List (Snapshot R)) :
    (l.zipIdx k).foldl (fun h p => h.add p.1 p.2) h = h.addAll k l := by
  induction l generalizing h k with
  | nil => rfl
  | cons s rest ih => exact ih (h.add s k) (k + 1)

theorem rows_addAll (h : History R) (k : Nat) (l : List (Snapshot R)) :
    (h.addAll k l).rows.toList = h.rows.toList ++ rowsFrom h.last? k l := by
  induction l generalizing h k with
  | nil => simp [addAll, rowsFrom]
  | cons s rest ih => simp [addAll, ih, add, rowsFrom]

/-- Every row is measured from the point before it. -/
theorem getElem?_rowsFrom (last? : Option (Array R)) (k : Nat) (l : List (Snapshot R)) (i : Nat) :
    (rowsFrom last? k l)[i]? = l[i]?.map fun s =>
      row (if i = 0 then last? else l[i - 1]?.map Snapshot.point) s (k + i) := by
  induction l generalizing last? k i with
  | nil => simp [rowsFrom]
  | cons s rest ih =>
      cases i with
      | zero => rfl
      | succ i =>
          rw [rowsFrom, List.getElem?_cons_succ, ih, List.getElem?_cons_succ]
          cases i with
          | zero => rfl
          | succ i => simp [Nat.add_assoc, Nat.add_comm 1]

theorem length_rowsFrom (last? : Option (Array R)) (k : Nat) (l : List (Snapshot R)) :
    (rowsFrom last? k l).length = l.length := by
  induction l generalizing last? k with
  | nil => rfl
  | cons s rest ih => exact congrArg Nat.succ (ih (some s.point) (k + 1))

theorem distance?_toArray {n : Nat} (x y : Vector R n) :
    distance? x.toArray y.toArray = some (Linear.norm (x - y)) := by
  obtain ⟨a, rfl⟩ := x
  exact dif_pos y.size_toArray

/-- The table shows the history of a run from `start` in `n` variables: a row for each step with its
number, its snapshot and the distance from the point before it, the status in the last row alone. -/
structure Tells (h : History R) (n : Nat) (start : Array R) (r : Results R) : Prop where
  size : h.rows.size = r.history.size
  rows : ∀ i (hi : i < r.history.size), ∃ x y : Vector R n,
    x.toArray = r.history[i].point ∧
    y.toArray = (if i = 0 then start else r.history[i - 1].point) ∧
    h.rows[i]? = some {
      k := i + 1
      status? := if i + 1 = r.history.size then some r.status else none
      point := r.history[i].point
      value := r.history[i].value
      moved? := some (Linear.norm (x - y))
      reach? := r.history[i].detail.reach? }

/-- The table of results does so, if all points are of one dimension. -/
theorem tells_ofResults {n : Nat} {start : Array R} {r : Results R} (hstart : start.size = n)
    (hpoints : ∀ v ∈ r.history, v.point.size = n) : (ofResults r (some start)).Tells n start r := by
  have hrows := rows_addAll (begin (some start)) 1 r.history.toList
  generalize hfilled : (begin (some start)).addAll 1 r.history.toList = filled at hrows
  have hsize : filled.rows.size = r.history.size := by
    rw [← Array.length_toList, hrows]
    simp [begin, length_rowsFrom]
  refine ⟨by simp [ofResults, mark, hfilled, hsize], fun i hi => ?_⟩
  have hbefore : (if i = 0 then some start else r.history.toList[i - 1]?.map Snapshot.point) =
      some (if i = 0 then start else r.history[i - 1].point) := by
    split
    · rfl
    · simp [show i - 1 < r.history.size by omega]
  have hyard : (if i = 0 then start else r.history[i - 1].point).size = n := by
    split
    · exact hstart
    · exact hpoints _ (Array.getElem_mem _)
  refine ⟨⟨_, hpoints _ (Array.getElem_mem hi)⟩, ⟨_, hyard⟩, rfl, rfl, ?_⟩
  have hrow : filled.rows[i]? =
      some (row (some (if i = 0 then start else r.history[i - 1].point)) r.history[i] (i + 1)) := by
    rw [← Array.getElem?_toList, hrows]
    simp only [begin, List.nil_append, getElem?_rowsFrom, hbefore]
    simp [hi, Nat.add_comm]
  have hmoved := distance?_toArray (⟨_, hpoints _ (Array.getElem_mem hi)⟩ : Vector R n) ⟨_, hyard⟩
  simp only [ofResults, mark, hfilled, Array.getElem?_modify, hsize, hrow, row, Option.bind_some]
  rw [hmoved]
  by_cases hlast : i + 1 = r.history.size
  · rw [if_pos hlast, if_pos (by omega)]
    rfl
  · rw [if_neg hlast, if_neg (by omega)]

/-! ## What is shown -/

/-- A table of cells shows the run cell by cell: the number of the step, the name of the status in the
last row alone, two components of the point with a hint if there are more of them, the value, the
distance from the point of the row before, and how far the method reached. -/
structure Shows (table : List (List Cell)) (n : Nat) (start : Array Float) (r : Results Float) :
    Prop where
  length : table.length = r.history.size
  rows : ∀ i (hi : i < r.history.size), ∃ x y : Vector Float n,
    x.toArray = r.history[i].point ∧
    y.toArray = (if i = 0 then start else r.history[i - 1].point) ∧
    ∃ hint? : Option String,
      hint? = (if n ≤ 2 then none
        else some ("x = [" ++ ", ".intercalate (x.toList.map (generalText 6)) ++ "]")) ∧
      table[i]? = some [
        { text := toString (i + 1) },
        if i + 1 = r.history.size then
          { text := r.status.name, colour? := some (Theme.statusColour r.status) }
        else { text := "" },
        { text := if h : 0 < n then fixedText 6 x[0] else "—", hint? },
        { text := if h : 1 < n then fixedText 6 x[1] else "—", hint? },
        { text := scientificText 6 r.history[i].value },
        { text := scientificText 3 (Linear.norm (x - y)) },
        { text := match r.history[i].detail.reach? with
            | some reach => scientificText 3 reach
            | none => "—" }]

theorem componentCell_toArray {n : Nat} (x : Vector Float n) (j : Nat) :
    componentCell x.toArray j = {
      text := if h : j < n then fixedText 6 x[j] else "—"
      hint? := if n ≤ 2 then none
        else some ("x = [" ++ ", ".intercalate (x.toList.map (generalText 6)) ++ "]") } := by
  have htext : (x.toArray[j]?.map (fixedText 6)).getD missing =
      if h : j < n then fixedText 6 x[j] else "—" := by
    by_cases hj : j < n
    · simp [hj]
    · simp [hj, missing]
  simp only [componentCell, pointHint?, htext, Vector.size_toArray]
  rfl

theorem statusCell_ite (last : Prop) [Decidable last] (s : Status) :
    statusCell (if last then some s else none) =
      if last then { text := s.name, colour? := some (Theme.statusColour s) }
      else { text := "" } := by
  by_cases hlast : last
  · simp only [if_pos hlast, statusCell]
  · simp only [if_neg hlast, statusCell]

/-- The cells of a table that tells a run show it. -/
theorem Tells.shows {h : History Float} {n : Nat} {start : Array Float} {r : Results Float}
    (htells : h.Tells n start r) : Shows h.cells n start r := by
  constructor
  · simp only [cells, List.length_map, Array.length_toList]
    exact htells.size
  · intro i hi
    obtain ⟨x, y, hx, hy, hrow⟩ := htells.rows i hi
    refine ⟨x, y, hx, hy, _, rfl, ?_⟩
    rw [cells, List.getElem?_map, Array.getElem?_toList, hrow, Option.map_some, Row.cells]
    simp only [← hx, componentCell_toArray, statusCell_ite]
    cases r.history[i].detail.reach? <;> rfl

end History

/-! ## The window -/

namespace Window

variable {w : Window} {s : Selection Float} {p : Problem Float} {r : Results Float}

/-- Drawing leaves the history. -/
theorem exec_draw_history (d : Gallery.Drawing) (w : Window) :
    (exec (draw d) w).2.history = w.history := rfl

/-- Results that are shown refill the history or mark it, even if they cannot be drawn. -/
theorem exec_showResults_history (p : Problem Float) (r : Results Float)
    (start? : Option (Array Float)) (initial? : Option Float) (refill : Bool) (w : Window) :
    (exec (showResults p r start? initial? refill) w).2.history =
      if refill then .ofResults r start? else w.history.mark r.status := by
  simp only [showResults, exec_bind, exec_modify]
  generalize hshown : ({ w with
      history := if refill then .ofResults r start? else w.history.mark r.status
      gallery := w.gallery.showValues r initial? } : Window) = shown
  have hhistory : shown.history =
      if refill then .ofResults r start? else w.history.mark r.status := by rw [← hshown]
  have hdraw := (exec_draw_history (Gallery.showPath p r start?) shown).trans hhistory
  rcases hd : exec (draw (Gallery.showPath p r start?)) shown with ⟨e | u, w'⟩
  · rw [hd] at hdraw
    exact hdraw
  · rw [hd] at hdraw
    exact hdraw

/-- Running the selected method leaves in the window the history that its results tell, whatever the
window has shown before. -/
theorem exec_runSelected_history (hcheck : s.check w.controls.problems = .ok p)
    {visit : Snapshot Float → Nat → σ → σ} {seen : σ}
    (hresults : ((s.plan s.method s.search none).run p visit seen).results = .ok r) :
    (exec (runSelected s p) w).2.history = .ofResults r (some (startOf s p)) := by
  obtain ⟨hlive, hseen⟩ := Plan.run_before_onlooker hresults
    (fun v k (h : History Float) => h.add v k) (History.begin (some (startOf s p)))
  -- the value at the start is known, so it can be shown beside the results
  obtain ⟨⟨initial, hinitial⟩, -, -⟩ := Plan.run_dimension hresults
  rw [History.foldl_add] at hseen
  have hknown : p.valueInDomain? (startOf s p) = .ok (some initial) := hinitial
  simp only [runSelected, exec_bind, exec_get, Selection.run_of_checked hcheck, exec_modify, hlive,
    hseen, hknown]
  exact exec_showResults_history ..

/-- A run of a single method that succeeds leaves the history that its results would be shown with
from the same start, whatever the window has shown before: a row for each step with its number and
the distance from the point before it, in the first row from the start, and the status in the last
row alone. So it is when the run is asked for by the controls, and that is what the cells say. -/
theorem live_history_is_refilled (w : Window) {s : Selection Float} {p : Problem Float}
    {r : Results Float} (hsingle : s.all = false)
    (hproblem : (s.run w.controls.problems (fun _ _ seen => seen) ()).1 = .ok p)
    (hresults : (s.run w.controls.problems (fun _ _ seen => seen) ()).2.results = .ok r) :
    (exec (run s) w).2.history = .ofResults r (some (startOf s p)) ∧
      (exec (run s) w).2.history.cells = (History.ofResults r (some (startOf s p))).cells ∧
      (exec (run s) w).2.history.Tells p.n (startOf s p) r ∧
      History.Shows (exec (run s) w).2.history.cells p.n (startOf s p) r ∧
      (w.controls.selection w.clock = .ok s →
        (exec runControls w).2.history = .ofResults r (some (startOf s p))) := by
  have hcheck := Selection.checked_of_run hproblem
  rw [Selection.run_of_checked hcheck] at hresults
  have hrun {w' : Window} (hcontrols : w'.controls = w.controls) :
      (exec (run s) w').2.history = .ofResults r (some (startOf s p)) := by
    have hcheck' : s.check w'.controls.problems = .ok p := by rw [hcontrols, hcheck]
    simp only [run, exec_bind, exec_get, hcheck', hsingle]
    exact exec_runSelected_history hcheck' hresults
  obtain ⟨-, hstart, hpoints⟩ := Plan.run_dimension hresults
  have htells : (exec (run s) w).2.history.Tells p.n (startOf s p) r := by
    rw [hrun rfl]
    exact History.tells_ofResults hstart hpoints
  refine ⟨hrun rfl, congrArg History.cells (hrun rfl), htells, htells.shows, ?_⟩
  intro hselection
  simp only [runControls, exec_bind, exec_get, hselection, exec_modify]
  exact hrun rfl

def descending : Problem Float where
  key := "descending"
  title := "x + y + z"
  n := 3
  objective := {
    name := "descending"
    value := fun x => .ok (x[0] + x[1] + x[2])
    gradient? := none
    hessian? := none }
  start := Tensor.ofArray #[0.0, 1.0, 2.0]
  minimum? := none
  leastValue? := none

def twoSteps : Selection Float where
  problem := "descending"
  method := "hooke_jeeves"
  limit := 2

def twoStepsOutcome : Attempt Float (Problem Float) × Plan.Outcome Float Unit :=
  twoSteps.run [descending] (fun _ _ seen => seen) ()

/-- A window with a row that is left from another run, in two variables. -/
def littered : Window :=
  let left : Snapshot Float :=
    { value := 7.0, point := #[7.0, 7.0], detail := .pattern 1.0 "pattern" }
  { Window.initial descending [] 0.0 with history := (History.begin none).add left 7 }

/-- Both steps are in the window, row by row, and nothing else is. -/
theorem two_steps_recorded :
    ∃ r : Results Float, twoStepsOutcome.2.results = .ok r ∧
      (exec (run twoSteps) littered).2.history = .ofResults r (some #[0.0, 1.0, 2.0]) ∧
      History.Shows (exec (run twoSteps) littered).2.history.cells 3 #[0.0, 1.0, 2.0] r ∧
      (exec (run twoSteps) littered).2.history.cells.map (fun row => row.map Cell.text) = [
        ["1", "", "-2.000000", "-1.000000", "-3.000000e+00", "3.464e+00", "1.000e+00"],
        ["2", "NO_PROGRESS", "-4.000000", "-3.000000", "-9.000000e+00", "3.464e+00",
          "1.000e+00"]] := by
  have hends : (twoStepsOutcome.2.results.toOption.map fun r =>
      (History.ofResults r (some #[0.0, 1.0, 2.0])).cells.map fun row => row.map Cell.text) = some [
        ["1", "", "-2.000000", "-1.000000", "-3.000000e+00", "3.464e+00", "1.000e+00"],
        ["2", "NO_PROGRESS", "-4.000000", "-3.000000", "-9.000000e+00", "3.464e+00",
          "1.000e+00"]] := by
    decide +kernel
  cases hr : twoStepsOutcome.2.results with
  | error e =>
      rw [hr] at hends
      cases hends
  | ok r =>
      rw [hr] at hends
      obtain ⟨hhistory, hcells, -, hshows, -⟩ :=
        live_history_is_refilled littered (p := descending) (s := twoSteps) rfl rfl hr
      refine ⟨r, rfl, hhistory, hshows, ?_⟩
      rw [hcells]
      exact Option.some.inj hends

end Window

end Minima
