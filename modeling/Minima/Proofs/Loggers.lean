import Mathlib.Data.List.Nodup
import Minima.Journal
import Minima.Scalar.Double

/-!
# Loggers stay uniform

A program asks for loggers and changes their level, layout and outlet in any order. Three functions
of the journal keep four things in step: the level of each logger, its handlers, the levels of these
and the level of loggers to come. What a call can do to a journal is said once, by `Effect`; that
all loggers are alike and that none is made twice follows by induction on the calls.
-/

namespace Minima

/-- The logger is of a level, passes nothing on and has one handler, which is of that level too. -/
structure Logger.UniformAt (level : Int) (l : Logger) : Prop where
  level_eq : l.level = level
  handlers_eq : ∃ h, l.handlers = [h] ∧ h.level = level
  propagates_eq : l.propagates = false

namespace Journal

variable {R : Type} [Scalar R]

/-! ## Calls -/

inductive Call (R : Type) where
  | logger (name : Option String)
  | setLevel (level : Setting R)
  | configure (level : Setting R) (layout : String) (outlet : Outlet)

/-- The journal after a call; one that is refused changes nothing. -/
def perform (j : Journal) : Call R → Journal
  | .logger name => (j.logger name).2
  | .setLevel level => (j.assignLevel level).toOption.getD j
  | .configure level layout outlet => (j.configure level layout outlet).toOption.getD j

def run (j : Journal) (calls : List (Call R)) : Journal := calls.foldl perform j

def after (calls : List (Call R)) : Journal := empty.run calls

def accepts (layout : String) : Bool := layout.isEmpty || LayoutPart.hasField layout.toList

/-- The level that a call sets, if it sets one: a setting without a level and a layout that cannot
be used are refused. -/
def Call.level? : Call R → Option Int
  | .logger _ => none
  | .setLevel level => (levelOf level).toOption
  | .configure level layout _ => if accepts layout then (levelOf level).toOption else none

/-- The level that calls leave behind: the last one that was set, or else that of warnings. -/
def lastLevel (calls : List (Call R)) : Int := (calls.filterMap Call.level?).getLastD warning

def names (j : Journal) : List String := j.loggers.map (·.name)

/-! ## The effect of a call -/

/-- What a call may do to a journal, and the level that it sets. -/
inductive Effect (j : Journal) : Option Int → Journal → Prop where
  | nothing : Effect j none j
  | made (name : String) (new : name ∉ j.names) :
      Effect j none { j with loggers := j.loggers ++ [fresh j.defaultLevel name] }
  | changed (level : Int) (change : Logger → Logger) (name_eq : ∀ l, (change l).name = l.name)
      (uniform : ∀ l old, l.UniformAt old → (change l).UniformAt level) :
      Effect j (some level) { defaultLevel := level, loggers := j.loggers.map change }

/-- A name without a logger gets one; otherwise the answer is a logger that is there. -/
theorem logger_eq_or (name : Option String) (j : Journal) :
    (∃ l ∈ j.loggers, l.name = fullName name ∧ j.logger name = (l, j)) ∨
      fullName name ∉ j.names ∧ j.logger name =
        (fresh j.defaultLevel (fullName name),
          { j with loggers := j.loggers ++ [fresh j.defaultLevel (fullName name)] }) := by
  cases h : j.find? (fullName name) with
  | some l =>
    have found : j.loggers.find? (·.name == fullName name) = some l := h
    refine .inl ⟨l, List.mem_of_find?_eq_some found, ?_, by simp [logger, h]⟩
    simpa using List.find?_some found
  | none =>
    have missing : j.loggers.find? (·.name == fullName name) = none := h
    refine .inr ⟨?_, by simp [logger, h]⟩
    simpa [names] using missing

theorem effect_setLevel (level : Int) (j : Journal) : Effect j (some level) (j.setLevel level) := by
  refine .changed level _ (fun l => rfl) fun l old uniform => ?_
  obtain ⟨-, ⟨h, handlers, -⟩, propagates⟩ := uniform
  exact ⟨rfl, ⟨{ h with level }, by simp [handlers], rfl⟩, propagates⟩

theorem effect_reconfigure (level : Int) (layout : String) (outlet : Outlet) (j : Journal) :
    Effect j (some level) (j.reconfigure level layout outlet) :=
  .changed level _ (fun _ => rfl) fun _ _ uniform =>
    ⟨rfl, ⟨{ level, outlet, layout }, rfl, rfl⟩, uniform.propagates_eq⟩

/-- A call that sets a level if it is not refused. -/
theorem effect_getD {j : Journal} {change : Int → Journal}
    (h : ∀ level, Effect j (some level) (change level)) (level? : Option Int) :
    Effect j level? ((level?.map change).getD j) := by
  cases level? with
  | none => exact .nothing
  | some level => exact h level

theorem assignLevel_eq (level : Setting R) (j : Journal) :
    (j.assignLevel level).toOption = (Call.setLevel level).level?.map (j.setLevel ·) := by
  cases h : levelOf level <;>
    simp [assignLevel, Call.level?, h, bind, Except.bind, Except.toOption, pure, Except.pure]

theorem hasField_defaultLayout : LayoutPart.hasField defaultLayout.toList = true := by
  decide +kernel

theorem configure_eq (level : Setting R) (layout : String) (outlet : Outlet) (j : Journal) :
    (j.configure level layout outlet).toOption =
      (Call.configure level layout outlet).level?.map fun level =>
        j.reconfigure level (if layout.isEmpty then defaultLayout else layout) outlet := by
  cases h : levelOf level with
  | error e => simp [configure, Call.level?, h, bind, Except.bind, Except.toOption]
  | ok level =>
    by_cases empty : layout.isEmpty
    · simp [configure, Call.level?, accepts, h, empty, hasField_defaultLayout, bind, Except.bind,
        Except.toOption, pure, Except.pure]
    · cases field : LayoutPart.hasField layout.toList <;>
        simp [configure, Call.level?, accepts, h, empty, field, bind, Except.bind, Except.toOption,
          pure, Except.pure, throw, throwThe, MonadExceptOf.throw]

theorem perform_effect (j : Journal) (call : Call R) : Effect j call.level? (j.perform call) := by
  cases call with
  | logger name =>
    simp only [perform, Call.level?]
    obtain ⟨l, -, -, answer⟩ | ⟨new, answer⟩ := j.logger_eq_or name
    · rw [answer]
      exact .nothing
    · rw [answer]
      exact .made (fullName name) new
  | setLevel level =>
    simp only [perform, assignLevel_eq]
    exact effect_getD (fun level => j.effect_setLevel level) _
  | configure level layout outlet =>
    simp only [perform, configure_eq]
    exact effect_getD (fun level => j.effect_reconfigure level _ outlet) _

/-! ## What every call keeps -/

/-- All loggers are of the level that later ones get, and no two have one name. -/
structure Regular (j : Journal) : Prop where
  uniform : ∀ l ∈ j.loggers, l.UniformAt j.defaultLevel
  nodup : j.names.Nodup

theorem regular_empty : empty.Regular := ⟨by simp [empty], by simp [names, empty]⟩

theorem uniformAt_fresh (level : Int) (name : String) : (fresh level name).UniformAt level :=
  ⟨rfl, ⟨_, rfl, rfl⟩, rfl⟩

namespace Effect

variable {j j' : Journal} {level? : Option Int}

theorem regular (h : Effect j level? j') (regular : j.Regular) : j'.Regular := by
  cases h with
  | nothing => exact regular
  | made name new =>
    refine ⟨fun l hl => ?_, ?_⟩
    · obtain old | rfl := by simpa using hl
      · exact regular.uniform l old
      · exact uniformAt_fresh _ name
    · simpa [names, fresh] using List.Nodup.concat new regular.nodup
  | changed level change name_eq uniform =>
    refine ⟨fun l hl => ?_, ?_⟩
    · obtain ⟨old, mem, rfl⟩ := List.mem_map.mp hl
      exact uniform old _ (regular.uniform old mem)
    · simpa [names, Function.comp_def, name_eq] using regular.nodup

theorem defaultLevel_eq (h : Effect j level? j') :
    j'.defaultLevel = level?.getD j.defaultLevel := by
  cases h <;> rfl

/-- Loggers keep their places: there may only be more of them. -/
theorem names_grow (h : Effect j level? j') : j.names <+: j'.names := by
  cases h with
  | nothing => exact List.prefix_rfl
  | made name new => simp [names]
  | changed level change name_eq uniform => simp [names, Function.comp_def, name_eq]

end Effect

/-! ## Runs -/

theorem run_cons (j : Journal) (call : Call R) (calls : List (Call R)) :
    j.run (call :: calls) = (j.perform call).run calls := rfl

theorem Regular.run {j : Journal} (regular : j.Regular) (calls : List (Call R)) :
    (j.run calls).Regular := by
  induction calls generalizing j with
  | nil => exact regular
  | cons call calls ih => exact ih ((j.perform_effect call).regular regular)

theorem names_grow_run (j : Journal) (calls : List (Call R)) :
    j.names <+: (j.run calls).names := by
  induction calls generalizing j with
  | nil => exact List.prefix_rfl
  | cons call calls ih => exact (j.perform_effect call).names_grow.trans (ih _)

theorem defaultLevel_run (j : Journal) (calls : List (Call R)) :
    (j.run calls).defaultLevel = (calls.filterMap Call.level?).getLastD j.defaultLevel := by
  induction calls generalizing j with
  | nil => rfl
  | cons call calls ih =>
    rw [run_cons, ih, (j.perform_effect call).defaultLevel_eq]
    cases h : call.level? with
    | none => simp [List.filterMap_cons_none h]
    | some level =>
      rw [List.filterMap_cons_some h, List.getLastD_cons]
      rfl

theorem name_run {j : Journal} {i : Nat} {name : String} (h : j.names[i]? = some name)
    (calls : List (Call R)) : (j.run calls).names[i]? = some name := by
  obtain ⟨more, eq⟩ := j.names_grow_run calls
  obtain ⟨lt, -⟩ := List.getElem?_eq_some_iff.mp h
  rw [← eq, List.getElem?_append_left lt, h]

/-! ## Answers -/

theorem logger_of_not_mem {name : Option String} {j : Journal} (new : fullName name ∉ j.names) :
    (j.logger name).1 = fresh j.defaultLevel (fullName name) := by
  obtain ⟨l, mem, named, -⟩ | ⟨-, answer⟩ := j.logger_eq_or name
  · exact absurd (List.mem_map.mpr ⟨l, mem, named⟩) new
  · rw [answer]

/-- A call for a logger is answered with the one at a place of the journal. Loggers are known by
their places, which they keep. -/
def AnswersAt (j : Journal) (name : Option String) (i : Nat) : Prop :=
  (j.logger name).2.loggers[i]? = some (j.logger name).1

theorem exists_answersAt (j : Journal) (name : Option String) :
    ∃ i, j.AnswersAt name i ∧ (j.logger name).2.names[i]? = some (fullName name) := by
  have answered : (j.logger name).1 ∈ (j.logger name).2.loggers ∧
      (j.logger name).1.name = fullName name := by
    obtain ⟨l, mem, named, answer⟩ | ⟨-, answer⟩ := j.logger_eq_or name
    · rw [answer]
      exact ⟨mem, named⟩
    · simp [answer, fresh]
  obtain ⟨mem, named⟩ := answered
  obtain ⟨i, at_i⟩ := List.mem_iff_getElem?.mp mem
  exact ⟨i, at_i, by simp [names, at_i, named]⟩

/-- Two calls are answered with one logger if their names have one full form, whatever is called in
between, and with two loggers otherwise. -/
theorem Regular.answersAt_iff {j : Journal} (regular : j.Regular) (a b : Option String)
    (between : List (Call R)) :
    ∃ i k, j.AnswersAt a i ∧ ((j.logger a).2.run between).AnswersAt b k ∧
      (i = k ↔ fullName a = fullName b) := by
  obtain ⟨i, at_i, name_i⟩ := j.exists_answersAt a
  obtain ⟨k, at_k, name_k⟩ := ((j.logger a).2.run between).exists_answersAt b
  refine ⟨i, k, at_i, at_k, ?_⟩
  -- both names stand in the last journal, where no name stands twice
  have regular_last := (regular.run (.logger a :: between)).run [(.logger b : Call R)]
  have name_i' : (((j.logger a).2.run between).logger b).2.names[i]? = some (fullName a) :=
    name_run (name_run name_i between) [(.logger b : Call R)]
  obtain ⟨lt, -⟩ := List.getElem?_eq_some_iff.mp name_i'
  have place : _ ↔ i = k := List.getElem?_inj lt regular_last.nodup
  rw [← place]
  simp [name_i', name_k]

/-- Whatever calls a program makes, all loggers are of one level with one handler of that level
each. It is the level that was set last, with which later loggers begin; and a logger is found again
under every name with the same full form, and under no other, whatever is called in between. -/
theorem loggers_stay_uniform (calls : List (Call R)) :
    (∀ l ∈ (after calls).loggers, l.UniformAt (after calls).defaultLevel) ∧
      (after calls).defaultLevel = lastLevel calls ∧
      (∀ name, fullName name ∉ (after calls).names →
        ((after calls).logger name).1 = fresh (lastLevel calls) (fullName name)) ∧
      ∀ a b between, ∃ i k, (after calls).AnswersAt a i ∧
        (after (calls ++ .logger a :: between)).AnswersAt b k ∧
          (i = k ↔ fullName a = fullName b) := by
  have regular : (after calls).Regular := regular_empty.run calls
  have level : (after calls).defaultLevel = lastLevel calls := empty.defaultLevel_run calls
  refine ⟨regular.uniform, level, fun name new => ?_, fun a b between => ?_⟩
  · rw [logger_of_not_mem new, level]
  · have later : after (calls ++ .logger a :: between) =
        ((after calls).logger a).2.run between := by
      simp [after, run, perform]
    rw [later]
    exact regular.answersAt_iff a b between

def settingUp : List (Call Float) := [
  .logger (some "a"), .setLevel (.text "error"), .logger none,
  .configure (.whole 10) "%(message)s" (.chosen 3), .setLevel .absent]

theorem settingUp_uniform :
    (∀ l ∈ (after settingUp).loggers, l.UniformAt 10) ∧
      ((after settingUp).logger (some "b")).1 = fresh 10 "optimkit.b" ∧
      ∃ i k, (after settingUp).AnswersAt none i ∧
        (after (settingUp ++ [.logger none, .setLevel (.text "debug")])).AnswersAt
          (some "optimkit") k ∧ i = k := by
  obtain ⟨uniform, level, made, answers⟩ := loggers_stay_uniform settingUp
  have last : lastLevel settingUp = 10 := by decide +kernel
  rw [level, last] at uniform
  obtain ⟨i, k, at_i, at_k, same⟩ :=
    answers none (some "optimkit") [.setLevel (.text "debug")]
  refine ⟨uniform, ?_, i, k, at_i, at_k, same.mpr (by decide +kernel)⟩
  rw [made (some "b") (by decide +kernel), last]
  decide +kernel

end Journal
end Minima
