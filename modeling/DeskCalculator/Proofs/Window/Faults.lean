import DeskCalculator.Proofs.Window.Steps

/-!
# DeskCalculator.Proofs.Window.Faults

The faults that end handlers. A handler ends with a fault exactly if it calculates a line whose
result cannot be saved (`fault?_step_iff`), because an entry of the history has a surrogate in it;
only a history file can bring such an entry in. The handler ends between the change of the history
and that of the view (`interrupted_step`).
-/

namespace DeskCalculator.Window

open History (Entry Fault Store keepLast)

variable {w : Window}

/-- The line has a result that cannot be saved: the history is kept in a file, and an entry that it
held before and still holds then has a surrogate in it. -/
def Unsavable (w : Window) : Prop :=
  ∃ expression value : String, w.input.text = expression ∧ expression ≠ "" ∧
    Outcome.ofExpression expression = .success value ∧ w.history.storage.place = .file ∧
    ∃ entry ∈ keepLast (w.history.limit - 1) w.history.entries, ¬ entry.IsScalar

/-- What a fault leaves behind: the history has the entry of the line and its file is empty, but
nothing else in the window has changed. -/
structure Interrupted (w w' : Window) : Prop where
  entries : ∃ expression value : String, w.input.text = expression ∧
    Outcome.ofExpression expression = .success value ∧
    w'.history.entries = keepLast w.history.limit (w.history.entries ++ [⟨expression, value⟩])
  storage : w'.history.storage = ⟨.file, some .empty⟩
  rest : w' = { w with history := w'.history }

theorem calculate_eq_error_iff {fault : Fault} :
    w.calculate.2 = .error fault ↔ fault = .unencodable ∧ w.Unsavable := by
  constructor
  · intro h
    have hcalculation := calculation w
    generalize w.calculate = result at h hcalculation
    cases hcalculation with
    | @unsaved expression value fault' line nonempty outcome failed =>
      obtain rfl : fault' = fault := Except.error.inj h
      obtain ⟨hplace, hfault, hentry⟩ :=
        (Store.add_eq_error_iff (Entry.isScalar_ofString expression value)).mp failed
      exact ⟨hfault, expression, value, line, nonempty, outcome, hplace, hentry⟩
    | _ => exact absurd h (by simp)
  · rintro ⟨rfl, expression, value, line, nonempty, outcome, hplace, hentry⟩
    have hfailed := (Store.add_eq_error_iff (Entry.isScalar_ofString expression value)).mpr
      ⟨hplace, rfl, hentry⟩
    rw [calculate_of_success line nonempty outcome, continueWith_of_error hfailed]

theorem interrupted_calculate {fault : Fault} (h : w.calculate.2 = .error fault) :
    Interrupted w w.calculate.1 := by
  have hcalculation := calculation w
  generalize w.calculate = result at h hcalculation
  cases hcalculation with
  | unsaved line nonempty outcome failed =>
    exact ⟨⟨_, _, line, outcome, rfl⟩, Store.storage_of_save_eq_error failed, rfl⟩
  | _ => exact absurd h (by simp)

theorem fault?_ofEnding {ending : Ending} {fault : Fault} :
    (Reply.ofEnding ending).fault? = some fault ↔ ending = .error fault := by
  cases ending <;> simp [Reply.ofEnding, Reply.report]

/-- Only a calculation can end with a fault. -/
theorem calculate_of_fault? {e : Event} {fault : Fault} (h : (w.step e).2.fault? = some fault) :
    e.action? = some .equals ∧ w.calculate.2 = .error fault := by
  have heffect := effect_step w e
  generalize w.step e = result at h heffect
  cases heffect with
  | @performed action performs =>
    cases action with
    | equals => exact ⟨performs, fault?_ofEnding.mp h⟩
    | _ => exact absurd h (by simp [reporting, perform, Reply.ofEnding, Reply.report])
  | cleared =>
    obtain ⟨notices, hsaved, hcleared⟩ := clearHistory_eq w
    rw [hcleared] at h
    exact absurd (fault?_ofEnding.mp h) (by simp)
  | _ => exact absurd h (by simp [Reply.report])

/-- **What ends a handler** is a result that cannot be saved, and nothing else. -/
theorem fault?_step_iff {e : Event} {fault : Fault} :
    (w.step e).2.fault? = some fault ↔
      e.action? = some .equals ∧ fault = .unencodable ∧ w.Unsavable := by
  constructor
  · intro h
    obtain ⟨haction, hfault⟩ := calculate_of_fault? h
    exact ⟨haction, calculate_eq_error_iff.mp hfault⟩
  · rintro ⟨haction, hfault⟩
    rw [step_of_action? haction]
    exact fault?_ofEnding.mpr (calculate_eq_error_iff.mpr hfault)

theorem interrupted_step {e : Event} {fault : Fault} (h : (w.step e).2.fault? = some fault) :
    Interrupted w (w.step e).1 := by
  obtain ⟨haction, hfault⟩ := calculate_of_fault? h
  rw [step_of_action? haction]
  exact interrupted_calculate hfault

end DeskCalculator.Window
