import DeskCalculator.Proofs.Window.Steps

/-!
# DeskCalculator.Proofs.Window.Rejection

A rejected expression has the effect of emptying the line, but for the word on the display; and
nothing that a handler does depends on what the display shows.

* **Setting the display.** `setsDisplay` says which events set it: picks of an entry, and all
  actions but a calculation of an empty line and one that a fault ends.
* **One event** in two windows that differ in the display alone: either it sets the display, and the
  windows are the same afterwards, or both displays stay as they are (`step_withDisplay`).
* **All events.** So the windows agree from the first event on that sets the display
  (`run_withDisplay`), and their handlers reply the same all the way (`replies_withDisplay`).
-/

namespace DeskCalculator.Window

open History (Entry Store)

/-! ### Events that set the display -/

/-- The entry of the selected line. -/
def entrySelected? (w : Window) : Option Entry :=
  w.selected.bind fun line => w.history.latestFirst[line]?

/-- The entry that an event picks. -/
def entryPicked? (w : Window) : Event → Option Entry
  | .pick (some line) => (w.select line).entrySelected?
  | .pick none => w.entrySelected?
  | _ => none

/-- Whether an action sets the display. A calculation does so if there is something to calculate and
no fault ends it, whatever comes of it otherwise. -/
def actionSetsDisplay (w : Window) : Action → Bool
  | .equals => w.input.text != "" && w.calculate.2.isOk
  | _ => true

/-- Whether an event sets the display. -/
def setsDisplay (w : Window) (e : Event) : Bool :=
  match e.action? with
  | some action => w.actionSetsDisplay action
  | none => (w.entryPicked? e).isSome

/-- Whether one of some events sets the display. -/
def setDuring (w : Window) : List Event → Bool
  | [] => false
  | e :: events => w.setsDisplay e || (w.step e).1.setDuring events

/-- The window with another display. -/
def withDisplay (w : Window) (text : LooseText) : Window := { w with display := text }

variable {w : Window} {e : Event} {action : Action}

/-! ### Windows that differ in the display -/

/-- What follows a change of the history sets the display, unless a fault comes before. -/
theorem continueWith_withDisplay (w : Window) (text : LooseText) (saved : Store × Ending)
    (rest : Window → Window) (hrest : ∀ w : Window, rest (w.withDisplay text) = rest w) :
    (w.withDisplay text).continueWith saved rest =
      if (w.continueWith saved rest).2.isOk then w.continueWith saved rest
      else ((w.continueWith saved rest).1.withDisplay text, (w.continueWith saved rest).2) := by
  obtain ⟨history, ending⟩ := saved
  cases ending with
  | ok notices => exact congrArg (·, _) (hrest { w with history })
  | error fault => rfl

theorem settle_withDisplay (w : Window) (text : LooseText) (outcome : Outcome) :
    (w.withDisplay text).settle outcome =
      if (w.settle outcome).2.isOk then w.settle outcome
      else ((w.settle outcome).1.withDisplay text, (w.settle outcome).2) := by
  cases outcome with
  | failure kind message => rfl
  | success value =>
    exact continueWith_withDisplay w text _ (fun w => w.showResult value) fun _ => rfl

/-- An action sets the display or leaves it alone, and does not look at it. -/
theorem perform_withDisplay (w : Window) (text : LooseText) (action : Action) :
    (w.withDisplay text).perform action =
      if w.actionSetsDisplay action then w.perform action
      else ((w.perform action).1.withDisplay text, (w.perform action).2) := by
  cases action with
  | equals =>
    show (w.withDisplay text).calculate =
      if (w.input.text != "" && w.calculate.2.isOk) = true then w.calculate
      else (w.calculate.1.withDisplay text, w.calculate.2)
    by_cases hempty : w.input.text = ""
    · rw [calculate_of_empty hempty, calculate_of_empty (w := w.withDisplay text) hempty,
        if_neg (by simp [hempty])]
    · have hsettle : w.calculate = w.settle (Outcome.ofText w.input.text) := if_neg hempty
      rw [show (w.withDisplay text).calculate = _ from if_neg hempty, hsettle,
        bne_iff_ne.mpr hempty, Bool.true_and]
      exact settle_withDisplay w text _
  | _ => rfl

theorem recallSelected_eq (w : Window) :
    w.recallSelected =
      match w.entrySelected? with
      | none => (w, .report [])
      | some entry => (w.recallEntry entry, ⟨true, [], none⟩) := rfl

theorem recallSelected_withDisplay (w : Window) (text : LooseText) :
    (w.withDisplay text).recallSelected =
      if w.entrySelected?.isSome then w.recallSelected
      else (w.recallSelected.1.withDisplay text, w.recallSelected.2) := by
  have hselected : (w.withDisplay text).entrySelected? = w.entrySelected? := rfl
  rw [recallSelected_eq, recallSelected_eq, hselected]
  cases w.entrySelected? with
  | none => rfl
  | some entry => rfl

theorem select_withDisplay (w : Window) (text : LooseText) (line : Int) :
    (w.withDisplay text).select line = (w.select line).withDisplay text := by
  by_cases h : 0 ≤ line ∧ line < w.lines.length
  · rw [select.eq_def w, if_pos h]
    exact if_pos h
  · rw [select.eq_def w, if_neg h]
    exact if_neg h

theorem clearHistory_withDisplay (w : Window) (text : LooseText) :
    (w.withDisplay text).clearHistory = (w.clearHistory.1.withDisplay text, w.clearHistory.2) := by
  obtain ⟨notices, hsaved, hcleared⟩ := clearHistory_eq w
  rw [hcleared]
  exact continueWith_of_ok hsaved

/-- **One event** sets the display or leaves it alone, and does not look at it. -/
theorem step_withDisplay (w : Window) (text : LooseText) (e : Event) :
    (w.withDisplay text).step e =
      if w.setsDisplay e then w.step e else ((w.step e).1.withDisplay text, (w.step e).2) := by
  rw [setsDisplay]
  cases haction : e.action? with
  | some action =>
    rw [step_of_action? haction, step_of_action? haction, perform_withDisplay]
    simp only
    split <;> rfl
  | none =>
    simp only
    cases e with
    | typed text' =>
      simp only [Event.action?] at haction
      simp only [step, haction]
      rfl
    | shortcut key => exact absurd haction (by simp [Event.action?])
    | button label =>
      simp only [Event.action?] at haction
      split at haction
      · rename_i hlabel
        simp only [step, if_pos hlabel, clearHistory_withDisplay]
        rfl
      · rename_i hlabel
        rw [Option.map_eq_none_iff] at haction
        simp only [step, if_neg hlabel, haction]
        rfl
    | action action => exact absurd haction (by simp [Event.action?])
    | pick line =>
      cases line with
      | none => exact recallSelected_withDisplay w text
      | some line =>
        show ((w.withDisplay text).select line).recallSelected = _
        rw [select_withDisplay]
        exact recallSelected_withDisplay (w.select line) text
    | toggle hidden => rfl

/-- An event that does not set the display leaves it alone. -/
theorem display_step (h : w.setsDisplay e = false) : (w.step e).1.display = w.display := by
  have hsame : (w.withDisplay w.display).step e =
      ((w.step e).1.withDisplay w.display, (w.step e).2) := by
    rw [step_withDisplay, if_neg (by simp [h])]
  exact congrArg (fun result => result.1.display) hsame

theorem run_withDisplay (w : Window) (text : LooseText) (events : List Event) :
    (w.withDisplay text).run events =
      if w.setDuring events then w.run events else (w.run events).withDisplay text := by
  induction events generalizing w with
  | nil => rfl
  | cons e events ih =>
    rw [run_cons, run_cons, step_withDisplay, setDuring]
    by_cases h : w.setsDisplay e = true
    · rw [if_pos h, if_pos (by simp [h])]
    · rw [if_neg h, ih]
      simp only [h, Bool.false_or]

theorem replies_withDisplay (w : Window) (text : LooseText) (events : List Event) :
    (w.withDisplay text).replies events = w.replies events := by
  induction events generalizing w with
  | nil => rfl
  | cons e events ih =>
    rw [replies, replies, step_withDisplay]
    by_cases h : w.setsDisplay e = true
    · rw [if_pos h]
    · rw [if_neg h, ih]

/-- Until an event sets it, the display stays as it is. -/
theorem display_run (w : Window) {events : List Event} (h : w.setDuring events = false) :
    (w.run events).display = w.display := by
  induction events generalizing w with
  | nil => rfl
  | cons e events ih =>
    rw [setDuring, Bool.or_eq_false_iff] at h
    rw [run_cons, ih _ h.2, display_step h.1]

/-! ### A rejection and an empty line -/

/-- A rejection leaves the window as emptying the line does, but for the display. -/
theorem step_rejected (hline : w.input.text ≠ "")
    (hrejected : (Outcome.ofText w.input.text).ok = false) {enter escape : Event}
    (henter : enter.action? = some .equals) (hescape : escape.action? = some .clear) :
    (w.step enter).1 = (w.step escape).1.withDisplay "Error" ∧
      (w.step enter).2.handled = (w.step escape).2.handled ∧
      (w.step enter).2.fault? = (w.step escape).2.fault? ∧
      (w.step escape).1.history = w.history ∧ (w.step escape).1.display = "0" := by
  have hcleared : w.step escape = (refreshDisplay { w with input := .empty }, .report []) :=
    step_of_action? hescape
  have hstep : w.step enter = reporting w.calculate := step_of_action? henter
  cases houtcome : Outcome.ofText w.input.text with
  | success value => simp [houtcome, Outcome.ok] at hrejected
  | failure kind message =>
    rw [hstep, hcleared, calculate_of_failure hline houtcome]
    exact ⟨rfl, rfl, rfl, rfl, rfl⟩

/-- **A rejected expression has the effect of emptying the line.** If the line holds an expression
without a result, calculating it and emptying the line come to the same whatever happens then: the
line, the history with its file, the list, its selection, the focus, the keypad and all replies are
the same after every further event. The history is left as it was. The displays differ until an
event sets them: the rejection is shown instead of the empty line. -/
theorem rejection_like_clear (hline : w.input.text ≠ "")
    (hrejected : (Outcome.ofText w.input.text).ok = false) {enter escape : Event}
    (henter : enter.action? = some .equals) (hescape : escape.action? = some .clear) :
    let rejected := (w.step enter).1
    let cleared := (w.step escape).1
    rejected.display = "Error" ∧ rejected.history = w.history ∧
      (w.step enter).2.handled = (w.step escape).2.handled ∧
      (w.step enter).2.fault? = (w.step escape).2.fault? ∧
      ∀ events : List Event,
        let w₁ := rejected.run events
        let w₂ := cleared.run events
        w₁.input = w₂.input ∧ w₁.history = w₂.history ∧ w₁.lines = w₂.lines ∧
          w₁.selected = w₂.selected ∧ w₁.focusCount = w₂.focusCount ∧
          w₁.keypadShown = w₂.keypadShown ∧ rejected.replies events = cleared.replies events ∧
          if cleared.setDuring events then w₁.display = w₂.display
          else w₁.display = "Error" ∧ w₂.display = "0" := by
  intro rejected cleared
  obtain ⟨hsame, hhandled, hfault, hhistory, hempty⟩ := step_rejected hline hrejected henter hescape
  have hsame : rejected = cleared.withDisplay "Error" := hsame
  refine ⟨by rw [hsame]; rfl, by rw [hsame]; exact hhistory, hhandled, hfault, fun events => ?_⟩
  intro w₁ w₂
  have hrun : w₁ = if cleared.setDuring events then w₂ else w₂.withDisplay "Error" := by
    simp only [w₁, hsame]
    exact run_withDisplay cleared "Error" events
  have hreplies : rejected.replies events = cleared.replies events := by
    rw [hsame]
    exact replies_withDisplay cleared "Error" events
  by_cases hset : cleared.setDuring events = true
  · rw [if_pos hset] at hrun ⊢
    rw [hrun]
    exact ⟨rfl, rfl, rfl, rfl, rfl, rfl, hreplies, rfl⟩
  · rw [if_neg hset] at hrun ⊢
    have hshown : w₂.display = "0" :=
      (display_run cleared (by simpa using hset)).trans hempty
    rw [hrun]
    exact ⟨rfl, rfl, rfl, rfl, rfl, rfl, hreplies, rfl, hshown⟩

/-- A division by zero is rejected, then the history is cleared and Enter is pressed on the empty
line: the rejection is still shown. -/
theorem rejection_like_clear_of_quotient :
    let w := bare.run [.typed "1", .typed "/", .typed "0"]
    let events : List Event := [.button "Borrar historial", .shortcut .enter]
    (w.input.text ≠ "" ∧ (Outcome.ofText w.input.text).ok = false ∧
      (Event.typed "=").action? = some .equals ∧ (Event.button "C").action? = some .clear) ∧
      ((w.step (.typed "=")).1.run events).display = "Error" ∧
      ((w.step (.button "C")).1.run events).display = "0" := by
  intro w events
  have hline : w.input.text ≠ "" := by decide +kernel
  have hrejected : (Outcome.ofText w.input.text).ok = false := by decide +kernel
  have henter : (Event.typed "=").action? = some .equals := by decide
  have hescape : (Event.button "C").action? = some .clear := by decide
  obtain ⟨-, -, -, -, hevents⟩ := rejection_like_clear hline hrejected henter hescape
  obtain ⟨-, -, -, -, -, -, -, hdisplay⟩ := hevents events
  have hset : (w.step (.button "C")).1.setDuring events = false := by decide +kernel
  rw [if_neg (by simp [hset])] at hdisplay
  exact ⟨⟨hline, hrejected, henter, hescape⟩, hdisplay⟩

end DeskCalculator.Window
