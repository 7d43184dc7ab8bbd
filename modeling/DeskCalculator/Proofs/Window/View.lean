import DeskCalculator.Proofs.Definedness
import DeskCalculator.Proofs.Window.Faults
import DeskCalculator.Proofs.Window.Recall

/-!
# DeskCalculator.Proofs.Window.View

What the window shows of the model, and what its handlers come to.

* **The view.** No line of the list stays selected, the display shows the line of input or that an
  expression was rejected, and every line of the list is one of the history (`Showing`). Handlers
  return early in several places, so each way in which an event ends is looked at (`Passes`, and the
  two ends of a pick). The list shows all of the history as long as no fault ends a handler
  (`listed_run`).
* **Definedness.** Two operations of the handlers have no result everywhere: an outcome is there if
  the calculation is defined, and an entry if the selected line is a line of the history.
  `attemptStep` is the step with these operations as they are. It is defined in every window that
  shows its model, and is the step (`Showing.step`).

Main statements: `shows_model_until_fault`, for every start and all events, and
`list_misses_entry_of_lone_surrogate`, a file for which the list does not show the history.
-/

namespace DeskCalculator

/-- The outcome of a text, undefined where an operation of its calculation is. A surrogate is
refused by scanning, which is defined everywhere. -/
def Outcome.attempt? (text : LooseText) : Option Outcome :=
  match text.firstSurrogate? with
  | some _ => some (ofText text)
  | none =>
    (attempt text.start).run.map fun
      | .ok value => .success value
      | .error cause => .failure cause.kind cause.message

theorem Outcome.attempt?_eq (text : LooseText) : attempt? text = some (ofText text) := by
  cases hsurrogate : text.firstSurrogate? with
  | some s => rw [attempt?, hsurrogate]
  | none =>
    rw [attempt?, hsurrogate, ofText, hsurrogate]
    simp only [attempt_eq, Option.map_some]
    cases hresult : calculate text.start <;> simp [ofExpression, hresult]

namespace Window

open History (Entry Fault Storage Store keepLast)

/-! ### Handlers with operations that are not defined everywhere -/

/-- Calculates the result of the line, undefined where its outcome is. -/
def attemptCalculate (w : Window) : Option (Window × Ending) :=
  if w.input.text = "" then some (w, .ok [])
  else (Outcome.attempt? w.input.text).map w.settle

/-- Performs an action, undefined where a calculation is. -/
def attemptPerform (w : Window) : Action → Option (Window × Ending)
  | .equals => w.attemptCalculate
  | action => some (w.perform action)

/-- Recalls the entry of the selected line, which has to be a line of the history. -/
def attemptRecall (w : Window) : Option (Window × Reply) :=
  match w.selected with
  | none => some (w, .report [])
  | some line =>
    w.history.latestFirst[line]?.map fun entry => (w.recallEntry entry, ⟨true, [], none⟩)

/-- The step, undefined where one of its operations is. -/
def attemptStep (w : Window) : Event → Option (Window × Reply)
  | .typed text =>
    match typedAction? text with
    | some action => (w.attemptPerform action).map reporting
    | none => some (w, .report [])
  | .shortcut key => (w.attemptPerform key.action).map reporting
  | .button label =>
    if label = clearHistoryLabel then some (reporting w.clearHistory)
    else match keyLabelled? label with
      | some key => (w.attemptPerform key.action).map reporting
      | none => some (w, .report [])
  | .action action => (w.attemptPerform action).map reporting
  | .pick (some line) => (w.select line).attemptRecall
  | .pick none => w.attemptRecall
  | .toggle hidden => some ({ w with toggles := w.toggles ++ [hidden] }, .report [])

variable {w : Window}

theorem attemptCalculate_eq (w : Window) : w.attemptCalculate = some w.calculate := by
  rw [attemptCalculate, calculate, Outcome.attempt?_eq, Option.map_some]
  split <;> rfl

theorem attemptPerform_eq (w : Window) (action : Action) :
    w.attemptPerform action = some (w.perform action) := by
  cases action with
  | equals => exact w.attemptCalculate_eq
  | _ => rfl

/-! ### The view -/

/-- The window shows its line, and in its list nothing but lines of the history, which fits. -/
structure Showing (w : Window) : Prop where
  unselected : w.selected = none
  /-- A rejection stays on the display until the next refresh, and the line is empty. -/
  displayed : w.display = w.input.shown ∨ w.display = rejectionText ∧ w.input.text = ""
  fits : w.history.entries.length ≤ w.history.limit
  /-- Every line of the list has an entry in its place, even if a fault kept one from the list. -/
  covered : w.lines.length ≤ w.history.entries.length

/-- A list that was refreshed has as many lines as the history has entries. -/
theorem length_lines_of_listed (h : w.lines = w.history.latestFirst.map Entry.line) :
    w.lines.length = w.history.entries.length := by
  rw [h, List.length_map, Store.latestFirst, List.length_reverse]

/-- A refreshed display shows the line. -/
theorem Showing.refreshDisplay {w' : Window} (h : w.Showing) (hhistory : w'.history = w.history)
    (hlines : w'.lines = w.lines) (hselected : w'.selected = none) : w'.refreshDisplay.Showing where
  unselected := hselected
  displayed := .inl rfl
  fits := by
    show w'.history.entries.length ≤ w'.history.limit
    rw [hhistory]
    exact h.fits
  covered := by
    show w'.lines.length ≤ w'.history.entries.length
    rw [hlines, hhistory]
    exact h.covered

theorem showing_new {history : Store} (h : history.entries.length ≤ history.limit) :
    (new history).Showing where
  unselected := rfl
  displayed := .inl rfl
  fits := h
  covered := (length_lines_of_listed rfl).le

theorem fits_add (s : Store) (entry : Entry) :
    (s.add entry).1.entries.length ≤ (s.add entry).1.limit :=
  History.length_keepLast_le s.limit _

/-- Adding does not make a history shorter. -/
theorem length_le_length_add {s : Store} (h : s.entries.length ≤ s.limit) (entry : Entry) :
    s.entries.length ≤ (s.add entry).1.entries.length := by
  simp only [Store.entries_add, keepLast, List.length_drop, List.length_append,
    List.length_singleton]
  omega

theorem Showing.calculate (h : w.Showing) : w.calculate.1.Showing := by
  have hcalculation := calculation w
  generalize w.calculate = result at hcalculation
  cases hcalculation with
  | empty => exact h
  | rejected => exact ⟨h.unselected, .inr ⟨rfl, rfl⟩, h.fits, h.covered⟩
  | added => exact ⟨rfl, .inl rfl, fits_add _ _, (length_lines_of_listed rfl).le⟩
  | unsaved =>
    -- the list is as it was, and the history has not become shorter
    exact ⟨h.unselected, h.displayed, fits_add _ _, h.covered.trans (length_le_length_add h.fits _)⟩

theorem Showing.perform (h : w.Showing) (action : Action) : (w.perform action).1.Showing := by
  cases action with
  | equals => exact h.calculate
  | _ => exact h.refreshDisplay rfl rfl h.unselected

theorem Showing.clearHistory (h : w.Showing) : w.clearHistory.1.Showing := by
  obtain ⟨notices, -, hcleared⟩ := clearHistory_eq w
  rw [hcleared]
  exact ⟨rfl, h.displayed, Nat.zero_le _, (length_lines_of_listed rfl).le⟩

/-! ### Events other than picks -/

/-- What an event that picks no line does: its handler reports, and the event passes on. -/
inductive Passes (w : Window) : Window × Reply → Prop
  | ignored : Passes w (w, .report [])
  | performed (action : Action) : Passes w (reporting (w.perform action))
  | cleared : Passes w (reporting w.clearHistory)
  | toggled (hidden : Bool) : Passes w ({ w with toggles := w.toggles ++ [hidden] }, .report [])

/-- An event that picks no line has a result in every window. -/
theorem passes_step (w : Window) {e : Event} (he : ∀ line, e ≠ .pick line) :
    w.attemptStep e = some (w.step e) ∧ Passes w (w.step e) := by
  have hperform : ∀ action, (w.attemptPerform action).map reporting =
        some (reporting (w.perform action)) ∧ Passes w (reporting (w.perform action)) := by
    intro action
    rw [attemptPerform_eq, Option.map_some]
    exact ⟨rfl, .performed action⟩
  cases e with
  | typed text =>
    rw [attemptStep, step]
    cases typedAction? text with
    | none => exact ⟨rfl, .ignored⟩
    | some action => exact hperform action
  | shortcut key => exact hperform key.action
  | button label =>
    rw [attemptStep, step]
    split
    · exact ⟨rfl, .cleared⟩
    · cases keyLabelled? label with
      | none => exact ⟨rfl, .ignored⟩
      | some key => exact hperform key.action
  | action action => exact hperform action
  | pick line => exact absurd rfl (he line)
  | toggle hidden => exact ⟨rfl, .toggled hidden⟩

theorem handled_ofEnding (ending : Ending) : (Reply.ofEnding ending).handled = false := by
  cases ending <;> rfl

theorem Passes.handled {result : Window × Reply} (h : Passes w result) :
    result.2.handled = false := by
  cases h with
  | performed action => exact handled_ofEnding _
  | cleared => exact handled_ofEnding _
  | _ => rfl

theorem Passes.showing {result : Window × Reply} (hresult : Passes w result) (h : w.Showing) :
    result.1.Showing := by
  cases hresult with
  | ignored => exact h
  | performed action => exact h.perform action
  | cleared => exact h.clearHistory
  | toggled hidden => exact ⟨h.unselected, h.displayed, h.fits, h.covered⟩

/-! ### Picks -/

/-- A line that exists is that of an entry, which is recalled. -/
theorem Showing.exists_step_pick (h : w.Showing) {i : Int} (hi : 0 ≤ i ∧ i < w.lines.length) :
    ∃ entry, w.step (.pick (some i)) = (w.recallEntry entry, ⟨true, [], none⟩) ∧
      w.attemptStep (.pick (some i)) = some (w.recallEntry entry, ⟨true, [], none⟩) := by
  obtain ⟨entry, -, hentry, hstep⟩ := Window.exists_step_pick h.covered hi
  refine ⟨entry, hstep, ?_⟩
  rw [attemptStep, select, if_pos hi, attemptRecall]
  simp only [hentry, Option.map_some]
  rfl

/-- A pick without a line, or of a line that does not exist, leaves the window as it is. -/
theorem Showing.step_pick (h : w.Showing) {line : Option Int}
    (hline : ∀ i, line = some i → ¬ (0 ≤ i ∧ i < w.lines.length)) :
    w.step (.pick line) = (w, .report []) ∧
      w.attemptStep (.pick line) = some (w, .report []) := by
  have hnothing : w.recallSelected = (w, .report []) ∧
      w.attemptRecall = some (w, .report []) := by
    rw [recallSelected, attemptRecall, h.unselected]
    exact ⟨rfl, rfl⟩
  cases line with
  | none => exact hnothing
  | some i =>
    have hselect : w.select i = w := by
      have hselected := h.unselected
      rw [select, if_neg (hline i rfl)]
      cases w
      simp_all
    rw [step, attemptStep, hselect]
    exact hnothing

/-! ### One event -/

/-- **One event** has a result, keeps what is shown with the model, and ends with its handler
exactly if it picks a line that exists. -/
theorem Showing.step (h : w.Showing) (e : Event) :
    w.attemptStep e = some (w.step e) ∧ (w.step e).1.Showing ∧
      ((w.step e).2.handled = true ↔
        ∃ i : Int, e = .pick (some i) ∧ 0 ≤ i ∧ i < w.lines.length) := by
  by_cases hpick : ∃ line, e = .pick line
  · obtain ⟨line, rfl⟩ := hpick
    by_cases hline : ∃ i : Int, line = some i ∧ 0 ≤ i ∧ i < w.lines.length
    · obtain ⟨i, rfl, hi⟩ := hline
      obtain ⟨entry, hstep, hattempt⟩ := h.exists_step_pick hi
      rw [hstep, hattempt]
      exact ⟨rfl, h.refreshDisplay rfl rfl rfl, fun _ => ⟨i, rfl, hi⟩, fun _ => rfl⟩
    · obtain ⟨hstep, hattempt⟩ := h.step_pick fun i hi hlt => hline ⟨i, hi, hlt⟩
      rw [hstep, hattempt]
      refine ⟨rfl, h, fun hhandled => absurd hhandled (by simp [Reply.report]), ?_⟩
      intro hvalid
      obtain ⟨i, hi, hlt⟩ := hvalid
      exact absurd ⟨i, Event.pick.inj hi, hlt⟩ hline
  · obtain ⟨hattempt, hpasses⟩ := passes_step w fun line hline => hpick ⟨line, hline⟩
    refine ⟨hattempt, hpasses.showing h, fun hhandled => ?_, fun hvalid => ?_⟩
    · rw [hpasses.handled] at hhandled
      exact absurd hhandled (by simp)
    · obtain ⟨i, hi, -⟩ := hvalid
      exact absurd ⟨_, hi⟩ hpick

/-! ### All events -/

/-- The ways in which the calculator is opened. -/
inductive Start
  /-- Without a place for a history file. -/
  | bare
  /-- Over a history file with this content, or over none. -/
  | withFile (file : Option ByteArray)

/-- The window that is opened. -/
def Start.window : Start → Window
  | bare => Window.bare
  | withFile file => (launch file).1

/-- Whether no entry of the history file has a surrogate in it. -/
def Start.IsScalar : Start → Prop
  | bare => True
  | withFile file => Storage.IsScalar ⟨.file, file⟩

theorem Start.showing_window (start : Start) : start.window.Showing := by
  cases start with
  | bare => exact showing_new (Nat.zero_le _)
  | withFile file => exact showing_new (synced_launch file).kept.fits

theorem Start.listed_window (start : Start) :
    start.window.lines = start.window.history.latestFirst.map Entry.line := by
  cases start <;> rfl

theorem Start.IsScalar.history {start : Start} (h : start.IsScalar) :
    start.window.history.IsScalar := by
  cases start with
  | bare =>
    have hmemory : Storage.IsScalar ⟨.memory, none⟩ := List.forall_mem_nil _
    exact Store.isScalar_new hmemory Store.defaultLimit
  | withFile file => exact isScalar_launch h

theorem Showing.run (h : w.Showing) (events : List Event) : (w.run events).Showing :=
  run_invariant (P := Showing) (fun _ e _ h => (h.step e).2.1) (fun _ _ => trivial) h

/-- As long as no fault ends a handler, the list shows the history. -/
theorem listed_run (h : w.lines = w.history.latestFirst.map Entry.line) {events : List Event}
    (hended : ∀ reply ∈ w.replies events, reply.fault? = none) :
    (w.run events).lines = (w.run events).history.latestFirst.map Entry.line := by
  refine run_invariant_of_ended (P := fun w => w.lines = w.history.latestFirst.map Entry.line)
    (fun w e hended h => ?_) hended h
  have hchange := historyChange_step w e
  rw [hended] at hchange
  exact hchange.listed h

/-- **The window shows the model until a fault ends a handler.** However the window was opened and
whatever happened in it:

* No line of the list is selected; the display shows the line, or that an expression was rejected,
  and then the line is empty; and the history has no more entries than it may have.
* As long as no fault ended a handler, the list shows the history, the newest entry first. None ever
  does if no entry of the history file at the start has a surrogate in it.
* Every further event has a result, and ends with its handler exactly if it picks a line that
  exists. A fault ends it exactly if it calculates a line whose result cannot be saved. Then the
  history has the new entry, the file is empty, and line, list and display are as they were.

(Reading is without the nesting limit that a reader of files may have.) -/
theorem shows_model_until_fault (start : Start) (events : List Event) :
    let w := start.window.run events
    (w.selected = none ∧
      (w.display = w.input.shown ∨ w.display = "Error" ∧ w.input.text = "") ∧
      w.history.entries.length ≤ w.history.limit) ∧
    ((∀ reply ∈ start.window.replies events, reply.fault? = none) →
      w.lines = w.history.entries.reverse.map
        fun entry => entry.expression ++ (" = " : LooseText) ++ entry.result) ∧
    (start.IsScalar → ∀ reply ∈ start.window.replies events, reply.fault? = none) ∧
    ∀ e, w.attemptStep e = some (w.step e) ∧
      ((w.step e).2.handled = true ↔
        ∃ i : Int, e = .pick (some i) ∧ 0 ≤ i ∧ i < w.lines.length) ∧
      (∀ fault, (w.step e).2.fault? = some fault ↔
        e.action? = some .equals ∧ fault = .unencodable ∧ w.Unsavable) ∧
      ((w.step e).2.fault? ≠ none → Interrupted w (w.step e).1) := by
  intro w
  have h : w.Showing := start.showing_window.run events
  refine ⟨⟨h.unselected, h.displayed, h.fits⟩, fun hended => ?_, fun hscalar => ?_, fun e => ?_⟩
  · exact listed_run start.listed_window hended
  · exact (isScalar_run hscalar.history events).1
  · obtain ⟨hattempt, -, hhandled⟩ := h.step e
    refine ⟨hattempt, hhandled, fun fault => fault?_step_iff, fun hfault => ?_⟩
    obtain ⟨fault, hfault⟩ := Option.ne_none_iff_exists'.mp hfault
    exact interrupted_step hfault

/-- A history file that names a surrogate without its partner. -/
def loneSurrogateFile : ByteArray :=
  "[\x7b\"expr\": \"\\udc80\", \"result\": \"1\"\x7d]".toUTF8

/-- Without a file a one is calculated, and the list shows it. Over a file with a surrogate the list
shows the history as well, until a one is calculated. -/
theorem shows_model_until_fault_of_one :
    Start.bare.IsScalar ∧
    (Start.bare.window.run [.typed "1", .shortcut .enter]).lines = ["1 = 1"] ∧
    let w := (Start.withFile (some loneSurrogateFile)).window.run [.typed "1"]
    w.lines = w.history.entries.reverse.map Entry.line ∧ w.Unsavable ∧
      Interrupted w (w.step (.shortcut .enter)).1 := by
  obtain ⟨-, hlines, hended, -⟩ := shows_model_until_fault .bare [.typed "1", .shortcut .enter]
  have hentries : (Start.bare.window.run [.typed "1", .shortcut .enter]).history.entries =
      [⟨"1", "1"⟩] := by decide +kernel
  have hshown := hlines (hended trivial)
  rw [hentries] at hshown
  refine ⟨trivial, hshown, ?_⟩
  obtain ⟨-, hlines, -, hevents⟩ :=
    shows_model_until_fault (.withFile (some loneSurrogateFile)) [.typed "1"]
  obtain ⟨-, -, hfault, hinterrupted⟩ := hevents (.shortcut .enter)
  have hunsaved : (((Start.withFile (some loneSurrogateFile)).window.run [.typed "1"]).step
      (.shortcut .enter)).2.fault? = some .unencodable := by decide +kernel
  refine ⟨hlines ?_, ((hfault .unencodable).mp hunsaved).2.2,
    hinterrupted (Option.ne_none_iff_exists'.mpr ⟨_, hunsaved⟩)⟩
  decide +kernel

/-- **The list need not show the history.** A history file names a surrogate without its partner, a
one is typed, and Enter is pressed: a fault ends the handler, the history has an entry that the list
does not show, and the file is empty. -/
theorem list_misses_entry_of_lone_surrogate :
    let w := (Start.withFile (some loneSurrogateFile)).window.run [.typed "1", .shortcut .enter]
    (∃ reply ∈ (Start.withFile (some loneSurrogateFile)).window.replies
        [.typed "1", .shortcut .enter], reply.fault? = some .unencodable) ∧
      w.history.entries.length = 2 ∧ w.lines.length = 1 ∧
      w.lines ≠ w.history.entries.reverse.map Entry.line ∧
      w.input.text = "1" ∧ w.history.storage.file = some .empty := by
  decide +kernel

end Window

end DeskCalculator
