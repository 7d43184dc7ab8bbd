import DeskCalculator.History.Store
import DeskCalculator.Input
import DeskCalculator.Window.Keypad

/-!
# DeskCalculator.Window.State

The window of the calculator and what every event does to it.

* **The model** is the line and the history. **The view** is what the window shows of them: the
  display and the list, which handlers refresh where they change the model.
* **A rejected expression** empties the line and leaves a word on the display that the next
  refresh takes away.
* **The list** shows the history, the latest entry first. Picking a line puts its expression on the
  line again and gives the keyboard back to the window, so that Enter calculates it.
* **Faults.** A fault that ends the saving of the history ends the handler that changed it: the
  history has changed then, and the view has not.
-/

namespace DeskCalculator

open History (Entry Store)

/-- What a window holds and shows. -/
structure Window where
  input : Input
  history : Store
  display : LooseText
  /-- The lines of the list. -/
  lines : List LooseText
  selected : Option Nat
  /-- How often the keyboard was given back to the window. -/
  focusCount : Nat
  /-- Every use of the check box, the latest last: whether the keypad was to be hidden. -/
  toggles : List Bool

namespace Window

/-- The physical keys with an action of their own. -/
inductive Shortcut
  | enter
  /-- Enter on the number block, for the result. -/
  | blockEnter
  | backspace
  | escape
  deriving DecidableEq, Repr

/-- What a physical key does. -/
def Shortcut.action : Shortcut → Action
  | enter => .equals
  | blockEnter => .equals
  | backspace => .backspace
  | escape => .clear

/-- What can happen to a window. -/
inductive Event
  /-- A key is pressed that types this text; some keys type nothing. -/
  | typed (text : LooseText)
  | shortcut (key : Shortcut)
  | button (label : String)
  | action (action : Action)
  /-- A line of the list is picked; without a line, whatever is selected is picked. A line that
  does not exist takes the selection away. -/
  | pick (line : Option Int)
  /-- The check box is set, to hide the keypad or to show it. -/
  | toggle (hidden : Bool)
  deriving DecidableEq, Repr

/-- What an event comes to, beside its effect on the window. -/
structure Reply where
  /-- Whether the event ends with the handler and is not passed on. -/
  handled : Bool
  notices : List Notice
  /-- The fault that has ended the handler before its end. -/
  fault? : Option History.Fault
  deriving DecidableEq, Repr

/-- A reply that reports and lets the event pass on. -/
def Reply.report (notices : List Notice) : Reply := ⟨false, notices, none⟩

/-- The reply of a handler that only reports. -/
def Reply.ofEnding : Ending → Reply
  | .ok notices => report notices
  | .error fault => ⟨false, [], some fault⟩

/-- What the display shows when an expression is rejected. -/
def rejectionText : String := "Error"

/-- The label of the button that clears the history. -/
def clearHistoryLabel : String := "Borrar historial"

/-! ## Refreshing the view -/

/-- Shows the line on the display. -/
def refreshDisplay (w : Window) : Window := { w with display := w.input.shown }

/-- Shows the history in the list. The selection goes with the old lines. -/
def refreshList (w : Window) : Window :=
  { w with lines := w.history.latestFirst.map Entry.line, selected := none }

/-- Puts a result on the line, and shows the history that has changed with it. -/
def showResult (w : Window) (value : String) : Window :=
  refreshDisplay { refreshList w with input := w.input.set value }

/-- Whether the keypad is shown: the latest use of the check box decides. -/
def keypadShown (w : Window) : Bool := w.toggles.getLast? != some true

/-- A window over a history, with an empty line. -/
def new (history : Store) : Window :=
  refreshDisplay (refreshList ⟨.empty, history, "0", [], none, 0, []⟩)

/-- A window whose history lasts as long as the window. -/
def bare : Window := new (.new ⟨.memory, none⟩ Store.defaultLimit)

/-- How many entries the history file keeps. -/
def fileLimit : Int := 200

/-- The window that the calculator opens over its history file. -/
def launch (file : Option ByteArray) : Window × List Notice :=
  let (history, notices) := (Store.new ⟨.file, file⟩ fileLimit).load
  (new history, notices)

/-! ## Handlers -/

/-- Goes on with a history that was changed and saved. If a fault has ended the saving, it ends the
handler as well, and only the history has changed. -/
def continueWith (w : Window) (saved : Store × Ending) (rest : Window → Window) :
    Window × Ending :=
  let w := { w with history := saved.1 }
  match saved.2 with
  | .ok notices => (rest w, .ok notices)
  | .error fault => (w, .error fault)

/-- What becomes of a window when the expression on its line has come to an outcome. -/
def settle (w : Window) (outcome : Outcome) : Window × Ending :=
  match outcome with
  | .failure kind _ =>
    ({ w with input := w.input.clear, display := rejectionText },
      .ok (outcome.notices w.input.text ++ [.expressionRejected w.input.text kind]))
  | .success value =>
    w.continueWith (w.history.add ⟨w.input.text, value⟩) fun w => w.showResult value

/-- Calculates the result of the line. An empty line is left alone. -/
def calculate (w : Window) : Window × Ending :=
  if w.input.text = "" then (w, .ok []) else w.settle (Outcome.ofText w.input.text)

/-- Performs an action. -/
def perform (w : Window) : Action → Window × Ending
  | .clear => (refreshDisplay { w with input := w.input.clear }, .ok [])
  | .backspace => (refreshDisplay { w with input := w.input.backspace }, .ok [])
  | .equals => w.calculate
  | .insert text => (refreshDisplay { w with input := (w.input.press text).1 }, .ok [])
  | .other => (refreshDisplay w, .ok [])

/-- The action of a key that types a text. -/
def typedAction? (text : LooseText) : Option Action :=
  if text = "=" then some .equals
  else match text.points with
    | [.char c] => if plainKeys.contains c then some (.insert text) else none
    | _ => none

/-- Drops the entries of the history. -/
def clearHistory (w : Window) : Window × Ending := w.continueWith w.history.clear refreshList

/-- Selects a line of the list; a line that does not exist takes the selection away. -/
def select (w : Window) (line : Int) : Window :=
  if 0 ≤ line ∧ line < w.lines.length then { w with selected := some line.toNat }
  else { w with selected := none }

/-- Puts the expression of the selected line on the line of input. The selection goes, and the
keyboard is given back to the window. -/
def recallSelected (w : Window) : Window × Reply :=
  match w.selected.bind fun line => w.history.latestFirst[line]? with
  | none => (w, .report [])
  | some entry =>
    (refreshDisplay
      { w with
        input := w.input.set entry.expression
        selected := none
        focusCount := w.focusCount + 1 },
      ⟨true, [], none⟩)

/-- Runs a handler that only reports. -/
def reporting (result : Window × Ending) : Window × Reply := (result.1, .ofEnding result.2)

/-- What an event does to a window, and the reply of its handler. -/
def step (w : Window) : Event → Window × Reply
  | .typed text =>
    match typedAction? text with
    | some action => reporting (w.perform action)
    | none => (w, .report [])
  | .shortcut key => reporting (w.perform key.action)
  | .button label =>
    if label = clearHistoryLabel then reporting w.clearHistory
    else match keyLabelled? label with
      | some key => reporting (w.perform key.action)
      | none => (w, .report [])
  | .action action => reporting (w.perform action)
  | .pick (some line) => (w.select line).recallSelected
  | .pick none => w.recallSelected
  | .toggle hidden => ({ w with toggles := w.toggles ++ [hidden] }, .report [])

/-- What some events do to a window, one after the other. A fault that ends a handler does not end
the window. -/
def run (w : Window) (events : List Event) : Window := events.foldl (fun w e => (w.step e).1) w

@[simp] theorem run_nil (w : Window) : w.run [] = w := rfl

@[simp] theorem run_cons (w : Window) (e : Event) (events : List Event) :
    w.run (e :: events) = (w.step e).1.run events := rfl

end Window

end DeskCalculator
