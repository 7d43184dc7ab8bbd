import DeskCalculator.Text.CodePoint

/-!
# DeskCalculator.Window.Keypad

The keys on the screen: six rows, each as wide as the widest, and what every key does.
-/

namespace DeskCalculator.Window

/-- What a key does. -/
inductive Action
  /-- Empties the line. -/
  | clear
  /-- Takes back the last character. -/
  | backspace
  | equals
  | insert (text : LooseText)
  /-- Does nothing; the display is refreshed nevertheless. -/
  | other
  deriving DecidableEq, Repr

/-- The action of a name; the text to type stands behind the name `insert:`. -/
def Action.ofName (name : LooseText) : Action :=
  if name = "clear" then clear
  else if name = "backspace" then backspace
  else if name = "equals" then equals
  else if ("insert:" : LooseText).points.isPrefixOf name.points then insert ⟨name.points.drop 7⟩
  else other

/-- The colours that keys of one sort share. -/
inductive KeySort
  | number
  | operation
  /-- Parentheses and the percent sign. -/
  | function
  /-- Keys that edit the line. -/
  | editing
  /-- The key for the result. -/
  | result
  deriving DecidableEq, Repr

/-- A key on the screen. -/
structure Key where
  label : String
  action : Action
  sort : KeySort
  deriving DecidableEq, Repr

/-- The rows of keys, the uppermost first. -/
def keypad : List (List Key) :=
  [[⟨"C", .clear, .editing⟩, ⟨"⌫", .backspace, .editing⟩,
    ⟨"(", .insert "(", .function⟩, ⟨")", .insert ")", .function⟩],
   [⟨"%", .insert "%", .function⟩, ⟨"÷", .insert "/", .operation⟩],
   [⟨"7", .insert "7", .number⟩, ⟨"8", .insert "8", .number⟩,
    ⟨"9", .insert "9", .number⟩, ⟨"×", .insert "*", .operation⟩],
   [⟨"4", .insert "4", .number⟩, ⟨"5", .insert "5", .number⟩,
    ⟨"6", .insert "6", .number⟩, ⟨"−", .insert "-", .operation⟩],
   [⟨"1", .insert "1", .number⟩, ⟨"2", .insert "2", .number⟩,
    ⟨"3", .insert "3", .number⟩, ⟨"+", .insert "+", .operation⟩],
   [⟨"0", .insert "0", .number⟩, ⟨".", .insert ".", .number⟩,
    ⟨"=", .equals, .result⟩]]

/-- The key with a label. -/
def keyLabelled? (label : String) : Option Key := keypad.flatten.find? fun key => key.label == label

/-- The characters that are typed as they are when pressed on a keyboard. -/
def plainKeys : List Char := "0123456789.+-*/%()".toList

/-- How many columns the keypad has: as many as its longest row has keys. -/
def columnCount : Nat := keypad.foldl (fun widest row => Nat.max widest row.length) 0

/-- Why columns cannot be shared out. -/
inductive SpanFault
  | noKeys
  | negativeKeys
  deriving DecidableEq, Repr

/-- Shares out columns among the keys of a row. All get the same number, and the last key gets the
rest in addition. -/
def columnSpans (keys columns : Int) : Except SpanFault (List Int) :=
  if keys = 0 then .error .noKeys
  else if keys < 0 then .error .negativeKeys
  else .ok (List.replicate (keys.toNat - 1) (columns.fdiv keys) ++
    [columns.fdiv keys + columns.fmod keys])

end DeskCalculator.Window
