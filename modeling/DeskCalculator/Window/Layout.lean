import DeskCalculator.Window.State

/-!
# DeskCalculator.Window.Layout

What the window is made of: its parts in the order in which they are made, the container of each,
how each looks, where each is placed, and which keys and clicks it listens to. Parts are numbered
in that order from zero, the window itself.

Only three things depend on what happened: the display, the mark of the check box, and the
record of the times that the keypad was taken away and put back.
-/

namespace DeskCalculator.Window.Layout

/-- The kinds of parts. -/
inductive Kind
  | window
  /-- A container. -/
  | frame
  | label
  | checkBox
  | button
  | listBox
  deriving DecidableEq, Repr

/-- A colour: its red, green and blue parts in hexadecimal digits. -/
abbrev Colour := String

/-- The colour behind everything that has none of its own. -/
def background : Colour := "#1E1E2E"

/-- The colour behind the display and the list. -/
def screenBackground : Colour := "#181825"

/-- The colour of the display. -/
def resultColour : Colour := "#A6E3A1"

/-- The colour of the history. -/
def expressionColour : Colour := "#BAC2DE"

/-- The colour behind what is pressed or selected. -/
def accent : Colour := "#585B70"

/-- The colour behind the keys of a sort. -/
def keyBackground : KeySort → Colour
  | .number => "#313244"
  | .operation => "#F38BA8"
  | .function => "#45475A"
  | .editing => accent
  | .result => "#89B4FA"

/-- The colour of the labels on the keys of a sort. -/
def keyColour : KeySort → Colour
  | .number | .function | .editing => "#CDD6F4"
  | .operation | .result => "#1E1E2E"

/-- The letters of a text. -/
structure Font where
  family : String
  size : Nat
  bold : Bool
  deriving DecidableEq, Repr

/-- The letters of the display. -/
def displayFont : Font := ⟨"Consolas", 22, true⟩

/-- The letters on the keys. -/
def keyFont : Font := ⟨"Segoe UI", 15, false⟩

/-- The letters of labels. -/
def smallFont : Font := ⟨"Segoe UI", 11, false⟩

/-- The letters of the list. -/
def listFont : Font := ⟨"Consolas", 11, false⟩

/-- How a part looks. -/
inductive Property
  | background (colour : Colour)
  | foreground (colour : Colour)
  /-- The colour behind it while it is pressed. -/
  | activeBackground (colour : Colour)
  /-- The colour behind a selected line. -/
  | selectBackground (colour : Colour)
  /-- The colour of the field for the mark. -/
  | markBackground (colour : Colour)
  | font (font : Font)
  /-- A fixed text. -/
  | text (text : String)
  /-- A text that changes, and what it is now. -/
  | shownText (text : LooseText)
  /-- A mark that changes, and whether it is set now. -/
  | mark (set : Bool)
  | rightAligned
  /-- Space inside, to the left and right. -/
  | innerSpaceX (points : Nat)
  /-- Space inside, above and below. -/
  | innerSpaceY (points : Nat)
  /-- How many lines it shows. -/
  | height (lines : Nat)
  | flat
  | takesNoFocus
  | handCursor
  /-- Its current line is not marked. -/
  | unmarkedLine
  /-- It does something when pressed. -/
  | command
  deriving DecidableEq, Repr

/-- The directions in which a part fills its room. -/
inductive Fill
  | width
  | both
  deriving DecidableEq, Repr

/-- The edges that a part can be put at. -/
inductive Edge
  | left
  | right
  deriving DecidableEq, Repr

/-- How a part is put below or beside the parts before it. -/
structure Packing where
  /-- How it fills its room, if it does. -/
  fill : Option Fill := none
  /-- Whether it takes the room that is left. -/
  expand : Bool := false
  /-- The edge it is put at, if not the upper one. -/
  edge : Option Edge := none
  spaceX : Option Nat := none
  spaceY : Option (Nat × Nat) := none
  /-- The part that it is put before, if it is not put last. -/
  before : Option Nat := none
  deriving DecidableEq, Repr

/-- A place among rows and columns. -/
structure Cell where
  row : Nat
  /-- The first column. -/
  column : Nat
  span : Nat
  deriving DecidableEq, Repr

/-- A step of placing a part or shaping the room for others in it. -/
inductive Placement
  | size (width height : Nat)
  | leastSize (width height : Nat)
  | title (text : String)
  | background (colour : Colour)
  /-- The size of the window cannot be changed by hand. -/
  | fixedSize
  | packed (packing : Packing)
  | unpacked
  | cell (cell : Cell)
  /-- A column of cells shares the width evenly with the others. -/
  | column (index : Nat)
  | row (index : Nat)
  deriving DecidableEq, Repr

/-- What a part listens to. -/
inductive Gesture
  | anyKey
  /-- A physical key with an action of its own. -/
  | shortcut (key : Shortcut)
  | click
  deriving DecidableEq, Repr

/-- A part of the window. -/
structure Part where
  kind : Kind
  /-- The part that contains it; none for the window. -/
  parent : Option Nat
  properties : List Property
  /-- How it was placed, in order. -/
  placements : List Placement
  gestures : List Gesture := []
  deriving DecidableEq, Repr

/-! ## The parts -/

/-- The number of the container of the display. -/
def displayFrame : Nat := 1

/-- The number of the container of the check box. -/
def checkBoxFrame : Nat := 3

/-- The number of the container of the keys. -/
def keypadFrame : Nat := 5

/-- The number of the container of the history, which follows the keys. -/
def historyFrame : Nat := keypadFrame + 1 + keypad.flatten.length

/-- The window. It is given a size only when the calculator opens it over its file. -/
def windowPart (sized : Bool) : Part where
  kind := .window
  parent := none
  properties := []
  placements :=
    (if sized then [.size 360 640, .leastSize 320 560] else []) ++
      [.title "Calculadora", .background background, .fixedSize]
  gestures :=
    [.shortcut .backspace, .shortcut .escape, .shortcut .blockEnter, .anyKey, .shortcut .enter]

/-- The display and its container. -/
def displayParts (w : Window) : List Part :=
  [{ kind := .frame
     parent := some 0
     properties := [.background screenBackground, .innerSpaceX 12, .innerSpaceY 8]
     placements := [.packed { fill := some .width, spaceX := some 6, spaceY := some (6, 2) }] },
   { kind := .label
     parent := some displayFrame
     properties :=
       [.shownText w.display, .font displayFont, .background screenBackground,
        .foreground resultColour, .rightAligned]
     placements := [.packed { fill := some .width, spaceY := some (4, 4) }] }]

/-- The check box that hides the keypad, and its container. -/
def checkBoxParts (w : Window) : List Part :=
  [{ kind := .frame
     parent := some 0
     properties := [.background background]
     placements := [.packed { fill := some .width, spaceX := some 6, spaceY := some (2, 2) }] },
   { kind := .checkBox
     parent := some checkBoxFrame
     properties :=
       [.text "Solo teclado", .font smallFont, .mark !w.keypadShown, .background background,
        .foreground (keyColour .editing), .markBackground (keyBackground .function),
        .activeBackground background, .command]
     placements := [.packed { edge := some .left }] }]

/-- How the container of the keys is placed. -/
def keypadPacking : Packing :=
  { fill := some .both, expand := true, spaceX := some 6, spaceY := some (2, 6) }

/-- The container of the keys. Every use of the check box takes it away or puts it back to its
place above the history. -/
def keypadPart (w : Window) : Part where
  kind := .frame
  parent := some 0
  properties := [.background background]
  placements :=
    .packed keypadPacking :: (List.range columnCount).map .column ++
      (List.range keypad.length).map .row ++
      w.toggles.map fun hidden =>
        if hidden then .unpacked else .packed { keypadPacking with before := some historyFrame }

/-- A key of the screen at its place. -/
def keyPart (key : Key) (cell : Cell) : Part where
  kind := .button
  parent := some keypadFrame
  properties :=
    [.text key.label, .font keyFont, .background (keyBackground key.sort),
     .foreground (keyColour key.sort), .activeBackground accent, .flat, .takesNoFocus, .command]
  placements := [.cell cell]

/-- The cells of a row, given how many columns each takes; they follow each other. -/
def cells (row : Nat) : Nat → List Int → List Cell
  | _, [] => []
  | column, span :: rest =>
    ⟨row, column, span.toNat⟩ :: cells row (column + span.toNat) rest

/-- The keys of a row, side by side. -/
def rowParts (row : Nat) (keys : List Key) : List Part :=
  match columnSpans keys.length columnCount with
  | .ok spans => List.zipWith keyPart keys (cells row 0 spans)
  | .error _ => []

/-- The keys of all rows. -/
def keyParts : List Part := (keypad.mapIdx rowParts).flatten

/-- The history: its container, its heading with the button that empties it, and its list. -/
def historyParts : List Part :=
  [{ kind := .frame
     parent := some 0
     properties := [.background background]
     placements := [.packed { fill := some .both, spaceX := some 6, spaceY := some (0, 6) }] },
   { kind := .frame
     parent := some historyFrame
     properties := [.background background]
     placements := [.packed { fill := some .width }] },
   { kind := .label
     parent := some (historyFrame + 1)
     properties :=
       [.text "Historial", .font smallFont, .background background,
        .foreground expressionColour]
     placements := [.packed { edge := some .left }] },
   { kind := .button
     parent := some (historyFrame + 1)
     properties :=
       [.text clearHistoryLabel, .font smallFont, .background (keyBackground .function),
        .foreground (keyColour .function), .activeBackground accent, .flat, .handCursor,
        .takesNoFocus, .command]
     placements := [.packed { edge := some .right }] },
   { kind := .listBox
     parent := some historyFrame
     properties :=
       [.height 6, .font listFont, .background screenBackground, .foreground expressionColour,
        .selectBackground accent, .flat, .unmarkedLine]
     placements := [.packed { fill := some .both, expand := true, spaceY := some (4, 0) }]
     gestures := [.click, .shortcut .enter] }]

/-- All parts of the window, in the order in which they are made. -/
def parts (sized : Bool) (w : Window) : List Part :=
  windowPart sized :: displayParts w ++ checkBoxParts w ++ keypadPart w :: keyParts ++ historyParts

end DeskCalculator.Window.Layout
