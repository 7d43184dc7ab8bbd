import DeskCalculator.Json.Reading

/-!
# DeskCalculator.History.Entry

What the history remembers of one calculation, and the content of a file that keeps a list of them:
an array of objects with the members `expr` and `result`, in UTF-8.

A file can be read that cannot be written: an escape in it may name a surrogate without its partner,
which is written as it is and has no bytes.
-/

namespace DeskCalculator.History

open Json (Value)

/-- A calculation that had a result. -/
structure Entry where
  /-- The expression as it was typed. -/
  expression : LooseText
  result : LooseText
  deriving DecidableEq, Repr

/-- Why a history cannot be read or kept. -/
inductive Fault
  /-- The bytes are not UTF-8. -/
  | notText
  | malformed
  | hugeInteger
  | notAList
  | badEntry
  | isDirectory
  | noDirectory
  /-- A text that is to be written holds a surrogate without its partner. -/
  | unencodable
  deriving DecidableEq, Repr

/-- Whether a fault is one of the system that files are kept on. -/
def Fault.isOfSystem : Fault → Bool
  | .isDirectory | .noDirectory => true
  | .notText | .malformed | .hugeInteger | .notAList | .badEntry | .unencodable => false

/-- What to tell a person about a file that holds a value, but not a history. -/
def Fault.detail? : Fault → Option String
  | notAList => some "Se esperaba una lista"
  | badEntry => some "Entrada de historial inválida"
  | _ => none

/-- The fault of a file whose text is no written form of a value. -/
def Fault.ofRefusal : Json.Refusal → Fault
  | .malformed => malformed
  | .hugeInteger => hugeInteger

namespace Entry

/-- An entry as a value. -/
def toJson (entry : Entry) : Value :=
  .object [("expr", .string entry.expression), ("result", .string entry.result)]

/-- The entry that a value stands for: an object with two strings. Further members do not
matter. -/
def ofJson : Value → Except Fault Entry
  | .object members =>
    match (Value.member? "expr" members).bind Value.string?,
        (Value.member? "result" members).bind Value.string? with
    | some expression, some result => .ok ⟨expression, result⟩
    | _, _ => .error .badEntry
  | _ => .error .badEntry

@[simp] theorem ofJson_toJson (entry : Entry) : ofJson entry.toJson = .ok entry := by
  simp [toJson, ofJson, Value.member?, Value.string?]

/-- The line of the list that shows an entry. -/
def line (entry : Entry) : LooseText := entry.expression ++ " = " ++ entry.result

end Entry

/-- Some entries as a value. -/
def toJson (entries : List Entry) : Value := .array (entries.map Entry.toJson)

/-- The entries that a value stands for. One item that is none spoils the list. -/
def ofJson : Value → Except Fault (List Entry)
  | .array items => items.mapM Entry.ofJson
  | _ => .error .notAList

@[simp] theorem ofJson_toJson (entries : List Entry) : ofJson (toJson entries) = .ok entries := by
  simp only [toJson, ofJson]
  induction entries with
  | nil => rfl
  | cons entry rest ih =>
    simp only [List.map_cons, List.mapM_cons, Entry.ofJson_toJson, ih]
    rfl

/-- The text of a file that keeps some entries. -/
def fileText (entries : List Entry) : LooseText := (toJson entries).write

/-- The entries that the bytes of a file keep. -/
def decode (bytes : ByteArray) : Except Fault (List Entry) :=
  match String.fromUTF8? bytes with
  | none => .error .notText
  | some text =>
    match Json.parse text with
    | .error refusal => .error (.ofRefusal refusal)
    | .ok value => ofJson value

end DeskCalculator.History
