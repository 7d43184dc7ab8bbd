/-!
# DeskCalculator.Text.CodePoint

Texts as a file can make them. Most texts of the calculator are strings of characters. But an escape
in a file names a code point, and some code points are no characters: the surrogates, two of which
stand for one character in UTF-16. A text that was read may hold a surrogate without its partner.

* **Code points** are characters and surrogates.
* **Loose texts** are rows of code points. A string is one; a loose text that holds a surrogate is
  no string, and has no bytes in UTF-8.
* **Hexadecimal digits** are what escapes name code points with: written in lower case, read in
  either.
-/

namespace DeskCalculator

/-! ## Code points -/

/-- One half of a pair that stands for a character in UTF-16. -/
structure Surrogate where
  /-- The number of the code point. -/
  code : Nat
  le_code : 0xD800 ≤ code
  code_lt : code < 0xE000
  deriving DecidableEq, Repr

/-- Whether a surrogate is the first half of a pair, and not the second one. -/
def Surrogate.isHigh (s : Surrogate) : Bool := s.code < 0xDC00

/-- What a text may consist of. -/
inductive CodePoint
  | char (c : Char)
  | surrogate (s : Surrogate)
  deriving DecidableEq, Repr

/-- A character is a code point. -/
instance : Coe Char CodePoint := ⟨.char⟩

/-! ## Loose texts -/

/-- A text that may hold surrogates without their partners. -/
structure LooseText where
  /-- The code points, in order. -/
  points : List CodePoint
  deriving DecidableEq, Repr

namespace LooseText

/-- A string as a loose text. -/
def ofString (text : String) : LooseText := ⟨text.toList.map .char⟩

/-- A string may stand wherever a text may. -/
instance : Coe String LooseText := ⟨ofString⟩

/-- Texts are joined by their code points. Two surrogates that come to stand side by side do not
become a character. -/
instance : Append LooseText := ⟨fun a b => ⟨a.points ++ b.points⟩⟩

/-- The characters before the first surrogate. -/
def leadingChars : List CodePoint → List Char
  | .char c :: rest => c :: leadingChars rest
  | _ => []

/-- The first surrogate of some code points. -/
def findSurrogate? : List CodePoint → Option Surrogate
  | [] => none
  | .char _ :: rest => findSurrogate? rest
  | .surrogate s :: _ => some s

/-- What stands before the first surrogate of a text. -/
def start (text : LooseText) : String := String.ofList (leadingChars text.points)

/-- The first surrogate of a text. -/
def firstSurrogate? (text : LooseText) : Option Surrogate := findSurrogate? text.points

/-- The text as a string, if it holds no surrogate. -/
def string? (text : LooseText) : Option String :=
  match text.firstSurrogate? with
  | none => some text.start
  | some _ => none

/-- The bytes of a text in UTF-8, which has none for surrogates. -/
def toUTF8? (text : LooseText) : Option ByteArray := text.string?.map String.toUTF8

/-- A text without surrogates. Its code points are Unicode scalar values. -/
def IsScalar (text : LooseText) : Prop := ∃ string : String, text = string

theorem points_ofString (text : String) : (text : LooseText).points = text.toList.map .char := rfl

theorem ofString_ofList (chars : List Char) :
    (String.ofList chars : LooseText) = ⟨chars.map .char⟩ := by
  show (⟨(String.ofList chars).toList.map .char⟩ : LooseText) = _
  rw [String.toList_ofList]

theorem ofString_singleton (c : Char) : (String.singleton c : LooseText) = ⟨[c]⟩ := by
  rw [String.singleton_eq_ofList, ofString_ofList]
  rfl

theorem leadingChars_map_char (chars : List Char) : leadingChars (chars.map .char) = chars := by
  induction chars with
  | nil => rfl
  | cons c chars ih => exact congrArg (c :: ·) ih

theorem findSurrogate?_map_char (chars : List Char) : findSurrogate? (chars.map .char) = none := by
  induction chars with
  | nil => rfl
  | cons c chars ih => exact ih

/-- Code points without a surrogate are the characters that they begin with. -/
theorem eq_map_leadingChars {points : List CodePoint} (h : findSurrogate? points = none) :
    points = (leadingChars points).map .char := by
  fun_induction findSurrogate? points with
  | case1 => rfl
  | case2 c rest ih => exact congrArg (CodePoint.char c :: ·) (ih h)
  | case3 s rest => exact absurd h (by simp)

@[simp] theorem start_ofString (text : String) : (text : LooseText).start = text := by
  rw [start, points_ofString, leadingChars_map_char, String.ofList_toList]

@[simp] theorem firstSurrogate?_ofString (text : String) :
    (text : LooseText).firstSurrogate? = none :=
  findSurrogate?_map_char text.toList

/-- A text without a surrogate is what stands before the first one. -/
theorem eq_ofString_start {text : LooseText} (h : text.firstSurrogate? = none) :
    text = text.start := by
  show text = ⟨(String.ofList (leadingChars text.points)).toList.map .char⟩
  rw [String.toList_ofList, ← eq_map_leadingChars h]

@[simp] theorem ofString_inj {a b : String} : (a : LooseText) = b ↔ a = b := by
  refine ⟨fun h => ?_, congrArg _⟩
  rw [← start_ofString a, h, start_ofString]

theorem string?_eq_some_iff {text : LooseText} {string : String} :
    text.string? = some string ↔ text = string := by
  constructor
  · intro h
    rw [string?] at h
    split at h
    · rename_i hnone
      rw [← Option.some.inj h]
      exact eq_ofString_start hnone
    · exact absurd h (by simp)
  · rintro rfl
    rw [string?, firstSurrogate?_ofString, start_ofString]

theorem toUTF8?_eq_some_iff {text : LooseText} {bytes : ByteArray} :
    text.toUTF8? = some bytes ↔ ∃ string : String, text = string ∧ string.toUTF8 = bytes := by
  simp only [toUTF8?, Option.map_eq_some_iff, string?_eq_some_iff]

/-! ### Texts without surrogates -/

theorem isScalar_ofString (text : String) : (text : LooseText).IsScalar := ⟨text, rfl⟩

theorem isScalar_iff_firstSurrogate? {text : LooseText} :
    text.IsScalar ↔ text.firstSurrogate? = none := by
  constructor
  · rintro ⟨string, rfl⟩
    exact firstSurrogate?_ofString string
  · exact fun h => ⟨text.start, eq_ofString_start h⟩

theorem isScalar_iff_forall {text : LooseText} :
    text.IsScalar ↔ ∀ s, .surrogate s ∉ text.points := by
  rw [isScalar_iff_firstSurrogate?, firstSurrogate?]
  generalize text.points = points
  induction points with
  | nil => simp [findSurrogate?]
  | cons point rest ih =>
    cases point with
    | char c => simp [findSurrogate?, ih]
    | surrogate s => simpa [findSurrogate?] using ⟨s, fun h => absurd rfl h⟩

instance (text : LooseText) : Decidable text.IsScalar :=
  decidable_of_iff _ isScalar_iff_firstSurrogate?.symm

end LooseText

/-! ## Hexadecimal digits -/

namespace Text

/-- The last `width` hexadecimal digits of a number. -/
def hexDigits : Nat → Nat → List Char
  | 0, _ => []
  | width + 1, n => hexDigits width (n / 16) ++ [Nat.digitChar (n % 16)]

/-- The value of a hexadecimal digit. -/
def hexDigit? (c : Char) : Option Nat :=
  if c.isDigit then some (c.toNat - 48)
  else if 'a' ≤ c ∧ c ≤ 'f' then some (c.toNat - 87)
  else if 'A' ≤ c ∧ c ≤ 'F' then some (c.toNat - 55)
  else none

/-- A digit that was written is read as what it was written for. -/
theorem hexDigit?_digitChar {d : Nat} (h : d < 16) : hexDigit? (Nat.digitChar d) = some d := by
  revert d
  decide

end Text

end DeskCalculator
