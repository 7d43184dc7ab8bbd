import DeskCalculator.Text.CodePoint
import DeskCalculator.Text.Printable

/-!
# DeskCalculator.Text.Quoted

Quoted text for messages: a text that a person must be able to tell from the words around it.

* **The quote** is the single one, unless the text holds a single quote and no double one.
* **Escapes.** The backslash and the chosen quote stand behind a backslash; line feed, carriage
  return and tab have letters; every other unprintable character, and a surrogate, is written by its
  code point, in two, four or eight hexadecimal digits, whichever suffice.
* **Printable characters** are shown as they are (`quoted_of_isPrintable`, `quoted_singleton`).
-/

namespace DeskCalculator.Text

/-- The quote that surrounds a text. -/
def quoteFor (text : LooseText) : Char :=
  if text.points.contains (.char '\'') && !text.points.contains (.char '"') then '"' else '\''

/-- One character of a text that stands between two of the given quotes. -/
def escaped (quote c : Char) : List Char :=
  if c = '\\' ∨ c = quote then ['\\', c]
  else if c = '\n' then ['\\', 'n']
  else if c = '\r' then ['\\', 'r']
  else if c = '\t' then ['\\', 't']
  else if isPrintable c then [c]
  else if c.toNat < 0x100 then '\\' :: 'x' :: hexDigits 2 c.toNat
  else if c.toNat < 0x10000 then '\\' :: 'u' :: hexDigits 4 c.toNat
  else '\\' :: 'U' :: hexDigits 8 c.toNat

/-- One code point of a text that stands between two of the given quotes. -/
def escapedPoint (quote : Char) : CodePoint → List Char
  | .char c => escaped quote c
  | .surrogate s => '\\' :: 'u' :: hexDigits 4 s.code

/-- A text between quotes. -/
def quoted (text : LooseText) : String :=
  let quote := quoteFor text
  String.ofList (quote :: text.points.flatMap (escapedPoint quote) ++ [quote])

/-! ### Printable characters -/

variable {quote c : Char}

theorem escaped_of_isPrintable (h : isPrintable c = true) (hbackslash : c ≠ '\\')
    (hquote : c ≠ quote) : escaped quote c = [c] := by
  have hcontrol : c ≠ '\n' ∧ c ≠ '\r' ∧ c ≠ '\t' := by
    refine ⟨?_, ?_, ?_⟩ <;>
    · rintro rfl
      exact absurd h (by decide)
  simp [escaped, h, hbackslash, hquote, hcontrol]

/-- **A text of printable characters is shown as it is,** if it holds no backslash and no single
quote. -/
theorem quoted_of_isPrintable {text : String}
    (h : ∀ c ∈ text.toList, isPrintable c = true ∧ c ≠ '\\' ∧ c ≠ '\'') :
    quoted text = "'" ++ text ++ "'" := by
  have hquote : quoteFor text = '\'' := by
    refine if_neg fun hcontains => ?_
    rw [Bool.and_eq_true, LooseText.points_ofString, List.contains_iff_mem] at hcontains
    obtain ⟨c, hc, heq⟩ := List.mem_map.mp hcontains.1
    exact (h c hc).2.2 (CodePoint.char.inj heq)
  have hshown : ∀ chars : List Char, (∀ c ∈ chars, c ∈ text.toList) →
      (chars.map CodePoint.char).flatMap (escapedPoint '\'') = chars := by
    intro chars
    induction chars with
    | nil => exact fun _ => rfl
    | cons c chars ih =>
      intro hchars
      obtain ⟨hc, hrest⟩ := List.forall_mem_cons.mp hchars
      obtain ⟨hprintable, hbackslash, hsingle⟩ := h c hc
      rw [List.map_cons, List.flatMap_cons, ih hrest, escapedPoint,
        escaped_of_isPrintable hprintable hbackslash hsingle, List.singleton_append]
  rw [quoted, hquote, LooseText.points_ofString, hshown _ fun _ hc => hc, String.ofList_append,
    String.ofList_cons, String.ofList_toList]
  rfl

/-- The quoted form of a printable character shows it: between two quotes that it is none of, and
behind a backslash if it is one. -/
theorem quoted_singleton (h : isPrintable c = true) :
    ∃ quote, quote ≠ c ∧ quoted (String.singleton c) =
      String.ofList (quote :: (if c = '\\' then ['\\', c] else [c]) ++ [quote]) := by
  by_cases hsingle : c = '\''
  · subst hsingle
    exact ⟨'"', by decide, by decide +kernel⟩
  by_cases hbackslash : c = '\\'
  · subst hbackslash
    exact ⟨'\'', by decide, by decide +kernel⟩
  refine ⟨'\'', Ne.symm hsingle, ?_⟩
  rw [if_neg hbackslash, quoted_of_isPrintable]
  · rw [String.ofList_append, String.ofList_cons, ← String.singleton_eq_ofList,
      ← String.singleton_eq_ofList]
    rfl
  · rw [String.toList_singleton, List.forall_mem_singleton]
    exact ⟨h, hbackslash, hsingle⟩

example : quoted "é" = "'é'" := by decide +kernel

end DeskCalculator.Text
