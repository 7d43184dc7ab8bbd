import DeskCalculator.History.Entry
import DeskCalculator.Proofs.Json.RoundTrip

/-!
# DeskCalculator.Proofs.History.FileText

The text of a history file. It is read back as the entries that it was written for, if it is a
string (`decode_of_fileText`), and it is one unless an entry holds a surrogate without its partner
(`isScalar_fileText_iff`). Both come down to the lexemes of the text: its strings are those of the
entries, and no other lexeme of it can run into the next one.
-/

namespace DeskCalculator.History

open Json (Lexeme)

/-! ### The bytes of a file -/

theorem Entry.endsItself_of_mem_lexemes (entry : Entry) :
    ∀ l ∈ entry.toJson.lexemes, l.endsItself = true := by
  simp [Entry.toJson, Json.Value.lexemes, Json.memberLexemes, Lexeme.endsItself]

/-- Entries are written with strings and punctuation only. -/
theorem endsItself_of_mem_itemLexemes (entries : List Entry) :
    ∀ l ∈ Json.itemLexemes (entries.map Entry.toJson), l.endsItself = true := by
  induction entries with
  | nil => simp [Json.itemLexemes]
  | cons entry rest ih =>
    cases rest with
    | nil => exact entry.endsItself_of_mem_lexemes
    | cons next rest =>
      intro l hl
      rw [List.map_cons, List.map_cons, Json.itemLexemes, List.mem_append, List.mem_cons] at hl
      obtain hl | rfl | hl := hl
      · exact entry.endsItself_of_mem_lexemes l hl
      · rfl
      · exact ih l hl

theorem endsItself_of_mem_lexemes (entries : List Entry) :
    ∀ l ∈ (toJson entries).lexemes, l.endsItself = true := by
  intro l hl
  rw [toJson, Json.Value.lexemes, List.mem_cons, List.mem_append, List.mem_singleton] at hl
  obtain rfl | hl | rfl := hl
  · rfl
  · exact endsItself_of_mem_itemLexemes entries l hl
  · rfl

theorem fromUTF8?_toUTF8 (text : String) : String.fromUTF8? text.toUTF8 = some text := by
  unfold String.fromUTF8?
  rw [String.toUTF8_eq_toByteArray, dif_pos text.isValidUTF8]
  rfl

/-- **What is written is read back,** if it is a string. -/
theorem decode_of_fileText {entries : List Entry} {text : String} (h : fileText entries = text) :
    decode text.toUTF8 = .ok entries := by
  have hparse : Json.parse text = .ok (toJson entries) :=
    Json.parse_write (endsItself_of_mem_lexemes entries) h
  rw [decode, fromUTF8?_toUTF8]
  simp only [hparse, ofJson_toJson]

/-! ### Entries without surrogates -/

/-- An entry of two strings. -/
structure Entry.IsScalar (entry : Entry) : Prop where
  expression : entry.expression.IsScalar
  result : entry.result.IsScalar

theorem Entry.isScalar_ofString (expression result : String) :
    Entry.IsScalar ⟨expression, result⟩ where
  expression := LooseText.isScalar_ofString expression
  result := LooseText.isScalar_ofString result

theorem Entry.string_mem_lexemes_iff {entry : Entry} {text : LooseText} :
    .string text ∈ entry.toJson.lexemes ↔
      text = "expr" ∨ text = entry.expression ∨ text = "result" ∨ text = entry.result := by
  simp [toJson, Json.Value.lexemes, Json.memberLexemes]

/-- The strings in a file are those of its entries, and two names. -/
theorem string_mem_itemLexemes_iff {entries : List Entry} {text : LooseText} :
    .string text ∈ Json.itemLexemes (entries.map Entry.toJson) ↔
      ∃ entry ∈ entries, .string text ∈ entry.toJson.lexemes := by
  induction entries with
  | nil => simp [Json.itemLexemes]
  | cons entry rest ih =>
    cases rest with
    | nil => simp [Json.itemLexemes]
    | cons next rest =>
      rw [List.map_cons] at ih
      rw [List.map_cons, List.map_cons, Json.itemLexemes, List.mem_append, List.mem_cons, ih]
      simp

/-- **What is written is a string exactly if all entries consist of strings.** -/
theorem isScalar_fileText_iff {entries : List Entry} :
    (fileText entries).IsScalar ↔ ∀ entry ∈ entries, entry.IsScalar := by
  have hstrings : ∀ text : LooseText, .string text ∈ (toJson entries).lexemes ↔
      ∃ entry ∈ entries, .string text ∈ entry.toJson.lexemes := fun text => by
    rw [toJson, Json.Value.lexemes, ← string_mem_itemLexemes_iff]
    simp
  rw [fileText, LooseText.isScalar_iff_forall]
  simp only [Json.surrogate_mem_write_iff, hstrings]
  constructor
  · intro h entry hentry
    have hscalar : ∀ text, .string text ∈ entry.toJson.lexemes → text.IsScalar := fun text htext =>
      LooseText.isScalar_iff_forall.mpr fun s hs => h s ⟨text, ⟨entry, hentry, htext⟩, hs⟩
    exact ⟨hscalar _ (Entry.string_mem_lexemes_iff.mpr (by simp)),
      hscalar _ (Entry.string_mem_lexemes_iff.mpr (by simp))⟩
  · rintro h s ⟨text, ⟨entry, hentry, htext⟩, hs⟩
    have hscalar : text.IsScalar := by
      obtain rfl | rfl | rfl | rfl := Entry.string_mem_lexemes_iff.mp htext
      · exact ⟨"expr", rfl⟩
      · exact (h entry hentry).expression
      · exact ⟨"result", rfl⟩
      · exact (h entry hentry).result
    exact LooseText.isScalar_iff_forall.mp hscalar s hs

end DeskCalculator.History
