import DeskCalculator.Proofs.Json.Reading
import DeskCalculator.Proofs.Json.Rendering

/-!
# DeskCalculator.Proofs.Json.RoundTrip

Texts and the values that they are read as. What is read as a value is a text of the value
(`spaced_of_parse`), and a text of a value is read as the value (`parse_of_spaced`). What is written
is one of the texts, if it is a string (`spaced_write`), and so it is read back (`parse_write`). It
is no string exactly if a string of the value holds a surrogate without its partner
(`surrogate_mem_write_iff`).
-/

namespace DeskCalculator.Json

/-! ### From a text to a value, and back -/

/-- **What is read as a value is a text of it.** -/
theorem spaced_of_parse {text : String} {v : Value} (h : parse text = .ok v) :
    Spaced v.lexemes text.toList := by
  obtain ⟨s, hrun, -⟩ := bind_eq_ok_iff.mp h
  obtain ⟨hjunk, hreadable⟩ := Reading.takes_of_run hrun
  rw [← eq_lexemes_of_ofLexemes h]
  exact spaced_of_lex hjunk hreadable

/-- The numbers in a text are not huge. -/
theorem Spaced.readable {ls : List Lexeme}
    {text : List Char} (h : Spaced ls text) : Reading.Readable ls := by
  induction h with
  | nil => exact fun text htext => absurd htext (by simp)
  | cons _ hl _ ih =>
    intro number hnumber
    obtain rfl | hmem := List.mem_cons.mp hnumber
    · cases hl with
      | number _ hsize => exact hsize
      | mark h => exact absurd h (by simp [Lexeme.mark?])
    · exact ih number hmem

/-- **A text of a value is read as the value.** -/
theorem parse_of_spaced {text : String} {v : Value}
    (h : Spaced v.lexemes text.toList) : parse text = .ok v := by
  rw [parse, lex_of_spaced h (delimited_lexemes v), ofLexemes_lexemes h.readable]

/-! ### What is written -/

/-- Whether a lexeme ends where it was written to end, whatever follows: strings and punctuation
do. -/
def Lexeme.endsItself : Lexeme → Bool
  | .word _ | .number _ | .junk => false
  | .string _ | .openBracket | .closeBracket | .openBrace | .closeBrace | .comma | .colon => true

theorem map_char_injective : Function.Injective (List.map CodePoint.char) :=
  List.map_injective_iff.mpr fun _ _ h => CodePoint.char.inj h

theorem surrogate_notMem_map_char (s : Surrogate) (chars : List Char) :
    CodePoint.surrogate s ∉ chars.map .char := by
  simp

/-- The surrogates of a string stand in its written form. -/
theorem surrogate_mem_writeString_iff {s : Surrogate} {text : LooseText} :
    .surrogate s ∈ writeString text ↔ .surrogate s ∈ text.points := by
  simp only [writeString, List.mem_cons, List.mem_append, List.mem_flatMap, reduceCtorEq, false_or,
    List.not_mem_nil, or_false]
  constructor
  · rintro ⟨point, hpoint, hs⟩
    cases point with
    | char c => exact absurd hs (surrogate_notMem_map_char s _)
    | surrogate s' => exact List.mem_singleton.mp hs ▸ hpoint
  · exact fun h => ⟨.surrogate s, h, List.mem_singleton.mpr rfl⟩

/-- **The surrogates in what is written** are those of the strings. -/
theorem surrogate_mem_write_iff {s : Surrogate} {v : Value} :
    .surrogate s ∈ v.write.points ↔
      ∃ text, .string text ∈ v.lexemes ∧ .surrogate s ∈ text.points := by
  simp only [Value.write, List.mem_flatMap]
  constructor
  · rintro ⟨l, hl, hs⟩
    cases l with
    | string text => exact ⟨text, hl, surrogate_mem_writeString_iff.mp hs⟩
    | _ => exact absurd hs (by simp [Lexeme.write])
  · rintro ⟨text, htext, hs⟩
    exact ⟨.string text, htext, surrogate_mem_writeString_iff.mpr hs⟩

theorem writeString_ofString (text : String) :
    writeString text = ('"' :: (text.toList.flatMap writeChar ++ ['"'])).map .char := by
  have hchars : ∀ chars : List Char,
      (chars.map CodePoint.char).flatMap writePoint = (chars.flatMap writeChar).map .char := by
    intro chars
    induction chars with
    | nil => rfl
    | cons c chars ih =>
      rw [List.map_cons, List.flatMap_cons, List.flatMap_cons, List.map_append, ih, writePoint]
  rw [writeString, LooseText.points_ofString, hchars, List.map_cons, List.map_append]
  rfl

/-- What is written for a lexeme is a text of it, and spaces, if it consists of characters. -/
theorem exists_lexemeText_write {l : Lexeme} (h : l.endsItself = true) {chars : List Char}
    (hwrite : l.write = chars.map .char) :
    ∃ written spaces, chars = written ++ spaces ∧ LexemeText l written ∧
      ∀ c ∈ spaces, isSpace c = true := by
  have hmark : ∀ c spaces, l.mark? = some c → l.write = (c :: spaces).map .char →
      (∀ c ∈ spaces, isSpace c = true) →
      ∃ written spaces, chars = written ++ spaces ∧ LexemeText l written ∧
        ∀ c ∈ spaces, isSpace c = true := by
    intro c spaces hmark heq hspaces
    exact ⟨[c], spaces, map_char_injective (hwrite.symm.trans heq), .mark hmark, hspaces⟩
  cases l with
  | string text =>
    obtain ⟨string, rfl⟩ : text.IsScalar := LooseText.isScalar_iff_forall.mpr fun s hs =>
      surrogate_notMem_map_char s chars (hwrite ▸ surrogate_mem_writeString_iff.mpr hs)
    obtain rfl : chars = '"' :: (string.toList.flatMap writeChar ++ ['"']) :=
      map_char_injective (hwrite.symm.trans (writeString_ofString string))
    exact ⟨_, [], (List.append_nil _).symm,
      .string (spellsText_flatMap_writeChar string.toList), List.forall_mem_nil _⟩
  | openBracket | closeBracket | openBrace | closeBrace =>
    exact hmark _ [] rfl rfl (List.forall_mem_nil _)
  | comma | colon => exact hmark _ [' '] rfl rfl (List.forall_mem_singleton.mpr rfl)
  | word | number | junk => exact absurd h (by simp [Lexeme.endsItself])

theorem spaced_flatMap_write {ls : List Lexeme} (h : ∀ l ∈ ls, l.endsItself = true)
    {chars : List Char} (hwrite : ls.flatMap Lexeme.write = chars.map .char) {spaces : List Char}
    (hspaces : ∀ c ∈ spaces, isSpace c = true) : Spaced ls (spaces ++ chars) := by
  induction ls generalizing spaces chars with
  | nil =>
    obtain rfl : [] = chars := map_char_injective hwrite
    rw [List.append_nil]
    exact .nil hspaces
  | cons l ls ih =>
    obtain ⟨hl, hls⟩ := List.forall_mem_cons.mp h
    rw [List.flatMap_cons] at hwrite
    obtain ⟨first, rest, rfl, hfirst, hrest⟩ := List.map_eq_append_iff.mp hwrite.symm
    obtain ⟨written, behind, rfl, htext, hbehind⟩ := exists_lexemeText_write hl hfirst.symm
    rw [List.append_assoc]
    exact .cons hspaces htext (ih hls hrest.symm hbehind)

/-- What is written for a value is a text of it, if it is a string and holds no numbers and
words. -/
theorem spaced_write {v : Value} (h : ∀ l ∈ v.lexemes, l.endsItself = true) {text : String}
    (hwrite : v.write = text) : Spaced v.lexemes text.toList :=
  spaced_flatMap_write h (congrArg LooseText.points hwrite) (List.forall_mem_nil _)

/-- **What is written is read back.** -/
theorem parse_write {v : Value} (h : ∀ l ∈ v.lexemes, l.endsItself = true) {text : String}
    (hwrite : v.write = text) : parse text = .ok v :=
  parse_of_spaced (spaced_write h hwrite)

end DeskCalculator.Json
