import Mathlib.Data.List.Induction
import Mathlib.Data.List.Basic
import Mathlib.Tactic.SplitIfs
import DeskCalculator.Input
import DeskCalculator.Window.Keypad
import DeskCalculator.Proofs.Text.NumeralChar

/-!
# DeskCalculator.Proofs.Input.Typable

The texts that can be typed on the line: what stands between operators, parentheses and percent
signs is empty or a literal, that is, digits without needless zeros in front, and perhaps a point
and further digits.

A text is looked at as it is typed, one character after the other. Whether it stays typable is
decided by its last segment (`typable_concat_iff`). Nobody types surrogates, so the lines here are
strings, and the editing rules are read as rules for lists of characters (`press_ofString`).
-/

namespace DeskCalculator.Input

open Text (IsNumeralChar)
open Window (plainKeys)

/-! ### The language -/

/-- A lone zero, or digits that do not begin with a zero. -/
def IsWhole (digits : List Char) : Prop :=
  digits = ['0'] ∨
    ∃ lead rest, digits = lead :: rest ∧ lead ≠ '0' ∧ ∀ c ∈ lead :: rest, c.isDigit = true

/-- A number as it can be typed. -/
inductive IsLiteral : List Char → Prop
  | whole {digits : List Char} (h : IsWhole digits) : IsLiteral digits
  /-- With a point, behind which nothing need stand. -/
  | point {digits fraction : List Char} (h : IsWhole digits)
      (hfraction : ∀ c ∈ fraction, c.isDigit = true) : IsLiteral (digits ++ '.' :: fraction)

/-- What stands between operators, parentheses and percent signs. -/
def segments (text : List Char) : List (List Char) := text.splitOnP isSegmentEnd

/-- A text that can be typed. -/
structure Typable (text : List Char) : Prop where
  keys : ∀ c ∈ text, c ∈ plainKeys
  start : text.head? ≠ some '%'
  literals : ∀ segment ∈ segments text, segment = [] ∨ IsLiteral segment

/-- A typable string, as the line may hold one. -/
def TypableText (text : LooseText) : Prop := ∃ line : String, text = line ∧ Typable line.toList

variable {text segment digits : List Char} {c : Char}

/-! ### Characters -/

/-- A plain key ends a segment or belongs to a number. -/
theorem isSegmentEnd_or_isNumeralChar (hc : c ∈ plainKeys) :
    isSegmentEnd c = true ∨ IsNumeralChar c := by
  have hall : plainKeys.all (fun key => isSegmentEnd key || (key.isDigit || key == '.')) = true := by
    decide
  simpa [IsNumeralChar] using List.all_eq_true.mp hall c hc

theorem isSegmentEnd_of_isNumeralChar (h : IsNumeralChar c) : isSegmentEnd c = false := by
  have hall : "0123456789".toList.all (fun digit => !isSegmentEnd digit) = true := by decide
  obtain h | rfl := h
  · simpa using List.all_eq_true.mp hall c (Text.isDigit_iff_mem.mp h)
  · decide

/-- Among the plain keys, the digits are those of ASCII. -/
theorem isDigitKey_eq (hc : c ∈ plainKeys) : isDigitKey ([c].map .char) = c.isDigit := by
  have hall : plainKeys.all (fun key => isDigitKey ([key].map .char) == key.isDigit) = true := by
    decide
  exact beq_iff_eq.mp (List.all_eq_true.mp hall c hc)

theorem ne_point_of_isDigit (h : c.isDigit = true) : c ≠ '.' :=
  bne_iff_ne.mp (Text.ne_point_of_isDigit h)

/-! ### Literals grow at their end -/

theorem isWhole_cons_iff {lead : Char} {rest : List Char} :
    IsWhole (lead :: rest) ↔
      (∀ c ∈ lead :: rest, c.isDigit = true) ∧ (lead = '0' → rest = []) := by
  constructor
  · intro h
    obtain h | ⟨_, _, h, hlead, hdigits⟩ := h
    · obtain ⟨rfl, rfl⟩ := List.cons.inj h
      exact ⟨List.forall_mem_singleton.mpr (by decide), fun _ => rfl⟩
    · obtain ⟨rfl, rfl⟩ := List.cons.inj h
      exact ⟨hdigits, fun hzero => absurd hzero hlead⟩
  · intro ⟨hdigits, hzero⟩
    by_cases hlead : lead = '0'
    · exact .inl (by rw [hlead, hzero hlead])
    · exact .inr ⟨lead, rest, rfl, hlead, hdigits⟩

theorem isWhole_concat_iff :
    IsWhole (digits ++ [c]) ↔ c.isDigit = true ∧ (digits = [] ∨ IsWhole digits ∧ digits ≠ ['0']) := by
  cases digits with
  | nil => simp [isWhole_cons_iff]
  | cons lead rest =>
    have hsplit : (∀ d ∈ lead :: (rest ++ [c]), d.isDigit = true) ↔
        c.isDigit = true ∧ ∀ d ∈ lead :: rest, d.isDigit = true := by
      rw [← List.cons_append, List.forall_mem_append, List.forall_mem_singleton, and_comm]
    rw [List.cons_append, isWhole_cons_iff, isWhole_cons_iff, hsplit]
    constructor
    · intro ⟨⟨hc, hdigits⟩, hlead⟩
      have hne : lead ≠ '0' := fun h => by simpa using hlead h
      exact ⟨hc, .inr ⟨⟨hdigits, fun h => absurd h hne⟩, fun h => hne (List.cons.inj h).1⟩⟩
    · intro ⟨hc, hrest⟩
      obtain ⟨⟨hdigits, hzero⟩, hne⟩ := hrest.resolve_left (List.cons_ne_nil lead rest)
      exact ⟨⟨hc, hdigits⟩, fun h => absurd (by rw [h, hzero h]) hne⟩

theorem IsWhole.isDigit (h : IsWhole digits) : ∀ c ∈ digits, c.isDigit = true := by
  cases digits with
  | nil => simp
  | cons lead rest => exact (isWhole_cons_iff.mp h).1

theorem IsWhole.ne_nil (h : IsWhole digits) : digits ≠ [] := by
  obtain rfl | ⟨lead, rest, rfl, -, -⟩ := h <;> simp

theorem IsWhole.point_notMem (h : IsWhole digits) : '.' ∉ digits :=
  fun hmem => ne_point_of_isDigit (h.isDigit _ hmem) rfl

theorem IsLiteral.isNumeralChar (h : IsLiteral segment) : ∀ c ∈ segment, IsNumeralChar c := by
  cases h with
  | whole h => exact fun c hc => .inl (h.isDigit c hc)
  | point h hfraction =>
    intro c hc
    obtain hc | hc := List.mem_append.mp hc
    · exact .inl (h.isDigit c hc)
    · obtain rfl | hc := List.mem_cons.mp hc
      · exact .inr rfl
      · exact .inl (hfraction c hc)

/-- Whether a character of a number may follow a segment. -/
structure Continues (segment : List Char) (c : Char) : Prop where
  digit : c.isDigit = true → segment ≠ ['0']
  point : c = '.' → segment ≠ [] ∧ '.' ∉ segment

/-- A literal without its last character is a literal or nothing. -/
theorem IsLiteral.of_concat (h : IsLiteral (segment ++ [c])) :
    (segment = [] ∨ IsLiteral segment) ∧ Continues segment c := by
  generalize hconcat : segment ++ [c] = literal at h
  cases h with
  | whole h =>
    rw [← hconcat] at h
    obtain ⟨hc, hdigits⟩ := isWhole_concat_iff.mp h
    refine ⟨hdigits.imp_right fun h => .whole h.1, fun _ => ?_, fun hpoint =>
      absurd hpoint (ne_point_of_isDigit hc)⟩
    obtain rfl | h := hdigits
    · simp
    · exact h.2
  | @point digits fraction h hfraction =>
    obtain rfl | ⟨front, last, rfl⟩ := fraction.eq_nil_or_concat
    · obtain ⟨rfl, rfl⟩ := List.append_singleton_inj.mp hconcat
      exact ⟨.inr (.whole h), fun hdigit => absurd rfl (ne_point_of_isDigit hdigit),
        fun _ => ⟨h.ne_nil, h.point_notMem⟩⟩
    · rw [List.concat_eq_append] at hfraction hconcat
      rw [← List.cons_append, ← List.append_assoc] at hconcat
      obtain ⟨rfl, rfl⟩ := List.append_singleton_inj.mp hconcat
      have hc : c.isDigit = true := hfraction c (by simp)
      refine ⟨.inr (.point h fun d hd => hfraction d (List.mem_append_left _ hd)),
        fun _ hzero => ?_, fun hpoint => absurd hpoint (ne_point_of_isDigit hc)⟩
      have hmem : '.' ∈ digits ++ '.' :: front := by simp
      rw [hzero] at hmem
      exact absurd hmem (by decide)

/-- A character that continues a segment makes it a literal. -/
theorem IsLiteral.concat (h : segment = [] ∨ IsLiteral segment) (hc : IsNumeralChar c)
    (hnext : Continues segment c) : IsLiteral (segment ++ [c]) := by
  obtain hc | rfl := hc
  · obtain rfl | h := h
    · exact .whole (isWhole_concat_iff.mpr ⟨hc, .inl rfl⟩)
    cases h with
    | whole h => exact .whole (isWhole_concat_iff.mpr ⟨hc, .inr ⟨h, hnext.digit hc⟩⟩)
    | @point digits fraction h hfraction =>
      rw [List.append_assoc, List.cons_append]
      refine .point h fun d hd => ?_
      obtain hd | hd := List.mem_append.mp hd
      · exact hfraction d hd
      · rwa [List.mem_singleton.mp hd]
  · obtain ⟨hne, hpoint⟩ := hnext.point rfl
    cases h.resolve_left hne with
    | whole h => exact .point h (by simp)
    | point h hfraction => exact absurd (by simp) hpoint

/-! ### Lines of characters -/

/-- What stands after the last operator, parenthesis or percent sign of a list of characters. -/
def lastPart (text : List Char) : List Char :=
  (text.reverse.takeWhile fun c => !isSegmentEnd c).reverse

/-- The editing rules for a list of characters. -/
def typedChars? (text key : List Char) : Option (List Char) :=
  if isDigitKey (key.map .char) ∧ lastPart text = ['0'] then some (text.dropLast ++ key)
  else if key = ['.'] then
    if (lastPart text).contains '.' then none
    else if lastPart text = [] then some (text ++ ['0', '.'])
    else some (text ++ key)
  else if key = ['%'] ∧ text = [] then none
  else some (text ++ key)

theorem lastSegment_map_char (text : List Char) :
    lastSegment (text.map .char) = (lastPart text).map .char := by
  rw [lastSegment, lastPart, ← List.map_reverse, List.takeWhile_map, ← List.map_reverse]
  rfl

/-- On characters the editing rules are those for lists of characters. -/
theorem typed?_map_char (text key : List Char) :
    typed? (text.map .char) (key.map .char) = (typedChars? text key).map (List.map .char) := by
  have hmap : ∀ a b : List Char, a.map CodePoint.char = b.map .char ↔ a = b := fun a b =>
    ⟨fun h => List.map_injective_iff.mpr (fun _ _ h => CodePoint.char.inj h) h, congrArg _⟩
  have hzero : lastSegment (text.map .char) = [.char '0'] ↔ lastPart text = ['0'] := by
    rw [lastSegment_map_char]
    exact hmap _ ['0']
  have hempty : lastSegment (text.map .char) = [] ↔ lastPart text = [] := by
    rw [lastSegment_map_char, List.map_eq_nil_iff]
  have hpoint :
      (lastSegment (text.map .char)).contains (.char '.') = (lastPart text).contains '.' := by
    rw [lastSegment_map_char, Bool.eq_iff_iff, List.contains_iff_mem, List.contains_iff_mem]
    simp
  have hkey : ∀ c : Char, key.map CodePoint.char = [.char c] ↔ key = [c] := fun c => hmap _ [c]
  simp only [typed?, typedChars?, hzero, hempty, hpoint, hkey, List.map_eq_nil_iff,
    ← List.map_dropLast]
  split_ifs <;> simp

theorem press_ofString (line key : String) :
    (⟨line⟩ : Input).press key =
      match typedChars? line.toList key.toList with
      | some typed => (⟨String.ofList typed⟩, true)
      | none => (⟨line⟩, false) := by
  rw [press, LooseText.points_ofString, LooseText.points_ofString, typed?_map_char]
  cases typedChars? line.toList key.toList with
  | none => rfl
  | some typed => simp only [Option.map_some, LooseText.ofString_ofList]

/-! ### The last segment -/

theorem lastPart_concat_end (h : isSegmentEnd c = true) : lastPart (text ++ [c]) = [] := by
  simp [lastPart, h]

theorem lastPart_concat (h : isSegmentEnd c = false) :
    lastPart (text ++ [c]) = lastPart text ++ [c] := by
  simp [lastPart, h]

theorem segments_concat_end (h : isSegmentEnd c = true) :
    segments (text ++ [c]) = segments text ++ [[]] :=
  List.splitOnP_append_cons text [] h

/-- What is appended without an end of a segment belongs to the last one. -/
theorem exists_segments_append (text : List Char) : ∃ before, ∀ tail,
    (∀ c ∈ tail, isSegmentEnd c = false) →
      segments (text ++ tail) = before ++ [lastPart text ++ tail] := by
  induction text using List.reverseRecOn with
  | nil => exact ⟨[], fun tail htail => List.splitOnP_eq_singleton htail⟩
  | append_singleton text c ih =>
    by_cases hc : isSegmentEnd c = true
    · -- all segments so far are complete, and `tail` is the next one
      refine ⟨segments text, fun tail htail => ?_⟩
      rw [lastPart_concat_end hc, List.append_assoc, List.nil_append]
      exact (List.splitOnP_append_cons text tail hc).trans
        (congrArg _ (List.splitOnP_eq_singleton htail))
    · -- `c` belongs to the last segment as well, so the hypothesis is for `c :: tail`
      rw [Bool.not_eq_true] at hc
      obtain ⟨before, hbefore⟩ := ih
      refine ⟨before, fun tail htail => ?_⟩
      rw [lastPart_concat hc, List.append_assoc, List.append_assoc]
      exact hbefore (c :: tail) (List.forall_mem_cons.mpr ⟨hc, htail⟩)

theorem segments_append {tail : List Char} (h : ∀ c ∈ tail, isSegmentEnd c = false) :
    segments (text ++ tail) = (segments text).dropLast ++ [lastPart text ++ tail] := by
  obtain ⟨before, hbefore⟩ := exists_segments_append text
  have htext := hbefore [] (by simp)
  rw [List.append_nil, List.append_nil] at htext
  rw [hbefore tail h, htext, List.dropLast_concat]

theorem segments_eq (text : List Char) :
    segments text = (segments text).dropLast ++ [lastPart text] := by
  have h : segments (text ++ []) = (segments text).dropLast ++ [lastPart text ++ []] :=
    segments_append (by simp)
  rwa [List.append_nil, List.append_nil] at h

/-! ### One more character -/

/-- Whether a plain key may follow a text. -/
structure Fits (text : List Char) (c : Char) : Prop where
  percent : c = '%' → text ≠ []
  continues : Continues (lastPart text) c

/-- A character that ends a segment continues every segment: the rules do not restrict it. -/
theorem continues_of_isSegmentEnd (h : isSegmentEnd c = true) : Continues segment c := by
  have hnot : ¬ IsNumeralChar c :=
    fun hc => absurd (isSegmentEnd_of_isNumeralChar hc) (by simp [h])
  exact ⟨fun hc => absurd (.inl hc) hnot, fun hc => absurd (.inr hc) hnot⟩

/-- **The last segment decides** which characters may follow. -/
theorem typable_concat_iff :
    Typable (text ++ [c]) ↔ Typable text ∧ c ∈ plainKeys ∧ Fits text c := by
  have hstart : (text ++ [c]).head? ≠ some '%' ↔
      text.head? ≠ some '%' ∧ (c = '%' → text ≠ []) := by
    cases text <;> simp
  have hliterals : c ∈ plainKeys →
      ((∀ segment ∈ segments (text ++ [c]), segment = [] ∨ IsLiteral segment) ↔
        (∀ segment ∈ segments text, segment = [] ∨ IsLiteral segment) ∧
          Continues (lastPart text) c) := by
    intro hc
    obtain hend | hnumeral := isSegmentEnd_or_isNumeralChar hc
    · -- one more empty segment
      simp [segments_concat_end hend, or_imp, forall_and, continues_of_isSegmentEnd hend]
    · -- only the last segment changes
      rw [segments_append (by simpa using isSegmentEnd_of_isNumeralChar hnumeral), segments_eq text]
      simp only [List.dropLast_concat, List.forall_mem_append, List.forall_mem_singleton]
      rw [and_assoc, and_congr_right_iff]
      intro _
      constructor
      · exact fun h => (h.resolve_left (by simp)).of_concat
      · exact fun h => .inr (.concat h.1 hnumeral h.2)
  constructor
  · intro h
    have hc : c ∈ plainKeys := h.keys c (by simp)
    obtain ⟨hstart, hpercent⟩ := hstart.mp h.start
    obtain ⟨hsegments, hcontinues⟩ := (hliterals hc).mp h.literals
    exact ⟨⟨fun d hd => h.keys d (List.mem_append_left _ hd), hstart, hsegments⟩, hc,
      hpercent, hcontinues⟩
  · intro ⟨h, hc, hfits⟩
    refine ⟨?_, hstart.mpr ⟨h.start, hfits.percent⟩,
      (hliterals hc).mpr ⟨h.literals, hfits.continues⟩⟩
    rw [List.forall_mem_append, List.forall_mem_singleton]
    exact ⟨h.keys, hc⟩

theorem typable_nil : Typable [] where
  keys := by simp
  start := by simp
  literals := by simp [segments]

theorem typableText_empty : TypableText "" := ⟨"", rfl, typable_nil⟩

theorem Typable.dropLast (h : Typable text) : Typable text.dropLast := by
  obtain rfl | ⟨front, last, rfl⟩ := text.eq_nil_or_concat
  · exact h
  · rw [List.concat_eq_append] at h ⊢
    rw [List.dropLast_concat]
    exact (typable_concat_iff.mp h).1

end DeskCalculator.Input
