import DeskCalculator.Proofs.Input.Typable

/-!
# DeskCalculator.Proofs.Input.Editing

The editing rules of the line against the language of typable texts.

* **One key.** A key that fits is typed as it is (`typedChars?_of_fits`); the others are refused or
  made to fit (`typable_of_typedChars?`).
* **Rows of edits.** None of them leaves the language (`typable_edits`), and every text of it is
  typed as it stands (`pressAll_of_typable`).
-/

namespace DeskCalculator.Input

open Text (IsNumeralChar)
open Window (plainKeys)

variable {text : List Char} {c : Char}

/-! ### The editing rules -/

/-- A segment of one character is empty without it. -/
theorem lastPart_dropLast (h : lastPart text = [c]) : lastPart text.dropLast = [] := by
  obtain rfl | ⟨front, last, rfl⟩ := text.eq_nil_or_concat
  · rfl
  · rw [List.concat_eq_append] at h ⊢
    rw [List.dropLast_concat]
    by_cases hlast : isSegmentEnd last = true
    · simp [lastPart_concat_end hlast] at h
    · rw [lastPart_concat (by simpa using hlast)] at h
      exact (List.append_singleton_inj.mp (h : _ = [] ++ [c])).1

/-- A key that fits is typed as it is. -/
theorem typedChars?_of_fits (hc : c ∈ plainKeys) (h : Fits text c) :
    typedChars? text [c] = some (text ++ [c]) := by
  have hzero : ¬ (isDigitKey ([c].map .char) = true ∧ lastPart text = ['0']) :=
    fun hzero => h.continues.digit (isDigitKey_eq hc ▸ hzero.1) hzero.2
  rw [typedChars?, if_neg hzero]
  by_cases hpoint : c = '.'
  · obtain ⟨hne, hnone⟩ := h.continues.point hpoint
    rw [if_pos (by rw [hpoint]), if_neg (by simpa using hnone), if_neg hne]
  · rw [if_neg (by simpa using hpoint), if_neg]
    intro hstart
    exact h.percent (by simpa using hstart.1) hstart.2

/-- What the rules let through: a key that fits, a digit in the place of a lone zero, or a point
with a zero before it. -/
theorem typedChars?_cases (hc : c ∈ plainKeys) {typed : List Char}
    (h : typedChars? text [c] = some typed) :
    (Fits text c ∧ typed = text ++ [c]) ∨
    (c.isDigit = true ∧ lastPart text = ['0'] ∧ typed = text.dropLast ++ [c]) ∨
    (c = '.' ∧ lastPart text = [] ∧ typed = text ++ ['0', '.']) := by
  unfold typedChars? at h
  split at h
  · rename_i hzero
    exact .inr (.inl ⟨isDigitKey_eq hc ▸ hzero.1, hzero.2, (Option.some.inj h).symm⟩)
  rename_i hzero
  have hdigit : c.isDigit = true → lastPart text ≠ ['0'] := by
    intro hdigit hlast
    exact hzero ⟨(isDigitKey_eq hc).trans hdigit, hlast⟩
  split at h
  · rename_i hpoint
    obtain rfl : c = '.' := by simpa using hpoint
    split at h
    · exact absurd h (by simp)
    rename_i hnone
    split at h
    · rename_i hempty
      exact .inr (.inr ⟨rfl, hempty, (Option.some.inj h).symm⟩)
    · rename_i hne
      have hfits : Fits text '.' :=
        ⟨by simp, hdigit, fun _ => ⟨hne, by simpa using hnone⟩⟩
      exact .inl ⟨hfits, (Option.some.inj h).symm⟩
  · rename_i hpoint
    split at h
    · exact absurd h (by simp)
    rename_i hstart
    have hfits : Fits text c := by
      refine ⟨?_, hdigit, ?_⟩
      · intro hpercent hempty
        exact hstart ⟨by rw [hpercent], hempty⟩
      · intro hdot
        exact absurd (by rw [hdot]) hpoint
    exact .inl ⟨hfits, (Option.some.inj h).symm⟩

/-- Characters of numbers are no percent signs, so nothing need stand before them. -/
theorem fits_of_isNumeralChar (hc : IsNumeralChar c) (h : Continues (lastPart text) c) :
    Fits text c where
  percent := fun hpercent => absurd hpercent (hc.ne_of_toNat (by decide))
  continues := h

/-- The rules refuse a key or make it fit. -/
theorem typable_of_typedChars? {typed : List Char} (h : Typable text) (hc : c ∈ plainKeys)
    (htyped : typedChars? text [c] = some typed) : Typable typed := by
  obtain ⟨hfits, rfl⟩ | ⟨hdigit, hzero, rfl⟩ | ⟨rfl, hempty, rfl⟩ := typedChars?_cases hc htyped
  · exact typable_concat_iff.mpr ⟨h, hc, hfits⟩
  · -- without its lone zero the last segment is empty, and any digit begins one
    refine typable_concat_iff.mpr ⟨h.dropLast, hc, fits_of_isNumeralChar (.inl hdigit) ?_⟩
    rw [lastPart_dropLast hzero]
    exact ⟨by simp, fun hpoint => absurd hpoint (ne_point_of_isDigit hdigit)⟩
  · have hfirst : Typable (text ++ ['0']) := by
      refine typable_concat_iff.mpr ⟨h, by decide, fits_of_isNumeralChar (.inl (by decide)) ?_⟩
      rw [hempty]
      exact ⟨by simp, by simp⟩
    have hpoint : Typable (text ++ ['0'] ++ ['.']) := by
      refine typable_concat_iff.mpr ⟨hfirst, hc, fits_of_isNumeralChar (.inr rfl) ?_⟩
      rw [lastPart_concat (by decide), hempty]
      exact ⟨by simp, by simp⟩
    rwa [List.append_assoc] at hpoint

theorem press_of_fits (hc : c ∈ plainKeys) (h : Fits text c) :
    (⟨String.ofList text⟩ : Input).press (String.singleton c) =
      (⟨String.ofList (text ++ [c])⟩, true) := by
  rw [press_ofString, String.toList_ofList, String.toList_singleton, typedChars?_of_fits hc h]

theorem typable_press {input : Input} (h : TypableText input.text) (hc : c ∈ plainKeys) :
    TypableText (input.press (String.singleton c)).1.text := by
  obtain ⟨_⟩ := input
  obtain ⟨line, rfl, hline⟩ := h
  rw [press_ofString, String.toList_singleton]
  cases htyped : typedChars? line.toList [c] with
  | none => exact ⟨line, rfl, hline⟩
  | some typed =>
    refine ⟨String.ofList typed, rfl, ?_⟩
    rw [String.toList_ofList]
    exact typable_of_typedChars? hline hc htyped

/-! ### Rows of edits -/

/-- A use of the line: a plain key is typed, the last character is taken back, or all of them. -/
inductive Edit
  | key (c : Char) (h : c ∈ plainKeys)
  | backspace
  | clear

/-- The line after a use. -/
def edit (input : Input) : Edit → Input
  | .key c _ => (input.press (String.singleton c)).1
  | .backspace => input.backspace
  | .clear => input.clear

/-- The line after some uses, one after the other. -/
def edits (input : Input) (row : List Edit) : Input := row.foldl edit input

/-- Types keys one after the other; the flags say which of them the rules let through. -/
def pressAll (input : Input) : List Char → Input × List Bool
  | [] => (input, [])
  | c :: rest =>
    let (next, through) := input.press (String.singleton c)
    let (last, flags) := next.pressAll rest
    (last, through :: flags)

theorem typable_edit {input : Input} (h : TypableText input.text) (e : Edit) :
    TypableText (input.edit e).text := by
  cases e with
  | key c hc => exact typable_press h hc
  | backspace =>
    obtain ⟨_⟩ := input
    obtain ⟨line, rfl, hline⟩ := h
    refine ⟨String.ofList line.toList.dropLast, ?_, ?_⟩
    · rw [LooseText.ofString_ofList, List.map_dropLast]
      rfl
    · rw [String.toList_ofList]
      exact hline.dropLast
  | clear => exact typableText_empty

/-- No row of edits leaves the language. -/
theorem typable_edits {input : Input} (h : TypableText input.text) (row : List Edit) :
    TypableText (input.edits row).text := by
  induction row generalizing input with
  | nil => exact h
  | cons e row ih => exact ih (typable_edit h e)

theorem pressAll_append (input : Input) (a b : List Char) :
    input.pressAll (a ++ b) =
      (((input.pressAll a).1.pressAll b).1,
        (input.pressAll a).2 ++ ((input.pressAll a).1.pressAll b).2) := by
  induction a generalizing input with
  | nil => rfl
  | cons c a ih => simp only [List.cons_append, pressAll, ih]

/-- Every text of the language is typed as it stands, and no key of it is refused. -/
theorem pressAll_of_typable (h : Typable text) :
    empty.pressAll text = (⟨String.ofList text⟩, List.replicate text.length true) := by
  induction text using List.reverseRecOn with
  | nil => rfl
  | append_singleton text c ih =>
    obtain ⟨htext, hc, hfits⟩ := typable_concat_iff.mp h
    have hpress := press_of_fits hc hfits
    rw [pressAll_append, ih htext]
    simp only [pressAll, hpress, List.length_append, List.length_singleton,
      List.replicate_succ']

end DeskCalculator.Input
