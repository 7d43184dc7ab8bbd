import Mathlib.Tactic.SplitIfs
import DeskCalculator.Json.Lexing

/-!
# DeskCalculator.Proofs.Json.StringText

The texts of a string. A character can be written in several ways (`Spells`): by itself, by a letter
behind a backslash, by its code, and by a pair of surrogate codes if it needs more than four
hexadecimal digits. A surrogate can be written by its code only, and not where its partner would
follow, since the two would be a character. Whichever way is taken for which character, reading
gives the string back (`takeLexeme?_string`); what is read as a string is written in such ways
(`spellsText_of_takePieces?`); and the way that the writer takes is one of them
(`spellsText_flatMap_writeChar`).
-/

namespace DeskCalculator.Json

/-- The letters that stand for a character behind a backslash, each with its character. -/
def letterEscapes : List (Char × Char) :=
  [('"', '"'), ('\\', '\\'), ('/', '/'), ('b', '\x08'), ('f', '\x0c'), ('n', '\n'), ('r', '\r'),
    ('t', '\t')]

/-- A hexadecimal digit, in lower or upper case, and its value. -/
def IsHexDigit (c : Char) (d : Nat) : Prop :=
  d < 16 ∧ (c = Nat.digitChar d ∨ c = (Nat.digitChar d).toUpper)

/-- Four hexadecimal digits and the number that they denote. -/
def IsCode (x₁ x₂ x₃ x₄ : Char) (code : Nat) : Prop :=
  ∃ d₁ d₂ d₃ d₄, IsHexDigit x₁ d₁ ∧ IsHexDigit x₂ d₂ ∧ IsHexDigit x₃ d₃ ∧ IsHexDigit x₄ d₄ ∧
    code = ((d₁ * 16 + d₂) * 16 + d₃) * 16 + d₄

/-- A character and a way to write it between quotes. -/
inductive Spells : Char → List Char → Prop
  /-- By itself, if it is no quote, backslash or control character. -/
  | plain {c : Char} (hcontrol : 0x20 ≤ c.toNat) (hquote : c ≠ '"') (hbackslash : c ≠ '\\') :
      Spells c [c]
  | letter {c letter : Char} (h : (letter, c) ∈ letterEscapes) : Spells c ['\\', letter]
  | code {c x₁ x₂ x₃ x₄ : Char} (h : IsCode x₁ x₂ x₃ x₄ c.toNat) :
      Spells c ['\\', 'u', x₁, x₂, x₃, x₄]
  /-- By the codes of two surrogates. -/
  | pair {c x₁ x₂ x₃ x₄ y₁ y₂ y₃ y₄ : Char} {high low : Nat} (hhigh : IsCode x₁ x₂ x₃ x₄ high)
      (hlow : IsCode y₁ y₂ y₃ y₄ low) (hhigh' : 0xD800 ≤ high ∧ high < 0xDC00)
      (hlow' : 0xDC00 ≤ low ∧ low < 0xE000)
      (hc : c.toNat = 0x10000 + (high - 0xD800) * 0x400 + (low - 0xDC00)) :
      Spells c ['\\', 'u', x₁, x₂, x₃, x₄, '\\', 'u', y₁, y₂, y₃, y₄]

/-- Whether a surrogate is the first half of a pair, the second half of which a text begins with. -/
def MeetsPartner (s : Surrogate) (text : List CodePoint) : Prop :=
  s.isHigh = true ∧ ∃ low rest, text = .surrogate low :: rest ∧ low.isHigh = false

/-- The code points of a string, each written in one of its ways. -/
inductive SpellsText : List CodePoint → List Char → Prop
  | nil : SpellsText [] []
  | cons {c : Char} {text : List CodePoint} {written rest : List Char} (hc : Spells c written)
      (hrest : SpellsText text rest) : SpellsText (.char c :: text) (written ++ rest)
  /-- A surrogate by its code. -/
  | lone {x₁ x₂ x₃ x₄ : Char} {s : Surrogate} {text : List CodePoint} {rest : List Char}
      (hcode : IsCode x₁ x₂ x₃ x₄ s.code) (halone : ¬ MeetsPartner s text)
      (hrest : SpellsText text rest) :
      SpellsText (.surrogate s :: text) (['\\', 'u', x₁, x₂, x₃, x₄] ++ rest)

/-! ### Escapes -/

theorem unescape?_eq_some_iff {letter c : Char} :
    unescape? letter = some c ↔ (letter, c) ∈ letterEscapes := by
  constructor
  · intro h
    unfold unescape? at h
    split at h
    iterate 8
      obtain rfl := Option.some.inj h
      simp [letterEscapes]
    exact absurd h (by simp)
  · intro h
    have hall : (letterEscapes.all fun (letter, c) => unescape? letter = some c) = true := by
      decide
    simpa using List.all_eq_true.mp hall _ h

theorem toNat_of_hexDigit? {c : Char} {d : Nat} (h : Text.hexDigit? c = some d) :
    c.toNat ≤ 102 := by
  have htoNat : ∀ {a b : Char}, a ≤ b → a.toNat ≤ b.toNat := fun h => h
  unfold Text.hexDigit? at h
  split at h
  · rename_i hdigit
    simp only [Char.isDigit, Bool.and_eq_true, decide_eq_true_eq] at hdigit
    exact Nat.le_trans hdigit.2 (by decide)
  · split at h
    · rename_i hletter
      exact htoNat hletter.2
    · split at h
      · rename_i hletter
        exact Nat.le_trans (htoNat hletter.2) (by decide)
      · exact absurd h (by simp)

theorem hexDigit?_eq_some_iff {c : Char} {d : Nat} :
    Text.hexDigit? c = some d ↔ IsHexDigit c d := by
  constructor
  · intro h
    have hall : ∀ n < 103, ∀ d ∈ Text.hexDigit? (Char.ofNat n), d < 16 ∧
        (Char.ofNat n = Nat.digitChar d ∨ Char.ofNat n = (Nat.digitChar d).toUpper) := by decide
    have hc := hall c.toNat (Nat.lt_succ_of_le (toNat_of_hexDigit? h)) d
    rw [Char.ofNat_toNat] at hc
    exact hc h
  · have hupper : ∀ d < 16, Text.hexDigit? (Nat.digitChar d).toUpper = some d := by decide
    rintro ⟨hd, rfl | rfl⟩
    · exact Text.hexDigit?_digitChar hd
    · exact hupper d hd

theorem codeUnit?_eq_some_iff {x₁ x₂ x₃ x₄ : Char} {code : Nat} :
    codeUnit? x₁ x₂ x₃ x₄ = some code ↔ IsCode x₁ x₂ x₃ x₄ code := by
  constructor
  · intro h
    unfold codeUnit? at h
    split at h
    · rename_i d₁ d₂ d₃ d₄ h₁ h₂ h₃ h₄
      exact ⟨d₁, d₂, d₃, d₄, hexDigit?_eq_some_iff.mp h₁, hexDigit?_eq_some_iff.mp h₂,
        hexDigit?_eq_some_iff.mp h₃, hexDigit?_eq_some_iff.mp h₄, (Option.some.inj h).symm⟩
    · exact absurd h (by simp)
  · rintro ⟨d₁, d₂, d₃, d₄, h₁, h₂, h₃, h₄, rfl⟩
    rw [codeUnit?, hexDigit?_eq_some_iff.mpr h₁, hexDigit?_eq_some_iff.mpr h₂,
      hexDigit?_eq_some_iff.mpr h₃, hexDigit?_eq_some_iff.mpr h₄]

theorem IsCode.lt {x₁ x₂ x₃ x₄ : Char} {code : Nat} (h : IsCode x₁ x₂ x₃ x₄ code) :
    code < 0x10000 := by
  obtain ⟨d₁, d₂, d₃, d₄, ⟨h₁, -⟩, ⟨h₂, -⟩, ⟨h₃, -⟩, ⟨h₄, -⟩, rfl⟩ := h
  omega

theorem isHighSurrogate_iff {code : Nat} :
    isHighSurrogate code = true ↔ 0xD800 ≤ code ∧ code < 0xDC00 := by
  rw [isHighSurrogate, Bool.and_eq_true, decide_eq_true_eq, decide_eq_true_eq]

theorem isLowSurrogate_iff {code : Nat} :
    isLowSurrogate code = true ↔ 0xDC00 ≤ code ∧ code < 0xE000 := by
  rw [isLowSurrogate, Bool.and_eq_true, decide_eq_true_eq, decide_eq_true_eq]

theorem toNat_ofNat {n : Nat} (h : n.isValidChar) : (Char.ofNat n).toNat = n := by
  rw [Char.ofNat, dif_pos h]
  rfl

/-! ### Reading -/

/-- The code of a character is no surrogate. -/
theorem isSurrogate_toNat (c : Char) :
    isHighSurrogate c.toNat = false ∧ isLowSurrogate c.toNat = false := by
  have hvalid : c.toNat < 0xD800 ∨ 0xDFFF < c.toNat ∧ c.toNat < 0x110000 := c.valid
  simp only [isHighSurrogate, isLowSurrogate, Bool.and_eq_false_iff, decide_eq_false_iff_not]
  omega

theorem isHighSurrogate_code (s : Surrogate) : isHighSurrogate s.code = s.isHigh := by
  rw [isHighSurrogate, Surrogate.isHigh, decide_eq_true s.le_code, Bool.true_and]

theorem isLowSurrogate_code (s : Surrogate) : isLowSurrogate s.code = !s.isHigh := by
  rw [isLowSurrogate, Surrogate.isHigh, decide_eq_true s.code_lt, Bool.and_true, ← decide_not]
  exact decide_eq_decide.mpr Nat.not_lt.symm

theorem unpaired_toNat (c : Char) : unpaired c.toNat = .char c := by
  have hvalid : c.toNat < 0xD800 ∨ 0xDFFF < c.toNat ∧ c.toNat < 0x110000 := c.valid
  rw [unpaired, dif_neg (by omega), Char.ofNat_toNat]

theorem unpaired_code (s : Surrogate) : unpaired s.code = .surrogate s :=
  dif_pos ⟨s.le_code, s.code_lt⟩

/-- Only the first half of a pair is joined with what follows. -/
theorem joinPieces_code {code : Nat} (h : isHighSurrogate code = false) (rest : List Piece) :
    joinPieces (.code code :: rest) = unpaired code :: joinPieces rest := by
  match rest with
  | [] => rfl
  | .char d :: rest => rfl
  | .code low :: rest => simp [joinPieces, h]

/-- A surrogate that does not meet its partner stays as it is. -/
theorem joinPieces_surrogate {s : Surrogate} {rest : List Piece}
    (h : ¬ MeetsPartner s (joinPieces rest)) :
    joinPieces (.code s.code :: rest) = .surrogate s :: joinPieces rest := by
  rw [← unpaired_code s]
  match rest with
  | [] => rfl
  | .char d :: rest => rfl
  | .code low :: rest =>
    rw [joinPieces, if_neg]
    intro hpair
    rw [Bool.and_eq_true, isHighSurrogate_code, isLowSurrogate_iff] at hpair
    -- the second half would be the first code point of what follows
    let s' : Surrogate := ⟨low, by omega, hpair.2.2⟩
    have hlow : s'.isHigh = false := by simpa [Surrogate.isHigh] using hpair.2.1
    have hjoin : joinPieces (.code s'.code :: rest) = .surrogate s' :: joinPieces rest := by
      rw [joinPieces_code (by rw [isHighSurrogate_code, hlow]), unpaired_code]
    exact h ⟨hpair.1, s', _, hjoin, hlow⟩

section TakePieces

variable {c : Char} {code : Nat} {rest : List Char}

theorem takePieces?_plain (hcontrol : 0x20 ≤ c.toNat) (hquote : c ≠ '"') (hbackslash : c ≠ '\\') :
    takePieces? (c :: rest) =
      (takePieces? rest).map fun (pieces, rest) => (.char c :: pieces, rest) := by
  have hplain : ¬ (c.toNat < 0x20 ∨ c = '\\') := by
    rintro (hlt | heq)
    · omega
    · exact hbackslash heq
  rw [takePieces?, if_neg hplain]
  · exact hquote
  · exact fun _ _ _ _ _ h _ => hbackslash h
  · exact fun _ _ h _ => hbackslash h

theorem takePieces?_letter {letter : Char} (h : (letter, c) ∈ letterEscapes) :
    takePieces? ('\\' :: letter :: rest) =
      (takePieces? rest).map fun (pieces, rest) => (.char c :: pieces, rest) := by
  have hu : letter ≠ 'u' := by
    rintro rfl
    simp [letterEscapes] at h
  rw [takePieces?, unescape?_eq_some_iff.mpr h]
  exact fun _ _ _ _ _ heq _ => hu heq

theorem takePieces?_code {x₁ x₂ x₃ x₄ : Char} (h : IsCode x₁ x₂ x₃ x₄ code) :
    takePieces? ('\\' :: 'u' :: x₁ :: x₂ :: x₃ :: x₄ :: rest) =
      (takePieces? rest).map fun (pieces, rest) => (.code code :: pieces, rest) := by
  rw [takePieces?, codeUnit?_eq_some_iff.mpr h]

end TakePieces

/-- Every way to write a character gives pieces that stand for the character, whatever follows. -/
theorem Spells.exists_pieces {c : Char} {written : List Char} (h : Spells c written) :
    ∃ pieces, (∀ rest, takePieces? (written ++ rest) =
        (takePieces? rest).map fun (more, rest) => (pieces ++ more, rest)) ∧
      ∀ more, joinPieces (pieces ++ more) = .char c :: joinPieces more := by
  cases h with
  | plain hcontrol hquote hbackslash =>
    exact ⟨[.char c], fun _ => takePieces?_plain hcontrol hquote hbackslash, fun _ => rfl⟩
  | letter h => exact ⟨[.char c], fun _ => takePieces?_letter h, fun _ => rfl⟩
  | code h =>
    refine ⟨[.code c.toNat], fun _ => takePieces?_code h, fun more => ?_⟩
    show joinPieces (.code c.toNat :: more) = _
    rw [joinPieces_code (isSurrogate_toNat c).1, unpaired_toNat]
  | @pair _ _ _ _ _ _ _ _ high low hhigh hlow hhigh' hlow' hc =>
    refine ⟨[.code high, .code low], fun rest => ?_, fun more => ?_⟩
    · show takePieces?
        ('\\' :: 'u' :: _ :: _ :: _ :: _ :: '\\' :: 'u' :: _ :: _ :: _ :: _ :: rest) = _
      rw [takePieces?_code hhigh, takePieces?_code hlow, Option.map_map]
      rfl
    · show joinPieces (.code high :: .code low :: more) = _
      rw [joinPieces, isHighSurrogate_iff.mpr hhigh', isLowSurrogate_iff.mpr hlow',
        joinSurrogates, ← hc, Char.ofNat_toNat]
      rfl

/-- A string is read, up to its closing quote, from each of its texts. -/
theorem SpellsText.exists_pieces {text : List CodePoint} {written : List Char}
    (h : SpellsText text written) (rest : List Char) :
    ∃ pieces, takePieces? (written ++ '"' :: rest) = some (pieces, rest) ∧
      joinPieces pieces = text := by
  induction h with
  | nil => exact ⟨[], rfl, rfl⟩
  | cons hc _ ih =>
    obtain ⟨pieces, htake, hjoin⟩ := hc.exists_pieces
    obtain ⟨more, hmore, rfl⟩ := ih
    exact ⟨pieces ++ more, by rw [List.append_assoc, htake, hmore]; rfl, hjoin more⟩
  | @lone _ _ _ _ s _ written hcode halone _ ih =>
    obtain ⟨more, hmore, rfl⟩ := ih
    refine ⟨.code s.code :: more, ?_, joinPieces_surrogate halone⟩
    show takePieces? ('\\' :: 'u' :: _ :: _ :: _ :: _ :: (written ++ '"' :: rest)) = _
    rw [takePieces?_code hcode, hmore]
    rfl

theorem takeLexeme?_string {text : List CodePoint} {written : List Char}
    (h : SpellsText text written) (rest : List Char) :
    takeLexeme? ('"' :: (written ++ '"' :: rest)) = some (.string ⟨text⟩, rest) := by
  obtain ⟨pieces, htake, rfl⟩ := h.exists_pieces rest
  rw [takeLexeme?, htake]
  rfl

/-! ### What is read -/

/-- Pieces of a string, each as it is written. -/
inductive WritesPieces : List Piece → List Char → Prop
  | nil : WritesPieces [] []
  | char {c : Char} {written rest : List Char} {pieces : List Piece} (hc : Spells c written)
      (hrest : WritesPieces pieces rest) : WritesPieces (.char c :: pieces) (written ++ rest)
  | code {x₁ x₂ x₃ x₄ : Char} {code : Nat} {pieces : List Piece} {rest : List Char}
      (hcode : IsCode x₁ x₂ x₃ x₄ code) (hrest : WritesPieces pieces rest) :
      WritesPieces (.code code :: pieces) (['\\', 'u', x₁, x₂, x₃, x₄] ++ rest)

theorem exists_of_map_cons {taken : Option (List Piece × List Char)} {piece : Piece}
    {pieces : List Piece} {rest : List Char}
    (h : (taken.map fun (pieces, rest) => (piece :: pieces, rest)) = some (pieces, rest)) :
    ∃ more, taken = some (more, rest) ∧ pieces = piece :: more := by
  obtain ⟨⟨more, rest'⟩, htaken, heq⟩ := Option.map_eq_some_iff.mp h
  obtain ⟨rfl, rfl⟩ := Prod.mk.inj heq
  exact ⟨more, htaken, rfl⟩

theorem writesPieces_of_takePieces? {text rest : List Char} {pieces : List Piece}
    (h : takePieces? text = some (pieces, rest)) :
    ∃ written, WritesPieces pieces written ∧ text = written ++ '"' :: rest := by
  fun_induction takePieces? text generalizing pieces with
  | case1 => exact absurd h (by simp)
  | case2 =>
    obtain ⟨rfl, rfl⟩ := Prod.mk.inj (Option.some.inj h)
    exact ⟨[], .nil, rfl⟩
  | case3 x₁ x₂ x₃ x₄ text hcode => exact absurd h (by simp)
  | case4 x₁ x₂ x₃ x₄ text code hcode ih =>
    obtain ⟨more, htake, rfl⟩ := exists_of_map_cons h
    obtain ⟨written, hwritten, rfl⟩ := ih htake
    exact ⟨_, .code (codeUnit?_eq_some_iff.mp hcode) hwritten, rfl⟩
  | case5 letter text hu hletter => exact absurd h (by simp)
  | case6 letter text hu c hletter ih =>
    obtain ⟨more, htake, rfl⟩ := exists_of_map_cons h
    obtain ⟨written, hwritten, rfl⟩ := ih htake
    exact ⟨_, .char (.letter (unescape?_eq_some_iff.mp hletter)) hwritten, rfl⟩
  | case7 c text hquote hu hbackslash hrefused => exact absurd h (by simp)
  | case8 c text hquote hu hbackslash hplain ih =>
    obtain ⟨more, htake, rfl⟩ := exists_of_map_cons h
    obtain ⟨written, hwritten, rfl⟩ := ih htake
    have hchar : Spells c [c] :=
      .plain (by omega) hquote fun hc => hplain (.inr hc)
    exact ⟨_, .char hchar hwritten, rfl⟩

/-- A code that is not joined with another one stands for one code point. -/
theorem SpellsText.unpaired {x₁ x₂ x₃ x₄ : Char} {code : Nat} {text : List CodePoint}
    {rest : List Char} (hcode : IsCode x₁ x₂ x₃ x₄ code)
    (halone : ∀ s : Surrogate, s.code = code → ¬ MeetsPartner s text)
    (hrest : SpellsText text rest) :
    SpellsText (unpaired code :: text) (['\\', 'u', x₁, x₂, x₃, x₄] ++ rest) := by
  rw [Json.unpaired]
  split
  · exact .lone hcode (halone _ rfl) hrest
  · rename_i h
    have hvalid : code.isValidChar := by
      have hlt := hcode.lt
      rw [Nat.isValidChar]
      omega
    exact .cons (.code (by rwa [toNat_ofNat hvalid])) hrest

/-- Where a code is read as a surrogate, it is that of the surrogate. -/
theorem eq_code_of_joinPieces {code : Nat} {rest : List Piece} {s : Surrogate}
    {text : List CodePoint} (h : joinPieces (.code code :: rest) = .surrogate s :: text) :
    code = s.code := by
  have hunpaired : unpaired code = .surrogate s → code = s.code := by
    intro heq
    rw [unpaired] at heq
    split at heq
    · exact congrArg Surrogate.code (CodePoint.surrogate.inj heq)
    · exact absurd heq (by simp)
  match rest with
  | [] => exact hunpaired (List.cons.inj h).1
  | .char d :: rest => exact hunpaired (List.cons.inj h).1
  | .code low :: rest =>
    rw [joinPieces] at h
    split at h
    · exact absurd (List.cons.inj h).1 (by simp)
    · exact hunpaired (List.cons.inj h).1

theorem WritesPieces.spellsText {pieces : List Piece} {written : List Char}
    (h : WritesPieces pieces written) : SpellsText (joinPieces pieces) written := by
  fun_induction joinPieces pieces generalizing written with
  | case1 =>
    cases h
    exact .nil
  | case2 c rest ih =>
    cases h with
    | char hc hrest => exact .cons hc (ih hrest)
  | case3 code =>
    cases h with
    | code hcode hrest =>
      cases hrest
      exact .unpaired hcode (fun s _ hmeets => by simp [MeetsPartner] at hmeets) .nil
  | case4 code c rest ih =>
    cases h with
    | code hcode hrest =>
      exact .unpaired hcode (fun s _ hmeets => by simp [MeetsPartner, joinPieces] at hmeets)
        (ih hrest)
  | case5 high low rest hpair ih =>
    rw [Bool.and_eq_true] at hpair
    cases h with
    | code hhigh hrest =>
      cases hrest with
      | code hlow hrest =>
        have hhigh' := isHighSurrogate_iff.mp hpair.1
        have hlow' := isLowSurrogate_iff.mp hpair.2
        have hvalid : (0x10000 + (high - 0xD800) * 0x400 + (low - 0xDC00)).isValidChar := by
          rw [Nat.isValidChar]
          omega
        rw [← List.append_assoc]
        exact .cons (.pair hhigh hlow hhigh' hlow' (toNat_ofNat hvalid)) (ih hrest)
  | case6 high low rest hpair ih =>
    cases h with
    | code hcode hrest =>
      refine .unpaired hcode (fun s hs hmeets => hpair ?_) (ih hrest)
      obtain ⟨hhigh, s', text, htext, hlow⟩ := hmeets
      rw [eq_code_of_joinPieces htext, ← hs, isHighSurrogate_code, isLowSurrogate_code, hhigh, hlow]
      rfl

/-- What is read as a string is, up to its closing quote, one of its texts. -/
theorem spellsText_of_takePieces? {text rest : List Char} {pieces : List Piece}
    (h : takePieces? text = some (pieces, rest)) :
    ∃ written, SpellsText (joinPieces pieces) written ∧ text = written ++ '"' :: rest := by
  obtain ⟨written, hwritten, htext⟩ := writesPieces_of_takePieces? h
  exact ⟨written, hwritten.spellsText, htext⟩

/-! ### Writing -/

/-- Four hexadecimal digits denote the number that they were written for. -/
theorem isCode_hexDigits {n : Nat} (h : n < 0x10000) :
    ∃ x₁ x₂ x₃ x₄, Text.hexDigits 4 n = [x₁, x₂, x₃, x₄] ∧ IsCode x₁ x₂ x₃ x₄ n := by
  have hdigit : ∀ m, IsHexDigit (Nat.digitChar (m % 16)) (m % 16) :=
    fun m => ⟨Nat.mod_lt m (by decide), .inl rfl⟩
  refine ⟨_, _, _, _, rfl, _, _, _, _, hdigit _, hdigit _, hdigit _, hdigit _, ?_⟩
  omega

/-- The writer takes one of the ways to write a character. -/
theorem spells_writeChar (c : Char) : Spells c (writeChar c) := by
  unfold writeChar
  split_ifs with hquote hbackslash h h h h h hcontrol
  · exact .letter (by simp [hquote, letterEscapes])
  · exact .letter (by simp [hbackslash, letterEscapes])
  iterate 5 exact .letter (by simp [h, letterEscapes])
  · obtain ⟨x₁, x₂, x₃, x₄, hdigits, hcode⟩ := isCode_hexDigits (n := c.toNat) (by omega)
    rw [hdigits]
    exact .code hcode
  · exact .plain (by omega) hquote hbackslash

theorem spellsText_flatMap_writeChar (text : List Char) :
    SpellsText (text.map .char) (text.flatMap writeChar) := by
  induction text with
  | nil => exact .nil
  | cons c text ih => exact .cons (spells_writeChar c) ih

end DeskCalculator.Json
