import DeskCalculator.Proofs.Classification
import DeskCalculator.Proofs.Input.Typable
import DeskCalculator.Proofs.Numeric.NumeralText
import DeskCalculator.Proofs.Numeric.ResultRounding

/-!
# DeskCalculator.Proofs.Input.Literals

What the evaluation of a typable text can complain about.

* **From segments to tokens.** The numbers among the tokens of a text of plain keys are its segments
  and implicit zeros (`mem_segments_of_tokenize`).
* **From tokens to values.** A literal is always a numeral, so it is refused only if its value is
  above every finite one (`lt_value_of_readNumber`).
* **Results** are typable themselves (`typable_resultText`).
-/

namespace DeskCalculator

open Numeric (Decimal)
open Numeric.Binary64 (Finite rankValue greatestRank)
open Window (plainKeys)

namespace Input

open Expression (Token Scan tokenize isNumberChar Failure FailureKind)

/-! ### The numbers among the tokens -/

/-- Only numbers become number tokens, and implicit zeros. -/
theorem eq_zero_of_mem_tokens {l : Expression.Lexeme} {awaiting : Bool} {n : String}
    (hl : l.startsNumber = false) (hn : Token.number n ∈ l.tokens awaiting) : n = "0" := by
  cases l with
  | number _ => exact absurd hl (by simp [Expression.Lexeme.startsNumber])
  | operator op =>
    rw [Expression.Lexeme.tokens] at hn
    split at hn <;> simp_all
  | _ => exact absurd hn (by simp [Expression.Lexeme.tokens])

/-- Plain keys that belong to no number are read as lexemes of one character. -/
theorem exists_lexeme_of_isSegmentEnd {c : Char} (h : isSegmentEnd c = true) :
    ∃ l : Expression.Lexeme, l.chars = [c] ∧ l.startsNumber = false := by
  have hmem : c ∈ ['+', '-', '*', '/', '(', ')', '%'] := by simpa [isSegmentEnd] using h
  simp only [List.mem_cons, List.not_mem_nil, or_false] at hmem
  obtain rfl | rfl | rfl | rfl | rfl | rfl | rfl := hmem
  · exact ⟨.operator .plus, rfl, rfl⟩
  · exact ⟨.operator .minus, rfl, rfl⟩
  · exact ⟨.operator .times, rfl, rfl⟩
  · exact ⟨.operator .divide, rfl, rfl⟩
  · exact ⟨.leftParen, rfl, rfl⟩
  · exact ⟨.rightParen, rfl, rfl⟩
  · exact ⟨.percent, rfl, rfl⟩

/-- What a scan has made of a text: the open run is the last segment, and the complete numbers are
segments before it and implicit zeros. -/
structure Follows (s : Scan) (text : List Char) : Prop where
  digits : s.digits.toList = lastPart text
  numbers : ∀ n, Token.number n ∈ s.tokens.toList →
    n = "0" ∨ n ≠ "" ∧ n.toList ∈ (segments text).dropLast

theorem Follows.close {s : Scan} {text : List Char} (h : Follows s text) {n : String}
    (hn : Token.number n ∈ s.close.toList) : n = "0" ∨ n ≠ "" ∧ n.toList ∈ segments text := by
  have hmem : n.toList ∈ segments text ↔
      n.toList ∈ (segments text).dropLast ∨ n.toList = lastPart text := by
    conv_lhs => rw [segments_eq, List.mem_append, List.mem_singleton]
  have hclosed : Token.number n ∈ s.tokens.toList → n = "0" ∨ n ≠ "" ∧ n.toList ∈ segments text :=
    fun hn => (h.numbers n hn).imp_right fun ⟨hne, hn⟩ => ⟨hne, hmem.mpr (.inl hn)⟩
  by_cases hopen : s.digits = ""
  · exact hclosed (by rwa [Scan.close, if_pos hopen] at hn)
  · rw [Scan.close_of_digits_ne hopen] at hn
    obtain hn | hn : Token.number n ∈ s.tokens.toList ∨ n = s.digits := by simpa using hn
    · exact hclosed hn
    · exact .inr ⟨hn ▸ hopen, hmem.mpr (.inr (by rw [hn, h.digits]))⟩

theorem Follows.step {s s' : Scan} {text : List Char} {c : Char} (h : Follows s text)
    (hc : c ∈ plainKeys) (hstep : s.step c = .ok s') : Follows s' (text ++ [c]) := by
  obtain hend | hnumeral := isSegmentEnd_or_isNumeralChar hc
  · obtain ⟨l, hchars, hl⟩ := exists_lexeme_of_isSegmentEnd hend
    rw [Scan.step_of_chars s hchars hl] at hstep
    obtain rfl := Except.ok.inj hstep
    -- the run is closed, and its number is the segment that has just become complete
    refine ⟨(lastPart_concat_end hend).symm, fun n hn => ?_⟩
    rw [segments_concat_end hend, List.dropLast_concat]
    obtain hn | hn : Token.number n ∈ s.close.toList ∨ Token.number n ∈ l.tokens _ := by
      simpa using hn
    · exact h.close hn
    · exact .inl (eq_zero_of_mem_tokens hl hn)
  · have hsame := isSegmentEnd_of_isNumeralChar hnumeral
    rw [Scan.step, if_pos (Expression.isNumberChar_iff.mpr hnumeral)] at hstep
    obtain rfl := Except.ok.inj hstep
    refine ⟨?_, fun n hn => ?_⟩
    · rw [lastPart_concat hsame, ← h.digits, String.toList_push]
    · rw [segments_append (by simpa using hsame), List.dropLast_concat]
      exact h.numbers n hn

theorem follows_of_run {text : List Char} (htext : ∀ c ∈ text, c ∈ plainKeys) {s : Scan}
    (h : Scan.empty.run text = .ok s) : Follows s text := by
  -- from the end, since it is the last segment that a character is appended to
  induction text using List.reverseRecOn generalizing s with
  | nil =>
    obtain rfl := Except.ok.inj h
    exact ⟨rfl, by simp [Scan.empty]⟩
  | append_singleton text c ih =>
    rw [Scan.run_append] at h
    obtain ⟨s₁, hrun, hlast⟩ := bind_eq_ok_iff.mp h
    have hstep : s₁.step c = .ok s := by
      rw [Scan.run_cons] at hlast
      obtain ⟨s₂, hstep, hnil⟩ := bind_eq_ok_iff.mp hlast
      rwa [← Except.ok.inj hnil]
    exact (ih (fun d hd => htext d (List.mem_append_left _ hd)) hrun).step (htext c (by simp)) hstep

/-- The numbers among the tokens are segments of the text and implicit zeros. -/
theorem mem_segments_of_tokenize {text n : String} {ts : List Token}
    (htext : ∀ c ∈ text.toList, c ∈ plainKeys) (h : tokenize text = .ok ts)
    (hn : Token.number n ∈ ts) : n = "0" ∨ n ≠ "" ∧ n.toList ∈ segments text.toList := by
  obtain ⟨s, hrun, rfl⟩ := Expression.tokenize_eq_ok_iff.mp h
  exact (follows_of_run htext hrun).close hn

/-! ### The values of literals -/

/-- The decimal that a literal denotes. -/
def literalDecimal (literal : List Char) : Decimal :=
  ⟨Nat.ofDigitChars 10 (literal.filter Char.isDigit) 0,
    -((Decimal.fractionPart literal).length : Int)⟩

theorem ofText?_of_isLiteral {literal : List Char} (h : IsLiteral literal) :
    Numeric.Numeral.ofText? literal = some ⟨false, literalDecimal literal⟩ := by
  have hpoint : ∀ {digits : List Char}, (∀ c ∈ digits, c.isDigit = true) →
      ∀ c ∈ digits, (c != '.') = true := fun h c hc => Text.ne_point_of_isDigit (h c hc)
  cases h with
  | whole h =>
    have hfraction : Decimal.fractionPart literal = [] := by
      rw [Decimal.fractionPart, List.dropWhile_eq_nil_iff.mpr (hpoint h.isDigit), List.drop_nil]
    rw [Numeric.Numeral.ofText?_digits h.ne_nil h.isDigit, literalDecimal, hfraction,
      List.filter_eq_self.mpr h.isDigit]
    rfl
  | @point digits fraction h hf =>
    have hfraction : Decimal.fractionPart (digits ++ '.' :: fraction) = fraction := by
      rw [Decimal.fractionPart, List.dropWhile_append_of_pos (hpoint h.isDigit),
        List.dropWhile_cons_of_neg (by simp), List.drop_one, List.tail_cons]
    have hdigits : (digits ++ '.' :: fraction).filter Char.isDigit = digits ++ fraction := by
      rw [List.filter_append, List.filter_cons_of_neg (by decide), List.filter_eq_self.mpr h.isDigit,
        List.filter_eq_self.mpr hf]
    rw [Numeric.Numeral.ofText?_point h.ne_nil h.isDigit hf, literalDecimal, hfraction, hdigits]

/-- A literal is refused only if its value is above every finite one. -/
theorem lt_value_of_readNumber {n : String} {cause : Failure} (h : IsLiteral n.toList)
    (hread : Expression.readNumber n = .error cause) :
    rankValue greatestRank < (literalDecimal n.toList).value := by
  by_contra hle
  have hrank := Decimal.nearestRank_le_of_le (not_lt.mp hle)
  have hfinite : (literalDecimal n.toList).nearestRank < Numeric.Binary64.rankBound := by
    rw [greatestRank] at hrank
    have hpos : 0 < Numeric.Binary64.rankBound := by decide
    omega
  have hnumber : Numeric.Binary64.ofDecimal false (literalDecimal n.toList) =
      .finite ⟨false, _, hfinite⟩ := Numeric.Binary64.ofDecimal_eq_finite_iff.mpr ⟨rfl, rfl⟩
  rw [Expression.readNumber_of_ofText? (ofText?_of_isLiteral h) hnumber] at hread
  exact absurd hread (by simp)

/-! ### The failures of typable texts -/

variable {text : String}

theorem mem_alphabet_of_mem_plainKeys {c : Char} (h : c ∈ plainKeys) : c ∈ Expression.alphabet := by
  have hall : plainKeys.all Expression.alphabet.contains = true := by decide
  exact List.contains_iff_mem.mp (List.all_eq_true.mp hall c h)

/-- Every character of a typable text may stand in an expression. -/
theorem Typable.kind?_ne_invalidCharacter (h : Typable text.toList) :
    (Outcome.ofExpression text).kind? ≠ some .invalidCharacter := by
  rw [Ne, Outcome.kind?_eq_invalidCharacter_iff, not_not]
  intro c hc
  simp [Expression.isAdmitted, mem_alphabet_of_mem_plainKeys (h.keys c hc)]

/-- A number of a typable text is called invalid only if a literal is too large. -/
theorem Typable.exists_lt_of_invalidNumber (h : Typable text.toList)
    (hkind : (Outcome.ofExpression text).kind? = some .invalidNumber) :
    ∃ literal ∈ segments text.toList, IsLiteral literal ∧
      rankValue greatestRank < (literalDecimal literal).value := by
  obtain ⟨cause, heval, hkind⟩ := Outcome.kind?_ofExpression_eq_some_iff.mp hkind
  obtain ⟨ts, n, hts, hn, hread⟩ := Expression.exists_readNumber_of_evaluate heval hkind
  obtain rfl | ⟨hne, hmem⟩ := mem_segments_of_tokenize h.keys hts hn
  · -- an implicit zero can be read
    rw [Expression.readNumber_zero] at hread
    exact absurd hread (by simp)
  · have hliteral : IsLiteral n.toList :=
      (h.literals n.toList hmem).resolve_left fun hnil => hne (String.toList_eq_nil_iff.mp hnil)
    exact ⟨n.toList, hmem, hliteral, lt_value_of_readNumber hliteral hread⟩

/-! ### Results -/

/-- Natural numbers are written without needless zeros. -/
theorem isWhole_toDigits (n : Nat) : IsWhole (Nat.toDigits 10 n) := by
  induction n using Nat.strongRecOn with
  | _ n ih =>
    have hdigit : ∀ d < 10, d.digitChar.isDigit = true := by decide
    rw [Nat.toDigits_eq_if (by decide)]
    split
    · rename_i hlt
      exact isWhole_concat_iff.mpr ⟨hdigit n hlt, .inl rfl⟩
    · rename_i hge
      refine isWhole_concat_iff.mpr ⟨hdigit _ (Nat.mod_lt n (by decide)), .inr ⟨ih _ (by omega), ?_⟩⟩
      intro hzero
      have hvalue := Nat.ofDigitChars_ten_toDigits (n := n / 10)
      -- a lone zero in front is the number zero, but the front is a positive number
      rw [hzero] at hvalue
      have : n / 10 = 0 := hvalue.symm
      omega

theorem isLiteral_positional (d : Decimal) : IsLiteral d.positional := by
  unfold Decimal.positional
  split
  · exact .whole (isWhole_toDigits _)
  · exact .point (isWhole_toDigits _) Decimal.isDigit_of_mem_paddedDigits

theorem mem_plainKeys_of_isNumeralChar {c : Char} (h : Text.IsNumeralChar c) : c ∈ plainKeys := by
  have hall : "0123456789".toList.all plainKeys.contains = true := by decide
  obtain h | rfl := h
  · exact List.contains_iff_mem.mp (List.all_eq_true.mp hall c (Text.isDigit_iff_mem.mp h))
  · decide

/-- A literal can be typed where a segment begins. -/
theorem Typable.append_literal {text literal : List Char} (h : Typable text)
    (hlast : lastPart text = []) (hliteral : IsLiteral literal) :
    Typable (text ++ literal) where
  keys := List.forall_mem_append.mpr
    ⟨h.keys, fun c hc => mem_plainKeys_of_isNumeralChar (hliteral.isNumeralChar c hc)⟩
  start := by
    rw [List.head?_append]
    cases hhead : text.head? with
    | some c =>
      have hstart := h.start
      rwa [hhead] at hstart
    | none =>
      intro hpercent
      have hmem : '%' ∈ literal := List.mem_of_head? hpercent
      exact (hliteral.isNumeralChar '%' hmem).ne_of_toNat (by decide) rfl
  literals := by
    rw [segments_append fun c hc => isSegmentEnd_of_isNumeralChar (hliteral.isNumeralChar c hc),
      hlast, List.forall_mem_append, List.forall_mem_singleton]
    exact ⟨fun segment hs => h.literals segment (List.dropLast_subset _ hs), .inr hliteral⟩

/-- Results can be typed. -/
theorem typable_resultText (y : Finite) : Typable (resultText y).toList := by
  rw [resultText]
  split
  · exact typable_nil.append_literal rfl (.whole (.inl rfl))
  · have hliteral := isLiteral_positional (Numeric.Binary64.shortest y.rank)
    rw [String.toList_ofList]
    split
    · have hminus : Typable ['-'] :=
        typable_concat_iff.mpr ⟨typable_nil, by decide, by simp,
          continues_of_isSegmentEnd (by decide)⟩
      exact hminus.append_literal rfl hliteral
    · exact typable_nil.append_literal rfl hliteral

end Input

end DeskCalculator
