import DeskCalculator.Proofs.Expression.Parentheses
import DeskCalculator.Proofs.Expression.Scanning

/-!
# DeskCalculator.Proofs.Expression.Alphabet

The characters of expressions. Scanning is refused for a character outside the alphabet, always for
the first one (`tokenize_eq_error_iff`), and for nothing else; and it keeps the parentheses of
the text, in order (`parens_of_tokenize`).
-/

namespace DeskCalculator.Expression

/-- The characters that expressions are made of, beside blanks. -/
def alphabet : List Char := "0123456789.+-*/()%".toList

/-- Whether a character may stand in an expression. -/
def isAdmitted (c : Char) : Bool := Text.isBlank c || alphabet.contains c

/-- The parentheses of a text, in order. -/
def parens (text : List Char) : List Char := text.filter fun c => c == '(' || c == ')'

/-- Beside digits and points the alphabet holds operators, parentheses and the percent sign. -/
theorem mem_alphabet_iff {c : Char} :
    c ∈ alphabet ↔ isNumberChar c = true ∨ (∃ op : Operator, c = op.symbol) ∨
      c = '(' ∨ c = ')' ∨ c = '%' := by
  have hop : (∃ op : Operator, c = op.symbol) ↔ c = '+' ∨ c = '-' ∨ c = '*' ∨ c = '/' := by
    constructor
    · rintro ⟨op, rfl⟩
      cases op <;> simp [Operator.symbol]
    · rintro (rfl | rfl | rfl | rfl)
      exacts [⟨.plus, rfl⟩, ⟨.minus, rfl⟩, ⟨.times, rfl⟩, ⟨.divide, rfl⟩]
  have hnum : isNumberChar c = true ↔ c ∈ "0123456789".toList ∨ c = '.' := by
    rw [isNumberChar_iff, Text.IsNumeralChar, Text.isDigit_iff_mem]
  have hsplit : alphabet = "0123456789".toList ++ '.' :: "+-*/()%".toList := by decide
  rw [hop, hnum, hsplit, List.mem_append, List.mem_cons, or_assoc]
  simp [or_assoc]

theorem isAdmitted_eq_false_iff {c : Char} :
    isAdmitted c = false ↔ Text.isBlank c = false ∧ c ∉ alphabet := by
  simp [isAdmitted]

namespace Scan

/-- A character is refused exactly if it is outside the alphabet. -/
theorem step_eq_error_iff {s : Scan} {c : Char} {cause : Failure} :
    s.step c = .error cause ↔ isAdmitted c = false ∧ cause = .invalidCharacter c := by
  rw [isAdmitted_eq_false_iff, mem_alphabet_iff, step]
  split
  · rename_i hnum
    simp [hnum]
  split
  · rename_i hblank
    simp [hblank]
  rename_i hnum hblank
  split
  · rename_i op hop
    simp [Operator.ofSymbol?_eq_some_iff.mp hop]
  rename_i hop
  have hnone : ¬ ∃ op : Operator, c = op.symbol := by
    rintro ⟨op, rfl⟩
    simp at hop
  split
  · simp [*]
  split
  · simp [*]
  split
  · simp [*]
  · simp [*, eq_comm]

/-- A text is refused exactly if it holds a character outside the alphabet, and for the first
one. -/
theorem run_eq_error_iff {text : List Char} {s : Scan} {cause : Failure} :
    s.run text = .error cause ↔
      ∃ c, text.find? (fun c => !isAdmitted c) = some c ∧ cause = .invalidCharacter c := by
  induction text generalizing s with
  | nil => simp
  | cons c text ih =>
    rw [run_cons]
    cases hstep : s.step c with
    | error cause' =>
      obtain ⟨hc, rfl⟩ := step_eq_error_iff.mp hstep
      simp [hc, eq_comm]
    | ok s' =>
      have hc : isAdmitted c = true := by
        by_contra hnot
        have herror := (step_eq_error_iff (s := s)).mpr ⟨by simpa using hnot, rfl⟩
        rw [hstep] at herror
        exact absurd herror (by simp)
      simp [hc, ih]

end Scan

theorem tokenize_eq_error_iff {expression : String} {cause : Failure} :
    tokenize expression = .error cause ↔
      ∃ c, expression.toList.find? (fun c => !isAdmitted c) = some c ∧
        cause = .invalidCharacter c := by
  rw [← Scan.run_eq_error_iff (s := .empty), tokenize]
  cases Scan.empty.run expression.toList <;> simp

/-! ### Parentheses -/

theorem parens_append (a b : List Char) : parens (a ++ b) = parens a ++ parens b :=
  List.filter_append a b

theorem parens_eq_nil {text : List Char} (h : ∀ c ∈ text, c ≠ '(' ∧ c ≠ ')') :
    parens text = [] := by
  rw [parens, List.filter_eq_nil_iff]
  intro c hc
  simp [h c hc]

/-- A lexeme and its tokens have the same parentheses. -/
theorem Lexeme.parens_chars (l : Lexeme) (awaiting : Bool) :
    parens l.chars = (l.tokens awaiting).filterMap Token.paren? := by
  cases l with
  | number n =>
    refine parens_eq_nil fun c hc => ?_
    have hchar := isNumberChar_iff.mp (n.isNumberChar_of_mem c hc)
    exact ⟨hchar.ne_of_toNat (by decide), hchar.ne_of_toNat (by decide)⟩
  | operator op => cases op <;> cases awaiting <;> rfl
  | leftParen => rfl
  | rightParen => rfl
  | percent => rfl

/-- A text and the tokens of what it spells have the same parentheses. -/
theorem parens_of_renders {ls : List Lexeme} {text : List Char} (h : Renders ls text)
    (awaiting : Bool) : parens text = (tokensOf awaiting ls).filterMap Token.paren? := by
  have hblank : ∀ blanks : List Char, blanks.all Text.isBlank = true → parens blanks = [] := by
    intro blanks hblanks
    refine parens_eq_nil fun c hc => ?_
    have hc' := List.all_eq_true.mp hblanks c hc
    constructor <;> rintro rfl <;> exact absurd hc' (by decide)
  induction h generalizing awaiting with
  | nil hblanks => exact hblank _ hblanks
  | @cons blanks text l ls hblanks _ ih =>
    rw [parens_append, parens_append, hblank _ hblanks, l.parens_chars awaiting,
      ih l.awaitsNext, tokensOf_cons, List.filterMap_append, List.nil_append]

theorem parens_of_tokenize {expression : String} {ts : List Token}
    (h : tokenize expression = .ok ts) :
    ts.filterMap Token.paren? = parens expression.toList := by
  obtain ⟨ls, hls, rfl⟩ := exists_renders_of_tokenize h
  exact (parens_of_renders hls true).symm

end DeskCalculator.Expression
