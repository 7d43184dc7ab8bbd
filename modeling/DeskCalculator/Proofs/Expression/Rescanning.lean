import DeskCalculator.Proofs.Expression.Scanning

/-!
# DeskCalculator.Proofs.Expression.Rescanning

Scanning is lossless and stable. Beside the lexemes of a text its tokens hold implicit zeros, each
directly before the sign it belongs to, and nothing else.

* **Signs** are marked where an operand is awaited, the implicit zero left aside (`SignsMarked`).
* **Lexemes.** Without the implicit zeros (`withoutZeros`) the tokens are the lexemes of the text,
  one by one, so together they are the text without its blanks.
* **Scanning again.** Lexemes with a blank between them are scanned to their tokens, whatever they
  are (`Scan.run_spaced`): the blank ends a number, and changes nothing about what is awaited.

Main statement: `tokenize_lossless`.
-/

namespace DeskCalculator.Expression

/-! ### Where signs stand -/

/-- An operand is awaited after these tokens: at the start, and after an operator or an opening
parenthesis. -/
def OperandAwaited (ts : List Token) : Prop :=
  ts = [] ∨ ∃ before t, ts = before ++ [t] ∧ (t.isOperator = true ∨ t = .leftParen)

theorem operandAwaited_concat_iff {ts : List Token} {t : Token} :
    OperandAwaited (ts ++ [t]) ↔ t.awaitsNext = true := by
  have hlast : OperandAwaited (ts ++ [t]) ↔ t.isOperator = true ∨ t = .leftParen := by
    constructor
    · rintro (hnil | ⟨before, u, heq, hu⟩)
      · exact absurd hnil (by simp)
      · obtain ⟨-, hu'⟩ := List.append_inj' heq rfl
        obtain rfl := List.singleton_inj.mp hu'
        exact hu
    · intro ht
      exact .inr ⟨ts, t, rfl, ht⟩
  rw [hlast]
  cases t <;> simp [Token.isOperator, Token.awaitsNext]

/-- How an operator is marked after these tokens. A sign stands where an operand is awaited but for
its implicit zero, and any other plus or minus stands where none is. -/
def Marked (before : List Token) (op : Operator) : Bool → Prop
  | true => op.isSign = true ∧ ∃ outer, before = outer ++ [.number "0"] ∧ OperandAwaited outer
  | false => ¬ (op.isSign = true ∧ OperandAwaited before)

/-- All operators of the list are marked as they have to be. -/
def SignsMarked (ts : List Token) : Prop :=
  ∀ before t, before ++ [t] <+: ts → ∀ op unary, t = .operator op unary → Marked before op unary

theorem signsMarked_concat_iff {ts : List Token} {t : Token} :
    SignsMarked (ts ++ [t]) ↔
      SignsMarked ts ∧ ∀ op unary, t = .operator op unary → Marked ts op unary :=
  forall_mem_prefix_concat_iff

/-- The tokens of a lexeme are marked after those before it. -/
theorem SignsMarked.append_tokens {ts : List Token} (h : SignsMarked ts) {awaiting : Bool}
    (hawaiting : OperandAwaited ts ↔ awaiting = true) (l : Lexeme) :
    SignsMarked (ts ++ l.tokens awaiting) := by
  cases l with
  | operator op =>
    rw [Lexeme.tokens]
    split
    · rename_i hsign
      rw [Bool.and_eq_true] at hsign
      have hzero : SignsMarked (ts ++ [.number "0"]) :=
        signsMarked_concat_iff.mpr ⟨h, by simp⟩
      rw [← List.singleton_append, ← List.append_assoc]
      refine signsMarked_concat_iff.mpr ⟨hzero, ?_⟩
      rintro _ _ ⟨⟩
      exact ⟨hsign.1, ts, rfl, hawaiting.mpr hsign.2⟩
    · rename_i hbinary
      refine signsMarked_concat_iff.mpr ⟨h, ?_⟩
      rintro _ _ ⟨⟩
      intro hsign
      exact hbinary (Bool.and_eq_true_iff.mpr ⟨hsign.1, hawaiting.mp hsign.2⟩)
  | _ => exact signsMarked_concat_iff.mpr ⟨h, by simp⟩

theorem operandAwaited_append_tokens (ts : List Token) (l : Lexeme) (awaiting : Bool) :
    OperandAwaited (ts ++ l.tokens awaiting) ↔ l.awaitsNext = true := by
  cases l with
  | operator op =>
    rw [Lexeme.tokens]
    split
    · rw [← List.singleton_append, ← List.append_assoc]
      exact operandAwaited_concat_iff
    · exact operandAwaited_concat_iff
  | _ => exact operandAwaited_concat_iff

theorem SignsMarked.append_tokensOf {ts : List Token} (h : SignsMarked ts) {awaiting : Bool}
    (hawaiting : OperandAwaited ts ↔ awaiting = true) (ls : List Lexeme) :
    SignsMarked (ts ++ tokensOf awaiting ls) := by
  induction ls generalizing ts awaiting with
  | nil => simpa using h
  | cons l ls ih =>
    rw [tokensOf_cons, ← List.append_assoc]
    exact ih (h.append_tokens hawaiting l) (operandAwaited_append_tokens ts l awaiting)

theorem signsMarked_tokensOf (ls : List Lexeme) : SignsMarked (tokensOf true ls) := by
  have hnil : SignsMarked [] := by
    intro before t hbefore
    exact absurd hbefore (by simp)
  have hstart : OperandAwaited [] ↔ true = true := ⟨fun _ => rfl, fun _ => .inl rfl⟩
  exact hnil.append_tokensOf hstart ls

/-! ### Implicit zeros -/

/-- The tokens without what stands directly before a sign. -/
def withoutZeros : List Token → List Token
  | [] => []
  | t :: ts => if ts.head?.any Token.isUnary then withoutZeros ts else t :: withoutZeros ts

/-- Tokens of lexemes never begin with a sign: its implicit zero comes first. -/
theorem head?_tokensOf (awaiting : Bool) (ls : List Lexeme) :
    (tokensOf awaiting ls).head?.any Token.isUnary = false := by
  cases ls with
  | nil => rfl
  | cons l ls =>
    cases l with
    | operator op =>
      rw [tokensOf_cons, Lexeme.tokens]
      split <;> rfl
    | _ => rfl

theorem withoutZeros_cons {ts : List Token} (h : ts.head?.any Token.isUnary = false) (t : Token) :
    withoutZeros (t :: ts) = t :: withoutZeros ts := by
  simp [withoutZeros, h]

/-- Without the implicit zeros the lexemes are left. -/
theorem map_withoutZeros_tokensOf (awaiting : Bool) (ls : List Lexeme) :
    (withoutZeros (tokensOf awaiting ls)).map (fun t => t.lexeme.toList) =
      ls.map Lexeme.chars := by
  induction ls generalizing awaiting with
  | nil => rfl
  | cons l ls ih =>
    have hrest := head?_tokensOf l.awaitsNext ls
    rw [tokensOf_cons, List.map_cons, ← ih l.awaitsNext]
    cases l with
    | operator op =>
      rw [Lexeme.tokens]
      split
      · -- the zero goes, and the sign stays
        have hzero : withoutZeros ([.number "0", .operator op true] ++
            tokensOf (Lexeme.operator op).awaitsNext ls) =
              withoutZeros (.operator op true :: tokensOf (Lexeme.operator op).awaitsNext ls) := rfl
        rw [hzero, withoutZeros_cons hrest]
        simp [Token.lexeme, Token.text, Lexeme.chars]
      · rw [List.singleton_append, withoutZeros_cons hrest]
        simp [Token.lexeme, Token.text, Lexeme.chars]
    | _ =>
      rw [Lexeme.tokens, List.singleton_append, withoutZeros_cons hrest]
      simp [Token.lexeme, Token.text, Lexeme.chars]

/-! ### The characters of a text -/

/-- No lexeme holds a blank. -/
theorem Lexeme.isBlank_of_mem_chars {l : Lexeme} {c : Char} (h : c ∈ l.chars) :
    Text.isBlank c = false := by
  cases l with
  | number n => exact (isNumberChar_iff.mp (n.isNumberChar_of_mem c h)).isBlank
  | operator op =>
    obtain rfl := List.mem_singleton.mp h
    cases op <;> decide
  | leftParen | rightParen | percent =>
    obtain rfl := List.mem_singleton.mp h
    decide

/-- The characters of a text that are no blanks are those of its lexemes. -/
theorem filter_of_renders {ls : List Lexeme} {text : List Char} (h : Renders ls text) :
    (text.filter fun c => !Text.isBlank c) = ls.flatMap Lexeme.chars := by
  have hblank : ∀ blanks : List Char, blanks.all Text.isBlank = true →
      (blanks.filter fun c => !Text.isBlank c) = [] := by
    intro blanks hblanks
    rw [List.filter_eq_nil_iff]
    intro c hc
    simp [List.all_eq_true.mp hblanks c hc]
  induction h with
  | nil hblanks => exact hblank _ hblanks
  | @cons blanks text l ls hblanks _ ih =>
    have hchars : (l.chars.filter fun c => !Text.isBlank c) = l.chars := by
      rw [List.filter_eq_self]
      intro c hc
      simp [Lexeme.isBlank_of_mem_chars hc]
    rw [List.filter_append, List.filter_append, hblank _ hblanks, hchars, ih, List.flatMap_cons,
      List.nil_append]

/-! ### Scanning again -/

/-- Lexemes with a blank between them are scanned to their tokens. -/
theorem Scan.run_spaced (ls : List Lexeme) (s : Scan) (h : s.digits = "") :
    ∃ s', s.run ([' '].intercalate (ls.map Lexeme.chars)) = .ok s' ∧
      s'.close.toList = s.close.toList ++ tokensOf (awaitsOperand s.close) ls := by
  induction ls generalizing s with
  | nil => exact ⟨s, rfl, by simp⟩
  | cons l ls ih =>
    obtain ⟨s₁, hrun, hclose⟩ := s.run_chars l fun _ => h
    have hawaits : awaitsOperand s₁.close = l.awaitsNext := by
      rw [hclose]
      exact awaitsOperand_append_tokens _ l _
    cases ls with
    | nil => exact ⟨s₁, by simpa using hrun, by simp [hclose]⟩
    | cons l' ls =>
      -- the blank ends the lexeme and leaves its tokens as they are
      have hblank : s₁.step ' ' = .ok ⟨s₁.close, ""⟩ := s₁.step_of_isBlank (by decide)
      obtain ⟨s', hrest, hclose'⟩ := ih ⟨s₁.close, ""⟩ rfl
      refine ⟨s', ?_, ?_⟩
      · rw [List.map_cons, List.map_cons, List.intercalate_cons_cons, run_append, run_append, hrun,
          bind_ok, run_cons, hblank, bind_ok, run_nil, bind_ok]
        exact hrest
      · rw [hclose', close_of_digits_empty, hawaits, hclose, tokensOf_cons]
        simp

/-- The tokens as text, without the implicit zeros and with a blank between any two. -/
def spacedText (ts : List Token) : String := " ".intercalate ((withoutZeros ts).map Token.lexeme)

/-- **Scanning is lossless and stable.** An operator of a scanned text is a sign exactly if it can
be one and an operand is awaited, its implicit zero left aside, which stands directly before it.
What remains without these zeros are the lexemes of the text one by one, so together they are its
characters other than blanks; and with a blank between them they are scanned to the same tokens. -/
theorem tokenize_lossless (expression : String) (ts : List Token) (h : tokenize expression = .ok ts) :
    (∀ before op after, ts = before ++ .operator op true :: after →
        op.isSign = true ∧ ∃ outer, before = outer ++ [.number "0"] ∧ OperandAwaited outer) ∧
      (∀ before op after, ts = before ++ .operator op false :: after →
        ¬ (op.isSign = true ∧ OperandAwaited before)) ∧
      (∃ ls, Renders ls expression.toList ∧
        (withoutZeros ts).map (fun t => t.lexeme.toList) = ls.map Lexeme.chars) ∧
      String.join ((withoutZeros ts).map Token.lexeme) =
        String.ofList (expression.toList.filter fun c => !Text.isBlank c) ∧
      tokenize (spacedText ts) = .ok ts := by
  obtain ⟨ls, hls, rfl⟩ := exists_renders_of_tokenize h
  have hlexemes := map_withoutZeros_tokensOf true ls
  have hmarked : ∀ before op unary after,
      tokensOf true ls = before ++ .operator op unary :: after → Marked before op unary := by
    intro before op unary after heq
    exact signsMarked_tokensOf ls before _ ⟨after, by simp [heq]⟩ op unary rfl
  refine ⟨fun before op => hmarked before op true, fun before op => hmarked before op false,
    ⟨ls, hls, hlexemes⟩, ?_, ?_⟩
  · apply String.toList_injective
    rw [String.toList_join, String.toList_ofList, filter_of_renders hls, List.flatMap_map,
      List.flatMap_def, hlexemes, List.flatMap_def]
  · obtain ⟨s, hrun, hclose⟩ := Scan.run_spaced ls Scan.empty rfl
    refine tokenize_eq_ok_iff.mpr ⟨s, ?_, by rw [hclose]; rfl⟩
    rw [spacedText, String.toList_intercalate, List.map_map]
    exact hlexemes ▸ hrun

/-- Signs after a typed zero, after an operator and after a parenthesis. -/
theorem tokenize_lossless_of_signs :
    tokenize " 0--(+ 0+-5)%" =
        .ok [.number "0", .operator .minus false, .number "0", .operator .minus true, .leftParen,
          .number "0", .operator .plus true, .number "0", .operator .plus false, .number "0",
          .operator .minus true, .number "5", .rightParen, .percent] ∧
      tokenize "0 - - ( + 0 + - 5 ) %" =
        .ok [.number "0", .operator .minus false, .number "0", .operator .minus true, .leftParen,
          .number "0", .operator .plus true, .number "0", .operator .plus false, .number "0",
          .operator .minus true, .number "5", .rightParen, .percent] := by
  have htokens : tokenize " 0--(+ 0+-5)%" =
      .ok [.number "0", .operator .minus false, .number "0", .operator .minus true, .leftParen,
        .number "0", .operator .plus true, .number "0", .operator .plus false, .number "0",
        .operator .minus true, .number "5", .rightParen, .percent] := rfl
  exact ⟨htokens, (tokenize_lossless _ _ htokens).2.2.2.2⟩

end DeskCalculator.Expression
