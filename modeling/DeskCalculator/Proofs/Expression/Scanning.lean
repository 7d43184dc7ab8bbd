import Mathlib.Data.List.Infix
import DeskCalculator.Proofs.Expression.Grammar
import DeskCalculator.Proofs.Text.NumeralChar

/-!
# DeskCalculator.Proofs.Expression.Scanning

Texts and tokens. The tokens of a list of lexemes are a function of the list alone (`tokensOf`), and
the scanner agrees with it in both directions:

* a text that spells lexemes in which every operand stands where one is awaited is scanned to their
  tokens (`tokenize_of_renders`);
* every text that is scanned at all spells some lexemes, and is scanned to their tokens
  (`exists_renders_of_tokenize`).

The scanner looks back at one token only, so a text is scanned after an opening parenthesis as it
is scanned by itself (`Scan.run_after`).
-/

namespace DeskCalculator.Expression

/-! ### Tokens with those before them -/

/-- The elements of a list with a last element are that one, with all others before it, and those
others. -/
theorem forall_mem_prefix_concat_iff {α : Type} {p : List α → α → Prop} {as : List α} {b : α} :
    (∀ before a, before ++ [a] <+: as ++ [b] → p before a) ↔
      (∀ before a, before ++ [a] <+: as → p before a) ∧ p as b := by
  constructor
  · intro h
    exact ⟨fun before a hbefore => h before a (hbefore.trans (List.prefix_append as [b])),
      h as b (List.prefix_refl _)⟩
  · rintro ⟨has, hb⟩ before a hbefore
    rcases List.prefix_concat_iff.mp hbefore with heq | hbefore
    · obtain ⟨rfl, hlast⟩ := List.append_inj' heq rfl
      obtain rfl := List.singleton_inj.mp hlast
      exact hb
    · exact has before a hbefore

/-! ### Where operands are awaited -/

/-- Whether an operand is awaited after a token. -/
def Token.awaitsNext : Token → Bool
  | .operator .. | .leftParen => true
  | .number _ | .rightParen | .percent => false

/-- Whether a token begins an operand. -/
def Token.startsOperand : Token → Bool
  | .number _ | .leftParen => true
  | .operator .. | .rightParen | .percent => false

/-- Whether operands begin exactly where they are awaited, and none is awaited at the end. The flag
says whether one is awaited at the start. -/
def alternates : Bool → List Token → Bool
  | awaiting, [] => !awaiting
  | awaiting, t :: ts => (t.startsOperand == awaiting) && alternates t.awaitsNext ts

theorem awaitsOperand_eq (ts : Array Token) :
    awaitsOperand ts = ts.toList.getLast?.all Token.awaitsNext := by
  unfold awaitsOperand
  rw [Array.getLast?_toList]
  cases h : ts.back? with
  | none => rfl
  | some t => cases t <;> rfl

@[simp] theorem awaitsOperand_empty : awaitsOperand #[] = true := rfl

@[simp] theorem awaitsOperand_push (ts : Array Token) (t : Token) :
    awaitsOperand (ts.push t) = t.awaitsNext := by
  simp [awaitsOperand_eq]

/-- Of tokens in front no more matters than whether they await an operand. -/
theorem awaitsOperand_append_congr {pre pre' : Array Token}
    (h : awaitsOperand pre = awaitsOperand pre') (ts : Array Token) :
    awaitsOperand (pre ++ ts) = awaitsOperand (pre' ++ ts) := by
  simp only [awaitsOperand_eq, Array.toList_append, List.getLast?_append] at h ⊢
  cases ts.toList.getLast? with
  | none => exact h
  | some t => rfl

/-! ### The tokens of lexemes -/

/-- Whether an operand is awaited after a lexeme. -/
def Lexeme.awaitsNext : Lexeme → Bool
  | .operator _ | .leftParen => true
  | .number _ | .rightParen | .percent => false

/-- Whether a lexeme is a number. -/
def Lexeme.startsNumber : Lexeme → Bool
  | .number _ => true
  | _ => false

/-- The tokens of one lexeme: a sign gets an implicit zero. -/
def Lexeme.tokens (awaiting : Bool) : Lexeme → List Token
  | .number n => [.number n.text]
  | .operator op =>
    if op.isSign && awaiting then [.number "0", .operator op true] else [.operator op false]
  | .leftParen => [.leftParen]
  | .rightParen => [.rightParen]
  | .percent => [.percent]

/-- The tokens of lexemes; the flag says whether an operand is awaited before them. -/
def tokensOf : Bool → List Lexeme → List Token
  | _, [] => []
  | awaiting, l :: ls => l.tokens awaiting ++ tokensOf l.awaitsNext ls

@[simp] theorem tokensOf_nil (awaiting : Bool) : tokensOf awaiting [] = [] := rfl

@[simp] theorem tokensOf_cons (awaiting : Bool) (l : Lexeme) (ls : List Lexeme) :
    tokensOf awaiting (l :: ls) = l.tokens awaiting ++ tokensOf l.awaitsNext ls := rfl

/-- Whether a lexeme may stand at a place; the flag says whether an operand is awaited there. An
operator is a sign at such a place. -/
def Lexeme.fits (awaiting : Bool) : Lexeme → Bool
  | .number _ | .leftParen => awaiting
  | .operator op => !awaiting || op.isSign
  | .rightParen | .percent => !awaiting

/-- Tokens alternate exactly if each lexeme stands at a place where it may. -/
theorem alternates_tokens_append (awaiting : Bool) (l : Lexeme) (ts : List Token) :
    alternates awaiting (l.tokens awaiting ++ ts) =
      (l.fits awaiting && alternates l.awaitsNext ts) := by
  cases l with
  | operator op =>
    cases awaiting <;> cases hop : op.isSign <;>
      simp [Lexeme.tokens, Lexeme.fits, Lexeme.awaitsNext, alternates, Token.startsOperand,
        Token.awaitsNext, hop]
  | _ =>
    cases awaiting <;>
      simp [Lexeme.tokens, Lexeme.fits, Lexeme.awaitsNext, alternates, Token.startsOperand,
        Token.awaitsNext]

namespace Derivation

variable {c : Category}

/-- The tokens of a tree are those of its lexemes, whatever follows. -/
theorem tokensOf_lexemes_append (d : Derivation c) (rest : List Lexeme) :
    tokensOf true (d.lexemes ++ rest) = d.tokens ++ tokensOf false rest := by
  induction d generalizing rest with
  | add left op h right ihl ihr =>
    simp [lexemes, tokens, ihl, ihr, Lexeme.tokens, Lexeme.awaitsNext]
  | product t ih => exact ih rest
  | mul left op h right ihl ihr =>
    simp [lexemes, tokens, ihl, ihr, Lexeme.tokens, Lexeme.awaitsNext]
  | signed u ih => exact ih rest
  | sign op h u ih => simp [lexemes, tokens, ih, Lexeme.tokens, Lexeme.awaitsNext, h]
  | operand p ih => exact ih rest
  | number n => simp [lexemes, tokens, Lexeme.tokens, Lexeme.awaitsNext]
  | group e ih => simp [lexemes, tokens, ih, Lexeme.tokens, Lexeme.awaitsNext]
  | percent p ih => simp [lexemes, tokens, ih, Lexeme.tokens, Lexeme.awaitsNext]

theorem tokensOf_lexemes (d : Derivation c) : tokensOf true d.lexemes = d.tokens := by
  simpa using d.tokensOf_lexemes_append []

/-- A tree is an operand for what follows it. -/
theorem alternates_tokens_append (d : Derivation c) (rest : List Token) :
    alternates true (d.tokens ++ rest) = alternates false rest := by
  induction d generalizing rest with
  | add left op h right ihl ihr =>
    simp [tokens, ihl, ihr, alternates, Token.startsOperand, Token.awaitsNext]
  | product t ih => exact ih rest
  | mul left op h right ihl ihr =>
    simp [tokens, ihl, ihr, alternates, Token.startsOperand, Token.awaitsNext]
  | signed u ih => exact ih rest
  | sign op h u ih => simp [tokens, ih, alternates, Token.startsOperand, Token.awaitsNext]
  | operand p ih => exact ih rest
  | number n => simp [tokens, alternates, Token.startsOperand, Token.awaitsNext]
  | group e ih => simp [tokens, ih, alternates, Token.startsOperand, Token.awaitsNext]
  | percent p ih => simp [tokens, ih, alternates, Token.startsOperand, Token.awaitsNext]

theorem alternates_tokens (d : Derivation c) : alternates true d.tokens = true := by
  simpa [alternates] using d.alternates_tokens_append []

end Derivation

/-! ### From lexemes to tokens -/

theorem isNumberChar_iff {c : Char} : isNumberChar c = true ↔ Text.IsNumeralChar c := by
  simp [isNumberChar, Text.IsNumeralChar]

/-- Blanks are no part of numbers. -/
theorem isNumberChar_of_isBlank {c : Char} (h : Text.isBlank c = true) :
    isNumberChar c = false := by
  cases hnum : isNumberChar c with
  | false => rfl
  | true =>
    have hblank := (isNumberChar_iff.mp hnum).isBlank
    rw [h] at hblank
    exact absurd hblank (by decide)

namespace Scan

theorem run_cons (s : Scan) (c : Char) (text : List Char) :
    s.run (c :: text) = (s.step c).bind fun s' => s'.run text := rfl

@[simp] theorem run_singleton (s : Scan) (c : Char) : s.run [c] = s.step c := by
  rw [run_cons]
  cases s.step c <;> rfl

@[simp] theorem close_of_digits_empty (ts : Array Token) : (⟨ts, ""⟩ : Scan).close = ts := rfl

theorem close_of_digits_ne {s : Scan} (h : s.digits ≠ "") :
    s.close = s.tokens.push (.number s.digits) := by
  simp [close, h]

/-- Where an operand is awaited, no run of digits is open. -/
theorem digits_eq_of_awaitsOperand {s : Scan} (h : awaitsOperand s.close = true) :
    s.digits = "" := by
  by_cases hd : s.digits = ""
  · exact hd
  · rw [close_of_digits_ne hd] at h
    simp [Token.awaitsNext] at h

theorem step_of_isBlank (s : Scan) {c : Char} (h : Text.isBlank c = true) :
    s.step c = .ok ⟨s.close, ""⟩ := by
  simp [step, isNumberChar_of_isBlank h, h]

/-- Where no run of digits is open, blanks do nothing. -/
theorem run_blanks_of_closed {blanks : List Char} (h : blanks.all Text.isBlank = true)
    (tokens : Array Token) : run ⟨tokens, ""⟩ blanks = .ok ⟨tokens, ""⟩ := by
  induction blanks with
  | nil => rfl
  | cons c blanks ih =>
    simp only [List.all_cons, Bool.and_eq_true] at h
    rw [run_cons, step_of_isBlank _ h.1]
    exact ih h.2

/-- Blanks close a run of digits. -/
theorem run_blanks_of_ne_nil {blanks : List Char} (hne : blanks ≠ [])
    (h : blanks.all Text.isBlank = true) (s : Scan) : s.run blanks = .ok ⟨s.close, ""⟩ := by
  cases blanks with
  | nil => exact absurd rfl hne
  | cons c blanks =>
    simp only [List.all_cons, Bool.and_eq_true] at h
    rw [run_cons, step_of_isBlank s h.1]
    exact run_blanks_of_closed h.2 s.close

/-- Blanks close a number and do nothing else. -/
theorem run_blanks {blanks : List Char} (h : blanks.all Text.isBlank = true) (s : Scan) :
    ∃ s', s.run blanks = .ok s' ∧ s'.close = s.close := by
  by_cases hne : blanks = []
  · exact ⟨s, by rw [hne, run_nil], rfl⟩
  · exact ⟨_, run_blanks_of_ne_nil hne h s, rfl⟩

/-- Characters of numbers are collected. -/
theorem run_numberChars {digits : List Char} (h : ∀ c ∈ digits, isNumberChar c = true)
    (s : Scan) : s.run digits = .ok ⟨s.tokens, s.digits ++ String.ofList digits⟩ := by
  induction digits generalizing s with
  | nil => simp
  | cons c digits ih =>
    rw [run_cons, step, if_pos (h c (by simp)), bind_ok,
      ih (fun c' hc' => h c' (List.mem_cons_of_mem c hc'))]
    congr 2
    apply String.toList_injective
    simp

theorem awaitsOperand_append_tokens (ts : Array Token) (l : Lexeme) (awaiting : Bool) :
    awaitsOperand (ts ++ l.tokens awaiting) = l.awaitsNext := by
  cases l with
  | operator op =>
    rw [Lexeme.tokens]
    split <;> simp [awaitsOperand_eq, Token.awaitsNext, Lexeme.awaitsNext]
  | _ => simp [awaitsOperand_eq, Lexeme.tokens, Token.awaitsNext, Lexeme.awaitsNext]

/-- A lexeme that is no number adds its tokens and closes what was open before it. -/
theorem run_chars_of_startsNumber_eq_false (s : Scan) {l : Lexeme} (h : l.startsNumber = false) :
    s.run l.chars = .ok ⟨s.close ++ l.tokens (awaitsOperand s.close), ""⟩ := by
  cases l with
  | number n => exact absurd h (by simp [Lexeme.startsNumber])
  | operator op =>
    have hpush : pushOperator s.close op =
        s.close ++ Lexeme.tokens (awaitsOperand s.close) (.operator op) := by
      rw [pushOperator, Lexeme.tokens]
      split <;> simp
    rw [← hpush]
    cases op <;> rfl
  | leftParen => rfl
  | rightParen => rfl
  | percent => rfl

/-- A number is read where no run of digits is open, and is open then itself. -/
theorem run_chars_number (s : Scan) (n : NumberText) (h : s.digits = "") :
    s.run n.text.toList = .ok ⟨s.close, n.text⟩ := by
  rw [run_numberChars n.isNumberChar_of_mem, h]
  simp [close, h]

/-- A lexeme adds its tokens and nothing else. A number is a lexeme only where no run of digits is
open. -/
theorem run_chars (s : Scan) (l : Lexeme) (h : l.startsNumber = true → s.digits = "") :
    ∃ s', s.run l.chars = .ok s' ∧ s'.close = s.close ++ l.tokens (awaitsOperand s.close) := by
  cases hl : l.startsNumber with
  | false => exact ⟨_, run_chars_of_startsNumber_eq_false s hl, rfl⟩
  | true =>
    cases l with
    | number n =>
      refine ⟨_, run_chars_number s n (h hl), ?_⟩
      rw [close_of_digits_ne n.ne_empty]
      simp [Lexeme.tokens]
    | _ => exact absurd hl (by simp [Lexeme.startsNumber])

/-- Texts of lexemes in which operands stand where they are awaited are scanned to their tokens. -/
theorem run_of_renders {ls : List Lexeme} {text : List Char} (h : Renders ls text) (s : Scan)
    (ha : alternates (awaitsOperand s.close) (tokensOf (awaitsOperand s.close) ls) = true) :
    ∃ s', s.run text = .ok s' ∧
      s'.close.toList = s.close.toList ++ tokensOf (awaitsOperand s.close) ls := by
  induction h generalizing s with
  | nil hblanks =>
    obtain ⟨s', hrun, hclose⟩ := run_blanks hblanks s
    exact ⟨s', hrun, by simp [hclose]⟩
  | @cons blanks text l ls hblanks rest ih =>
    rw [tokensOf_cons, alternates_tokens_append, Bool.and_eq_true] at ha
    obtain ⟨s₁, hrun₁, hclose₁⟩ := run_blanks hblanks s
    -- a number stands where an operand is awaited, so no run of digits is open there
    have hstart : l.startsNumber = true → s₁.digits = "" := by
      intro hl
      apply digits_eq_of_awaitsOperand
      rw [hclose₁]
      cases l with
      | number n => exact ha.1
      | _ => simp [Lexeme.startsNumber] at hl
    obtain ⟨s₂, hrun₂, hclose₂⟩ := run_chars s₁ l hstart
    rw [hclose₁] at hclose₂
    have hawaits₂ : awaitsOperand s₂.close = l.awaitsNext := by
      rw [hclose₂]
      exact awaitsOperand_append_tokens _ l _
    obtain ⟨s', hrun', hclose'⟩ := ih s₂ (hawaits₂ ▸ ha.2)
    refine ⟨s', ?_, ?_⟩
    · rw [run_append, hrun₁, bind_ok, run_append, hrun₂, bind_ok, hrun']
    · rw [hclose', hawaits₂, hclose₂, tokensOf_cons]
      simp

/-! ### From texts to lexemes -/

/-- A character that belongs to no number and can be read is a blank or a lexeme. -/
theorem exists_lexeme_of_step {s s' : Scan} {c : Char} (hc : isNumberChar c = false)
    (h : s.step c = .ok s') :
    Text.isBlank c = true ∨ ∃ l : Lexeme, l.chars = [c] ∧ l.startsNumber = false := by
  by_cases hblank : Text.isBlank c = true
  · exact .inl hblank
  right
  simp only [step, hc, hblank, Bool.false_eq_true, if_false] at h
  cases hop : Operator.ofSymbol? c with
  | some op =>
    rw [Operator.ofSymbol?_eq_some_iff.mp hop]
    exact ⟨.operator op, rfl, rfl⟩
  | none =>
    rw [hop] at h
    simp only at h
    by_cases hleft : c = '('
    · exact ⟨.leftParen, by rw [hleft, Lexeme.chars], rfl⟩
    by_cases hright : c = ')'
    · exact ⟨.rightParen, by rw [hright, Lexeme.chars], rfl⟩
    by_cases hpercent : c = '%'
    · exact ⟨.percent, by rw [hpercent, Lexeme.chars], rfl⟩
    · simp [hleft, hright, hpercent] at h

/-- The step of a lexeme of one character. -/
theorem step_of_chars (s : Scan) {l : Lexeme} {c : Char} (hchars : l.chars = [c])
    (hnum : l.startsNumber = false) :
    s.step c = .ok ⟨s.close ++ l.tokens (awaitsOperand s.close), ""⟩ := by
  have hrun := run_chars_of_startsNumber_eq_false s hnum
  rw [hchars, run_cons] at hrun
  cases hstep : s.step c with
  | error cause => simp [hstep] at hrun
  | ok s' => simpa [hstep] using hrun

/-- An open run of digits, then what spells further lexemes: together they spell lexemes that
continue the complete tokens. -/
theorem exists_renders_of_close {s : Scan} (hs : ∀ c ∈ s.digits.toList, isNumberChar c = true)
    {ls : List Lexeme} {text : List Char} (h : Renders ls text) :
    ∃ ms, Renders ms (s.digits.toList ++ text) ∧
      s.tokens.toList ++ tokensOf (awaitsOperand s.tokens) ms =
        s.close.toList ++ tokensOf (awaitsOperand s.close) ls := by
  by_cases hd : s.digits = ""
  · exact ⟨ls, by simpa [hd] using h, by simp [close, hd]⟩
  · refine ⟨.number ⟨s.digits, hd, hs⟩ :: ls, h.lexeme, ?_⟩
    rw [close_of_digits_ne hd]
    simp [Lexeme.tokens, Lexeme.awaitsNext, Token.awaitsNext]

/-- Every text that can be scanned spells lexemes, and its tokens are theirs. The open run of digits
counts as part of the text. -/
theorem exists_renders_of_run {text : List Char} {s s' : Scan}
    (hs : ∀ c ∈ s.digits.toList, isNumberChar c = true) (h : s.run text = .ok s') :
    ∃ ls, Renders ls (s.digits.toList ++ text) ∧
      s'.close.toList = s.tokens.toList ++ tokensOf (awaitsOperand s.tokens) ls := by
  induction text generalizing s with
  | nil =>
    obtain rfl : s = s' := by simpa using h
    obtain ⟨ms, hms, htokens⟩ := exists_renders_of_close hs .empty
    exact ⟨ms, hms, by simpa using htokens.symm⟩
  | cons c text ih =>
    obtain ⟨s₁, hstep, hrun⟩ := bind_eq_ok_iff.mp h
    by_cases hc : isNumberChar c = true
    · -- the run of digits goes on
      rw [step, if_pos hc] at hstep
      obtain rfl := Except.ok.inj hstep
      obtain ⟨ls, hls, htokens⟩ := ih (by simpa [or_imp, forall_and, hc] using hs) hrun
      exact ⟨ls, by simpa using hls, htokens⟩
    · -- the run of digits is closed
      have hc' : isNumberChar c = false := by simpa using hc
      rcases exists_lexeme_of_step hc' hstep with hblank | ⟨l, hchars, hnum⟩
      · obtain rfl := Except.ok.inj ((step_of_isBlank s hblank).symm.trans hstep)
        obtain ⟨ls, hls, htokens⟩ := ih (by simp) hrun
        have hls' : Renders ls (c :: text) := by
          simpa using hls.blank_cons hblank
        obtain ⟨ms, hms, heq⟩ := exists_renders_of_close hs hls'
        exact ⟨ms, hms, by simp [heq, htokens]⟩
      · obtain rfl := Except.ok.inj ((step_of_chars s hchars hnum).symm.trans hstep)
        obtain ⟨ls, hls, htokens⟩ := ih (by simp) hrun
        have hls' : Renders (l :: ls) (c :: text) := by
          have hcons : Renders (l :: ls) (l.chars ++ text) := Renders.lexeme (by simpa using hls)
          simpa [hchars] using hcons
        obtain ⟨ms, hms, heq⟩ := exists_renders_of_close hs hls'
        refine ⟨ms, hms, ?_⟩
        rw [heq, htokens, awaitsOperand_append_tokens, tokensOf_cons]
        simp

/-! ### Scanning after other tokens -/

/-- A state with tokens put before its own. -/
def after (pre : Array Token) (s : Scan) : Scan := ⟨pre ++ s.tokens, s.digits⟩

theorem close_after (pre : Array Token) (s : Scan) : (s.after pre).close = pre ++ s.close := by
  unfold close after
  split <;> simp

@[simp] theorem after_empty (s : Scan) : s.after #[] = s := by
  simp [after]

variable {pre pre' : Array Token} {s s' : Scan}

/-- A step does the same after any tokens, as long as they do or do not await an operand alike. -/
theorem step_after_congr (hpre : awaitsOperand pre = awaitsOperand pre') {c : Char} {t : Scan}
    (h : (s.after pre).step c = .ok t) :
    ∃ s' : Scan, t = s'.after pre ∧ (s.after pre').step c = .ok (s'.after pre') := by
  by_cases hc : isNumberChar c = true
  · rw [step, if_pos hc] at h ⊢
    exact ⟨⟨s.tokens, s.digits.push c⟩, (Except.ok.inj h).symm, rfl⟩
  · rcases exists_lexeme_of_step (by simpa using hc) h with hblank | ⟨l, hchars, hnum⟩
    · rw [step_of_isBlank _ hblank, close_after] at h ⊢
      exact ⟨⟨s.close, ""⟩, (Except.ok.inj h).symm, rfl⟩
    · have hassoc : ∀ (front : Array Token) (ts : List Token),
          front ++ s.close ++ ts = front ++ (s.close ++ ts) := by
        intro front ts
        simp [← Array.toList_inj]
      rw [step_of_chars _ hchars hnum, close_after, hassoc] at h ⊢
      rw [awaitsOperand_append_congr hpre] at h
      exact ⟨⟨s.close ++ l.tokens (awaitsOperand (pre' ++ s.close)), ""⟩,
        (Except.ok.inj h).symm, rfl⟩

theorem run_after_congr (hpre : awaitsOperand pre = awaitsOperand pre') {text : List Char}
    {t : Scan} (h : (s.after pre).run text = .ok t) :
    ∃ s' : Scan, t = s'.after pre ∧ (s.after pre').run text = .ok (s'.after pre') := by
  induction text generalizing s with
  | nil => exact ⟨s, (Except.ok.inj h).symm, rfl⟩
  | cons c text ih =>
    obtain ⟨_, hstep, hrun⟩ := bind_eq_ok_iff.mp h
    obtain ⟨s₁, rfl, hstep'⟩ := step_after_congr hpre hstep
    rw [run_cons, hstep']
    exact ih hrun

/-- A text is scanned after tokens that await an operand as it is scanned by itself. -/
theorem run_after (hpre : awaitsOperand pre = true) {text : List Char} (h : s.run text = .ok s') :
    (s.after pre).run text = .ok (s'.after pre) := by
  rw [← after_empty s] at h
  obtain ⟨t, rfl, hrun⟩ := run_after_congr (awaitsOperand_empty.trans hpre.symm) h
  rwa [after_empty]

end Scan

/-! ### Tokens of a text -/

theorem tokenize_eq_ok_iff {expression : String} {ts : List Token} :
    tokenize expression = .ok ts ↔
      ∃ s, Scan.empty.run expression.toList = .ok s ∧ s.close.toList = ts :=
  map_eq_ok_iff

/-- A text of lexemes in which operands stand where they are awaited has their tokens. -/
theorem tokenize_of_renders {ls : List Lexeme} {expression : String}
    (h : Renders ls expression.toList) (ha : alternates true (tokensOf true ls) = true) :
    tokenize expression = .ok (tokensOf true ls) := by
  obtain ⟨s, hrun, hclose⟩ := Scan.run_of_renders h Scan.empty ha
  exact tokenize_eq_ok_iff.mpr ⟨s, hrun, by simpa [Scan.empty] using hclose⟩

/-- The tokens of a text of a tree are the tokens of the tree. -/
theorem tokenize_of_renders_derivation {d : Derivation .sum} {expression : String}
    (h : Renders d.lexemes expression.toList) : tokenize expression = .ok d.tokens := by
  rw [← d.tokensOf_lexemes]
  exact tokenize_of_renders h (by rw [d.tokensOf_lexemes]; exact d.alternates_tokens)

/-- Every text that has tokens spells lexemes with these tokens. -/
theorem exists_renders_of_tokenize {expression : String} {ts : List Token}
    (h : tokenize expression = .ok ts) :
    ∃ ls, Renders ls expression.toList ∧ tokensOf true ls = ts := by
  obtain ⟨s, hrun, rfl⟩ := tokenize_eq_ok_iff.mp h
  obtain ⟨ls, hls, hclose⟩ := Scan.exists_renders_of_run (by simp [Scan.empty]) hrun
  exact ⟨ls, by simpa [Scan.empty] using hls, by rw [hclose]; rfl⟩

end DeskCalculator.Expression
