import DeskCalculator.Proofs.Expression.Scanning
import DeskCalculator.Proofs.Expression.Parentheses

/-!
# DeskCalculator.Proofs.Expression.Acceptance

Which texts belong to the grammar, and which of the others are accepted all the same. A text belongs
to it exactly if its parentheses pair up and operands and operators alternate in it
(`wellFormed_of_alternates`). Ordering checks the first and forgets the second, so a text
with a misplaced operator is accepted if the stack machine happens to find its operands
(`misplaced_operator_accepted`).

Main statement: `wellFormed_iff_alternates`. Among the texts that have a result, those of the
grammar are the ones in which operands and operators alternate; and where they alternate, the other
texts are rejected for their parentheses.

The parse is built from left to right. What stands before an awaited operand is a `Context`, a
path from the root of an unfinished tree; each lexeme either extends the path or closes a part of
it.
-/

namespace DeskCalculator.Expression

/-- The text spells a derivation tree. -/
def WellFormed (expression : String) : Prop :=
  ∃ d : Derivation .sum, Renders d.lexemes expression.toList

/-- The text has tokens, and operands and operators alternate in them: operands begin exactly at the
start and after operators and opening parentheses, and the last one is complete. -/
def Alternates (expression : String) : Prop :=
  ∃ ts, tokenize expression = .ok ts ∧ alternates true ts = true

/-! ### Unfinished trees -/

/-- What stands in the text before a tree of this category. -/
inductive Context : Category → Type
  | start : Context .sum
  /-- An opening parenthesis. -/
  | group (outer : Context .signed) : Context .sum
  /-- The tree is the first term of a sum. -/
  | first (outer : Context .sum) : Context .product
  /-- Terms of a sum, and an operator. -/
  | term (outer : Context .sum) (left : Derivation .sum) (op : Operator)
      (h : op.isSign = true) : Context .product
  /-- The tree is the first factor of a product. -/
  | single (outer : Context .product) : Context .signed
  /-- Factors of a product, and an operator. -/
  | factor (outer : Context .product) (left : Derivation .product) (op : Operator)
      (h : op.isSign = false) : Context .signed
  | sign (outer : Context .signed) (op : Operator) (h : op.isSign = true) : Context .signed

namespace Context

/-- The lexemes of what stands before. -/
def lexemes : {c : Category} → Context c → List Lexeme
  | _, start => []
  | _, group outer => outer.lexemes ++ [.leftParen]
  | _, first outer => outer.lexemes
  | _, term outer left op _ => outer.lexemes ++ left.lexemes ++ [.operator op]
  | _, single outer => outer.lexemes
  | _, factor outer left op _ => outer.lexemes ++ left.lexemes ++ [.operator op]
  | _, sign outer op _ => outer.lexemes ++ [.operator op]

/-- How many groups are open. -/
def depth : {c : Category} → Context c → Nat
  | _, start => 0
  | _, group outer => outer.depth + 1
  | _, first outer => outer.depth
  | _, term outer _ _ _ => outer.depth
  | _, single outer => outer.depth
  | _, factor outer _ _ _ => outer.depth
  | _, sign outer _ _ => outer.depth

/-- A signed operand completes a product. -/
theorem exists_product : ∀ (Γ : Context .signed) (u : Derivation .signed),
    ∃ (Δ : Context .product) (t : Derivation .product),
      Δ.lexemes ++ t.lexemes = Γ.lexemes ++ u.lexemes ∧ Δ.depth = Γ.depth
  | single outer, u => ⟨outer, .signed u, rfl, rfl⟩
  | factor outer left op h, u =>
    ⟨outer, .mul left op h u, by simp [lexemes, Derivation.lexemes], rfl⟩
  | sign outer op h, u => by
    obtain ⟨Δ, t, hlex, hdepth⟩ := exists_product outer (.sign op h u)
    exact ⟨Δ, t, by simp [hlex, lexemes, Derivation.lexemes], hdepth⟩

/-- A product completes a sum. -/
theorem exists_sum : ∀ (Γ : Context .product) (t : Derivation .product),
    ∃ (Δ : Context .sum) (e : Derivation .sum),
      Δ.lexemes ++ e.lexemes = Γ.lexemes ++ t.lexemes ∧ Δ.depth = Γ.depth
  | first outer, t => ⟨outer, .product t, rfl, rfl⟩
  | term outer left op h, t =>
    ⟨outer, .add left op h t, by simp [lexemes, Derivation.lexemes], rfl⟩

/-- An operand completes a product and a sum. -/
theorem exists_sum_of_operand (Γ : Context .signed) (p : Derivation .operand) :
    ∃ (Δ : Context .sum) (e : Derivation .sum),
      Δ.lexemes ++ e.lexemes = Γ.lexemes ++ p.lexemes ∧ Δ.depth = Γ.depth := by
  obtain ⟨Δ, t, hlex, hdepth⟩ := Γ.exists_product (.operand p)
  obtain ⟨Θ, e, hlex', hdepth'⟩ := Δ.exists_sum t
  exact ⟨Θ, e, hlex'.trans hlex, hdepth'.trans hdepth⟩

end Context

/-! ### Parsing -/

theorem groupsClose_operator_append {depth : Nat} (awaiting : Bool) (op : Operator)
    (ts : List Token) :
    groupsClose depth ((Lexeme.operator op).tokens awaiting ++ ts) = groupsClose depth ts := by
  simp only [Lexeme.tokens]
  split <;> rfl

/-- Lexemes that alternate and whose parentheses pair up finish every unfinished tree, whether an
operand is awaited before them or one has just been read. -/
theorem exists_derivation_of_alternates (ls : List Lexeme) :
    (∀ Γ : Context .signed, alternates true (tokensOf true ls) = true →
      groupsClose Γ.depth (tokensOf true ls) = true →
        ∃ d : Derivation .sum, d.lexemes = Γ.lexemes ++ ls) ∧
    (∀ (Γ : Context .signed) (p : Derivation .operand),
      alternates false (tokensOf false ls) = true →
        groupsClose Γ.depth (tokensOf false ls) = true →
          ∃ d : Derivation .sum, d.lexemes = Γ.lexemes ++ p.lexemes ++ ls) := by
  induction ls with
  | nil =>
    refine ⟨fun Γ ha _ => absurd ha (by simp [alternates]), fun Γ p _ hg => ?_⟩
    obtain ⟨Δ, e, hlex, hdepth⟩ := Γ.exists_sum_of_operand p
    cases Δ with
    | start => exact ⟨e, by simpa [Context.lexemes] using hlex⟩
    | group outer =>
      -- a group is still open
      rw [← hdepth] at hg
      simp [Context.depth, groupsClose] at hg
  | cons l ls ih =>
    obtain ⟨ihawait, ihread⟩ := ih
    constructor
    · intro Γ ha hg
      rw [tokensOf_cons, alternates_tokens_append, Bool.and_eq_true] at ha
      obtain ⟨hfits, ha⟩ := ha
      cases l with
      | number n =>
        obtain ⟨d, hd⟩ := ihread Γ (.number n) ha hg
        exact ⟨d, by simp [hd, Derivation.lexemes]⟩
      | operator op =>
        have hop : op.isSign = true := by simpa [Lexeme.fits] using hfits
        rw [tokensOf_cons, groupsClose_operator_append] at hg
        obtain ⟨d, hd⟩ := ihawait (.sign Γ op hop) ha hg
        exact ⟨d, by simp [hd, Context.lexemes]⟩
      | leftParen =>
        obtain ⟨d, hd⟩ := ihawait (.single (.first (.group Γ))) ha hg
        exact ⟨d, by simp [hd, Context.lexemes]⟩
      | rightParen => simp [Lexeme.fits] at hfits
      | percent => simp [Lexeme.fits] at hfits
    · intro Γ p ha hg
      rw [tokensOf_cons, alternates_tokens_append, Bool.and_eq_true] at ha
      obtain ⟨hfits, ha⟩ := ha
      cases l with
      | number n => simp [Lexeme.fits] at hfits
      | operator op =>
        rw [tokensOf_cons, groupsClose_operator_append] at hg
        cases hop : op.isSign with
        | true =>
          -- a plus or minus closes the sum before it
          obtain ⟨Δ, e, hlex, hdepth⟩ := Γ.exists_sum_of_operand p
          obtain ⟨d, hd⟩ := ihawait (.single (.term Δ e op hop)) ha (hdepth ▸ hg)
          exact ⟨d, by rw [hd, ← hlex]; simp [Context.lexemes]⟩
        | false =>
          -- a times or divide closes the product before it
          obtain ⟨Δ, t, hlex, hdepth⟩ := Γ.exists_product (.operand p)
          rw [Derivation.lexemes] at hlex
          obtain ⟨d, hd⟩ := ihawait (.factor Δ t op hop) ha (hdepth ▸ hg)
          exact ⟨d, by rw [hd, ← hlex]; simp [Context.lexemes]⟩
      | leftParen => simp [Lexeme.fits] at hfits
      | rightParen =>
        obtain ⟨Δ, e, hlex, hdepth⟩ := Γ.exists_sum_of_operand p
        rw [← hdepth] at hg
        cases Δ with
        | start => simp [Context.depth, Lexeme.tokens, groupsClose] at hg
        | group outer =>
          obtain ⟨d, hd⟩ := ihread outer (.group e) ha hg
          exact ⟨d, by rw [hd, ← hlex]; simp [Context.lexemes, Derivation.lexemes]⟩
      | percent =>
        obtain ⟨d, hd⟩ := ihread Γ (.percent p) ha hg
        exact ⟨d, by simp [hd, Derivation.lexemes]⟩

/-- A text that can be ordered and in which operands and operators alternate spells a tree. -/
theorem wellFormed_of_alternates {expression : String} {ts post : List Token}
    (hts : tokenize expression = .ok ts) (hpost : evaluationOrder ts = .ok post)
    (ha : alternates true ts = true) : WellFormed expression := by
  obtain ⟨ls, hls, rfl⟩ := exists_renders_of_tokenize hts
  obtain ⟨d, hd⟩ := (exists_derivation_of_alternates ls).1 (.single (.first .start)) ha
    (groupsClose_of_evaluationOrder hpost)
  have hlex : d.lexemes = ls := by simpa [Context.lexemes] using hd
  exact ⟨d, hlex ▸ hls⟩

theorem alternates_of_wellFormed {expression : String} (h : WellFormed expression) :
    Alternates expression := by
  obtain ⟨d, hd⟩ := h
  exact ⟨d.tokens, tokenize_of_renders_derivation hd, d.alternates_tokens⟩

/-- Where operands and operators alternate, a text outside the grammar has parentheses that do not
pair up, and is rejected for them. -/
theorem ofExpression_of_not_wellFormed {expression : String} (ha : Alternates expression)
    (hnot : ¬ WellFormed expression) :
    Outcome.ofExpression expression =
      .failure .mismatchedParentheses "Paréntesis desbalanceados" := by
  obtain ⟨ts, hts, ha⟩ := ha
  cases horder : evaluationOrder ts with
  | ok post => exact absurd (wellFormed_of_alternates hts horder ha) hnot
  | error cause =>
    obtain rfl := eq_mismatchedParentheses_of_evaluationOrder horder
    have hevaluate : evaluate expression = .error .mismatchedParentheses := by
      rw [evaluate, hts, bind_ok, horder, bind_error]
    rw [Outcome.ofExpression, calculate, hevaluate]
    rfl

/-- **What acceptance forgets.** A text with a result belongs to the grammar exactly if operands and
operators alternate in it. As long as they do, every text outside the grammar is rejected, and for
its parentheses. -/
theorem wellFormed_iff_alternates (expression : String) :
    (∀ value, Outcome.ofExpression expression = .success value →
      (WellFormed expression ↔ Alternates expression)) ∧
    (Alternates expression → ¬ WellFormed expression →
      Outcome.ofExpression expression =
        .failure .mismatchedParentheses "Paréntesis desbalanceados") := by
  refine ⟨fun value hvalue => ?_, ofExpression_of_not_wellFormed⟩
  refine ⟨alternates_of_wellFormed, fun ⟨ts, hts, ha⟩ => ?_⟩
  obtain ⟨x, y, hx, -, -⟩ :=
    calculate_eq_ok_iff.mp (Outcome.ofExpression_eq_success_iff.mp hvalue)
  obtain ⟨ts', post, hts', hpost, -⟩ := evaluate_eq_ok_iff.mp hx
  obtain rfl : ts' = ts := Except.ok.inj (hts'.symm.trans hts)
  exact wellFormed_of_alternates hts' hpost ha

/-- A product with a sum in parentheses; and the same product where a parenthesis is missing, which
is outside the grammar although operands and operators alternate. -/
theorem wellFormed_iff_alternates_of_product :
    (Outcome.ofExpression "2*(3+4)%" = .success "0.14" ∧
      (WellFormed "2*(3+4)%" ↔ Alternates "2*(3+4)%") ∧ Alternates "2*(3+4)%") ∧
    Alternates "2*(3+4" ∧ ¬ WellFormed "2*(3+4" ∧
      Outcome.ofExpression "2*(3+4" =
        .failure .mismatchedParentheses "Paréntesis desbalanceados" := by
  have hvalue : Outcome.ofExpression "2*(3+4)%" = .success "0.14" := by decide +kernel
  have hopen : Alternates "2*(3+4" := ⟨_, rfl, by decide +kernel⟩
  have hnot : ¬ WellFormed "2*(3+4" := by
    rintro ⟨d, hd⟩
    obtain ⟨ts, hts, horder⟩ : ∃ ts, tokenize "2*(3+4" = .ok ts ∧
        evaluationOrder ts = .error .mismatchedParentheses := ⟨_, rfl, rfl⟩
    rw [Except.ok.inj (hts.symm.trans (tokenize_of_renders_derivation hd)),
      evaluationOrder_tokens d] at horder
    exact absurd horder (by simp)
  have hclosed : Alternates "2*(3+4)%" := ⟨_, rfl, by decide +kernel⟩
  exact ⟨⟨hvalue, (wellFormed_iff_alternates "2*(3+4)%").1 "0.14" hvalue, hclosed⟩, hopen, hnot,
    (wellFormed_iff_alternates "2*(3+4").2 hopen hnot⟩

/-- A text whose only operator stands after both of its operands, inside a group of its own, is
accepted although no derivation tree has it as a text. -/
theorem misplaced_operator_accepted :
    Outcome.ofExpression "2(3+)" = .success "5" ∧ ¬ WellFormed "2(3+)" := by
  refine ⟨by decide +kernel, fun h => ?_⟩
  obtain ⟨ts, hts, ha⟩ := alternates_of_wellFormed h
  have htokens : tokenize "2(3+)" =
      .ok [.number "2", .leftParen, .number "3", .operator .plus false, .rightParen] := rfl
  rw [← Except.ok.inj (htokens.symm.trans hts)] at ha
  exact absurd ha (by decide)

end DeskCalculator.Expression
