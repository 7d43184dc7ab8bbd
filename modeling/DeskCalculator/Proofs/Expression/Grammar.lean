import DeskCalculator.Proofs.Expression.Computing

/-!
# DeskCalculator.Proofs.Expression.Grammar

The infix grammar of expressions, as trees, and what a tree means.

```
sum     → sum (+ | -) product | product
product → product (* | /) signed | signed
signed  → (+ | -) signed | operand
operand → number | ( sum ) | operand %
```

Nothing here mentions how an expression is evaluated by machine: the grammar is the second side of
the statements about scanning, ordering and computing.

* **Lexemes** are what stands in the text. A sign and a binary operator are the same lexeme, and
  the implicit zero of a sign is no lexeme; both belong to `Derivation.tokens`.
* **Texts of a tree** (`Renders`) spell its lexemes in order, with blanks anywhere between them.
* **Meaning** (`Derivation.value`) is by recursion on the tree, the left operand before the right
  one and both before their node. What fails on the way is listed in post-order
  (`Derivation.failures`), and an outcome has to be accounted for by the first of the list
  (`Derivation.Explains`).
-/

namespace DeskCalculator.Expression

open Numeric (Binary64)

/-! ### Lexemes and the texts that spell them -/

/-- A number as it stands in an expression: digits and points, at least one of them. -/
structure NumberText where
  text : String
  ne_empty : text ≠ ""
  isNumberChar_of_mem : ∀ c ∈ text.toList, isNumberChar c = true

/-- A token as it stands in the text of an expression. -/
inductive Lexeme
  | number (n : NumberText)
  /-- An operator, binary or a sign. -/
  | operator (op : Operator)
  | leftParen
  | rightParen
  | percent

/-- The characters of a lexeme. -/
def Lexeme.chars : Lexeme → List Char
  | number n => n.text.toList
  | operator op => [op.symbol]
  | leftParen => ['(']
  | rightParen => [')']
  | percent => ['%']

/-- The text spells the lexemes in order, with any blanks before, between and after them. -/
inductive Renders : List Lexeme → List Char → Prop
  /-- Blanks alone spell nothing. -/
  | nil {blanks : List Char} (h : blanks.all Text.isBlank = true) : Renders [] blanks
  /-- Blanks, the first lexeme, and a text for the others. -/
  | cons {blanks text : List Char} {l : Lexeme} {ls : List Lexeme}
      (h : blanks.all Text.isBlank = true) (rest : Renders ls text) :
      Renders (l :: ls) (blanks ++ (l.chars ++ text))

/-- Nothing spells no lexemes. -/
theorem Renders.empty : Renders [] [] := .nil rfl

/-- A lexeme may stand in front without a blank. -/
theorem Renders.lexeme {l : Lexeme} {ls : List Lexeme} {text : List Char} (h : Renders ls text) :
    Renders (l :: ls) (l.chars ++ text) :=
  @Renders.cons [] text l ls rfl h

/-- A further blank in front changes nothing. -/
theorem Renders.blank_cons {ls : List Lexeme} {c : Char} {text : List Char}
    (hc : Text.isBlank c = true) (h : Renders ls text) : Renders ls (c :: text) := by
  cases h with
  | nil hblanks => exact .nil (by simp [hc, hblanks])
  | @cons blanks text l ls hblanks rest =>
    exact @Renders.cons (c :: blanks) _ _ _ (by simp [hc, hblanks]) rest

/-! ### Trees -/

/-- The four sorts of trees, from the loosest to the tightest. -/
inductive Category
  /-- Products joined by plus and minus. -/
  | sum
  /-- Signed operands joined by times and divide. -/
  | product
  /-- An operand with any signs before it. -/
  | signed
  | operand
  deriving DecidableEq

/-- A derivation tree of the grammar. -/
inductive Derivation : Category → Type
  | add (left : Derivation .sum) (op : Operator) (h : op.isSign = true)
      (right : Derivation .product) : Derivation .sum
  /-- A product is a sum of one term. -/
  | product (t : Derivation .product) : Derivation .sum
  | mul (left : Derivation .product) (op : Operator) (h : op.isSign = false)
      (right : Derivation .signed) : Derivation .product
  /-- A signed operand is a product of one factor. -/
  | signed (u : Derivation .signed) : Derivation .product
  | sign (op : Operator) (h : op.isSign = true) (u : Derivation .signed) : Derivation .signed
  | operand (p : Derivation .operand) : Derivation .signed
  | number (n : NumberText) : Derivation .operand
  | group (e : Derivation .sum) : Derivation .operand
  | percent (p : Derivation .operand) : Derivation .operand

namespace Derivation

/-- What stands in a text of the tree, from left to right. -/
def lexemes : {c : Category} → Derivation c → List Lexeme
  | _, add left op _ right => left.lexemes ++ .operator op :: right.lexemes
  | _, product t => t.lexemes
  | _, mul left op _ right => left.lexemes ++ .operator op :: right.lexemes
  | _, signed u => u.lexemes
  | _, sign op _ u => .operator op :: u.lexemes
  | _, operand p => p.lexemes
  | _, number n => [.number n]
  | _, group e => .leftParen :: (e.lexemes ++ [.rightParen])
  | _, percent p => p.lexemes ++ [.percent]

/-- The tokens of the tree, a sign marked as unary and an implicit zero before it. -/
def tokens : {c : Category} → Derivation c → List Token
  | _, add left op _ right => left.tokens ++ .operator op false :: right.tokens
  | _, product t => t.tokens
  | _, mul left op _ right => left.tokens ++ .operator op false :: right.tokens
  | _, signed u => u.tokens
  | _, sign op _ u => .number "0" :: .operator op true :: u.tokens
  | _, operand p => p.tokens
  | _, number n => [.number n.text]
  | _, group e => .leftParen :: (e.tokens ++ [.rightParen])
  | _, percent p => p.tokens ++ [.percent]

/-- The tokens of the tree with every operator after its operands. -/
def postOrder : {c : Category} → Derivation c → List Token
  | _, add left op _ right => left.postOrder ++ right.postOrder ++ [.operator op false]
  | _, product t => t.postOrder
  | _, mul left op _ right => left.postOrder ++ right.postOrder ++ [.operator op false]
  | _, signed u => u.postOrder
  | _, sign op _ u => .number "0" :: (u.postOrder ++ [.operator op true])
  | _, operand p => p.postOrder
  | _, number n => [.number n.text]
  | _, group e => e.postOrder
  | _, percent p => p.postOrder ++ [.percent]

/-! ### Meaning -/

/-- The value of a node from the values of its operands, the left one first. -/
def nodeValue (op : Operator) (a b : Except Failure Binary64) : Except Failure Binary64 :=
  a.bind fun x => b.bind fun y => op.apply x y

/-- The value of the tree. A sign adds its operand to zero or takes it away from zero, and a
percent sign divides its operand by one hundred. -/
def value : {c : Category} → Derivation c → Except Failure Binary64
  | _, add left op _ right => nodeValue op left.value right.value
  | _, product t => t.value
  | _, mul left op _ right => nodeValue op left.value right.value
  | _, signed u => u.value
  | _, sign op _ u => nodeValue op (.ok (.zero false)) u.value
  | _, operand p => p.value
  | _, number n => readNumber n.text
  | _, group e => e.value
  | _, percent p => p.value.map fun a => a.div hundred

/-- What fails at a node itself: nothing if one of its operands has no value. -/
def nodeFailure (op : Operator) (a b : Except Failure Binary64) : List Failure :=
  match a, b with
  | .ok x, .ok y =>
    match op.apply x y with
    | .ok _ => []
    | .error cause => [cause]
  | _, _ => []

/-- All the leaves and nodes that fail, in post-order, each with a failure of its own. -/
def failures : {c : Category} → Derivation c → List Failure
  | _, add left op _ right =>
    left.failures ++ right.failures ++ nodeFailure op left.value right.value
  | _, product t => t.failures
  | _, mul left op _ right =>
    left.failures ++ right.failures ++ nodeFailure op left.value right.value
  | _, signed u => u.failures
  | _, sign op _ u => u.failures ++ nodeFailure op (.ok (.zero false)) u.value
  | _, operand p => p.failures
  | _, number n =>
    match readNumber n.text with
    | .ok _ => []
    | .error cause => [cause]
  | _, group e => e.failures
  | _, percent p => p.failures

/-- The failures account for the outcome: there are none if there is a value, and the first one is
reported if there is not. -/
def Explains (failures : List Failure) : Except Failure Binary64 → Prop
  | .ok _ => failures = []
  | .error cause => failures.head? = some cause

theorem explains_nodeValue (op : Operator) {a b : Except Failure Binary64}
    {fs gs : List Failure}
    (ha : Explains fs a) (hb : Explains gs b) :
    Explains (fs ++ gs ++ nodeFailure op a b) (nodeValue op a b) := by
  cases a with
  | error cause =>
    have hfs : fs.head? = some cause := ha
    show ((fs ++ gs ++ []).head? : Option Failure) = some cause
    simp [List.head?_append, hfs]
  | ok x =>
    obtain rfl : fs = [] := ha
    cases b with
    | error cause =>
      have hgs : gs.head? = some cause := hb
      show (([] ++ gs ++ []).head? : Option Failure) = some cause
      simp [hgs]
    | ok y =>
      obtain rfl : gs = [] := hb
      show Explains (nodeFailure op (.ok x) (.ok y)) (op.apply x y)
      cases h : op.apply x y <;> simp [nodeFailure, h, Explains]

/-- Where failures account for an outcome, the first of them is the one that is reported. -/
theorem Explains.eq_error_iff {fs : List Failure} {result : Except Failure Binary64}
    (h : Explains fs result) {cause : Failure} :
    result = .error cause ↔ fs.head? = some cause := by
  cases result with
  | error other =>
    change fs.head? = some other at h
    simp [h]
  | ok x =>
    change fs = [] at h
    simp [h]

/-- What fails at a node is a division by zero. -/
theorem eq_divisionByZero_of_mem_nodeFailure {op : Operator} {a b : Except Failure Binary64}
    {cause : Failure} (h : cause ∈ nodeFailure op a b) : cause = .divisionByZero := by
  unfold nodeFailure at h
  split at h
  · rename_i x y
    cases hop : op.apply x y with
    | ok z => simp [hop] at h
    | error other =>
      obtain rfl : cause = other := by simpa [hop] using h
      exact (Operator.apply_eq_error_iff.mp hop).2.2
  · simp at h

/-- The two kinds of failure that a tree can have: a leaf that is no number, and a node that divides
by zero. -/
def TreeFailure (cause : Failure) : Prop :=
  cause.kind = .invalidNumber ∨ cause.kind = .divisionByZero

theorem treeFailure_of_mem_node {op : Operator} {a b : Except Failure Binary64}
    {fs gs : List Failure} {cause : Failure} (hf : cause ∈ fs → TreeFailure cause)
    (hg : cause ∈ gs → TreeFailure cause) (h : cause ∈ fs ++ gs ++ nodeFailure op a b) :
    TreeFailure cause := by
  simp only [List.mem_append] at h
  rcases h with (h | h) | h
  · exact hf h
  · exact hg h
  · right
    rw [eq_divisionByZero_of_mem_nodeFailure h]
    rfl

end Derivation

end DeskCalculator.Expression
