/-!
# DeskCalculator.Expression.Token

The tokens of an arithmetic expression and how tightly its operators bind.

* **Signs are operators.** A sign before an operand is an operator marked as unary, and its left
  operand is an implicit zero. It binds tighter than every binary operator.
* **Percent is no operator.** It stands after its operand and takes part in no comparison of
  precedences.
* **Bindings are looked up by text.** Only a token whose text is the symbol of an operator, or one
  that is marked as unary, has a precedence and an associativity.
-/

namespace DeskCalculator.Expression

/-- The operators of an expression. -/
inductive Operator
  | plus
  | minus
  | times
  | divide
  deriving DecidableEq, Repr

/-- How an operator competes for the operand between it and its neighbour. -/
structure Binding where
  /-- The operator with the greater precedence takes the operand. -/
  precedence : Nat
  /-- Of two operators with one precedence, whether the left one takes the operand. -/
  leftAssociative : Bool
  deriving DecidableEq, Repr

namespace Operator

/-- The character of an operator. -/
def symbol : Operator → Char
  | plus => '+'
  | minus => '-'
  | times => '*'
  | divide => '/'

/-- The operator of a character. -/
def ofSymbol? : Char → Option Operator
  | '+' => some plus
  | '-' => some minus
  | '*' => some times
  | '/' => some divide
  | _ => none

/-- The operator of a text, which has to be its character. -/
def ofText? (text : String) : Option Operator :=
  match text.toList with
  | [c] => ofSymbol? c
  | _ => none

/-- Whether the operator can be a sign. -/
def isSign : Operator → Bool
  | plus | minus => true
  | times | divide => false

/-- The binding of an operator, unary or binary. Signs bind tightest, and from the right. -/
def binding (unary : Bool) : Operator → Binding
  | plus | minus => if unary then ⟨3, false⟩ else ⟨1, true⟩
  | times | divide => if unary then ⟨3, false⟩ else ⟨2, true⟩

@[simp] theorem ofSymbol?_symbol (op : Operator) : ofSymbol? op.symbol = some op := by
  cases op <;> rfl

theorem ofSymbol?_eq_some_iff {c : Char} {op : Operator} :
    ofSymbol? c = some op ↔ c = op.symbol := by
  constructor
  · intro h
    unfold ofSymbol? at h
    split at h <;> simp at h <;> subst h <;> rfl
  · rintro rfl
    exact ofSymbol?_symbol op

@[simp] theorem binding_unary (op : Operator) : op.binding true = ⟨3, false⟩ := by
  cases op <;> rfl

end Operator

/-- What the text of an expression is split into. -/
inductive Token
  /-- A number as written; whether the text denotes one is found out when it is evaluated. -/
  | number (text : String)
  /-- An operator, unary if it is a sign. -/
  | operator (op : Operator) (unary : Bool)
  | leftParen
  | rightParen
  | percent
  deriving DecidableEq, Repr

/-- A text that was given for an operator and is none. -/
structure UnknownOperator where
  symbol : String
  deriving DecidableEq, Repr

/-- What to say about a text that is no operator. -/
def UnknownOperator.message (e : UnknownOperator) : String := "Operador desconocido: " ++ e.symbol

namespace Token

/-- The token of an operator that is given by its text. -/
def ofOperatorText (symbol : String) (unary : Bool) : Except UnknownOperator Token :=
  match Operator.ofText? symbol with
  | some op => .ok (.operator op unary)
  | none => .error ⟨symbol⟩

/-- The text that tells a number or an operator from others of its sort; the other tokens need
none. -/
def text : Token → String
  | number text => text
  | operator op _ => String.singleton op.symbol
  | leftParen | rightParen | percent => ""

/-- The token as it stands in an expression. -/
def lexeme : Token → String
  | leftParen => "("
  | rightParen => ")"
  | percent => "%"
  | token => token.text

/-- Whether a token is a parenthesis. -/
def isParen : Token → Bool
  | leftParen | rightParen => true
  | _ => false

/-- Whether a token is an operator, unary or binary. -/
def isOperator : Token → Bool
  | operator .. => true
  | _ => false

/-- Whether a token is marked as unary. -/
def isUnary : Token → Bool
  | operator _ unary => unary
  | _ => false

/-- The binding of a token whose text is the symbol of an operator. -/
def binding? (token : Token) : Option Binding :=
  (Operator.ofText? token.text).map (Operator.binding token.isUnary)

@[simp] theorem binding?_operator (op : Operator) (unary : Bool) :
    binding? (operator op unary) = some (op.binding unary) := by
  simp [binding?, text, isUnary, Operator.ofText?]

end Token

end DeskCalculator.Expression
