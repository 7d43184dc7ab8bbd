import DeskCalculator.Proofs.Expression.Conservation
import DeskCalculator.Proofs.Expression.Scanning

/-!
# DeskCalculator.Proofs.Expression.Respelling

A number can be spelled in several ways, and the stages of an evaluation do not mind which is taken:
each of them commutes with spelling the numbers anew. Scanning minds only whether a run of digits is
empty, bringing into order not even that (`evaluationOrder_respell`), and computing minds the values
(`evaluateOrdered_respell`).
-/

namespace DeskCalculator

open Numeric (Binary64)

namespace Expression

/-- A token, a number with its text spelled anew. -/
def Token.respell (f : String → String) : Token → Token
  | .number text => .number (f text)
  | .operator op unary => .operator op unary
  | .leftParen => .leftParen
  | .rightParen => .rightParen
  | .percent => .percent

variable {f : String → String}

/-- Tokens after others are spelled anew with them. -/
theorem map_respell_append (ts : Array Token) (us : List Token) :
    (ts ++ us).map (Token.respell f) = ts.map (Token.respell f) ++ us.map (Token.respell f) := by
  simp [← Array.toList_inj]

theorem Token.awaitsNext_respell (t : Token) : (t.respell f).awaitsNext = t.awaitsNext := by
  cases t <;> rfl

theorem Token.isParen_respell (t : Token) : (t.respell f).isParen = t.isParen := by
  cases t <;> rfl

theorem Token.goesBefore_respell (arriving : Binding) (t : Token) :
    (t.respell f).goesBefore arriving = t.goesBefore arriving := by
  cases t <;> rfl

theorem Token.bne_leftParen_respell (t : Token) :
    (t.respell f != .leftParen) = (t != .leftParen) := by
  cases t <;> rfl

/-! ### Scanning -/

/-- Implicit zeros are spelled as they are. -/
theorem Lexeme.map_respell_tokens (hzero : f "0" = "0") {l : Lexeme} (hl : l.startsNumber = false)
    (awaiting : Bool) : (l.tokens awaiting).map (Token.respell f) = l.tokens awaiting := by
  cases l with
  | number n => exact absurd hl (by simp [Lexeme.startsNumber])
  | operator op =>
    rw [Lexeme.tokens]
    split <;> simp [Token.respell, hzero]
  | _ => rfl

namespace Scan

/-- Respells the numbers that are read already, and the open run of digits. -/
def respell (f : String → String) (s : Scan) : Scan :=
  ⟨s.tokens.map (Token.respell f), f s.digits⟩

/-- A run of digits stays one, and where there is none, none is spelled. -/
theorem close_respell (hempty : ∀ n, f n = "" ↔ n = "") (s : Scan) :
    (s.respell f).close = s.close.map (Token.respell f) := by
  by_cases hdigits : s.digits = ""
  · have hnone : (s.respell f).digits = "" := (hempty s.digits).mpr hdigits
    rw [close, close, if_pos hnone, if_pos hdigits]
    rfl
  · have hsome : (s.respell f).digits ≠ "" := fun h => hdigits ((hempty s.digits).mp h)
    rw [close_of_digits_ne hsome, close_of_digits_ne hdigits, Array.map_push]
    rfl

theorem awaitsOperand_map_respell (ts : Array Token) :
    awaitsOperand (ts.map (Token.respell f)) = awaitsOperand ts := by
  rw [awaitsOperand_eq, awaitsOperand_eq, Array.toList_map, List.getLast?_map]
  cases ts.toList.getLast? with
  | none => rfl
  | some t => exact t.awaitsNext_respell

/-- A character that belongs to no number is read alike. -/
theorem step_respell (hempty : ∀ n, f n = "" ↔ n = "") (hzero : f "0" = "0") (s : Scan)
    {l : Lexeme} {c : Char} (hchars : l.chars = [c]) (hl : l.startsNumber = false) :
    (s.respell f).step c = (s.step c).map (respell f) := by
  have hnone : f "" = "" := (hempty "").mpr rfl
  rw [step_of_chars _ hchars hl, step_of_chars _ hchars hl, close_respell hempty,
    awaitsOperand_map_respell, map_ok, respell, hnone, map_respell_append,
    Lexeme.map_respell_tokens hzero hl]

end Scan

/-! ### Bringing into order -/

namespace Yard

/-- Respells the numbers in a yard. -/
def respell (f : String → String) (s : Yard) : Yard :=
  ⟨s.output.map (Token.respell f), s.stack.map (Token.respell f)⟩

theorem step_respell (s : Yard) (t : Token) :
    (s.respell f).step (t.respell f) = (s.step t).map (respell f) := by
  cases t with
  | number text => simp [respell, step, Token.respell]
  | percent => simp [respell, step, Token.respell]
  | operator op unary =>
    have hfirst : Token.goesBefore (op.binding unary) ∘ Token.respell f =
        Token.goesBefore (op.binding unary) := funext fun t => t.goesBefore_respell _
    simp [respell, step, Token.respell, List.takeWhile_map, List.dropWhile_map, hfirst,
      map_respell_append]
  | leftParen => simp [respell, step, Token.respell]
  | rightParen =>
    have hopen : (· != Token.leftParen) ∘ Token.respell f = (· != Token.leftParen) :=
      funext fun t => t.bne_leftParen_respell
    simp only [respell, step, Token.respell, List.takeWhile_map, List.dropWhile_map, hopen]
    cases s.stack.dropWhile (· != Token.leftParen) with
    | nil => rfl
    | cons t outer => simp [respell, map_respell_append]

theorem run_respell (s : Yard) (ts : List Token) :
    (s.respell f).run (ts.map (Token.respell f)) = (s.run ts).map (respell f) := by
  induction ts generalizing s with
  | nil => rfl
  | cons t ts ih =>
    rw [List.map_cons, run_cons, run_cons, step_respell]
    cases s.step t with
    | error cause => rfl
    | ok s' => exact ih s'

theorem close_respell (s : Yard) :
    (s.respell f).close = s.close.map (List.map (Token.respell f)) := by
  have hopen : (s.respell f).stack.any Token.isParen = s.stack.any Token.isParen := by
    rw [respell, List.any_map]
    exact congrArg s.stack.any (funext fun t => t.isParen_respell)
  rw [close, close, hopen]
  split
  · rfl
  · simp [respell]

end Yard

/-- The order does not depend on the spelling of numbers. -/
theorem evaluationOrder_respell (ts : List Token) :
    evaluationOrder (ts.map (Token.respell f)) =
      (evaluationOrder ts).map (List.map (Token.respell f)) := by
  have hempty : Yard.empty.respell f = Yard.empty := by simp [Yard.respell, Yard.empty]
  have hrun := Yard.empty.run_respell (f := f) ts
  rw [hempty] at hrun
  rw [evaluationOrder, evaluationOrder, hrun]
  cases Yard.empty.run ts with
  | error cause => rfl
  | ok s => exact s.close_respell

/-! ### Computing -/

/-- A failure, with the number that it complains about spelled anew. -/
def Failure.respell (f : String → String) : Failure → Failure
  | .invalidNumber text => .invalidNumber (f text)
  | cause => cause

theorem Failure.kind_respell (cause : Failure) : (cause.respell f).kind = cause.kind := by
  cases cause <;> rfl

/-- Whether a text keeps its value when it is spelled anew. -/
def KeepsValue (f : String → String) (text : String) : Prop :=
  Binary64.Finite.ofText? (f text) = Binary64.Finite.ofText? text

theorem readNumber_respell {text : String} (h : KeepsValue f text) :
    readNumber (f text) = (readNumber text).mapError (Failure.respell f) := by
  rw [readNumber, readNumber, h]
  cases Binary64.Finite.ofText? text <;> rfl

namespace Stack

theorem step_respell {t : Token} (h : ∀ text, t = .number text → KeepsValue f text)
    (stack : Stack) :
    step stack (t.respell f) = (step stack t).mapError (Failure.respell f) := by
  cases t with
  | number text =>
    show (readNumber (f text)).map (· :: stack) = ((readNumber text).map (· :: stack)).mapError _
    rw [readNumber_respell (h text rfl)]
    cases readNumber text <;> rfl
  | percent => cases stack <;> rfl
  | operator op unary =>
    match stack with
    | [] | [_] => rfl
    | b :: a :: below =>
      show (op.apply a b).map (· :: below) = ((op.apply a b).map (· :: below)).mapError _
      cases happly : op.apply a b with
      | ok x => rfl
      | error cause =>
        obtain ⟨-, -, rfl⟩ := Operator.apply_eq_error_iff.mp happly
        rfl
  | leftParen => rfl
  | rightParen => rfl

theorem run_respell {ts : List Token} (h : ∀ text, .number text ∈ ts → KeepsValue f text)
    (stack : Stack) :
    run stack (ts.map (Token.respell f)) = (run stack ts).mapError (Failure.respell f) := by
  induction ts generalizing stack with
  | nil => rfl
  | cons t ts ih =>
    have ht : ∀ text, t = .number text → KeepsValue f text :=
      fun text heq => h text (heq ▸ List.mem_cons_self)
    rw [List.map_cons, run_cons, run_cons, step_respell ht]
    cases step stack t with
    | error cause => rfl
    | ok s => exact ih (fun text htext => h text (List.mem_cons_of_mem t htext)) s

end Stack

/-- The value depends on the values of the numbers alone. -/
theorem evaluateOrdered_respell {ts : List Token}
    (h : ∀ text, .number text ∈ ts → KeepsValue f text) :
    evaluateOrdered (ts.map (Token.respell f)) =
      (evaluateOrdered ts).mapError (Failure.respell f) := by
  rw [evaluateOrdered, evaluateOrdered, Stack.run_respell h]
  cases Stack.run [] ts with
  | error cause => rfl
  | ok stack =>
    simp only [mapError_ok, bind_ok]
    cases hclose : stack.close with
    | ok x => rfl
    | error cause =>
      obtain rfl | rfl := Stack.eq_of_close_eq_error hclose <;> rfl

/-- **Texts that differ in the spelling of numbers alone** are evaluated alike, if every number
keeps its value. -/
theorem evaluate_respell {a b : String} {ts : List Token} (hb : tokenize b = .ok ts)
    (ha : tokenize a = .ok (ts.map (Token.respell f)))
    (h : ∀ text, .number text ∈ ts → KeepsValue f text) :
    evaluate a = (evaluate b).mapError (Failure.respell f) := by
  rw [evaluate, evaluate, ha, hb, bind_ok, bind_ok, evaluationOrder_respell]
  cases horder : evaluationOrder ts with
  | error cause =>
    obtain rfl := eq_mismatchedParentheses_of_evaluationOrder horder
    rfl
  | ok post =>
    exact evaluateOrdered_respell fun text htext =>
      h text (mem_of_mem_evaluationOrder horder htext)

end Expression

/-- Evaluations that end alike but for the cause of a failure give outcomes that differ in the
message alone. -/
theorem Outcome.ofExpression_of_mapError {a b : String}
    {g : Expression.Failure → Expression.Failure} (hkind : ∀ cause, (g cause).kind = cause.kind)
    (h : Expression.evaluate a = (Expression.evaluate b).mapError g) :
    (ofExpression a).ok = (ofExpression b).ok ∧ (ofExpression a).value? = (ofExpression b).value? ∧
      (ofExpression a).kind? = (ofExpression b).kind? := by
  cases hb : Expression.evaluate b with
  | ok x =>
    rw [hb, mapError_ok, ← hb] at h
    rw [ofExpression_congr h]
    exact ⟨rfl, rfl, rfl⟩
  | error cause =>
    rw [hb, mapError_error] at h
    simp [ofExpression, calculate, h, hb, ok, value?, kind?, hkind]

end DeskCalculator
