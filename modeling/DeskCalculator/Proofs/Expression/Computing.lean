import DeskCalculator.Calculation
import DeskCalculator.Proofs.ExceptLaws

/-!
# DeskCalculator.Proofs.Expression.Computing

The stack machine, one token at a time: when an operation fails, that a run which succeeds never
looks below the values it starts from (`Stack.run_above`), and that a run which fails does so for
reasons of its own (`isComputing_of_evaluateOrdered`). What a value and a result have gone through
stands at the end.
-/

namespace DeskCalculator.Expression

open Numeric (Binary64)

/-! ### Operations -/

/-- The text of an implicit zero denotes zero. -/
@[simp] theorem readNumber_zero : readNumber "0" = .ok (.zero false) := by
  have h : Binary64.Finite.ofText? "0" = some ⟨false, 0, by decide⟩ := by decide +kernel
  rw [readNumber, h]
  rfl

/-- A numeral has a value if that is finite. -/
theorem readNumber_of_ofText? {text : String} {n : Numeric.Numeral} {x : Binary64.Finite}
    (htext : Numeric.Numeral.ofText? text.toList = some n) (hn : Binary64.ofNumeral n = .finite x) :
    readNumber text = .ok (.finite x) := by
  have hvalue : Binary64.Finite.ofText? text = some x := by
    rw [Binary64.Finite.ofText?, htext, Option.bind_some, hn]
    rfl
  rw [readNumber, hvalue]

/-- A text without a value is reported as it stands. -/
theorem eq_invalidNumber_of_readNumber {text : String} {cause : Failure}
    (h : readNumber text = .error cause) : cause = .invalidNumber text := by
  unfold readNumber at h
  split at h
  · exact absurd h (by simp)
  · exact (Except.error.inj h).symm

/-- An operation fails exactly if it divides by zero. -/
theorem Operator.apply_eq_error_iff {op : Operator} {a b : Binary64} {cause : Failure} :
    op.apply a b = .error cause ↔ op = .divide ∧ b.isZero = true ∧ cause = .divisionByZero := by
  cases op with
  | divide =>
    unfold Operator.apply
    by_cases hb : b.isZero = true
    · simp [hb, eq_comm]
    · simp [hb]
  | plus => simp [Operator.apply]
  | minus => simp [Operator.apply]
  | times => simp [Operator.apply]

/-- A number as a result: it has to be finite. -/
def requireFinite : Binary64 → Except Failure Binary64.Finite
  | .finite x => .ok x
  | _ => .error .notFinite

@[simp] theorem requireFinite_finite (x : Binary64.Finite) :
    requireFinite (.finite x) = .ok x := rfl

theorem requireFinite_eq_ok_iff {z : Binary64} {x : Binary64.Finite} :
    requireFinite z = .ok x ↔ z = .finite x := by
  cases z <;> simp [requireFinite]

theorem requireFinite_eq_error_iff {z : Binary64} {cause : Failure} :
    requireFinite z = .error cause ↔ z.isFinite = false ∧ cause = .notFinite := by
  cases z <;> simp [requireFinite, Binary64.isFinite, eq_comm]

/-! ### One token -/

namespace Stack

@[simp] theorem close_singleton (z : Binary64) : close [z] = requireFinite z := by
  cases z <;> rfl

/-- A stack that ends an evaluation holds one value, and that is finite. -/
theorem eq_singleton_of_close {stack : Stack} {x : Binary64.Finite} (h : stack.close = .ok x) :
    stack = [.finite x] := by
  unfold close at h
  split at h
  · obtain rfl := Except.ok.inj h
    rfl
  · exact absurd h (by simp)
  · exact absurd h (by simp)

/-- A stack without a finite value alone on it ends no evaluation. -/
theorem eq_of_close_eq_error {stack : Stack} {cause : Failure} (h : stack.close = .error cause) :
    cause = .notFinite ∨ cause = .incomplete := by
  unfold close at h
  split at h
  · exact absurd h (by simp)
  · exact .inl (Except.error.inj h).symm
  · exact .inr (Except.error.inj h).symm

/-- Why a token cannot be run. -/
theorem step_error_cases {stack : Stack} {t : Token} {cause : Failure}
    (h : step stack t = .error cause) :
    (∃ text, t = .number text ∧ readNumber text = .error cause) ∨
    cause = .missingPercentOperand ∨ (∃ op, cause = .missingOperands op) ∨
    cause = .divisionByZero ∨ (t.isParen = true ∧ cause = .unexpectedToken t) := by
  cases t with
  | number text =>
    rw [step] at h
    cases hread : readNumber text with
    | ok x => simp [hread] at h
    | error cause' => exact .inl ⟨text, rfl, by simpa [hread] using h⟩
  | percent =>
    cases stack with
    | nil => exact .inr (.inl (Except.error.inj h).symm)
    | cons a below => simp [step] at h
  | operator op unary =>
    match stack with
    | [] | [_] => exact .inr (.inr (.inl ⟨op, (Except.error.inj h).symm⟩))
    | b :: a :: below =>
      rw [step] at h
      cases happly : op.apply a b with
      | ok x => simp [happly] at h
      | error cause' =>
        obtain rfl : cause' = cause := by simpa [happly] using h
        exact .inr (.inr (.inr (.inl (Operator.apply_eq_error_iff.mp happly).2.2)))
  | leftParen | rightParen =>
    exact .inr (.inr (.inr (.inr ⟨rfl, (Except.error.inj h).symm⟩)))

theorem run_cons (stack : Stack) (t : Token) (ts : List Token) :
    run stack (t :: ts) = (step stack t).bind fun s => run s ts := rfl

@[simp] theorem run_singleton (stack : Stack) (t : Token) : run stack [t] = step stack t := by
  rw [run_cons]
  cases step stack t <;> rfl

theorem step_number_eq_ok_iff {stack stack' : Stack} {text : String} :
    step stack (.number text) = .ok stack' ↔
      ∃ x, readNumber text = .ok x ∧ x :: stack = stack' :=
  map_eq_ok_iff

theorem step_percent_eq_ok_iff {stack stack' : Stack} :
    step stack .percent = .ok stack' ↔
      ∃ a below, stack = a :: below ∧ a.div hundred :: below = stack' := by
  cases stack with
  | nil => simp [step]
  | cons a below =>
    constructor
    · intro h
      exact ⟨a, below, rfl, Except.ok.inj h⟩
    · rintro ⟨_, _, ⟨⟩, rfl⟩
      rfl

theorem step_operator_eq_ok_iff {stack stack' : Stack} {op : Operator} {unary : Bool} :
    step stack (.operator op unary) = .ok stack' ↔
      ∃ b a below x, stack = b :: a :: below ∧ op.apply a b = .ok x ∧ x :: below = stack' := by
  rcases stack with _ | ⟨b, _ | ⟨a, below⟩⟩
  · simp [step]
  · simp [step]
  · constructor
    · intro h
      obtain ⟨x, hx⟩ := map_eq_ok_iff.mp h
      exact ⟨b, a, below, x, rfl, hx⟩
    · rintro ⟨_, _, _, x, ⟨⟩, hx⟩
      exact map_eq_ok_iff.mpr ⟨x, hx⟩

/-- A token that can be run on a stack does the same with any values below. -/
theorem step_above {stack stack' : Stack} {t : Token} (below : Stack)
    (h : step stack t = .ok stack') : step (stack ++ below) t = .ok (stack' ++ below) := by
  cases t with
  | number text =>
    obtain ⟨x, hx, rfl⟩ := step_number_eq_ok_iff.mp h
    simp [step, hx]
  | percent =>
    obtain ⟨a, stack, rfl, rfl⟩ := step_percent_eq_ok_iff.mp h
    rfl
  | operator op unary =>
    obtain ⟨b, a, stack, x, rfl, hx, rfl⟩ := step_operator_eq_ok_iff.mp h
    simp [step, hx]
  | leftParen => simp [step] at h
  | rightParen => simp [step] at h

/-- A run that succeeds does the same with any values below. -/
theorem run_above {stack stack' : Stack} {ts : List Token} (below : Stack)
    (h : run stack ts = .ok stack') : run (stack ++ below) ts = .ok (stack' ++ below) := by
  induction ts generalizing stack with
  | nil =>
    obtain rfl : stack = stack' := by simpa using h
    rfl
  | cons t ts ih =>
    obtain ⟨s, hs, hrest⟩ := bind_eq_ok_iff.mp h
    rw [run_cons, step_above below hs]
    exact ih hrest

/-- A run fails at one of its tokens. -/
theorem exists_step_of_run {stack : Stack} {ts : List Token} {cause : Failure}
    (h : run stack ts = .error cause) : ∃ s, ∃ t ∈ ts, step s t = .error cause := by
  induction ts generalizing stack with
  | nil => exact absurd h (by simp)
  | cons t ts ih =>
    rw [run_cons] at h
    cases hstep : step stack t with
    | error cause' =>
      obtain rfl : cause' = cause := by simpa [hstep] using h
      exact ⟨stack, t, by simp, hstep⟩
    | ok s =>
      obtain ⟨s', t', ht', h'⟩ := ih (by simpa [hstep] using h)
      exact ⟨s', t', List.mem_cons_of_mem t ht', h'⟩

/-- Tokens with a value put it on top of any stack. -/
theorem run_of_evaluateOrdered {ts : List Token} {x : Binary64.Finite} (below : Stack)
    (h : evaluateOrdered ts = .ok x) : run below ts = .ok (.finite x :: below) := by
  obtain ⟨s, hrun, hclose⟩ := bind_eq_ok_iff.mp h
  obtain rfl := eq_singleton_of_close hclose
  exact run_above below hrun

end Stack

/-! ### Failures -/

/-- A failure of the last stage, other than for a token that has no meaning there. -/
def Failure.IsComputing (cause : Failure) : Prop :=
  cause.stage = .computing ∧ ∀ t, cause ≠ .unexpectedToken t

/-- A token that is no parenthesis has a meaning in the last stage. -/
theorem Stack.isComputing_of_step {stack : Stack} {t : Token} {cause : Failure}
    (ht : t.isParen = false) (h : step stack t = .error cause) : cause.IsComputing := by
  obtain ⟨text, rfl, hread⟩ | rfl | ⟨op, rfl⟩ | rfl | ⟨hparen, -⟩ := step_error_cases h
  · rw [eq_invalidNumber_of_readNumber hread]
    exact ⟨rfl, by simp⟩
  · exact ⟨rfl, by simp⟩
  · exact ⟨rfl, by simp⟩
  · exact ⟨rfl, by simp⟩
  · exact absurd hparen (by simp [ht])

theorem Stack.isComputing_of_run {stack : Stack} {ts : List Token} {cause : Failure}
    (hts : ∀ t ∈ ts, t.isParen = false) (h : run stack ts = .error cause) :
    cause.IsComputing := by
  obtain ⟨s, t, ht, hstep⟩ := exists_step_of_run h
  exact isComputing_of_step (hts t ht) hstep

theorem Stack.isComputing_of_close {stack : Stack} {cause : Failure}
    (h : stack.close = .error cause) : cause.IsComputing := by
  obtain rfl | rfl := eq_of_close_eq_error h <;> exact ⟨rfl, by simp⟩

theorem isComputing_of_evaluateOrdered {post : List Token} {cause : Failure}
    (hpost : ∀ t ∈ post, t.isParen = false) (h : evaluateOrdered post = .error cause) :
    cause.IsComputing := by
  rw [evaluateOrdered] at h
  cases hrun : Stack.run [] post with
  | error cause' =>
    obtain rfl : cause' = cause := by simpa [hrun] using h
    exact Stack.isComputing_of_run hpost hrun
  | ok stack => exact Stack.isComputing_of_close (by simpa [hrun] using h)

/-! ### Three stages -/

/-- An expression has a value if all three stages succeed. -/
theorem evaluate_eq_ok_iff {expression : String} {x : Binary64.Finite} :
    evaluate expression = .ok x ↔ ∃ ts post, tokenize expression = .ok ts ∧
      evaluationOrder ts = .ok post ∧ evaluateOrdered post = .ok x := by
  simp only [evaluate, bind_eq_ok_iff]
  constructor
  · rintro ⟨post, ⟨ts, hts, hpost⟩, hx⟩
    exact ⟨ts, post, hts, hpost, hx⟩
  · rintro ⟨ts, post, hts, hpost, hx⟩
    exact ⟨post, ⟨ts, hts, hpost⟩, hx⟩

end DeskCalculator.Expression

namespace DeskCalculator

open Numeric (Binary64)
open Expression (evaluate)

/-! ### Results -/

theorem calculate_eq_ok_iff {expression value : String} :
    calculate expression = .ok value ↔
      ∃ x y, evaluate expression = .ok x ∧ roundedResult x = .finite y ∧ resultText y = value := by
  simp only [calculate, bind_eq_ok_iff]
  constructor
  · rintro ⟨x, hx, hvalue⟩
    split at hvalue
    · rename_i y hy
      exact ⟨x, y, hx, hy, Except.ok.inj hvalue⟩
    · simp at hvalue
  · rintro ⟨x, y, hx, hy, rfl⟩
    exact ⟨x, hx, by rw [hy]⟩

/-- An outcome depends on the evaluation alone. -/
theorem Outcome.ofExpression_congr {a b : String} (h : evaluate a = evaluate b) :
    Outcome.ofExpression a = Outcome.ofExpression b := by
  rw [ofExpression, ofExpression, calculate, calculate, h]

end DeskCalculator
