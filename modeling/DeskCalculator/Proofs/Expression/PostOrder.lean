import Mathlib.Data.List.Induction
import DeskCalculator.Proofs.Expression.Meaning

/-!
# DeskCalculator.Proofs.Expression.PostOrder

Which lists of tokens the stack machine accepts: exactly the trees of operands written in
post-order.

* **Assembling.** The machine is run on operands in place of their values (`Operand.assemble`). This
  undoes post-order (`Operand.postOrder_eq_iff`), so a list is the post-order of at most one
  operand, and whatever the machine gets through can be assembled.
* **Values.** On the post-order of an operand the machine computes its value, or reports its first
  failing leaf or node (`evaluateOrdered_operand`, `Operand.value_eq_error_iff`).
* **Shortages.** On any other list the machine fails. If no number and no division does, it is the
  first token with too few operands that fails, and that is a matter of counting (`shortage?`).

Main statement: `evaluateOrdered_classified`.
-/

namespace DeskCalculator.Expression

open Numeric (Binary64)

/-! ### Assembling operands -/

namespace Operand

/-- What a token makes of the operands before it, the latest first; nothing if it has too few. -/
def push? (stack : List Operand) : Token → Option (List Operand)
  | .number text => some (number text :: stack)
  | .percent =>
    match stack with
    | a :: below => some (percent a :: below)
    | [] => none
  | .operator op unary =>
    match stack with
    | b :: a :: below => some (operation op unary a b :: below)
    | _ => none
  | .leftParen | .rightParen => none

/-- The operands that tokens in evaluation order make, starting with those of a stack. -/
def assemble (stack : List Operand) (ts : List Token) : Option (List Operand) :=
  ts.foldlM push? stack

theorem assemble_cons (stack : List Operand) (t : Token) (ts : List Token) :
    assemble stack (t :: ts) = (push? stack t).bind fun stack' => assemble stack' ts := rfl

theorem assemble_append (stack : List Operand) (ts us : List Token) :
    assemble stack (ts ++ us) = (assemble stack ts).bind fun stack' => assemble stack' us := by
  simp only [assemble, List.foldlM_append]
  rfl

/-- The post-order of an operand puts it on top of any others. -/
theorem assemble_postOrder (a : Operand) (stack : List Operand) :
    assemble stack a.postOrder = some (a :: stack) := by
  induction a generalizing stack with
  | number text => rfl
  | percent a ih =>
    rw [postOrder, assemble_append, ih]
    rfl
  | operation op unary a b iha ihb =>
    rw [postOrder, assemble_append, assemble_append, iha, Option.bind_some, ihb]
    rfl

/-- The tokens of operands on a stack, the latest last. -/
def stackTokens (stack : List Operand) : List Token := stack.reverse.flatMap postOrder

theorem stackTokens_of_push? {stack stack' : List Operand} {t : Token}
    (h : push? stack t = some stack') : stackTokens stack' = stackTokens stack ++ [t] := by
  cases t with
  | number text =>
    obtain rfl := Option.some.inj h
    simp [stackTokens, postOrder]
  | percent =>
    cases stack with
    | nil => simp [push?] at h
    | cons a below =>
      obtain rfl := Option.some.inj h
      simp [stackTokens, postOrder]
  | operator op unary =>
    rcases stack with _ | ⟨b, _ | ⟨a, below⟩⟩
    · simp [push?] at h
    · simp [push?] at h
    · obtain rfl := Option.some.inj h
      simp [stackTokens, postOrder]
  | leftParen => simp [push?] at h
  | rightParen => simp [push?] at h

/-- No token is lost when operands are assembled. -/
theorem stackTokens_of_assemble {stack stack' : List Operand} {ts : List Token}
    (h : assemble stack ts = some stack') : stackTokens stack' = stackTokens stack ++ ts := by
  induction ts generalizing stack with
  | nil =>
    obtain rfl : stack = stack' := Option.some.inj h
    simp
  | cons t ts ih =>
    obtain ⟨stack₁, hpush, hrest⟩ := Option.bind_eq_some_iff.mp h
    rw [ih hrest, stackTokens_of_push? hpush]
    simp

/-- Tokens are the post-order of an operand exactly if they are assembled to it. -/
theorem postOrder_eq_iff {a : Operand} {ts : List Token} :
    a.postOrder = ts ↔ assemble [] ts = some [a] := by
  constructor
  · rintro rfl
    exact a.assemble_postOrder []
  · intro h
    simpa [stackTokens] using stackTokens_of_assemble h

theorem postOrder_injective {a b : Operand} (h : a.postOrder = b.postOrder) : a = b := by
  have hb := postOrder_eq_iff.mp h
  simpa [assemble_postOrder] using hb.symm

end Operand

/-! ### Operands and values -/

namespace Stack

/-- Where the machine has enough values, there are enough operands. -/
theorem exists_push?_of_step {values values' : Stack} {stack : List Operand} {t : Token}
    (h : step values t = .ok values') (hlen : values.length = stack.length) :
    ∃ stack', Operand.push? stack t = some stack' ∧ values'.length = stack'.length := by
  cases t with
  | number text =>
    obtain ⟨x, -, rfl⟩ := step_number_eq_ok_iff.mp h
    exact ⟨_, rfl, by simpa using hlen⟩
  | percent =>
    obtain ⟨x, below, rfl, rfl⟩ := step_percent_eq_ok_iff.mp h
    obtain ⟨a, operands, rfl⟩ := List.exists_cons_of_length_eq_add_one hlen.symm
    exact ⟨_, rfl, by simpa using hlen⟩
  | operator op unary =>
    obtain ⟨y, x, below, z, rfl, -, rfl⟩ := step_operator_eq_ok_iff.mp h
    obtain ⟨b, rest, rfl⟩ := List.exists_cons_of_length_eq_add_one hlen.symm
    obtain ⟨a, operands, rfl⟩ := List.exists_cons_of_length_eq_add_one (Nat.succ.inj hlen).symm
    exact ⟨_, rfl, by simpa using hlen⟩
  | leftParen => simp [step] at h
  | rightParen => simp [step] at h

theorem exists_assemble_of_run {values values' : Stack} {stack : List Operand} {ts : List Token}
    (h : run values ts = .ok values') (hlen : values.length = stack.length) :
    ∃ stack', Operand.assemble stack ts = some stack' ∧ values'.length = stack'.length := by
  induction ts generalizing values stack with
  | nil =>
    obtain rfl : values = values' := by simpa using h
    exact ⟨stack, rfl, hlen⟩
  | cons t ts ih =>
    obtain ⟨values₁, hstep, hrest⟩ := bind_eq_ok_iff.mp h
    obtain ⟨stack₁, hpush, hlen₁⟩ := exists_push?_of_step hstep hlen
    obtain ⟨stack', hassemble, hlen'⟩ := ih hrest hlen₁
    exact ⟨stack', by rw [Operand.assemble_cons, hpush, Option.bind_some, hassemble], hlen'⟩

/-- Tokens that leave one value are the post-order of an operand. -/
theorem exists_postOrder_of_run {ts : List Token} {z : Binary64} (h : run [] ts = .ok [z]) :
    ∃ a : Operand, a.postOrder = ts := by
  have hstart : ([] : Stack).length = ([] : List Operand).length := rfl
  obtain ⟨stack, hassemble, hlen⟩ := exists_assemble_of_run h hstart
  obtain ⟨a, rfl⟩ := List.length_eq_one_iff.mp hlen.symm
  exact ⟨a, Operand.postOrder_eq_iff.mpr hassemble⟩

end Stack

/-! ### Counting operands -/

/-- Whether a token is a number. -/
def Token.isNumber : Token → Bool
  | .number _ => true
  | _ => false

/-- How many operands are left after tokens none of which has too few: every number is one, and
every operator makes one of two. -/
def operandsLeft (ts : List Token) : Int :=
  (ts.countP Token.isNumber : Int) - (ts.countP Token.isOperator : Int)

/-- What is wrong with a token that has too few operands before it. -/
def Token.shortage? (left : Int) : Token → Option Failure
  | .percent => if left < 1 then some .missingPercentOperand else none
  | .operator op _ => if left < 2 then some (.missingOperands op) else none
  | .number _ | .leftParen | .rightParen => none

/-- No token has too few operands. -/
def NoShortage (ts : List Token) : Prop :=
  ∀ before t, before ++ [t] <+: ts → t.shortage? (operandsLeft before) = none

/-- The first token that has too few operands is wrong for this cause. -/
def FirstShortage (ts : List Token) (cause : Failure) : Prop :=
  ∃ before t, before ++ [t] <+: ts ∧ NoShortage before ∧
    t.shortage? (operandsLeft before) = some cause

theorem noShortage_concat_iff {ts : List Token} {t : Token} :
    NoShortage (ts ++ [t]) ↔ NoShortage ts ∧ t.shortage? (operandsLeft ts) = none :=
  forall_mem_prefix_concat_iff

/-- Either no token has too few operands, or there is a first one that does. -/
theorem noShortage_or_firstShortage (ts : List Token) :
    NoShortage ts ∨ ∃ cause, FirstShortage ts cause := by
  induction ts using List.reverseRecOn with
  | nil => exact .inl fun before t h => absurd h (by simp)
  | append_singleton ts t ih =>
    rcases ih with hnone | ⟨cause, before, u, hbefore, hfirst⟩
    · cases ht : t.shortage? (operandsLeft ts) with
      | none => exact .inl (noShortage_concat_iff.mpr ⟨hnone, ht⟩)
      | some cause => exact .inr ⟨cause, ts, t, List.prefix_refl _, hnone, ht⟩
    · exact .inr ⟨cause, before, u, hbefore.trans (List.prefix_append ts [t]), hfirst⟩

theorem Token.kind_of_shortage? {left : Int} {t : Token} {cause : Failure}
    (h : t.shortage? left = some cause) :
    cause.kind = .percentError ∨ cause.kind = .operatorError := by
  cases t with
  | percent =>
    simp only [shortage?, Option.ite_none_right_eq_some, Option.some.injEq] at h
    exact .inl (h.2 ▸ rfl)
  | operator op unary =>
    simp only [shortage?, Option.ite_none_right_eq_some, Option.some.injEq] at h
    exact .inr (h.2 ▸ rfl)
  | _ => simp [shortage?] at h

/-- Every number of the list can be read, and no divisor that the machine comes to is zero. -/
structure ValuesUsable (ts : List Token) : Prop where
  readable : ∀ text, .number text ∈ ts → ∃ x, readNumber text = .ok x
  nonzero : ∀ before unary after b a below,
    ts = before ++ .operator .divide unary :: after →
      Stack.run [] before = .ok (b :: a :: below) → b.isZero = false

namespace Stack

variable {stack stack' : Stack} {t : Token}

/-- Counting agrees with the machine after one more token. -/
theorem length_of_step {before : List Token} (h : step stack t = .ok stack')
    (hlen : (stack.length : Int) = operandsLeft before) :
    (stack'.length : Int) = operandsLeft (before ++ [t]) := by
  simp only [operandsLeft, List.countP_append, List.countP_singleton] at hlen ⊢
  cases t with
  | number text =>
    obtain ⟨x, -, rfl⟩ := step_number_eq_ok_iff.mp h
    simp [Token.isNumber, Token.isOperator]
    omega
  | percent =>
    obtain ⟨a, below, rfl, rfl⟩ := step_percent_eq_ok_iff.mp h
    simpa [Token.isNumber, Token.isOperator] using hlen
  | operator op unary =>
    obtain ⟨b, a, below, x, rfl, -, rfl⟩ := step_operator_eq_ok_iff.mp h
    simp [Token.isNumber, Token.isOperator] at hlen ⊢
    omega
  | leftParen => simp [step] at h
  | rightParen => simp [step] at h

/-- A token with too few operands fails for that. -/
theorem step_of_shortage {cause : Failure} (h : t.shortage? stack.length = some cause) :
    step stack t = .error cause := by
  cases t with
  | percent =>
    cases stack with
    | nil => exact congrArg Except.error (Option.some.inj h)
    | cons a below =>
      have hnone : ¬ ((a :: below).length : Int) < 1 := by
        simp only [List.length_cons]
        omega
      rw [Token.shortage?, if_neg hnone] at h
      exact absurd h (by simp)
  | operator op unary =>
    rcases stack with _ | ⟨b, _ | ⟨a, below⟩⟩
    · exact congrArg Except.error (Option.some.inj h)
    · exact congrArg Except.error (Option.some.inj h)
    · have hnone : ¬ ((b :: a :: below).length : Int) < 2 := by
        simp only [List.length_cons]
        omega
      rw [Token.shortage?, if_neg hnone] at h
      exact absurd h (by simp)
  | _ => simp [Token.shortage?] at h

/-- A token with enough operands succeeds if it does not fail for their values. -/
theorem exists_step (ht : t.isParen = false) (h : t.shortage? stack.length = none)
    (hread : ∀ text, t = .number text → ∃ x, readNumber text = .ok x)
    (hdivide : ∀ unary b a below, t = .operator .divide unary → stack = b :: a :: below →
      b.isZero = false) : ∃ stack', step stack t = .ok stack' := by
  cases t with
  | number text =>
    obtain ⟨x, hx⟩ := hread text rfl
    exact ⟨x :: stack, step_number_eq_ok_iff.mpr ⟨x, hx, rfl⟩⟩
  | percent =>
    cases stack with
    | nil => simp [Token.shortage?] at h
    | cons a below => exact ⟨_, rfl⟩
  | operator op unary =>
    rcases stack with _ | ⟨b, _ | ⟨a, below⟩⟩
    · simp [Token.shortage?] at h
    · simp [Token.shortage?] at h
    · cases happly : op.apply a b with
      | ok x => exact ⟨x :: below, step_operator_eq_ok_iff.mpr ⟨b, a, below, x, rfl, happly, rfl⟩⟩
      | error cause =>
        obtain ⟨rfl, hzero, -⟩ := Operator.apply_eq_error_iff.mp happly
        rw [hdivide unary b a below rfl rfl] at hzero
        exact absurd hzero (by simp)
  | leftParen | rightParen => simp [Token.isParen] at ht

/-- As long as no token has too few operands, the machine goes on, and counting agrees with it. -/
theorem exists_run_of_noShortage {ts before : List Token} (hts : ∀ t ∈ ts, t.isParen = false)
    (hvalues : ValuesUsable ts) (hbefore : before <+: ts) (h : NoShortage before) :
    ∃ stack, run [] before = .ok stack ∧ (stack.length : Int) = operandsLeft before := by
  induction before using List.reverseRecOn with
  | nil => exact ⟨[], rfl, rfl⟩
  | append_singleton before t ih =>
    obtain ⟨hnone, ht⟩ := noShortage_concat_iff.mp h
    obtain ⟨stack, hrun, hlen⟩ := ih ((List.prefix_append before [t]).trans hbefore) hnone
    obtain ⟨after, rfl⟩ := hbefore
    have henough : t.shortage? stack.length = none := by rw [hlen, ht]
    obtain ⟨stack', hstep⟩ := exists_step (hts t (by simp)) henough
      (fun text htext => hvalues.readable text (by simp [htext]))
      (fun unary b a below hdivide hstack => hvalues.nonzero before unary after b a below
        (by simp [hdivide]) (hstack ▸ hrun))
    refine ⟨stack', ?_, length_of_step hstep hlen⟩
    rw [run_append, hrun, bind_ok, run_singleton, hstep]

end Stack

/-! ### Any list of tokens -/

variable {ts : List Token}

theorem exists_postOrder_of_evaluateOrdered {x : Binary64.Finite} (h : evaluateOrdered ts = .ok x) :
    ∃ a : Operand, a.postOrder = ts := by
  obtain ⟨stack, hrun, hclose⟩ := bind_eq_ok_iff.mp h
  obtain rfl := Stack.eq_singleton_of_close hclose
  exact Stack.exists_postOrder_of_run hrun

theorem evaluateOrdered_of_firstShortage {cause : Failure} (hts : ∀ t ∈ ts, t.isParen = false)
    (hvalues : ValuesUsable ts) (h : FirstShortage ts cause) :
    evaluateOrdered ts = .error cause := by
  obtain ⟨before, t, ⟨after, rfl⟩, hnone, ht⟩ := h
  obtain ⟨stack, hrun, hlen⟩ := Stack.exists_run_of_noShortage hts hvalues
    (by rw [List.append_assoc]; exact List.prefix_append _ _) hnone
  have hstep : Stack.step stack t = .error cause := Stack.step_of_shortage (hlen ▸ ht)
  rw [evaluateOrdered, Stack.run_append, Stack.run_append, hrun, bind_ok, Stack.run_singleton, hstep]
  rfl

theorem evaluateOrdered_of_noShortage (hts : ∀ t ∈ ts, t.isParen = false)
    (hvalues : ValuesUsable ts) (h : NoShortage ts) (hnot : ∀ a : Operand, a.postOrder ≠ ts) :
    evaluateOrdered ts = .error .incomplete := by
  obtain ⟨stack, hrun, -⟩ := Stack.exists_run_of_noShortage hts hvalues (List.prefix_refl ts) h
  rw [evaluateOrdered, hrun, bind_ok]
  rcases stack with _ | ⟨z, _ | ⟨y, below⟩⟩
  · rfl
  · obtain ⟨a, ha⟩ := Stack.exists_postOrder_of_run hrun
    exact absurd ha (hnot a)
  · cases z <;> rfl

/-- **The stack machine accepts exactly post-orders.** Of any tokens without parentheses:

* If they are the post-order of an operand they are that of no other, and the outcome is its value
  if that is finite. If it has no value, its first failing leaf or node in post-order is reported.
* If they are not, the machine fails. When no number and no divisor is at fault, it fails at the
  first token with too few operands, and if there is none, because not one operand is left. -/
theorem evaluateOrdered_classified (ts : List Token) (hts : ∀ t ∈ ts, t.isParen = false) :
    (∀ a : Operand, a.postOrder = ts →
      (∀ b : Operand, b.postOrder = ts → b = a) ∧
        evaluateOrdered ts = a.value.bind requireFinite ∧
        (∀ cause, a.value = .error cause ↔ a.failures.head? = some cause) ∧
        ∀ cause ∈ a.failures, cause.kind = .invalidNumber ∨ cause.kind = .divisionByZero) ∧
      ((∀ a : Operand, a.postOrder ≠ ts) →
        (∃ cause, evaluateOrdered ts = .error cause ∧ cause.IsComputing) ∧
          (ValuesUsable ts →
            (∃ cause, FirstShortage ts cause ∧ evaluateOrdered ts = .error cause ∧
                (cause.kind = .percentError ∨ cause.kind = .operatorError)) ∨
              (NoShortage ts ∧ evaluateOrdered ts = .error .incomplete))) := by
  refine ⟨?_, fun hnot => ⟨?_, fun hvalues => ?_⟩⟩
  · rintro a rfl
    exact ⟨fun b => Operand.postOrder_injective, evaluateOrdered_operand a,
      fun cause => a.value_eq_error_iff, fun cause => Operand.treeFailure_of_mem_failures⟩
  · cases h : evaluateOrdered ts with
    | ok x =>
      obtain ⟨a, ha⟩ := exists_postOrder_of_evaluateOrdered h
      exact absurd ha (hnot a)
    | error cause => exact ⟨cause, rfl, isComputing_of_evaluateOrdered hts h⟩
  · rcases noShortage_or_firstShortage ts with hnone | ⟨cause, hfirst⟩
    · exact .inr ⟨hnone, evaluateOrdered_of_noShortage hts hvalues hnone hnot⟩
    · have hkind := hfirst
      obtain ⟨before, t, -, -, ht⟩ := hkind
      exact .inl ⟨cause, hfirst, evaluateOrdered_of_firstShortage hts hvalues hfirst,
        Token.kind_of_shortage? ht⟩

/-- One divided by four percent. -/
def quotientByPercent : Operand := .operation .divide false (.number "1") (.percent (.number "4"))

/-- One divided by four percent, and a product whose operator stands between its operands. -/
theorem evaluateOrdered_classified_of_quotient :
    (∀ b : Operand, b.postOrder = quotientByPercent.postOrder → b = quotientByPercent) ∧
      evaluateOrdered [.number "1", .number "4", .percent, .operator .divide false] =
        .ok ⟨false, 4627730092099895296, by decide⟩ ∧
      FirstShortage [.number "6", .operator .times false, .number "2"] (.missingOperands .times) ∧
      evaluateOrdered [.number "6", .operator .times false, .number "2"] =
        .error (.missingOperands .times) := by
  have hquotient := (evaluateOrdered_classified quotientByPercent.postOrder (by decide)).1 _ rfl
  have hvalue : quotientByPercent.value.bind requireFinite =
      .ok ⟨false, 4627730092099895296, by decide⟩ := by decide +kernel
  have hmisplaced := (evaluateOrdered_classified
    [.number "6", .operator .times false, .number "2"] (by decide)).2
  have hnot : ∀ a : Operand,
      a.postOrder ≠ [.number "6", .operator .times false, .number "2"] := by
    intro a ha
    exact absurd (Operand.postOrder_eq_iff.mp ha) (by simp [Operand.assemble, Operand.push?])
  have hvalues : ValuesUsable [.number "6", .operator .times false, .number "2"] := by
    constructor
    · intro text htext
      obtain rfl | rfl : text = "6" ∨ text = "2" := by simpa using htext
      · exact ⟨.finite ⟨false, 4618441417868443648, by decide⟩, by decide +kernel⟩
      · exact ⟨.finite ⟨false, 4611686018427387904, by decide⟩, by decide +kernel⟩
    · intro before unary after b a below hts
      have hmem : Token.operator .divide unary ∈
          ([.number "6", .operator .times false, .number "2"] : List Token) := by simp [hts]
      simp at hmem
  have hrun : evaluateOrdered [.number "6", .operator .times false, .number "2"] =
      .error (.missingOperands .times) := by decide +kernel
  refine ⟨hquotient.1, hquotient.2.1.trans hvalue, ?_, hrun⟩
  rcases (hmisplaced hnot).2 hvalues with ⟨cause, hfirst, hcause, -⟩ | ⟨-, hcause⟩
  · obtain rfl := Except.error.inj (hcause.symm.trans hrun)
    exact hfirst
  · exact absurd (hcause.symm.trans hrun) (by simp)

end DeskCalculator.Expression
