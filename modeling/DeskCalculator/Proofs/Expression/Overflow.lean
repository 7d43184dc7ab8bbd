import DeskCalculator.Proofs.Expression.Computing
import DeskCalculator.Proofs.Numeric.ExactSteps

/-!
# DeskCalculator.Proofs.Expression.Overflow

An overflow can hide only in a divisor. Of an evaluation only the last value is checked to be
finite; the values before may be infinite or no number.

* **Values.** An operation with an operand that is no number has a result that is no number. One
  with an infinite operand has a finite result only if it divides a finite value by it, and that
  result is zero (`Operator.finite_of_apply`).
* **One token** leaves a value on the stack alone, or uses it up for another one
  (`Stack.step_cases`).
* **A run.** `Absorbed` follows an infinite value from the token that has pushed it to the division
  in which it is lost, one token at a time. By induction on the tokens that are left, every value on
  the stack of a run that ends well is a number and, if infinite, is absorbed (`accounted_of_run`).

Main statement: `evaluateOrdered_absorbs`, for every list of tokens.
-/

namespace DeskCalculator.Expression

open Numeric (Binary64)

/-! ### Values that are not finite -/

theorem Operator.apply_nan_right (op : Operator) (a : Binary64) : op.apply a .nan = .ok .nan := by
  cases op <;> cases a <;> rfl

theorem Operator.eq_nan_of_apply_nan_left {op : Operator} {b z : Binary64}
    (h : op.apply .nan b = .ok z) : z = .nan := by
  cases op with
  | divide =>
    rw [apply] at h
    split at h
    · exact absurd h (by simp)
    · exact (Except.ok.inj h).symm
  | plus | minus | times => exact (Except.ok.inj h).symm

/-- A finite sum has finite terms. -/
theorem isFinite_of_add {a b : Binary64} {x : Binary64.Finite} (h : a.add b = .finite x) :
    a.isFinite = true ∧ b.isFinite = true := by
  cases a with
  | finite a =>
    cases b with
    | finite b => exact ⟨rfl, rfl⟩
    | infinite s | nan => cases h
  | infinite s =>
    cases b with
    | finite b | nan => cases h
    | infinite t =>
      rw [Binary64.add] at h
      split at h <;> cases h
  | nan => cases b <;> cases h

/-- A finite difference has finite terms: only the sign of the second one is changed. -/
theorem isFinite_of_sub {a b : Binary64} {x : Binary64.Finite} (h : a.sub b = .finite x) :
    a.isFinite = true ∧ b.isFinite = true := by
  obtain ⟨ha, hb⟩ := isFinite_of_add h
  cases b with
  | finite b => exact ⟨ha, rfl⟩
  | infinite s | nan => cases hb

/-- A finite product has finite factors. -/
theorem isFinite_of_mul {a b : Binary64} {x : Binary64.Finite} (h : a.mul b = .finite x) :
    a.isFinite = true ∧ b.isFinite = true := by
  cases a with
  | finite a =>
    cases b with
    | finite b => exact ⟨rfl, rfl⟩
    | infinite s =>
      rw [Binary64.mul] at h
      split at h <;> cases h
    | nan => cases h
  | infinite s =>
    cases b with
    | finite b =>
      rw [Binary64.mul] at h
      split at h <;> cases h
    | infinite t | nan => cases h
  | nan => cases b <;> cases h

/-- A finite quotient has a finite dividend, and is zero if the divisor is not finite. -/
theorem isFinite_of_div {a b : Binary64} {x : Binary64.Finite} (h : a.div b = .finite x) :
    a.isFinite = true ∧ (b.isFinite = true ∨ x.isZero = true) := by
  cases a with
  | finite a =>
    cases b with
    | finite b => exact ⟨rfl, .inl rfl⟩
    | infinite s =>
      obtain rfl := Binary64.finite.inj h
      exact ⟨rfl, .inr rfl⟩
    | nan => cases h
  | infinite s => cases b <;> cases h
  | nan => cases b <;> cases h

/-- An operation has a finite result only if its operands are finite, or if it divides a finite
value by one that is not. Then the result is zero. -/
theorem Operator.finite_of_apply {op : Operator} {a b : Binary64} {x : Binary64.Finite}
    (h : op.apply a b = .ok (.finite x)) :
    a.isFinite = true ∧ (b.isFinite = true ∨ op = .divide ∧ x.isZero = true) := by
  cases op with
  | plus => exact (isFinite_of_add (Except.ok.inj h)).imp_right .inl
  | minus => exact (isFinite_of_sub (Except.ok.inj h)).imp_right .inl
  | times => exact (isFinite_of_mul (Except.ok.inj h)).imp_right .inl
  | divide =>
    rw [apply] at h
    split at h
    · cases h
    · obtain ⟨ha, hb⟩ := isFinite_of_div (Except.ok.inj h)
      exact ⟨ha, hb.imp_right fun hx => ⟨rfl, hx⟩⟩

/-- A percent sign does not make an infinite value finite. -/
theorem infinite_div_hundred (negative : Bool) :
    (Binary64.infinite negative).div hundred = .infinite negative := by
  obtain ⟨h, hhundred, -, hneg, -⟩ := Binary64.exists_hundred
  rw [hhundred, Binary64.div, hneg, Bool.bne_false]

theorem nan_div (b : Binary64) : Binary64.nan.div b = .nan := by
  cases b <;> rfl

/-! ### One token and one value -/

namespace Stack

/-- Every token that can be run leaves a value of its own on top. -/
theorem exists_eq_cons_of_step {stack stack' : Stack} {t : Token} (h : step stack t = .ok stack') :
    ∃ z below, stack' = z :: below := by
  cases t with
  | number text =>
    obtain ⟨x, -, rfl⟩ := step_number_eq_ok_iff.mp h
    exact ⟨_, _, rfl⟩
  | percent =>
    obtain ⟨a, below, -, rfl⟩ := step_percent_eq_ok_iff.mp h
    exact ⟨_, _, rfl⟩
  | operator op unary =>
    obtain ⟨b, a, below, x, -, -, rfl⟩ := step_operator_eq_ok_iff.mp h
    exact ⟨_, _, rfl⟩
  | leftParen | rightParen => exact absurd h (by simp [step])

/-- What a token can do to a value on the stack: it uses only values above, or it is a percent sign
after the value, or an operator with the value as its right or its left operand. -/
theorem step_cases {above below stack : Stack} {z : Binary64} {t : Token}
    (h : step (above ++ z :: below) t = .ok stack) :
    (∃ above', step above t = .ok above' ∧ stack = above' ++ z :: below) ∨
    (above = [] ∧ t = .percent ∧ stack = z.div hundred :: below) ∨
    (∃ op unary a below' y, above = [] ∧ below = a :: below' ∧ t = .operator op unary ∧
      op.apply a z = .ok y ∧ stack = y :: below') ∨
    ∃ op unary b y, above = [b] ∧ t = .operator op unary ∧ op.apply z b = .ok y ∧
      stack = y :: below := by
  cases t with
  | number text =>
    obtain ⟨x, hx, rfl⟩ := step_number_eq_ok_iff.mp h
    exact .inl ⟨x :: above, step_number_eq_ok_iff.mpr ⟨x, hx, rfl⟩, rfl⟩
  | percent =>
    obtain ⟨a, rest, heq, rfl⟩ := step_percent_eq_ok_iff.mp h
    cases above with
    | nil =>
      obtain ⟨rfl, rfl⟩ := List.cons.inj heq
      exact .inr (.inl ⟨rfl, rfl, rfl⟩)
    | cons b above =>
      obtain ⟨rfl, rfl⟩ := List.cons.inj heq
      exact .inl ⟨_, rfl, rfl⟩
  | operator op unary =>
    obtain ⟨b, a, rest, x, heq, hx, rfl⟩ := step_operator_eq_ok_iff.mp h
    rcases above with _ | ⟨c, _ | ⟨d, above⟩⟩
    · obtain ⟨rfl, rfl⟩ := List.cons.inj heq
      exact .inr (.inr (.inl ⟨op, unary, a, rest, x, rfl, rfl, rfl, hx, rfl⟩))
    · obtain ⟨rfl, htail⟩ := List.cons.inj heq
      obtain ⟨rfl, rfl⟩ := List.cons.inj htail
      exact .inr (.inr (.inr ⟨op, unary, c, x, rfl, rfl, hx, rfl⟩))
    · obtain ⟨rfl, htail⟩ := List.cons.inj heq
      obtain ⟨rfl, rfl⟩ := List.cons.inj htail
      exact .inl ⟨x :: above, step_operator_eq_ok_iff.mpr ⟨_, _, _, x, rfl, hx, rfl⟩, rfl⟩
  | leftParen | rightParen => exact absurd h (by simp [step])

end Stack

/-! ### Infinite values in a run -/

/-- An infinite value with this sign, under some values and on others, is absorbed while the tokens
are run: it comes to be the divisor of a finite value with zero as the quotient, itself or as the
infinite result of a step that it is an operand of. -/
inductive Absorbed : Stack → Bool → Stack → List Token → Prop
  /-- A token that uses the values above alone. -/
  | wait {above above' below : Stack} {negative : Bool} {t : Token} {ts : List Token}
      (h : Stack.step above t = .ok above') (rest : Absorbed above' negative below ts) :
      Absorbed above negative below (t :: ts)
  /-- A finite value is divided by it, and the quotient is zero. -/
  | divisor {a q : Binary64.Finite} {below : Stack} {negative unary : Bool} {ts : List Token}
      (h : Operator.divide.apply (.finite a) (.infinite negative) = .ok (.finite q))
      (hq : q.isZero = true) :
      Absorbed [] negative (.finite a :: below) (.operator .divide unary :: ts)
  /-- A percent sign after it has an infinite result. -/
  | percent {below : Stack} {negative negative' : Bool} {ts : List Token}
      (h : (Binary64.infinite negative).div hundred = .infinite negative')
      (rest : Absorbed [] negative' below ts) : Absorbed [] negative below (.percent :: ts)
  /-- An operator with it as the right operand has an infinite result. -/
  | right {op : Operator} {a : Binary64} {below : Stack} {negative negative' unary : Bool}
      {ts : List Token} (h : op.apply a (.infinite negative) = .ok (.infinite negative'))
      (rest : Absorbed [] negative' below ts) :
      Absorbed [] negative (a :: below) (.operator op unary :: ts)
  /-- An operator with it as the left operand has an infinite result. -/
  | left {op : Operator} {b : Binary64} {below : Stack} {negative negative' unary : Bool}
      {ts : List Token} (h : op.apply (.infinite negative) b = .ok (.infinite negative'))
      (rest : Absorbed [] negative' below ts) :
      Absorbed [b] negative below (.operator op unary :: ts)

/-- Nothing is absorbed without a division. -/
theorem Absorbed.exists_divide_mem {above below : Stack} {negative : Bool} {ts : List Token}
    (h : Absorbed above negative below ts) : ∃ unary, .operator .divide unary ∈ ts := by
  induction h with
  | divisor => exact ⟨_, List.mem_cons_self⟩
  | wait _ _ ih | percent _ _ ih | right _ _ ih | left _ _ ih =>
    obtain ⟨unary, hmem⟩ := ih
    exact ⟨unary, List.mem_cons_of_mem _ hmem⟩

/-- A value on the stack is a number, and absorbed if it is infinite. -/
structure Accounted (above : Stack) (z : Binary64) (below : Stack) (ts : List Token) : Prop where
  ne_nan : z ≠ .nan
  absorbed : ∀ negative, z = .infinite negative → Absorbed above negative below ts

/-- A finite value is accounted for whatever follows. -/
theorem Accounted.finite (above below : Stack) (x : Binary64.Finite) (ts : List Token) :
    Accounted above (.finite x) below ts := ⟨by simp, by simp⟩

/-- A value is accounted for before a token if the values that the token leaves or makes are
accounted for after it. -/
theorem Accounted.of_step {above below stack : Stack} {z : Binary64} {t : Token} {ts : List Token}
    (h : Stack.step (above ++ z :: below) t = .ok stack)
    (hstack : ∀ above' y below', stack = above' ++ y :: below' → Accounted above' y below' ts) :
    Accounted above z below (t :: ts) := by
  rcases Stack.step_cases h with ⟨above', hstep, rfl⟩ | ⟨rfl, rfl, rfl⟩ |
      ⟨op, unary, a, below', y, rfl, rfl, rfl, hy, rfl⟩ | ⟨op, unary, b, y, rfl, rfl, hy, rfl⟩
  · -- the value stays where it is
    have hz := hstack above' z below rfl
    exact ⟨hz.ne_nan, fun s hs => .wait hstep (hz.absorbed s hs)⟩
  · -- a percent sign
    have hy := hstack [] _ below rfl
    cases z with
    | finite x => exact .finite _ _ x _
    | infinite s =>
      have hinfinite := infinite_div_hundred s
      refine ⟨by simp, ?_⟩
      rintro _ ⟨⟩
      exact .percent hinfinite (hy.absorbed s hinfinite)
    | nan => exact absurd (nan_div hundred) hy.ne_nan
  · -- the right operand
    have hresult := hstack [] y below' rfl
    cases z with
    | finite x => exact .finite _ _ x _
    | infinite s =>
      refine ⟨by simp, ?_⟩
      rintro _ ⟨⟩
      cases y with
      | finite q =>
        obtain ⟨ha, hinfinite | ⟨rfl, hq⟩⟩ := op.finite_of_apply hy
        · cases hinfinite
        · cases a with
          | finite a => exact .divisor hy hq
          | infinite s | nan => cases ha
      | infinite s' => exact .right hy (hresult.absorbed s' rfl)
      | nan => exact absurd rfl hresult.ne_nan
    | nan =>
      rw [op.apply_nan_right] at hy
      exact absurd (Except.ok.inj hy).symm hresult.ne_nan
  · -- the left operand
    have hresult := hstack [] y below rfl
    cases z with
    | finite x => exact .finite _ _ x _
    | infinite s =>
      refine ⟨by simp, ?_⟩
      rintro _ ⟨⟩
      cases y with
      | finite q => cases (op.finite_of_apply hy).1
      | infinite s' => exact .left hy (hresult.absorbed s' rfl)
      | nan => exact absurd rfl hresult.ne_nan
    | nan => exact absurd (op.eq_nan_of_apply_nan_left hy) hresult.ne_nan

/-- Every value on the stack of a run that ends in a finite value is accounted for. -/
theorem accounted_of_run {ts : List Token} {stack : Stack} {v : Binary64.Finite}
    (h : Stack.run stack ts = .ok [.finite v]) {above below : Stack} {z : Binary64}
    (hstack : stack = above ++ z :: below) : Accounted above z below ts := by
  induction ts generalizing stack above z below with
  | nil =>
    obtain rfl : stack = [.finite v] := by simpa using h
    obtain ⟨-, rfl, -⟩ : above = [] ∧ z = .finite v ∧ below = [] := by
      simpa [eq_comm, and_assoc] using List.singleton_eq_append_iff.mp hstack
    exact .finite _ _ v _
  | cons t ts ih =>
    rw [Stack.run_cons] at h
    obtain ⟨stack', hstep, hrun⟩ := bind_eq_ok_iff.mp h
    exact .of_step (hstack ▸ hstep) fun above' y below' heq => ih hrun heq

/-! ### Evaluations -/

/-- What a beginning of the tokens has pushed last is accounted for by the other tokens. -/
theorem accounted_of_evaluateOrdered {before after : List Token} {v : Binary64.Finite}
    (h : evaluateOrdered (before ++ after) = .ok v) {z : Binary64} {below : Stack}
    (hz : Stack.run [] before = .ok (z :: below)) : Accounted [] z below after := by
  have hrun := Stack.run_of_evaluateOrdered [] h
  rw [Stack.run_append, hz, bind_ok] at hrun
  exact accounted_of_run hrun rfl

/-- **An overflow can hide only in a divisor.** If tokens have a value, that is finite and the only
one left; every token has pushed a number, and where that is infinite, it is absorbed as a divisor
while the tokens after it are run. So without a division tokens have no value if any number on the
way is not finite. -/
theorem evaluateOrdered_absorbs (ts : List Token) :
    (∀ v, evaluateOrdered ts = .ok v →
      Stack.run [] ts = .ok [.finite v] ∧
        ∀ before t after, ts = before ++ t :: after →
          ∃ z below, Stack.run [] (before ++ [t]) = .ok (z :: below) ∧ z ≠ .nan ∧
            ∀ negative, z = .infinite negative → Absorbed [] negative below after) ∧
    ((∀ unary, .operator .divide unary ∉ ts) →
      ∀ before z below, before <+: ts → Stack.run [] before = .ok (z :: below) →
        z.isFinite = false → ∃ cause, evaluateOrdered ts = .error cause) := by
  constructor
  · intro v hv
    have hrun := Stack.run_of_evaluateOrdered [] hv
    refine ⟨hrun, ?_⟩
    rintro before t after rfl
    have hsplit : before ++ t :: after = (before ++ [t]) ++ after := by simp
    rw [hsplit] at hv hrun
    rw [Stack.run_append] at hrun
    obtain ⟨stack, hbefore, -⟩ := bind_eq_ok_iff.mp hrun
    have hstep := hbefore
    rw [Stack.run_append] at hstep
    obtain ⟨s, -, hstep⟩ := bind_eq_ok_iff.mp hstep
    rw [Stack.run_singleton] at hstep
    obtain ⟨z, below, rfl⟩ := Stack.exists_eq_cons_of_step hstep
    obtain ⟨hnumber, habsorbed⟩ := accounted_of_evaluateOrdered hv hbefore
    exact ⟨z, below, hbefore, hnumber, habsorbed⟩
  · rintro hnone before z below ⟨after, rfl⟩ hz hinfinite
    cases hv : evaluateOrdered (before ++ after) with
    | error cause => exact ⟨cause, rfl⟩
    | ok v =>
      obtain ⟨hnumber, habsorbed⟩ := accounted_of_evaluateOrdered hv hz
      cases z with
      | finite x => cases hinfinite
      | infinite s =>
        obtain ⟨unary, hmem⟩ := (habsorbed s rfl).exists_divide_mem
        exact absurd (List.mem_append_right before hmem) (hnone unary)
      | nan => exact absurd rfl hnumber

/-- One divided by a product that is too large. -/
def hiddenOverflow : List Token :=
  [.number "1", .number "1e308", .number "10", .operator .times false, .operator .divide false]

/-- The product is infinite and lost as a divisor. Under a percent sign it makes the evaluation
fail. -/
theorem evaluateOrdered_absorbs_of_hiddenOverflow :
    evaluateOrdered hiddenOverflow = .ok .positiveZero ∧
      (∃ below, Stack.run [] (hiddenOverflow.take 4) = .ok (.infinite false :: below) ∧
        Absorbed [] false below [.operator .divide false]) ∧
      ∃ cause, evaluateOrdered [.number "1e308", .number "10", .operator .times false, .percent] =
        .error cause := by
  have hvalue : evaluateOrdered hiddenOverflow = .ok .positiveZero := by decide +kernel
  have htop : (Stack.run [] (hiddenOverflow.take 4)).map List.head? =
      .ok (some (.infinite false)) := by decide +kernel
  have hproduct : Stack.run [] [.number "1e308", .number "10", .operator .times false] =
      .ok [.infinite false] := by decide +kernel
  refine ⟨hvalue, ?_, ?_⟩
  · obtain ⟨z, below, hrun, -, habsorbed⟩ := ((evaluateOrdered_absorbs hiddenOverflow).1 _ hvalue).2
      [.number "1", .number "1e308", .number "10"] (.operator .times false)
      [.operator .divide false] rfl
    have hfour : hiddenOverflow.take 4 =
        [.number "1", .number "1e308", .number "10"] ++ [.operator .times false] := rfl
    rw [← hfour] at hrun
    rw [hrun] at htop
    obtain rfl : z = .infinite false := by simpa using htop
    exact ⟨below, hrun, habsorbed false rfl⟩
  · exact (evaluateOrdered_absorbs
      [.number "1e308", .number "10", .operator .times false, .percent]).2 (by simp)
      [.number "1e308", .number "10", .operator .times false] (.infinite false) []
      ⟨[.percent], rfl⟩ hproduct rfl

end DeskCalculator.Expression
