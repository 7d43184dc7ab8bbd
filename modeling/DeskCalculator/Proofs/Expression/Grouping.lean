import DeskCalculator.Proofs.Expression.Composition
import DeskCalculator.Proofs.Expression.Conservation

/-!
# DeskCalculator.Proofs.Expression.Grouping

Tokens in parentheses are ordered like a single number, wherever they stand. Two runs are compared,
one with the group and one with the number. After it their stacks are the same and their outputs
differ; the yard never reads its output (`Yard.run_precededBy`), so from there on both do the same.

* **Surroundings.** The tokens before and after an operand fix what is written before and after it
  (`surroundings`), for all operands alike (`evaluationOrder_operand`).

Main statement: `evaluationOrder_group`, for any tokens before, after and inside the parentheses
as long as those inside can be ordered by themselves.
-/

namespace DeskCalculator.Expression

/-! ### The output is never read -/

namespace Yard

/-- A yard with further tokens written before its own. -/
def precededBy (out : Array Token) (s : Yard) : Yard := ⟨out ++ s.output, s.stack⟩

theorem step_precededBy (out : Array Token) (s : Yard) (t : Token) :
    (s.precededBy out).step t = (s.step t).map (precededBy out) := by
  cases t with
  | number text | percent =>
    rw [step, step, map_ok]
    exact congrArg Except.ok (eq_of_toList (by simp [precededBy]) rfl)
  | operator op unary =>
    rw [step, step, map_ok]
    exact congrArg Except.ok (eq_of_toList (by simp [precededBy]) rfl)
  | leftParen => rfl
  | rightParen =>
    simp only [step, precededBy]
    cases s.stack.dropWhile (· != .leftParen) with
    | nil => rfl
    | cons t outer => exact congrArg Except.ok (eq_of_toList (by simp [precededBy]) rfl)

theorem run_precededBy (out : Array Token) (s : Yard) (ts : List Token) :
    (s.precededBy out).run ts = (s.run ts).map (precededBy out) := by
  induction ts generalizing s with
  | nil => rfl
  | cons t ts ih =>
    rw [run_cons, run_cons, step_precededBy]
    cases s.step t with
    | error cause => rfl
    | ok s' => exact ih s'

theorem close_precededBy (out : Array Token) (s : Yard) :
    (s.precededBy out).close = s.close.map (out.toList ++ ·) := by
  cases h : s.stack.any Token.isParen with
  | true => simp [close, precededBy, h]
  | false => simp [close, precededBy, h]

end Yard

/-! ### Operands and what surrounds them -/

/-- The yard writes the tokens in this order, whatever waits, and whatever waits goes on waiting. -/
def OrderedAs (ts post : List Token) : Prop :=
  ∀ s : Yard, s.run ts = .ok ⟨s.output ++ post, s.stack⟩

theorem orderedAs_number (text : String) : OrderedAs [.number text] [.number text] := by
  intro s
  exact congrArg Except.ok (Yard.eq_of_toList (by simp) rfl)

/-- Tokens in parentheses are an operand if they can be ordered by themselves. -/
theorem orderedAs_group {ts post : List Token} (h : evaluationOrder ts = .ok post) :
    OrderedAs (groupTokens ts) post := by
  intro s
  obtain ⟨s', hrun, hout, hstack⟩ := Yard.run_group h s
  rw [groupTokens, hrun]
  exact congrArg Except.ok (Yard.eq_of_toList (by simp [hout]) hstack)

/-- What is written before an operand and after it, from the tokens on both sides of it. -/
def surroundings (before after : List Token) : Except Failure (List Token × List Token) :=
  (Yard.empty.run before).bind fun s =>
    ((Yard.run ⟨#[], s.stack⟩ after).bind Yard.close).map fun rest => (s.output.toList, rest)

/-- An operand is written between its surroundings. -/
theorem evaluationOrder_operand {ts post : List Token} (h : OrderedAs ts post)
    (before after : List Token) :
    evaluationOrder (before ++ ts ++ after) =
      (surroundings before after).map fun around => around.1 ++ post ++ around.2 := by
  rw [evaluationOrder, surroundings, Yard.run_append, Yard.run_append]
  cases Yard.empty.run before with
  | error cause => rfl
  | ok s =>
    have hstart : (⟨s.output ++ post, s.stack⟩ : Yard) =
        Yard.precededBy (s.output ++ post) ⟨#[], s.stack⟩ := by
      simp [Yard.precededBy]
    rw [bind_ok, bind_ok, h s, bind_ok, hstart, Yard.run_precededBy]
    cases Yard.run ⟨#[], s.stack⟩ after with
    | error cause => rfl
    | ok s' =>
      rw [map_ok, bind_ok, bind_ok, Yard.close_precededBy]
      cases s'.close with
      | error cause => rfl
      | ok rest => simp

/-- The numbers and percent signs on the left of an operand are those written before it. -/
theorem filter_passes_of_surroundings {before after out rest : List Token}
    (h : surroundings before after = .ok (out, rest)) :
    out.filter Token.passes = before.filter Token.passes := by
  obtain ⟨s, hrun, hs⟩ := bind_eq_ok_iff.mp h
  obtain ⟨rest', -, heq⟩ := map_eq_ok_iff.mp hs
  obtain ⟨rfl, rfl⟩ := Prod.mk.inj heq
  exact Yard.filter_passes_of_run hrun

/-- Tokens that can be ordered are ordered the same way in parentheses. -/
theorem evaluationOrder_groupTokens {ts post : List Token} (h : evaluationOrder ts = .ok post) :
    evaluationOrder (groupTokens ts) = .ok post := by
  have hgroup := evaluationOrder_operand (orderedAs_group h) [] []
  simpa [surroundings, Yard.close, Yard.empty] using hgroup

/-- **A group acts as one operand.** Let tokens `ts` be ordered as `post` by themselves. In
parentheses they may stand wherever a number may, and there `post` is written in place of that
number: of all equal ones the one that has the numbers and percent signs of `before` before it.
A further pair of parentheses changes nothing. -/
theorem evaluationOrder_group (before ts after post : List Token) (text : String)
    (h : evaluationOrder ts = .ok post) :
    ((∃ out, evaluationOrder (before ++ groupTokens ts ++ after) = .ok out) ↔
        ∃ out, evaluationOrder (before ++ [.number text] ++ after) = .ok out) ∧
      (∀ out, evaluationOrder (before ++ [.number text] ++ after) = .ok out →
        ∃ left right, out = left ++ .number text :: right ∧
          left.filter Token.passes = before.filter Token.passes ∧
          evaluationOrder (before ++ groupTokens ts ++ after) = .ok (left ++ post ++ right)) ∧
      evaluationOrder (groupTokens ts) = .ok post ∧
      evaluationOrder (before ++ groupTokens (groupTokens ts) ++ after) =
        evaluationOrder (before ++ groupTokens ts ++ after) := by
  have hgroup := evaluationOrder_operand (orderedAs_group h) before after
  have hnumber := evaluationOrder_operand (orderedAs_number text) before after
  have hself := evaluationOrder_groupTokens h
  refine ⟨?_, ?_, hself, ?_⟩
  · rw [hgroup, hnumber]
    cases surroundings before after <;> simp
  · intro out hout
    rw [hnumber] at hout
    obtain ⟨⟨left, right⟩, hsurroundings, rfl⟩ := map_eq_ok_iff.mp hout
    refine ⟨left, right, by simp, filter_passes_of_surroundings hsurroundings, ?_⟩
    rw [hgroup, hsurroundings, map_ok]
  · rw [evaluationOrder_operand (orderedAs_group hself), hgroup]

/-- Tokens before and after an operand that are no expression with it. -/
def brokenProduct : List Token × List Token :=
  ([.number "1", .operator .times false], [.percent, .operator .minus true, .number "1"])

/-- A sum in parentheses, and in its place a one that is neither the first nor the last of its
kind. -/
theorem evaluationOrder_group_of_sum :
    evaluationOrder [.number "2", .operator .plus false, .number "1"] =
        .ok [.number "2", .number "1", .operator .plus false] ∧
      evaluationOrder (brokenProduct.1 ++ [.number "1"] ++ brokenProduct.2) =
        .ok [.number "1", .number "1", .percent, .number "1", .operator .minus true,
          .operator .times false] ∧
      ∃ left right : List Token, ([.number "1", .number "1", .percent, .number "1",
          .operator .minus true, .operator .times false] : List Token) =
            left ++ .number "1" :: right ∧
        left.filter Token.passes = [.number "1"] ∧
        evaluationOrder (brokenProduct.1 ++
            groupTokens [.number "2", .operator .plus false, .number "1"] ++ brokenProduct.2) =
          .ok (left ++ [.number "2", .number "1", .operator .plus false] ++ right) := by
  have hsum : evaluationOrder [.number "2", .operator .plus false, .number "1"] =
      .ok [.number "2", .number "1", .operator .plus false] := rfl
  have hgroup := evaluationOrder_group brokenProduct.1 _ brokenProduct.2 _ "1" hsum
  exact ⟨hsum, rfl, hgroup.2.1 _ rfl⟩

end DeskCalculator.Expression
