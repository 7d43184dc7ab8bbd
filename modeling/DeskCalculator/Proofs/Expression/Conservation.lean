import DeskCalculator.Proofs.Expression.Parentheses

/-!
# DeskCalculator.Proofs.Expression.Conservation

Bringing tokens into evaluation order loses and invents nothing. To say so of tokens that may be
equal, every token is followed with the place at which it was read (`Yard.Traces`). What comes out
are the tokens without their parentheses, at their places; numbers and percent signs keep their
order, and nothing that was read after one of them is written before it.

Main statement: `evaluationOrder_conserves`, for all lists of tokens, those that are no expression
included.
-/

namespace DeskCalculator.Expression

/-! ### Tokens with their places -/

/-- Whether a token passes through the yard without waiting: numbers and percent signs do. -/
def Token.passes : Token → Bool
  | .number _ | .percent => true
  | .operator .. | .leftParen | .rightParen => false

/-- Tokens, each with the place at which it was read. -/
abbrev Placed := List (Token × Nat)

namespace Placed

/-- These are the tokens that were read, at their places and in some order. Parentheses may be
missing. -/
structure Holds (held : Placed) (read : List Token) : Prop where
  perm : (held.filter fun a => !a.1.isParen).Perm (read.zipIdx.filter fun a => !a.1.isParen)
  lt_of_mem : ∀ a ∈ held, a.2 < read.length

theorem zipIdx_concat (read : List Token) (t : Token) :
    (read ++ [t]).zipIdx = read.zipIdx ++ [(t, read.length)] := by
  simp [List.zipIdx_append]

variable {read : List Token} {before behind : Placed}

/-- A token that is read may be put anywhere among the others. -/
theorem Holds.insert (h : Holds (before ++ behind) read) (t : Token) :
    Holds (before ++ (t, read.length) :: behind) (read ++ [t]) where
  perm := by
    rw [zipIdx_concat, List.filter_append read.zipIdx]
    refine .trans ?_ (h.perm.append_right _)
    rw [← List.filter_append]
    exact (List.perm_middle.trans (List.perm_append_singleton _ _).symm).filter _
  lt_of_mem := by
    intro a ha
    rw [List.length_append, List.length_singleton]
    rcases List.mem_cons.mp (List.perm_middle.mem_iff.mp ha) with rfl | ha
    · exact Nat.lt_succ_self _
    · exact Nat.lt_succ_of_lt (h.lt_of_mem a ha)

/-- When a closing parenthesis is read, its partner may go. -/
theorem Holds.close {n : Nat} (h : Holds (before ++ (.leftParen, n) :: behind) read) :
    Holds (before ++ behind) (read ++ [.rightParen]) where
  perm := by
    rw [zipIdx_concat]
    simpa [Token.isParen] using h.perm
  lt_of_mem := by
    intro a ha
    rw [List.length_append, List.length_singleton]
    exact Nat.lt_succ_of_lt
      (h.lt_of_mem a (List.perm_middle.mem_iff.mpr (List.mem_cons_of_mem _ ha)))

end Placed

/-! ### Following the yard -/

namespace Yard

/-- The output and the stack of the yard are tokens that it has read, at these places. What stands
in the output before a number or percent sign was read before it. -/
structure Traces (s : Yard) (read : List Token) (out waiting : Placed) : Prop where
  map_out : out.map Prod.fst = s.output.toList
  map_waiting : waiting.map Prod.fst = s.stack
  holds : Placed.Holds (out ++ waiting) read
  passes_of_mem_waiting : ∀ a ∈ waiting, a.1.passes = false
  filter_passes : s.output.toList.filter Token.passes = read.filter Token.passes
  pairwise : out.Pairwise fun a b => b.1.passes = true → a.2 < b.2

theorem traces_empty : Traces empty [] [] [] where
  map_out := rfl
  map_waiting := rfl
  holds := ⟨.refl _, by simp⟩
  passes_of_mem_waiting := by simp
  filter_passes := rfl
  pairwise := .nil

namespace Traces

variable {s : Yard} {t : Token} {read : List Token} {out waiting moved kept : Placed}

/-- Tokens from the top of the stack may be written: none of them is a number or percent sign. -/
theorem release (h : Traces s read out (moved ++ kept)) :
    Traces ⟨s.output ++ moved.map Prod.fst, kept.map Prod.fst⟩ read (out ++ moved) kept where
  map_out := by simp [h.map_out]
  map_waiting := rfl
  holds := by simpa using h.holds
  passes_of_mem_waiting := fun a ha => h.passes_of_mem_waiting a (List.mem_append_right _ ha)
  filter_passes := by
    have hmoved : (moved.map Prod.fst).filter Token.passes = [] := by
      rw [List.filter_eq_nil_iff]
      intro t ht
      obtain ⟨a, ha, rfl⟩ := List.mem_map.mp ht
      simp [h.passes_of_mem_waiting a (List.mem_append_left _ ha)]
    simpa [hmoved] using h.filter_passes
  pairwise := by
    have hmoved : ∀ a, ∀ b ∈ moved, b.1.passes = true → a < b.2 := by
      intro a b hb hpasses
      simp [h.passes_of_mem_waiting b (List.mem_append_left _ hb)] at hpasses
    refine List.pairwise_append.mpr ⟨h.pairwise, ?_, fun a _ b hb => hmoved a.2 b hb⟩
    exact List.pairwise_of_forall_mem_list fun a _ b hb => hmoved a.2 b hb

/-- A number or percent sign is written when it is read. -/
theorem write (h : Traces s read out waiting) (ht : t.passes = true) :
    Traces { s with output := s.output.push t } (read ++ [t]) (out ++ [(t, read.length)])
      waiting where
  map_out := by simp [h.map_out]
  map_waiting := h.map_waiting
  holds := by simpa using h.holds.insert t
  passes_of_mem_waiting := h.passes_of_mem_waiting
  filter_passes := by simp [h.filter_passes, ht]
  pairwise := by
    refine List.pairwise_append.mpr ⟨h.pairwise, List.pairwise_singleton _ _, ?_⟩
    intro a ha b hb _
    obtain rfl := List.mem_singleton.mp hb
    exact h.holds.lt_of_mem a (List.mem_append_left _ ha)

/-- Any other token may wait when it is read. -/
theorem wait (h : Traces s read out waiting) (ht : t.passes = false) :
    Traces { s with stack := t :: s.stack } (read ++ [t]) out
      ((t, read.length) :: waiting) where
  map_out := h.map_out
  map_waiting := by simp [h.map_waiting]
  holds := h.holds.insert t
  passes_of_mem_waiting := by
    intro a ha
    rcases List.mem_cons.mp ha with rfl | ha
    · exact ht
    · exact h.passes_of_mem_waiting a ha
  filter_passes := by simp [h.filter_passes, ht]
  pairwise := h.pairwise

/-- A closing parenthesis removes its partner from the top of the stack. -/
theorem close {n : Nat} (h : Traces s read out ((.leftParen, n) :: kept)) :
    Traces { s with stack := kept.map Prod.fst } (read ++ [.rightParen]) out kept where
  map_out := h.map_out
  map_waiting := rfl
  holds := h.holds.close
  passes_of_mem_waiting := fun a ha => h.passes_of_mem_waiting a (List.mem_cons_of_mem _ ha)
  filter_passes := by simp [h.filter_passes, Token.passes]
  pairwise := h.pairwise

theorem step {s' : Yard} (h : Traces s read out waiting) (hstep : s.step t = .ok s') :
    ∃ out' waiting', Traces s' (read ++ [t]) out' waiting' := by
  cases t with
  | number text | percent =>
    obtain rfl := Except.ok.inj hstep
    exact ⟨_, _, h.write rfl⟩
  | operator op unary =>
    obtain rfl := Except.ok.inj hstep
    -- the places are split where the tokens are
    have hsplit := h
    rw [← List.takeWhile_append_dropWhile (p := Token.goesBefore (op.binding unary) ∘ Prod.fst)
      (l := waiting)] at hsplit
    have hwait := hsplit.release.wait (t := .operator op unary) rfl
    rw [← List.takeWhile_map, ← List.dropWhile_map, h.map_waiting] at hwait
    exact ⟨_, _, hwait⟩
  | leftParen =>
    obtain rfl := Except.ok.inj hstep
    exact ⟨_, _, h.wait rfl⟩
  | rightParen =>
    obtain ⟨written, below, hstack, -, rfl⟩ := exists_of_step_rightParen hstep
    obtain ⟨moved, rest, rfl, rfl, hrest⟩ := List.map_eq_append_iff.mp (h.map_waiting.trans hstack)
    obtain ⟨⟨paren, n⟩, kept, rfl, rfl, rfl⟩ := List.map_eq_cons_iff.mp hrest
    exact ⟨_, _, h.release.close⟩

theorem run {s' : Yard} {ts : List Token} (h : Traces s read out waiting)
    (hrun : s.run ts = .ok s') : ∃ out' waiting', Traces s' (read ++ ts) out' waiting' := by
  induction ts generalizing s read out waiting with
  | nil =>
    obtain rfl : s = s' := by simpa using hrun
    exact ⟨out, waiting, by simpa using h⟩
  | cons t ts ih =>
    obtain ⟨s₁, hstep, hrest⟩ := bind_eq_ok_iff.mp hrun
    obtain ⟨out₁, waiting₁, h₁⟩ := h.step hstep
    obtain ⟨out', waiting', h'⟩ := ih h₁ hrest
    exact ⟨out', waiting', by simpa using h'⟩

end Traces

/-- Every number and percent sign that was read is written, and in the same order. -/
theorem filter_passes_of_run {s : Yard} {ts : List Token} (h : empty.run ts = .ok s) :
    s.output.toList.filter Token.passes = ts.filter Token.passes := by
  obtain ⟨out, waiting, htraces⟩ := traces_empty.run h
  exact htraces.filter_passes

end Yard

/-! ### What is written at the end -/

theorem filter_passes_of_evaluationOrder {ts post : List Token}
    (h : evaluationOrder ts = .ok post) :
    post.filter Token.passes = ts.filter Token.passes := by
  obtain ⟨s, hrun, hclose⟩ := bind_eq_ok_iff.mp h
  obtain ⟨-, rfl⟩ := Yard.close_eq_ok_iff.mp hclose
  obtain ⟨out, waiting, htraces⟩ := Yard.traces_empty.run hrun
  have hstack : s.stack.filter Token.passes = [] := by
    rw [← htraces.map_waiting, List.filter_eq_nil_iff]
    intro t ht
    obtain ⟨a, ha, rfl⟩ := List.mem_map.mp ht
    simp [htraces.passes_of_mem_waiting a ha]
  rw [List.filter_append, hstack, List.append_nil, htraces.filter_passes]
  rfl

/-- What is written are the tokens at their places, without parentheses. -/
theorem exists_placed_of_evaluationOrder {ts post : List Token}
    (h : evaluationOrder ts = .ok post) :
    ∃ placed : Placed, placed.map Prod.fst = post ∧
      placed.Perm (ts.zipIdx.filter fun a => !a.1.isParen) ∧
      placed.Pairwise fun a b => b.1.passes = true → a.2 < b.2 := by
  have hparen : ∀ t ∈ post, t.isParen = false := fun t => isParen_of_mem_evaluationOrder h
  obtain ⟨s, hrun, hclose⟩ := bind_eq_ok_iff.mp h
  obtain ⟨-, rfl⟩ := Yard.close_eq_ok_iff.mp hclose
  obtain ⟨out, waiting, htraces⟩ := Yard.traces_empty.run hrun
  have hplaced : (out ++ waiting).map Prod.fst = s.output.toList ++ s.stack := by
    simp [htraces.map_out, htraces.map_waiting]
  have hself : (out ++ waiting).filter (fun a => !a.1.isParen) = out ++ waiting := by
    rw [List.filter_eq_self]
    intro a ha
    simp [hparen a.1 (hplaced ▸ List.mem_map_of_mem ha)]
  -- whatever still waits is written last
  have hend : s.Traces ts out (waiting ++ []) := by simpa using htraces
  exact ⟨out ++ waiting, hplaced, by simpa [hself] using htraces.holds.perm,
    hend.release.pairwise⟩

theorem perm_of_evaluationOrder {ts post : List Token} (h : evaluationOrder ts = .ok post) :
    post.Perm (ts.filter fun t => !t.isParen) := by
  obtain ⟨placed, rfl, hperm, -⟩ := exists_placed_of_evaluationOrder h
  have hfilter : (ts.zipIdx.filter fun a => !a.1.isParen).map Prod.fst =
      ts.filter fun t => !t.isParen := by
    have hmap := List.filter_map (f := Prod.fst) (p := fun t => !t.isParen) (l := ts.zipIdx)
    rw [List.zipIdx_map_fst] at hmap
    exact hmap.symm
  exact hfilter ▸ hperm.map Prod.fst

theorem mem_of_mem_evaluationOrder {ts post : List Token} (h : evaluationOrder ts = .ok post)
    {t : Token} (ht : t ∈ post) : t ∈ ts :=
  (List.mem_filter.mp ((perm_of_evaluationOrder h).mem_iff.mp ht)).1

/-- Tokens can be ordered unless their parentheses do not match. -/
theorem evaluationOrder_eq_error_iff_mismatch {ts : List Token} :
    evaluationOrder ts = .error .mismatchedParentheses ↔ ParensMismatch ts := by
  rw [evaluationOrder_eq_error_iff, ← groupsClose_iff_balanced, groupsClose_iff_not_mismatch]
  simp

/-- **Ordering loses and invents nothing.** Every list of tokens is refused exactly if its
parentheses do not match. Otherwise the tokens without their parentheses are written, each as often
as it was read, the numbers and percent signs in the order in which they were read. The tokens that
are written have places in the list such that whatever stands before a number or percent sign was
read before it, so no operator is written before one that preceded it. -/
theorem evaluationOrder_conserves (ts : List Token) :
    (evaluationOrder ts = .error .mismatchedParentheses ↔ ParensMismatch ts) ∧
      (¬ ParensMismatch ts → ∃ post, evaluationOrder ts = .ok post ∧
        (∀ t ∈ post, t.isParen = false) ∧
        post.Perm (ts.filter fun t => !t.isParen) ∧
        post.filter Token.passes = ts.filter Token.passes ∧
        ∃ placed : List (Token × Nat), placed.map Prod.fst = post ∧
          placed.Perm (ts.zipIdx.filter fun a => !a.1.isParen) ∧
          placed.Pairwise fun a b => b.1.passes = true → a.2 < b.2) := by
  refine ⟨evaluationOrder_eq_error_iff_mismatch, fun hmatch => ?_⟩
  obtain ⟨post, hpost⟩ :=
    exists_evaluationOrder_of_groupsClose (groupsClose_iff_not_mismatch.mpr hmatch)
  exact ⟨post, hpost, fun t => isParen_of_mem_evaluationOrder hpost,
    perm_of_evaluationOrder hpost, filter_passes_of_evaluationOrder hpost,
    exists_placed_of_evaluationOrder hpost⟩

end DeskCalculator.Expression
