import Mathlib.Data.List.Infix
import Mathlib.Data.List.TakeWhile
import DeskCalculator.Proofs.Expression.Ordering

/-!
# DeskCalculator.Proofs.Expression.Parentheses

Parentheses decide alone whether tokens can be ordered.

* **Balanced words** are given by their grammar (`Balanced`). Counting open groups from left to
  right accepts the same words (`groupsClose_iff_balanced`), and so does the comparison of how often
  each parenthesis stands in every beginning of a list (`groupsClose_iff_not_mismatch`).
* **The yard** keeps operators and opening parentheses waiting and writes no parenthesis
  (`Yard.Sorted`), so nothing but a parenthesis without its partner can stop it.

Main statement: `evaluationOrder_eq_error_iff`.
-/

namespace DeskCalculator.Expression

/-! ### Balanced words -/

/-- Words of parentheses that pair up. -/
inductive Balanced : List Char → Prop
  | nil : Balanced []
  /-- A balanced word in parentheses, and another one after it. -/
  | group {inner rest : List Char} (hinner : Balanced inner) (hrest : Balanced rest) :
      Balanced ('(' :: (inner ++ ')' :: rest))

/-- The parenthesis that a token is, if it is one. -/
def Token.paren? : Token → Option Char
  | .leftParen => some '('
  | .rightParen => some ')'
  | .number _ | .operator .. | .percent => none

/-- The word closes this many open groups, and every group that it opens. -/
def Closes : Nat → List Char → Prop
  | 0, word => Balanced word
  | depth + 1, word => ∃ inner rest, Balanced inner ∧ word = inner ++ ')' :: rest ∧ Closes depth rest

/-- A balanced word begins with no closing parenthesis. -/
theorem Balanced.eq_nil_or_cons {word : List Char} (h : Balanced word) :
    word = [] ∨ ∃ inner rest, Balanced inner ∧ Balanced rest ∧
      word = '(' :: (inner ++ ')' :: rest) := by
  cases h with
  | nil => exact .inl rfl
  | group hinner hrest => exact .inr ⟨_, _, hinner, hrest, rfl⟩

theorem closes_nil_iff {depth : Nat} : Closes depth [] ↔ depth = 0 := by
  cases depth with
  | zero => exact ⟨fun _ => rfl, fun _ => .nil⟩
  | succ depth => simp [Closes]

/-- An opening parenthesis is one more group to close. -/
theorem closes_open_iff {depth : Nat} {word : List Char} :
    Closes depth ('(' :: word) ↔ Closes (depth + 1) word := by
  constructor
  · intro h
    cases depth with
    | zero =>
      obtain hnil | ⟨inner, rest, hinner, hrest, hword⟩ := Balanced.eq_nil_or_cons h
      · exact absurd hnil (by simp)
      · exact ⟨inner, rest, hinner, (List.cons.inj hword).2, hrest⟩
    | succ depth =>
      obtain ⟨before, after, hbefore, hword, hafter⟩ := h
      obtain rfl | ⟨inner, rest, hinner, hrest, rfl⟩ := hbefore.eq_nil_or_cons
      · simp at hword
      · -- the group that the word opens is the first one in front of the open ones
        refine ⟨inner, rest ++ ')' :: after, hinner, ?_, rest, after, hrest, rfl, hafter⟩
        simpa using hword
  · rintro ⟨inner, rest, hinner, rfl, hrest⟩
    cases depth with
    | zero => exact .group hinner hrest
    | succ depth =>
      obtain ⟨before, after, hbefore, rfl, hafter⟩ := hrest
      exact ⟨_, after, .group hinner hbefore, by simp, hafter⟩

/-- A closing parenthesis closes the innermost open group, if there is one. -/
theorem closes_close_iff {depth : Nat} {word : List Char} :
    Closes depth (')' :: word) ↔ ∃ outer, depth = outer + 1 ∧ Closes outer word := by
  cases depth with
  | zero =>
    constructor
    · intro h
      obtain hnil | ⟨inner, rest, -, -, hword⟩ := Balanced.eq_nil_or_cons h
      · exact absurd hnil (by simp)
      · simp at hword
    · rintro ⟨outer, h, -⟩
      omega
  | succ depth =>
    constructor
    · rintro ⟨inner, rest, hinner, hword, hrest⟩
      obtain rfl | ⟨_, _, -, -, rfl⟩ := hinner.eq_nil_or_cons
      · obtain rfl := (List.cons.inj hword).2
        exact ⟨depth, rfl, hrest⟩
      · simp at hword
    · rintro ⟨outer, h, hrest⟩
      obtain rfl : depth = outer := by omega
      exact ⟨[], word, .nil, rfl, hrest⟩

/-- Counting open groups accepts the words that close them. -/
theorem groupsClose_iff_closes (ts : List Token) (depth : Nat) :
    groupsClose depth ts = true ↔ Closes depth (ts.filterMap Token.paren?) := by
  induction ts generalizing depth with
  | nil => simp [groupsClose, closes_nil_iff]
  | cons t ts ih =>
    cases t with
    | leftParen => simp [groupsClose, ih, Token.paren?, closes_open_iff]
    | rightParen =>
      cases depth with
      | zero => simp [groupsClose, Token.paren?, closes_close_iff]
      | succ depth => simp [groupsClose, ih, Token.paren?, closes_close_iff]
    | number text => exact ih depth
    | operator op unary => exact ih depth
    | percent => exact ih depth

theorem groupsClose_iff_balanced (ts : List Token) :
    groupsClose 0 ts = true ↔ Balanced (ts.filterMap Token.paren?) :=
  groupsClose_iff_closes ts 0

/-! ### Counting parentheses -/

/-- Some beginning of the list closes more groups than it opens, or the list as a whole does not
close as many as it opens. -/
def ParensMismatch (ts : List Token) : Prop :=
  (∃ before, before <+: ts ∧ before.count .leftParen < before.count .rightParen) ∨
    ts.count .leftParen ≠ ts.count .rightParen

/-- The beginnings of a list with a first element are the empty one and those with that element. -/
theorem forall_prefix_cons_iff {α : Type} {p : List α → Prop} {a : α} {as : List α} :
    (∀ before, before <+: a :: as → p before) ↔
      p [] ∧ ∀ before, before <+: as → p (a :: before) := by
  simp only [List.prefix_cons_iff]
  constructor
  · intro h
    exact ⟨h [] (.inl rfl), fun before hbefore => h _ (.inr ⟨before, rfl, hbefore⟩)⟩
  · rintro ⟨hnil, hcons⟩ before (rfl | ⟨rest, rfl, hrest⟩)
    · exact hnil
    · exact hcons rest hrest

/-- No beginning of the list closes more groups than are open, and at its end all are closed. -/
theorem groupsClose_iff_count (ts : List Token) (depth : Nat) :
    groupsClose depth ts = true ↔
      (∀ before, before <+: ts →
        before.count .rightParen ≤ depth + before.count .leftParen) ∧
      depth + ts.count .leftParen = ts.count .rightParen := by
  induction ts generalizing depth with
  | nil => simp [groupsClose]
  | cons t ts ih =>
    rw [forall_prefix_cons_iff]
    cases t with
    | leftParen => simp [groupsClose, ih, Nat.add_assoc, Nat.add_comm 1]
    | rightParen =>
      cases depth with
      | zero =>
        -- the beginning that ends here closes a group too many
        simp only [groupsClose, Bool.false_eq_true, false_iff, not_and]
        intro h
        exact absurd (h.2 [] List.nil_prefix) (by simp)
      | succ depth => simp [groupsClose, ih, Nat.add_right_comm depth 1]
    | number text => simp [groupsClose, ih]
    | operator op unary => simp [groupsClose, ih]
    | percent => simp [groupsClose, ih]

theorem groupsClose_iff_not_mismatch {ts : List Token} :
    groupsClose 0 ts = true ↔ ¬ ParensMismatch ts := by
  simp [groupsClose_iff_count, ParensMismatch]

/-! ### What the yard writes and keeps -/

namespace Yard

/-- No parenthesis is written, and operators and opening parentheses are all that waits. -/
structure Sorted (s : Yard) : Prop where
  isParen_of_mem_output : ∀ t ∈ s.output.toList, t.isParen = false
  mem_stack : ∀ t ∈ s.stack, t = .leftParen ∨ t.isOperator = true

theorem sorted_empty : Sorted empty where
  isParen_of_mem_output := by simp [empty]
  mem_stack := by simp [empty]

theorem Sorted.isParen_of_ne_leftParen {s : Yard} (hs : s.Sorted) {t : Token} (ht : t ∈ s.stack)
    (hne : t ≠ .leftParen) : t.isParen = false := by
  cases t with
  | leftParen => exact absurd rfl hne
  | rightParen => simpa [Token.isOperator] using hs.mem_stack _ ht
  | _ => rfl

/-- The waiting tokens that are no parenthesis may be written, and the others may stay. -/
theorem Sorted.release {s : Yard} (hs : s.Sorted) {written waiting : List Token}
    (hstack : ∀ t ∈ written ++ waiting, t ∈ s.stack)
    (hwritten : ∀ t ∈ written, t ≠ .leftParen) : Sorted ⟨s.output ++ written, waiting⟩ where
  isParen_of_mem_output := by
    intro t ht
    rcases (by simpa using ht : t ∈ s.output ∨ t ∈ written) with hout | hnew
    · exact hs.isParen_of_mem_output t (by simpa using hout)
    · exact hs.isParen_of_ne_leftParen (hstack t (List.mem_append_left _ hnew)) (hwritten t hnew)
  mem_stack := fun t ht => hs.mem_stack t (hstack t (List.mem_append_right _ ht))

theorem Sorted.push {s : Yard} (hs : s.Sorted) {t : Token}
    (ht : t = .leftParen ∨ t.isOperator = true) : Sorted { s with stack := t :: s.stack } where
  isParen_of_mem_output := hs.isParen_of_mem_output
  mem_stack := by
    intro u hu
    rcases List.mem_cons.mp hu with rfl | hu
    · exact ht
    · exact hs.mem_stack u hu

theorem Sorted.write {s : Yard} (hs : s.Sorted) {t : Token} (ht : t.isParen = false) :
    Sorted { s with output := s.output.push t } where
  isParen_of_mem_output := by
    intro u hu
    rcases (by simpa using hu : u ∈ s.output ∨ u = t) with hu | rfl
    · exact hs.isParen_of_mem_output u (by simpa using hu)
    · exact ht
  mem_stack := hs.mem_stack

theorem Sorted.step {s s' : Yard} {t : Token} (hs : s.Sorted) (h : s.step t = .ok s') :
    s'.Sorted := by
  cases t with
  | number text =>
    obtain rfl := Except.ok.inj h
    exact hs.write rfl
  | percent =>
    obtain rfl := Except.ok.inj h
    exact hs.write rfl
  | operator op unary =>
    obtain rfl := Except.ok.inj h
    refine Sorted.push (hs.release (fun t ht => ?_) fun t ht => ?_) (.inr rfl)
    · rwa [List.takeWhile_append_dropWhile] at ht
    · rintro rfl
      simpa [Token.goesBefore] using List.all_eq_true.mp List.all_takeWhile _ ht
  | leftParen =>
    obtain rfl := Except.ok.inj h
    exact hs.push (.inl rfl)
  | rightParen =>
    obtain ⟨waiting, outer, hstack, hw, rfl⟩ := exists_of_step_rightParen h
    refine hs.release (fun t ht => ?_) fun t ht => by simpa using hw t ht
    rw [hstack]
    rcases List.mem_append.mp ht with ht | ht
    · exact List.mem_append_left _ ht
    · exact List.mem_append_right _ (List.mem_cons_of_mem _ ht)

theorem Sorted.run {s s' : Yard} {ts : List Token} (hs : s.Sorted) (h : s.run ts = .ok s') :
    s'.Sorted := by
  induction ts generalizing s with
  | nil =>
    obtain rfl : s = s' := by simpa using h
    exact hs
  | cons t ts ih =>
    obtain ⟨s₁, hstep, hrun⟩ := bind_eq_ok_iff.mp h
    exact ih (hs.step hstep) hrun

/-! ### What stops the yard -/

/-- Only a closing parenthesis can stop the yard, and only if no group is open. -/
theorem step_eq_error_iff {s : Yard} {t : Token} {cause : Failure} :
    s.step t = .error cause ↔
      t = .rightParen ∧ s.depth = 0 ∧ cause = .mismatchedParentheses := by
  cases t with
  | rightParen =>
    have hdepth : s.depth = 0 ↔ s.stack.dropWhile (· != .leftParen) = [] := by
      rw [depth, List.count_eq_zero, List.dropWhile_eq_nil_iff]
      exact ⟨fun hnot t ht => by
        rw [bne_iff_ne]
        rintro rfl
        exact hnot ht, fun hall hmem => by simpa using hall _ hmem⟩
    simp only [step, hdepth, true_and]
    split
    · rename_i hnil
      simp [hnil, eq_comm]
    · rename_i hcons
      simp [hcons]
  | _ => simp [step]

theorem eq_mismatchedParentheses_of_run {s : Yard} {ts : List Token} {cause : Failure}
    (h : s.run ts = .error cause) : cause = .mismatchedParentheses := by
  induction ts generalizing s with
  | nil => exact absurd h (by simp)
  | cons t ts ih =>
    rw [run_cons] at h
    cases hstep : s.step t with
    | error cause' =>
      obtain rfl : cause' = cause := by simpa [hstep] using h
      exact (step_eq_error_iff.mp hstep).2.2
    | ok s₁ => exact ih (by simpa [hstep] using h)

/-- If the groups that are open and the parentheses that follow pair up, nothing stops the yard, and
no group is open afterwards. -/
theorem exists_run_of_groupsClose {s : Yard} {ts : List Token}
    (h : groupsClose s.depth ts = true) : ∃ s', s.run ts = .ok s' ∧ s'.depth = 0 := by
  induction ts generalizing s with
  | nil => exact ⟨s, rfl, by simpa [groupsClose] using h⟩
  | cons t ts ih =>
    cases hstep : s.step t with
    | error cause =>
      obtain ⟨rfl, hdepth, -⟩ := step_eq_error_iff.mp hstep
      simp [hdepth, groupsClose] at h
    | ok s₁ =>
      obtain ⟨s', hrun, hdepth⟩ := ih (groupsClose_step hstep ts ▸ h)
      exact ⟨s', by rw [run_cons, hstep, bind_ok, hrun], hdepth⟩

/-- A sorted yard can be closed exactly if no group is open. -/
theorem Sorted.close_eq {s : Yard} (hs : s.Sorted) :
    s.close = if s.depth = 0 then .ok (s.output.toList ++ s.stack)
      else .error .mismatchedParentheses := by
  have hany : s.stack.any Token.isParen = true ↔ s.depth ≠ 0 := by
    rw [List.any_eq_true, depth, Ne, List.count_eq_zero, not_not]
    constructor
    · rintro ⟨t, ht, hparen⟩
      by_contra hmem
      exact absurd hparen (by simp [hs.isParen_of_ne_leftParen ht fun h => hmem (h ▸ ht)])
    · exact fun hmem => ⟨.leftParen, hmem, rfl⟩
  unfold close
  split
  · rename_i h
    rw [if_neg (hany.mp h)]
  · rename_i h
    rw [if_pos (by simpa [hany] using h)]

end Yard

/-- What is written in evaluation order is no parenthesis. -/
theorem isParen_of_mem_evaluationOrder {ts post : List Token} (h : evaluationOrder ts = .ok post)
    {t : Token} (ht : t ∈ post) : t.isParen = false := by
  obtain ⟨s, hrun, hclose⟩ := bind_eq_ok_iff.mp h
  obtain ⟨hstack, rfl⟩ := Yard.close_eq_ok_iff.mp hclose
  rcases List.mem_append.mp ht with hout | hwaiting
  · exact (Yard.sorted_empty.run hrun).isParen_of_mem_output t hout
  · exact hstack t hwaiting

/-- Tokens whose parentheses pair up can be ordered. -/
theorem exists_evaluationOrder_of_groupsClose {ts : List Token} (h : groupsClose 0 ts = true) :
    ∃ post, evaluationOrder ts = .ok post := by
  obtain ⟨s, hrun, hdepth⟩ := Yard.exists_run_of_groupsClose (s := .empty) h
  exact ⟨s.output.toList ++ s.stack, by
    rw [evaluationOrder, hrun, bind_ok, (Yard.sorted_empty.run hrun).close_eq, if_pos hdepth]⟩

theorem eq_mismatchedParentheses_of_evaluationOrder {ts : List Token} {cause : Failure}
    (h : evaluationOrder ts = .error cause) : cause = .mismatchedParentheses := by
  rw [evaluationOrder] at h
  cases hrun : Yard.empty.run ts with
  | error cause' =>
    obtain rfl : cause' = cause := by simpa [hrun] using h
    exact Yard.eq_mismatchedParentheses_of_run hrun
  | ok s =>
    rw [hrun, bind_ok, (Yard.sorted_empty.run hrun).close_eq] at h
    split at h
    · exact absurd h (by simp)
    · exact (Except.error.inj h).symm

/-- **Parentheses decide.** Tokens can be ordered unless their parentheses do not pair up. -/
theorem evaluationOrder_eq_error_iff {ts : List Token} {cause : Failure} :
    evaluationOrder ts = .error cause ↔
      cause = .mismatchedParentheses ∧ ¬ Balanced (ts.filterMap Token.paren?) := by
  rw [← groupsClose_iff_balanced]
  constructor
  · intro h
    refine ⟨eq_mismatchedParentheses_of_evaluationOrder h, fun hclose => ?_⟩
    obtain ⟨post, hpost⟩ := exists_evaluationOrder_of_groupsClose hclose
    simp [hpost] at h
  · rintro ⟨rfl, hopen⟩
    cases h : evaluationOrder ts with
    | ok post => exact absurd (groupsClose_of_evaluationOrder h) hopen
    | error cause => rw [eq_mismatchedParentheses_of_evaluationOrder h]

end DeskCalculator.Expression
