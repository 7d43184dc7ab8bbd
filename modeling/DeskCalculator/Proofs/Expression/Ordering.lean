import DeskCalculator.Expression.EvaluationOrder
import DeskCalculator.Proofs.Expression.Grammar

/-!
# DeskCalculator.Proofs.Expression.Ordering

The shunting yard. Two facts carry everything else.

* **Trees.** While the yard takes the tokens of a tree it writes the tree in post-order, except
  that a tail of it, operators only, may still wait on the stack (`Yard.Advances`). How tightly
  these bind is bounded from below by the category of the tree, and this bound is what makes the
  next operator of the grammar send exactly them to the output.
* **Groups.** The yard never looks below an opening parenthesis. Tokens that are ordered by
  themselves are ordered the same way inside a group, whatever waits below
  (`Yard.run_group`).
-/

namespace DeskCalculator.Expression

/-! ### Levels -/

/-- Whether a token is an operator of at least this precedence. -/
def Token.bindsAtLeast (level : Nat) : Token → Bool
  | .operator op unary => level ≤ (op.binding unary).precedence
  | _ => false

/-- The precedence from which on a waiting operator goes before this one when it arrives. -/
def Operator.level (unary : Bool) (op : Operator) : Nat :=
  if unary then 4 else if op.isSign then 1 else 2

theorem Operator.precedence_binary (op : Operator) :
    (op.binding false).precedence = op.level false := by
  cases op <;> rfl

theorem Token.goesBefore_eq (op : Operator) (unary : Bool) :
    Token.goesBefore (op.binding unary) = Token.bindsAtLeast (op.level unary) := by
  funext t
  cases t with
  | operator op' unary' =>
    cases op <;> cases unary <;> cases op' <;> cases unary' <;> rfl
  | _ => rfl

theorem Token.bindsAtLeast_mono {m n : Nat} (h : m ≤ n) {t : Token}
    (ht : t.bindsAtLeast n = true) : t.bindsAtLeast m = true := by
  cases t with
  | operator op unary =>
    simp only [bindsAtLeast, decide_eq_true_eq] at ht ⊢
    omega
  | _ => exact ht

/-- No operator binds tighter than a sign. -/
theorem Token.bindsAtLeast_four (t : Token) : t.bindsAtLeast 4 = false := by
  cases t with
  | operator op unary => cases op <;> cases unary <;> rfl
  | _ => rfl

theorem Token.ne_leftParen_of_bindsAtLeast {n : Nat} {t : Token}
    (h : t.bindsAtLeast n = true) : (t != .leftParen) = true := by
  cases t with
  | leftParen => simp [bindsAtLeast] at h
  | _ => simp

/-- How tightly the operators of a tree bind that may still wait after it. -/
def Category.level : Category → Nat
  | sum => 1
  | product => 2
  | signed => 3
  | operand => 4

/-- Whether a tree of the category may follow on this stack: the operators that its own operators
would send to the output are not on top. Signs and operands send none. -/
def Category.Admits (c : Category) (stack : List Token) : Prop :=
  c.level < 3 → stack.takeWhile (Token.bindsAtLeast c.level) = []

theorem Category.admits_cons_operator {c : Category} {op : Operator} (stack : List Token)
    (h : (op.binding false).precedence < c.level) :
    c.Admits (.operator op false :: stack) := by
  intro _
  apply List.takeWhile_cons_of_neg
  simp [Token.bindsAtLeast]
  omega

theorem Category.Admits.sum_to_product {stack : List Token} (h : Category.sum.Admits stack) :
    Category.product.Admits stack := by
  intro _
  have hsum := h (by decide)
  cases stack with
  | nil => rfl
  | cons t stack =>
    apply List.takeWhile_cons_of_neg
    intro ht
    have hone : t.bindsAtLeast 1 = true := Token.bindsAtLeast_mono (by decide) ht
    simp [Category.level, hone] at hsum

/-! ### Single steps -/

namespace Yard

theorem run_cons (s : Yard) (t : Token) (ts : List Token) :
    s.run (t :: ts) = (s.step t).bind fun s' => s'.run ts := rfl

/-- Yards are compared by what they have written and what waits. -/
theorem eq_of_toList {s s' : Yard} (ho : s.output.toList = s'.output.toList)
    (hs : s.stack = s'.stack) : s = s' := by
  cases s
  cases s'
  simp_all

/-- After further tokens the yard has written a part of `post`, and the rest of it waits on top of
the old stack, operators only and none looser than `level`. -/
def Advances (level : Nat) (s s' : Yard) (post : List Token) : Prop :=
  ∃ done waiting, post = done ++ waiting ∧ s'.output.toList = s.output.toList ++ done ∧
    s'.stack = waiting ++ s.stack ∧ ∀ t ∈ waiting, t.bindsAtLeast level = true

theorem Advances.mono {m n : Nat} (h : m ≤ n) {s s' : Yard} {post : List Token}
    (ha : Advances n s s' post) : Advances m s s' post := by
  obtain ⟨done, waiting, rfl, hout, hstack, hlevel⟩ := ha
  exact ⟨done, waiting, rfl, hout, hstack,
    fun t ht => Token.bindsAtLeast_mono h (hlevel t ht)⟩

/-- Nothing waits above an operand. -/
theorem Advances.of_operand {s s' : Yard} {post : List Token} (ha : Advances 4 s s' post) :
    s'.output.toList = s.output.toList ++ post ∧ s'.stack = s.stack := by
  obtain ⟨done, waiting, rfl, hout, hstack, hlevel⟩ := ha
  have hnil : waiting = [] := by
    cases waiting with
    | nil => rfl
    | cons t waiting => simpa [Token.bindsAtLeast_four] using hlevel t (by simp)
  subst hnil
  exact ⟨by simpa using hout, by simpa using hstack⟩

/-- An operator that arrives after its left operand sends all of the operand to the output, and
nothing from below. -/
theorem Advances.step_operator {op : Operator} {unary : Bool} {s s' : Yard} {post : List Token}
    (ha : Advances (op.level unary) s s' post)
    (hs : s.stack.takeWhile (Token.bindsAtLeast (op.level unary)) = []) :
    ∃ s'', s'.step (.operator op unary) = .ok s'' ∧
      s''.output.toList = s.output.toList ++ post ∧
      s''.stack = .operator op unary :: s.stack := by
  obtain ⟨done, waiting, rfl, hout, hstack, hlevel⟩ := ha
  have hdrop : s.stack.dropWhile (Token.bindsAtLeast (op.level unary)) = s.stack := by
    have h := List.takeWhile_append_dropWhile (p := Token.bindsAtLeast (op.level unary))
      (l := s.stack)
    rwa [hs, List.nil_append] at h
  refine ⟨_, rfl, ?_, ?_⟩
  · simp [Token.goesBefore_eq, hstack, hout, List.takeWhile_append_of_pos hlevel, hs]
  · simp [Token.goesBefore_eq, hstack, List.dropWhile_append_of_pos hlevel, hdrop]

/-- A closing parenthesis sends the rest of its group to the output and removes the opening one. -/
theorem step_rightParen {s : Yard} {waiting below : List Token}
    (hs : s.stack = waiting ++ .leftParen :: below)
    (hw : ∀ t ∈ waiting, (t != .leftParen) = true) :
    ∃ s', s.step .rightParen = .ok s' ∧
      s'.output.toList = s.output.toList ++ waiting ∧ s'.stack = below := by
  have hdrop : s.stack.dropWhile (· != .leftParen) = .leftParen :: below := by
    rw [hs, List.dropWhile_append_of_pos hw]
    rfl
  have htake : s.stack.takeWhile (· != .leftParen) = waiting := by
    rw [hs, List.takeWhile_append_of_pos hw]
    simp
  refine ⟨⟨s.output ++ waiting, below⟩, ?_, by simp, rfl⟩
  simp only [step, hdrop, htake]

/-! ### Trees -/

/-- Wherever a tree of the category may follow, the yard takes the tokens and advances by `post`. -/
def Orders (c : Category) (ts post : List Token) : Prop :=
  ∀ s : Yard, c.Admits s.stack → ∃ s', s.run ts = .ok s' ∧ Advances c.level s s' post

/-- A binary node: its operands are ordered, and its operator waits above what it found. -/
theorem Orders.node {c r : Category} {op : Operator} {ts us post post' : List Token}
    (hop : op.level false = c.level) (hc : c.level < 3) (hr : c.level < r.level)
    (hleft : Orders c ts post) (hright : Orders r us post') :
    Orders c (ts ++ .operator op false :: us) (post ++ post' ++ [.operator op false]) := by
  intro s hs
  have hprec : (op.binding false).precedence = c.level := op.precedence_binary.trans hop
  obtain ⟨s₁, hrun₁, ha₁⟩ := hleft s hs
  rw [← hop] at ha₁
  obtain ⟨s₂, hstep, hout₂, hstack₂⟩ := ha₁.step_operator (hop ▸ hs hc)
  obtain ⟨s₃, hrun₃, done, waiting, rfl, hout₃, hstack₃, hw⟩ :=
    hright s₂ (hstack₂ ▸ Category.admits_cons_operator s.stack (hprec ▸ hr))
  refine ⟨s₃, ?_, post ++ done, waiting ++ [.operator op false], by simp, ?_, ?_, ?_⟩
  · rw [run_append, hrun₁, bind_ok, run_cons, hstep]
    exact hrun₃
  · rw [hout₃, hout₂, List.append_assoc]
  · rw [hstack₃, hstack₂, List.append_assoc]
    rfl
  · intro t ht
    rcases List.mem_append.mp ht with ht | ht
    · exact Token.bindsAtLeast_mono (Nat.le_of_lt hr) (hw t ht)
    · obtain rfl := List.mem_singleton.mp ht
      simp [Token.bindsAtLeast, hprec]

/-- The tokens of a tree, on any stack that admits it. -/
theorem orders_tokens {c : Category} (d : Derivation c) : Orders c d.tokens d.postOrder := by
  induction d with
  | add left op hop right ihl ihr =>
    exact ihl.node (by simp [Operator.level, hop, Category.level]) (by decide) (by decide) ihr
  | mul left op hop right ihl ihr =>
    exact ihl.node (by simp [Operator.level, hop, Category.level]) (by decide) (by decide) ihr
  | product t ih =>
    intro s hs
    obtain ⟨s', hrun, ha⟩ := ih s hs.sum_to_product
    exact ⟨s', hrun, ha.mono (by decide)⟩
  | signed u ih =>
    intro s _
    obtain ⟨s', hrun, ha⟩ := ih s (fun hlt => absurd hlt (by decide))
    exact ⟨s', hrun, ha.mono (by decide)⟩
  | sign op hop u ih =>
    intro s _
    -- the implicit zero is written, and the sign waits above whatever was there before
    let s₁ : Yard := { s with output := s.output.push (.number "0") }
    have hzero : Advances (op.level true) s s₁ [.number "0"] :=
      ⟨[.number "0"], [], rfl, by simp [s₁], rfl, by simp⟩
    have hnone : s.stack.takeWhile (Token.bindsAtLeast (op.level true)) = [] := by
      cases s.stack with
      | nil => rfl
      | cons t stack =>
        apply List.takeWhile_cons_of_neg
        simp [Operator.level, Token.bindsAtLeast_four]
    obtain ⟨s₂, hstep, hout₂, hstack₂⟩ := hzero.step_operator hnone
    obtain ⟨s₃, hrun, done, waiting, hpost, hout₃, hstack₃, hw⟩ :=
      ih s₂ (fun hlt => absurd hlt (by decide))
    refine ⟨s₃, ?_, .number "0" :: done, waiting ++ [.operator op true], ?_, ?_, ?_, ?_⟩
    · rw [Derivation.tokens, run_cons, step, bind_ok, run_cons, hstep]
      exact hrun
    · simp [Derivation.postOrder, hpost]
    · rw [hout₃, hout₂, List.append_assoc]
      rfl
    · rw [hstack₃, hstack₂, List.append_assoc]
      rfl
    · intro t ht
      rcases List.mem_append.mp ht with ht | ht
      · exact hw t ht
      · obtain rfl := List.mem_singleton.mp ht
        simp [Token.bindsAtLeast, Category.level]
  | operand p ih =>
    intro s _
    obtain ⟨s', hrun, ha⟩ := ih s (fun hlt => absurd hlt (by decide))
    exact ⟨s', hrun, ha.mono (by decide)⟩
  | number n =>
    intro s _
    refine ⟨{ s with output := s.output.push (.number n.text) }, rfl,
      [.number n.text], [], rfl, ?_, rfl, by simp⟩
    simp
  | group e ih =>
    intro s _
    let s₁ : Yard := { s with stack := .leftParen :: s.stack }
    obtain ⟨s₂, hrun₂, done, waiting, hpost, hout₂, hstack₂, hw⟩ := ih s₁ (fun _ => rfl)
    obtain ⟨s₃, hstep, hout₃, hstack₃⟩ := step_rightParen hstack₂
      fun t ht => Token.ne_leftParen_of_bindsAtLeast (hw t ht)
    refine ⟨s₃, ?_, e.postOrder, [], by simp [Derivation.postOrder], ?_, by simp [hstack₃],
      by simp⟩
    · rw [Derivation.tokens, run_cons, step, bind_ok, run_append, hrun₂, bind_ok, run_cons, hstep]
      rfl
    · rw [hout₃, hout₂, hpost, List.append_assoc]
  | percent p ih =>
    intro s _
    obtain ⟨s₁, hrun, ha⟩ := ih s (fun hlt => absurd hlt (by decide))
    obtain ⟨hout, hstack⟩ := ha.of_operand
    refine ⟨{ s₁ with output := s₁.output.push .percent }, ?_, p.postOrder ++ [.percent], [],
      by simp [Derivation.postOrder], ?_, by simp [hstack], by simp⟩
    · rw [Derivation.tokens, run_append, hrun]
      rfl
    · simp [hout]

theorem close_eq_ok_iff {s : Yard} {post : List Token} :
    s.close = .ok post ↔
      (∀ t ∈ s.stack, t.isParen = false) ∧ s.output.toList ++ s.stack = post := by
  unfold close
  split
  · rename_i h
    obtain ⟨t, ht, hparen⟩ := List.any_eq_true.mp h
    simp only [reduceCtorEq, false_iff, not_and]
    intro hall
    exact absurd (hall t ht) (by simp [hparen])
  · rename_i h
    have hall : ∀ t ∈ s.stack, t.isParen = false := by simpa using h
    exact ⟨fun hok => ⟨hall, Except.ok.inj hok⟩, fun hok => congrArg Except.ok hok.2⟩

/-! ### Groups -/

/-- A state inside a group: what was written before stands in front, and the opening parenthesis
with everything that waits outside stands below. -/
def inside (out : Array Token) (below : List Token) (s : Yard) : Yard :=
  ⟨out ++ s.output, s.stack ++ .leftParen :: below⟩

/-- A closing parenthesis is taken only if its group is open. -/
theorem exists_of_step_rightParen {s s' : Yard} (h : s.step .rightParen = .ok s') :
    ∃ waiting below : List Token, s.stack = waiting ++ .leftParen :: below ∧
      (∀ t ∈ waiting, (t != .leftParen) = true) ∧ s' = ⟨s.output ++ waiting, below⟩ := by
  simp only [step] at h
  cases hdrop : s.stack.dropWhile (· != .leftParen) with
  | nil => simp [hdrop] at h
  | cons t below =>
    rw [hdrop] at h
    obtain rfl : t = .leftParen := by
      have hhead := List.head?_dropWhile_not (· != Token.leftParen) s.stack
      simpa [hdrop] using hhead
    have hsplit := List.takeWhile_append_dropWhile (p := (· != Token.leftParen)) (l := s.stack)
    rw [hdrop] at hsplit
    exact ⟨_, below, hsplit.symm, fun t ht => List.all_eq_true.mp List.all_takeWhile t ht,
      (Except.ok.inj h).symm⟩

/-- A step that succeeds does the same inside a group. -/
theorem step_inside {out : Array Token} {below : List Token} {s s' : Yard} {t : Token}
    (h : s.step t = .ok s') : (s.inside out below).step t = .ok (s'.inside out below) := by
  cases t with
  | number text =>
    obtain rfl := Except.ok.inj h
    exact congrArg Except.ok (eq_of_toList (by simp [inside]) rfl)
  | percent =>
    obtain rfl := Except.ok.inj h
    exact congrArg Except.ok (eq_of_toList (by simp [inside]) rfl)
  | operator op unary =>
    -- the parenthesis stops the operator, if nothing before it does
    obtain rfl := Except.ok.inj h
    have htake : (s.stack ++ .leftParen :: below).takeWhile
        (Token.goesBefore (op.binding unary)) =
          s.stack.takeWhile (Token.goesBefore (op.binding unary)) := by
      rw [List.takeWhile_append]
      split
      · rename_i hlen
        simp [Token.goesBefore, (List.takeWhile_prefix _).eq_of_length hlen]
      · rfl
    have hdrop : (s.stack ++ .leftParen :: below).dropWhile
        (Token.goesBefore (op.binding unary)) =
          s.stack.dropWhile (Token.goesBefore (op.binding unary)) ++ .leftParen :: below := by
      rw [List.dropWhile_append]
      split
      · rename_i hempty
        simp [Token.goesBefore, List.isEmpty_iff.mp hempty]
      · rfl
    refine congrArg Except.ok (eq_of_toList ?_ ?_)
    · simp [inside, htake]
    · simp [inside, hdrop]
  | leftParen =>
    obtain rfl := Except.ok.inj h
    rfl
  | rightParen =>
    -- the group that ends here was opened inside
    obtain ⟨waiting, outer, hstack, hw, rfl⟩ := exists_of_step_rightParen h
    have hinside : (s.inside out below).stack =
        waiting ++ .leftParen :: (outer ++ .leftParen :: below) := by
      simp [inside, hstack]
    obtain ⟨s'', hstep, hout, hbelow⟩ := step_rightParen hinside hw
    rw [hstep]
    exact congrArg Except.ok (eq_of_toList (by simp [hout, inside]) hbelow)

theorem run_inside {out : Array Token} {below : List Token} {s s' : Yard} {ts : List Token}
    (h : s.run ts = .ok s') : (s.inside out below).run ts = .ok (s'.inside out below) := by
  induction ts generalizing s with
  | nil =>
    obtain rfl : s = s' := by simpa using h
    rfl
  | cons t ts ih =>
    obtain ⟨s₁, hstep, hrun⟩ := bind_eq_ok_iff.mp h
    rw [run_cons, step_inside hstep]
    exact ih hrun

/-- Tokens that are ordered by themselves are written in that order when they stand in
parentheses, and leave the stack as it was. -/
theorem run_group {ts post : List Token} (h : evaluationOrder ts = .ok post) (s : Yard) :
    ∃ s', s.run (.leftParen :: (ts ++ [.rightParen])) = .ok s' ∧
      s'.output.toList = s.output.toList ++ post ∧ s'.stack = s.stack := by
  obtain ⟨s₁, hrun, hclose⟩ := bind_eq_ok_iff.mp h
  obtain ⟨hparen, rfl⟩ := close_eq_ok_iff.mp hclose
  have hrun' : (empty.inside s.output s.stack).run ts = .ok (s₁.inside s.output s.stack) :=
    run_inside hrun
  obtain ⟨s', hstep, hout, hstack⟩ := step_rightParen (s := s₁.inside s.output s.stack) rfl
    fun t ht => by
      cases t with
      | leftParen => exact absurd (hparen _ ht) (by simp [Token.isParen])
      | _ => simp
  refine ⟨s', ?_, by simp [hout, inside], hstack⟩
  have hopen : s.step .leftParen = .ok (empty.inside s.output s.stack) :=
    congrArg Except.ok (eq_of_toList (by simp [inside, empty]) rfl)
  rw [run_cons, hopen, bind_ok, run_append, hrun', bind_ok, run_cons, hstep]
  rfl

end Yard

/-! ### Parentheses -/

/-- Whether every group that is open or is opened is closed once, and no other. The number says how
many are open at the start. -/
def groupsClose : Nat → List Token → Bool
  | depth, [] => depth == 0
  | depth, .leftParen :: ts => groupsClose (depth + 1) ts
  | 0, .rightParen :: _ => false
  | depth + 1, .rightParen :: ts => groupsClose depth ts
  | depth, .number _ :: ts | depth, .operator .. :: ts | depth, .percent :: ts =>
    groupsClose depth ts

/-- How many groups are open at a state of the yard. -/
def Yard.depth (s : Yard) : Nat := s.stack.count .leftParen

/-- What is left to close is counted alike before and after a step. -/
theorem Yard.groupsClose_step {s s' : Yard} {t : Token} (hstep : s.step t = .ok s')
    (ts : List Token) : groupsClose s.depth (t :: ts) = groupsClose s'.depth ts := by
  cases t with
  | number text =>
    obtain rfl := Except.ok.inj hstep
    rfl
  | percent =>
    obtain rfl := Except.ok.inj hstep
    rfl
  | operator op unary =>
    obtain rfl := Except.ok.inj hstep
    -- an operator removes operators only
    have hcount := congrArg (List.count Token.leftParen)
      (List.takeWhile_append_dropWhile (p := Token.goesBefore (op.binding unary)) (l := s.stack))
    have hnone : (s.stack.takeWhile (Token.goesBefore (op.binding unary))).count .leftParen = 0 :=
      List.count_eq_zero.mpr fun hmem => by
        simpa [Token.goesBefore] using List.all_eq_true.mp List.all_takeWhile _ hmem
    have hdepth : s.depth = (s.stack.dropWhile (Token.goesBefore (op.binding unary))).count
        .leftParen := by
      rw [List.count_append, hnone, Nat.zero_add] at hcount
      exact hcount.symm
    rw [groupsClose, hdepth]
    simp [depth]
  | leftParen =>
    obtain rfl := Except.ok.inj hstep
    rw [groupsClose]
    simp [depth]
  | rightParen =>
    obtain ⟨waiting, outer, hstack, hw, rfl⟩ := exists_of_step_rightParen hstep
    have hnone : waiting.count .leftParen = 0 :=
      List.count_eq_zero.mpr fun hmem => by simpa using hw _ hmem
    have hdepth : s.depth = outer.count .leftParen + 1 := by
      simp [depth, hstack, hnone]
    rw [hdepth, groupsClose]
    rfl

theorem Yard.groupsClose_of_run {s s' : Yard} {ts : List Token} (hrun : s.run ts = .ok s')
    (h : s'.depth = 0) : groupsClose s.depth ts = true := by
  induction ts generalizing s with
  | nil =>
    obtain rfl : s = s' := by simpa using hrun
    simp [groupsClose, h]
  | cons t ts ih =>
    obtain ⟨s₁, hstep, hrest⟩ := bind_eq_ok_iff.mp hrun
    rw [groupsClose_step hstep]
    exact ih hrest

/-- Tokens that can be ordered have their parentheses in pairs. -/
theorem groupsClose_of_evaluationOrder {ts post : List Token}
    (h : evaluationOrder ts = .ok post) : groupsClose 0 ts = true := by
  obtain ⟨s, hrun, hclose⟩ := bind_eq_ok_iff.mp h
  obtain ⟨hparen, -⟩ := Yard.close_eq_ok_iff.mp hclose
  have hzero : s.depth = 0 :=
    List.count_eq_zero.mpr fun hmem => by simpa [Token.isParen] using hparen _ hmem
  exact Yard.groupsClose_of_run hrun hzero

/-- The tokens of a tree are brought into the post-order of the tree. -/
theorem evaluationOrder_tokens (d : Derivation .sum) :
    evaluationOrder d.tokens = .ok d.postOrder := by
  obtain ⟨s, hrun, done, waiting, hpost, hout, hstack, hw⟩ :=
    Yard.orders_tokens d Yard.empty (fun _ => rfl)
  have hparen : ∀ t ∈ s.stack, t.isParen = false := by
    intro t ht
    have hlevel := hw t (by simpa [hstack, Yard.empty] using ht)
    cases t with
    | operator op unary => rfl
    | _ => simp [Token.bindsAtLeast] at hlevel
  rw [evaluationOrder, hrun, bind_ok, Yard.close_eq_ok_iff]
  exact ⟨hparen, by simp [hout, hstack, hpost, Yard.empty]⟩

end DeskCalculator.Expression
