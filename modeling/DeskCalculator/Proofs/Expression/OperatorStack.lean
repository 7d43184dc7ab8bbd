import Mathlib.Data.List.Chain
import Mathlib.Logic.Relation
import DeskCalculator.Proofs.Expression.Parentheses

/-!
# DeskCalculator.Proofs.Expression.OperatorStack

What waits on the stack of the yard, at every moment of the ordering.

* **Turns.** To take a token the yard lets waiting tokens go one at a time (`Yard.Turn`) and then
  puts the token away (`Yard.settle`). Steps proceed this way (`Yard.step_eq_iff_turns`), and
  between two turns are the moments that a step passes over.
* **Open groups.** As many parentheses wait as were read without a partner (`unmatched`). What a
  partner is, the grammar of balanced words says.
* **Layers.** No waiting token would let the one right below it go (`Yard.Stacked`). Tokens leave
  the stack from the top, and one is put on it only if it lets nothing more go, so this never
  changes. It sorts what waits between two parentheses by how tightly it binds (`Layered`).

Main statement: `Yard.waiting_layered`, for every list of tokens, those that are no expression
included.
-/

namespace DeskCalculator.Expression

/-! ### Turns -/

/-- Whether a waiting token goes to the output before the token in hand is put away. Before an
operator those go that bind tightly enough, before a closing parenthesis the rest of its group. -/
def Token.releases : Token → Token → Bool
  | .operator op unary => Token.goesBefore (op.binding unary)
  | .rightParen => (· != .leftParen)
  | .number _ | .leftParen | .percent => fun _ => false

@[simp] theorem Token.releases_leftParen (t : Token) : t.releases .leftParen = false := by
  cases t <;> rfl

namespace Yard

/-- While a token is in hand, the top of the stack goes to the output. -/
inductive Turn (t : Token) (s : Yard) : Yard → Prop
  | release {top : Token} {below : List Token} (hstack : s.stack = top :: below)
      (htop : t.releases top = true) : Turn t s ⟨s.output.push top, below⟩

/-- Some turns for a token, or none. -/
abbrev Turns (t : Token) : Yard → Yard → Prop := Relation.ReflTransGen (Turn t)

/-- Puts the token in hand away. A closing parenthesis goes together with the top of the stack,
its partner. -/
def settle (s : Yard) : Token → Except Failure Yard
  | .number text => .ok { s with output := s.output.push (.number text) }
  | .percent => .ok { s with output := s.output.push .percent }
  | .operator op unary => .ok { s with stack := .operator op unary :: s.stack }
  | .leftParen => .ok { s with stack := .leftParen :: s.stack }
  | .rightParen =>
    match s.stack with
    | [] => .error .mismatchedParentheses
    | _ :: outer => .ok { s with stack := outer }

theorem settle_rightParen_eq_ok_iff {s s' : Yard} :
    s.settle .rightParen = .ok s' ↔
      ∃ top outer, s.stack = top :: outer ∧ { s with stack := outer } = s' := by
  cases hstack : s.stack <;> simp [settle, hstack]

/-- Turns write tokens from the top of the stack, all of them such as the token in hand lets go. -/
theorem turns_iff {t : Token} {s s' : Yard} :
    Turns t s s' ↔ ∃ gone, s.stack = gone ++ s'.stack ∧
      s'.output.toList = s.output.toList ++ gone ∧ ∀ u ∈ gone, t.releases u = true := by
  constructor
  · intro h
    induction h with
    | refl => exact ⟨[], rfl, by simp, by simp⟩
    | tail _ hturn ih =>
      obtain ⟨gone, hstack, hout, hgone⟩ := ih
      cases hturn with
      | @release top below htops htop =>
        refine ⟨gone ++ [top], by simp [hstack, htops], by simp [hout], fun u hu => ?_⟩
        rcases List.mem_append.mp hu with hu | hu
        · exact hgone u hu
        · obtain rfl := List.mem_singleton.mp hu
          exact htop
  · rintro ⟨gone, hstack, hout, hgone⟩
    induction gone generalizing s with
    | nil =>
      obtain rfl : s' = s := eq_of_toList (by simpa using hout) (by simpa using hstack.symm)
      exact .refl
    | cons top gone ih =>
      refine .head (.release hstack (hgone top (by simp))) (ih rfl (by simpa using hout) ?_)
      exact fun u hu => hgone u (List.mem_cons_of_mem _ hu)

/-- No turn is left exactly if the token in hand does not let the top of the stack go. -/
theorem not_turn_iff {t : Token} {s : Yard} :
    (∀ s', ¬ Turn t s s') ↔ ∀ top ∈ s.stack.head?, t.releases top = false := by
  constructor
  · intro h top htop
    obtain ⟨below, hstack⟩ := List.head?_eq_some_iff.mp htop
    simpa using fun hgo => h _ (.release hstack hgo)
  · rintro h _ ⟨hstack, hgo⟩
    simp [h _ (by rw [hstack]; rfl)] at hgo

/-- The yard after all turns for a token. -/
def released (t : Token) (s : Yard) : Yard :=
  ⟨s.output ++ s.stack.takeWhile t.releases, s.stack.dropWhile t.releases⟩

theorem step_eq_settle (s : Yard) (t : Token) : s.step t = (s.released t).settle t := by
  cases t with
  | operator op unary => rfl
  | rightParen =>
    cases hdrop : s.stack.dropWhile (· != .leftParen) <;>
      simp [step, settle, released, Token.releases, hdrop]
  | number text | percent | leftParen =>
    obtain ⟨out, stack⟩ := s
    cases stack <;> simp [step, settle, released, Token.releases]

/-- The turns for a token end in one way only. -/
theorem turns_and_not_turn_iff {t : Token} {s s' : Yard} :
    (Turns t s s' ∧ ∀ s'', ¬ Turn t s' s'') ↔ s' = s.released t := by
  rw [turns_iff, not_turn_iff]
  constructor
  · rintro ⟨⟨gone, hstack, hout, hgone⟩, hlast⟩
    have hkept : s'.stack.takeWhile t.releases = [] ∧
        s'.stack.dropWhile t.releases = s'.stack := by
      cases hs : s'.stack with
      | nil => exact ⟨rfl, rfl⟩
      | cons top below => simp [hlast top (by simp [hs])]
    refine eq_of_toList ?_ ?_
    · simp [released, hout, hstack, List.takeWhile_append_of_pos hgone, hkept.1]
    · simp [released, hstack, List.dropWhile_append_of_pos hgone, hkept.2]
  · rintro rfl
    refine ⟨⟨s.stack.takeWhile t.releases, ?_, by simp [released], ?_⟩, ?_⟩
    · exact List.takeWhile_append_dropWhile.symm
    · exact fun u hu => List.all_eq_true.mp List.all_takeWhile u hu
    · intro top htop
      have hhead := List.head?_dropWhile_not t.releases s.stack
      rw [show s.stack.dropWhile t.releases = (s.released t).stack from rfl, htop] at hhead
      simpa using hhead

/-- A step takes all turns for its token, one at a time, and then puts the token away. -/
theorem step_eq_iff_turns {s : Yard} {t : Token} {result : Except Failure Yard} :
    s.step t = result ↔
      ∃ s', Turns t s s' ∧ (∀ s'', ¬ Turn t s' s'') ∧ s'.settle t = result := by
  simp only [← and_assoc, turns_and_not_turn_iff, exists_eq_left, step_eq_settle]

end Yard

/-! ### Open groups -/

/-- Whether a parenthesis that opens right before these tokens has its partner among them: a closing
parenthesis such that the parentheses before it pair up. -/
def HasPartner (behind : List Token) : Prop :=
  ∃ inner rest, behind = inner ++ .rightParen :: rest ∧ Balanced (inner.filterMap Token.paren?)

/-- Looks for the partner of a parenthesis, when so many groups inside it are open. -/
def findsPartner : Nat → List Token → Bool
  | _, [] => false
  | depth, .leftParen :: ts => findsPartner (depth + 1) ts
  | 0, .rightParen :: _ => true
  | depth + 1, .rightParen :: ts => findsPartner depth ts
  | depth, .number _ :: ts | depth, .operator .. :: ts | depth, .percent :: ts =>
    findsPartner depth ts

theorem findsPartner_iff {depth : Nat} {ts : List Token} :
    findsPartner depth ts = true ↔
      ∃ inner rest, ts = inner ++ .rightParen :: rest ∧ groupsClose depth inner = true := by
  induction ts generalizing depth with
  | nil => simp [findsPartner]
  | cons t ts ih =>
    -- the partner is the first token or stands behind it
    have hsplit : (∃ inner rest, t :: ts = inner ++ .rightParen :: rest ∧
        groupsClose depth inner = true) ↔
          (t = .rightParen ∧ depth = 0) ∨ ∃ inner rest, ts = inner ++ .rightParen :: rest ∧
            groupsClose depth (t :: inner) = true := by
      constructor
      · rintro ⟨inner, rest, heq, hclose⟩
        cases inner with
        | nil => exact .inl ⟨(List.cons.inj heq).1, by simpa [groupsClose] using hclose⟩
        | cons u inner =>
          obtain ⟨rfl, rfl⟩ := List.cons.inj heq
          exact .inr ⟨inner, rest, rfl, hclose⟩
      · rintro (⟨rfl, rfl⟩ | ⟨inner, rest, rfl, hclose⟩)
        · exact ⟨[], ts, rfl, rfl⟩
        · exact ⟨t :: inner, rest, rfl, hclose⟩
    rw [hsplit]
    cases t with
    | rightParen => cases depth <;> simp [findsPartner, groupsClose, ih]
    | _ => simp [findsPartner, groupsClose, ih]

theorem findsPartner_zero_iff {ts : List Token} : findsPartner 0 ts = true ↔ HasPartner ts := by
  simp only [findsPartner_iff, groupsClose_iff_balanced, HasPartner]

/-- Whether an opening parenthesis has a partner is found by counting. -/
instance (behind : List Token) : Decidable (HasPartner behind) :=
  decidable_of_iff _ findsPartner_zero_iff

/-- How many of the opening parentheses have no partner. -/
def unmatched : List Token → Nat
  | [] => 0
  | .leftParen :: ts => unmatched ts + if HasPartner ts then 0 else 1
  | .number _ :: ts | .operator .. :: ts | .rightParen :: ts | .percent :: ts => unmatched ts

/-- How many groups are open after a token, if so many are before it. -/
def Token.depthAfter (depth : Nat) : Token → Nat
  | .leftParen => depth + 1
  | .rightParen => depth - 1
  | .number _ | .operator .. | .percent => depth

/-- One more open group stays open unless the tokens close it. -/
theorem foldl_depthAfter_succ (ts : List Token) (depth : Nat) :
    ts.foldl Token.depthAfter (depth + 1) =
      ts.foldl Token.depthAfter depth + (!findsPartner depth ts).toNat := by
  induction ts generalizing depth with
  | nil => rfl
  | cons t ts ih =>
    cases t with
    | rightParen => cases depth <;> simp [Token.depthAfter, findsPartner, ih]
    | _ => simp [Token.depthAfter, findsPartner, ih]

theorem foldl_depthAfter_zero (ts : List Token) : ts.foldl Token.depthAfter 0 = unmatched ts := by
  induction ts with
  | nil => rfl
  | cons t ts ih =>
    cases t with
    | leftParen =>
      rw [List.foldl_cons, Token.depthAfter, foldl_depthAfter_succ, ih, unmatched]
      cases hfinds : findsPartner 0 ts <;> simp [← findsPartner_zero_iff, hfinds]
    | _ => simpa [Token.depthAfter, unmatched] using ih

example : unmatched [.leftParen, .leftParen, .number "1", .rightParen, .percent] = 1 := by decide

namespace Yard

variable {s s' : Yard} {t : Token}

/-- Turns close no group. -/
theorem depth_of_turns (h : Turns t s s') : s'.depth = s.depth := by
  obtain ⟨gone, hstack, -, hgone⟩ := turns_iff.mp h
  have hnone : gone.count .leftParen = 0 :=
    List.count_eq_zero.mpr fun hmem => by simpa using hgone _ hmem
  simp [depth, hstack, hnone]

theorem depth_of_step (h : s.step t = .ok s') : s'.depth = t.depthAfter s.depth := by
  obtain ⟨s₁, hturns, hlast, hsettle⟩ := step_eq_iff_turns.mp h
  rw [← depth_of_turns hturns]
  cases t with
  | rightParen =>
    obtain ⟨top, outer, hstack, rfl⟩ := settle_rightParen_eq_ok_iff.mp hsettle
    obtain rfl : top = .leftParen := by
      simpa [Token.releases] using not_turn_iff.mp hlast top (by simp [hstack])
    simp [depth, hstack, Token.depthAfter]
  | _ =>
    obtain rfl := Except.ok.inj hsettle
    simp [depth, Token.depthAfter]

theorem depth_of_run {ts : List Token} (h : s.run ts = .ok s') :
    s'.depth = ts.foldl Token.depthAfter s.depth := by
  induction ts generalizing s with
  | nil =>
    obtain rfl : s = s' := by simpa using h
    rfl
  | cons t ts ih =>
    obtain ⟨s₁, hstep, hrun⟩ := bind_eq_ok_iff.mp h
    rw [ih hrun, depth_of_step hstep, List.foldl_cons]

end Yard

/-! ### Layers -/

/-- From the bottom: at most one operator of a sum, then at most one of a product, then signs. -/
def Layered (segment : List Token) : Prop :=
  ∃ (sum product : Option Operator) (signs : List Operator),
    (∀ op ∈ sum, op = .plus ∨ op = .minus) ∧ (∀ op ∈ product, op = .times ∨ op = .divide) ∧
      segment = sum.toList.map (.operator · false) ++ product.toList.map (.operator · false) ++
        signs.map (.operator · true)

/-- A binary operator lets go every sign, every operator of a product, and those of a sum if it is
one itself. -/
theorem Token.releases_operator (op op' : Operator) (unary : Bool) :
    Token.releases (.operator op false) (.operator op' unary) =
      (unary || !op'.isSign || op.isSign) := by
  cases op <;> cases op' <;> cases unary <;> rfl

/-- An operator that lets nothing more go is the next layer, or one more sign. -/
theorem Layered.concat {segment : List Token} {t : Token} (h : Layered segment)
    (ht : t.isOperator = true) (hlast : ∀ u ∈ segment.getLast?, t.releases u = false) :
    Layered (segment ++ [t]) := by
  obtain ⟨sum, product, signs, hsum, hproduct, rfl⟩ := h
  cases t with
  | operator op unary =>
    cases unary with
    | true => exact ⟨sum, product, signs ++ [op], hsum, hproduct, by simp⟩
    | false =>
      -- a sign on top would have gone, and then an operator of a product on top
      obtain rfl : signs = [] := by
        obtain rfl | ⟨_, _, rfl⟩ := signs.eq_nil_or_concat
        · rfl
        · simp [Token.releases_operator] at hlast
      obtain rfl : product = none := by
        cases product with
        | none => rfl
        | some op' =>
          obtain rfl | rfl := hproduct op' rfl
          all_goals simp [Token.releases_operator, Operator.isSign] at hlast
      cases op with
      | plus | minus =>
        obtain rfl : sum = none := by
          cases sum with
          | none => rfl
          | some op' => simp [Token.releases_operator, Operator.isSign] at hlast
        exact ⟨some _, none, [], by simp, by simp, rfl⟩
      | times => exact ⟨sum, some .times, [], hsum, by simp, by simp⟩
      | divide => exact ⟨sum, some .divide, [], hsum, by simp, by simp⟩
  | _ => simp [Token.isOperator] at ht

/-- Operators of which none would let the one right below it go. -/
theorem layered_of_isChain {segment : List Token}
    (hchain : segment.IsChain fun lower upper => upper.releases lower = false)
    (hop : ∀ u ∈ segment, u.isOperator = true) : Layered segment := by
  -- from the bottom upwards, as the operators were put on the stack
  induction segment using List.reverseRecOn with
  | nil => exact ⟨none, none, [], by simp, by simp, rfl⟩
  | append_singleton segment t ih =>
    obtain ⟨hbelow, -, hlast⟩ := List.isChain_append.mp hchain
    refine (ih hbelow fun u hu => hop u (by simp [hu])).concat (hop t (by simp)) ?_
    exact fun u hu => hlast u hu t rfl

namespace Yard

/-- No waiting token would let the one right below it go. -/
def Stacked (s : Yard) : Prop := s.stack.IsChain fun upper lower => upper.releases lower = false

variable {s s' : Yard} {t : Token}

theorem stacked_empty : Stacked empty := .nil

theorem Stacked.of_turns (hs : s.Stacked) (h : Turns t s s') : s'.Stacked := by
  obtain ⟨gone, hstack, -, -⟩ := turns_iff.mp h
  exact hs.suffix ⟨gone, hstack.symm⟩

/-- A token that lets nothing more go may be put away. -/
theorem Stacked.settle (hs : s.Stacked) (hlast : ∀ s'', ¬ Turn t s s'')
    (h : s.settle t = .ok s') : s'.Stacked := by
  cases t with
  | number text | percent =>
    obtain rfl := Except.ok.inj h
    exact hs
  | operator op unary | leftParen =>
    obtain rfl := Except.ok.inj h
    exact hs.cons (not_turn_iff.mp hlast)
  | rightParen =>
    obtain ⟨top, outer, hstack, rfl⟩ := settle_rightParen_eq_ok_iff.mp h
    exact hs.suffix ⟨[top], hstack.symm⟩

theorem Stacked.step (hs : s.Stacked) (h : s.step t = .ok s') : s'.Stacked := by
  obtain ⟨s₁, hturns, hlast, hsettle⟩ := step_eq_iff_turns.mp h
  exact (hs.of_turns hturns).settle hlast hsettle

theorem Stacked.run {ts : List Token} (hs : s.Stacked) (h : s.run ts = .ok s') : s'.Stacked := by
  induction ts generalizing s with
  | nil =>
    obtain rfl : s = s' := by simpa using h
    exact hs
  | cons t ts ih =>
    obtain ⟨s₁, hstep, hrun⟩ := bind_eq_ok_iff.mp h
    exact ih (hs.step hstep) hrun

/-- **Operators wait in layers.** Let the tokens `read` have been dealt with, and let a token `t` be
in hand that has let some waiting tokens go, or none. Only operators and opening parentheses wait,
as many parentheses as `read` has without a partner; and from the bottom to the top, what waits
without a parenthesis in between is at most one operator of a sum, at most one of a product, and
signs. -/
theorem waiting_layered {read : List Token} {s s' : Yard} {t : Token}
    (hrun : empty.run read = .ok s) (hturns : Turns t s s') :
    (∀ u ∈ s'.stack, u = .leftParen ∨ u.isOperator = true) ∧
      s'.stack.count .leftParen = unmatched read ∧
      ∀ segment, segment <:+: s'.stack.reverse → .leftParen ∉ segment → Layered segment := by
  obtain ⟨gone, hstack, -, -⟩ := turns_iff.mp hturns
  have hsorted : ∀ u ∈ s'.stack, u = .leftParen ∨ u.isOperator = true := fun u hu =>
    (sorted_empty.run hrun).mem_stack u (hstack ▸ List.mem_append_right _ hu)
  refine ⟨hsorted, ?_, fun segment hsegment hparen => ?_⟩
  · calc s'.depth = s.depth := depth_of_turns hturns
      _ = read.foldl Token.depthAfter 0 := depth_of_run hrun
      _ = unmatched read := foldl_depthAfter_zero read
  · obtain ⟨below, above, hsplit⟩ := hsegment
    have hchain := List.isChain_reverse.mpr ((stacked_empty.run hrun).of_turns hturns)
    rw [← hsplit] at hchain
    refine layered_of_isChain hchain.left_of_append.right_of_append fun u hu => ?_
    refine (hsorted u (List.mem_reverse.mp (hsplit ▸ by simp [hu]))).resolve_left ?_
    rintro rfl
    exact hparen hu

/-- A closed group, and an open one in which a quotient and two signs wait. -/
def openQuotient : List Token :=
  [.leftParen, .number "1", .rightParen, .operator .plus false, .number "2",
    .operator .times false, .leftParen, .number "3", .operator .divide false, .number "0",
    .operator .minus true, .number "0", .operator .minus true, .number "4"]

/-- A further operator of a product, when one of the two signs has gone. -/
theorem waiting_layered_of_openQuotient :
    ∃ s s' : Yard, empty.run openQuotient = .ok s ∧ Turns (.operator .times false) s s' ∧
      s'.stack = [.operator .minus true, .operator .divide false, .leftParen,
        .operator .times false, .operator .plus false] ∧
      s'.stack.count .leftParen = unmatched openQuotient ∧
      Layered [.operator .divide false, .operator .minus true] ∧
      Layered [.operator .plus false, .operator .times false] := by
  obtain ⟨s, hrun, hstack⟩ : ∃ s, empty.run openQuotient = .ok s ∧ s.stack =
      [.operator .minus true, .operator .minus true, .operator .divide false, .leftParen,
        .operator .times false, .operator .plus false] := ⟨_, rfl, rfl⟩
  have hturns : Turns (.operator .times false) s _ := .single (.release hstack rfl)
  obtain ⟨-, hcount, hlayered⟩ := waiting_layered hrun hturns
  refine ⟨s, _, hrun, hturns, rfl, hcount, hlayered _ ?_ (by simp), hlayered _ ?_ (by simp)⟩
  · exact ⟨[.operator .plus false, .operator .times false, .leftParen], [], rfl⟩
  · exact ⟨[], [.leftParen, .operator .divide false, .operator .minus true], rfl⟩

end Yard

end DeskCalculator.Expression
