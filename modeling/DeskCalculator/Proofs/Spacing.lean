import DeskCalculator.Proofs.Expression.Scanning

/-!
# DeskCalculator.Proofs.Spacing

Blanks matter inside a number and nowhere else.

* **Elsewhere** nothing can tell whether they are there. All that blanks do is to close the run of
  digits that is open, and a character that is no part of a number closes it as well
  (`Scan.map_close_run`). If such a character stood before the blanks, no run was open
  (`Scan.digits_eq_empty_iff_of_run`).
* **Inside a number** the run is parted. The tokens before the parted number and after it stay as
  they are, because no operand is awaited after a number, be it one or two
  (`Scan.run_after_congr`).

Main statement: `Outcome.ofExpression_spaced`, for all texts and any blanks between them.
-/

namespace DeskCalculator

namespace Expression

namespace Scan

variable {s s' : Scan} {c : Char} {text : List Char}

/-! ### Open and closed runs -/

/-- A character of no number closes the run before it, so it does not matter if that has been
done. -/
theorem step_closed (s : Scan) (hc : isNumberChar c = false) :
    s.step c = step ⟨s.close, ""⟩ c := by
  simp [step, hc]

/-- Only a character of a number leaves a run of digits open. -/
theorem digits_eq_empty_iff_of_step (h : s.step c = .ok s') :
    s'.digits = "" ↔ isNumberChar c = false := by
  cases hc : isNumberChar c with
  | true =>
    rw [step, if_pos hc] at h
    rw [← Except.ok.inj h]
    simp
  | false =>
    rcases exists_lexeme_of_step hc h with hblank | ⟨l, hchars, hnum⟩
    · rw [step_of_isBlank s hblank] at h
      simp [← Except.ok.inj h]
    · rw [step_of_chars s hchars hnum] at h
      simp [← Except.ok.inj h]

/-- Whether a run of digits is open at the end of a text is told by its last character. -/
theorem digits_eq_empty_iff_of_run (h : empty.run text = .ok s) :
    s.digits = "" ↔ text.getLast?.any isNumberChar = false := by
  rcases List.eq_nil_or_concat text with rfl | ⟨front, c, rfl⟩
  · rw [← Except.ok.inj h]
    exact ⟨fun _ => rfl, fun _ => rfl⟩
  · rw [List.concat_eq_append, run_append] at h
    obtain ⟨s₁, -, hstep⟩ := bind_eq_ok_iff.mp h
    rw [run_singleton] at hstep
    simpa using digits_eq_empty_iff_of_step hstep

/-- It does not matter whether the open run has been closed, if there is none or if the text does
not go on with it. -/
theorem map_close_run (h : s.digits = "" ∨ text.head?.any isNumberChar = false) :
    (s.run text).map close = (run ⟨s.close, ""⟩ text).map close := by
  rcases h with hdigits | hhead
  · have hclosed : (⟨s.close, ""⟩ : Scan) = s := by
      rw [close, if_pos hdigits, ← hdigits]
    rw [hclosed]
  · cases text with
    | nil => rfl
    | cons c text =>
      rw [run_cons, run_cons, step_closed s (by simpa using hhead)]

/-! ### Parted numbers -/

/-- The tokens that a text adds to those before it depend on these only as far as they await an
operand. -/
theorem map_close_run_after {pre pre' ts : Array Token}
    (hpre : awaitsOperand pre = awaitsOperand pre')
    (h : (run ⟨pre, ""⟩ text).map close = .ok ts) :
    ∃ more, ts = pre ++ more ∧ (run ⟨pre', ""⟩ text).map close = .ok (pre' ++ more) := by
  have hempty : ∀ front : Array Token, (⟨front, ""⟩ : Scan) = empty.after front := by
    intro front
    simp [after, empty]
  rw [hempty] at h ⊢
  obtain ⟨t, hrun, rfl⟩ := map_eq_ok_iff.mp h
  obtain ⟨t', rfl, hrun'⟩ := run_after_congr hpre hrun
  exact ⟨t'.close, close_after pre t', by rw [hrun', map_ok, close_after]⟩

/-- A run of digits that is closed and begun anew makes two numbers of one, and what follows is
scanned alike after one number and after two. -/
theorem map_close_run_parted {y : String} {ts : Array Token} (hx : s.digits ≠ "") (hy : y ≠ "")
    (hchars : ∀ c ∈ y.toList, isNumberChar c = true) (htext : text.head?.any isNumberChar = false)
    (h : (s.run (y.toList ++ text)).map close = .ok ts) :
    ∃ more, ts = s.tokens.push (.number (s.digits ++ y)) ++ more ∧
      (run ⟨s.close, ""⟩ (y.toList ++ text)).map close =
        .ok ((s.tokens.push (.number s.digits)).push (.number y) ++ more) := by
  have hone : (⟨s.tokens, s.digits ++ y⟩ : Scan).close = s.tokens.push (.number (s.digits ++ y)) :=
    close_of_digits_ne (by simp [hx])
  have htwo : (⟨s.close, y⟩ : Scan).close =
      (s.tokens.push (.number s.digits)).push (.number y) := by
    rw [close_of_digits_ne hy, close_of_digits_ne hx]
  rw [run_append, run_numberChars hchars, bind_ok, String.ofList_toList, map_close_run (.inr htext),
    hone] at h
  rw [run_append, run_numberChars hchars, bind_ok, String.ofList_toList, String.empty_append,
    map_close_run (.inr htext), htwo]
  exact map_close_run_after (by simp [Token.awaitsNext]) h

end Scan

/-! ### Texts with blanks between them -/

theorem tokenize_eq_map_close (expression : String) :
    tokenize expression = ((Scan.empty.run expression.toList).map Scan.close).map Array.toList := by
  rw [tokenize]
  cases Scan.empty.run expression.toList <;> rfl

/-- A text that begins with a character of a number begins with a number, which ends where other
characters follow or the text does. -/
theorem exists_number_of_head? {text : List Char} (h : text.head?.any isNumberChar = true) :
    ∃ (number : String) (rest : List Char), text = number.toList ++ rest ∧ number ≠ "" ∧
      (∀ c ∈ number.toList, isNumberChar c = true) ∧ rest.head?.any isNumberChar = false := by
  refine ⟨String.ofList (text.takeWhile isNumberChar), text.dropWhile isNumberChar, ?_, ?_, ?_, ?_⟩
  · rw [String.toList_ofList, List.takeWhile_append_dropWhile]
  · cases text with
    | nil => simp at h
    | cons c text =>
      have hc : isNumberChar c = true := by simpa using h
      simp [hc]
  · intro c hc
    rw [String.toList_ofList] at hc
    exact List.all_eq_true.mp List.all_takeWhile c hc
  · rw [Option.any_eq_false]
    intro c hc
    have hnot := List.head?_dropWhile_not isNumberChar text
    rwa [hc] at hnot

/-- A number goes on from one text to the other. -/
def MeetInNumber (a b : String) : Prop :=
  a.toList.getLast?.any isNumberChar = true ∧ b.toList.head?.any isNumberChar = true

section Spaced

variable {a w b : String} (hw : w.toList ≠ []) (hblank : w.toList.all Text.isBlank = true)
include hw hblank

/-- After a text and blanks the run of digits at the end of the text is closed. -/
theorem run_spaced_text {s : Scan} (ha : Scan.empty.run a.toList = .ok s) :
    Scan.empty.run (a ++ w ++ b).toList = Scan.run ⟨s.close, ""⟩ b.toList := by
  rw [String.toList_append, String.toList_append, Scan.run_append, Scan.run_append, ha, bind_ok,
    Scan.run_blanks_of_ne_nil hw hblank, bind_ok]

/-- Blanks that do not stand inside a number change nothing. -/
theorem tokenize_spaced (h : ¬ MeetInNumber a b) : tokenize (a ++ w ++ b) = tokenize (a ++ b) := by
  rw [tokenize_eq_map_close, tokenize_eq_map_close]
  congr 1
  cases ha : Scan.empty.run a.toList with
  | error cause =>
    simp only [String.toList_append, Scan.run_append, ha, bind_error, map_error]
  | ok s =>
    rw [run_spaced_text hw hblank ha, String.toList_append, Scan.run_append, ha, bind_ok]
    refine (Scan.map_close_run ?_).symm
    rw [Scan.digits_eq_empty_iff_of_run ha]
    cases hlast : a.toList.getLast?.any isNumberChar with
    | false => exact .inl rfl
    | true =>
      right
      rw [Bool.eq_false_iff]
      intro hhead
      exact h ⟨hlast, hhead⟩

/-- Blanks inside a number part it, and no other token changes. -/
theorem tokenize_spaced_of_meetInNumber (h : MeetInNumber a b) {ts : List Token}
    (hts : tokenize (a ++ b) = .ok ts) :
    ∃ before x y after, x ≠ "" ∧ y ≠ "" ∧ ts = before ++ .number (x ++ y) :: after ∧
      tokenize (a ++ w ++ b) = .ok (before ++ .number x :: .number y :: after) := by
  rw [tokenize_eq_map_close] at hts
  obtain ⟨tokens, hrun, rfl⟩ := map_eq_ok_iff.mp hts
  obtain ⟨t, hab, rfl⟩ := map_eq_ok_iff.mp hrun
  rw [String.toList_append, Scan.run_append] at hab
  obtain ⟨s, ha, hb⟩ := bind_eq_ok_iff.mp hab
  have hx : s.digits ≠ "" := by
    rw [Ne, Scan.digits_eq_empty_iff_of_run ha, h.1]
    simp
  obtain ⟨y, rest, hsplit, hy, hchars, hrest⟩ := exists_number_of_head? h.2
  rw [hsplit] at hb
  obtain ⟨more, hmore, hparted⟩ :=
    Scan.map_close_run_parted hx hy hchars hrest (map_eq_ok_iff.mpr ⟨t, hb, rfl⟩)
  refine ⟨s.tokens.toList, s.digits, y, more.toList, hx, hy, by simp [hmore], ?_⟩
  rw [tokenize_eq_map_close, run_spaced_text hw hblank ha, hsplit, hparted]
  simp

end Spaced

end Expression

open Expression

/-- **Blanks matter only inside a number.** Between two texts of which the first does not end in a
number that the second goes on with, blanks change neither the tokens nor the outcome, nor the
failure if there is one. Inside a number they part it in two and leave all other tokens alone. -/
theorem Outcome.ofExpression_spaced (a w b : String) (hw : w ≠ "")
    (hblank : ∀ c ∈ w.toList, Text.isBlank c = true) :
    (¬ MeetInNumber a b →
      tokenize (a ++ w ++ b) = tokenize (a ++ b) ∧
        Outcome.ofExpression (a ++ w ++ b) = Outcome.ofExpression (a ++ b)) ∧
    (MeetInNumber a b → ∀ ts, tokenize (a ++ b) = .ok ts →
      ∃ before x y after, x ≠ "" ∧ y ≠ "" ∧ ts = before ++ .number (x ++ y) :: after ∧
        tokenize (a ++ w ++ b) = .ok (before ++ .number x :: .number y :: after)) := by
  have hne : w.toList ≠ [] := by simpa using hw
  have hall : w.toList.all Text.isBlank = true := List.all_eq_true.mpr hblank
  refine ⟨fun h => ?_, fun h ts => tokenize_spaced_of_meetInNumber hne hall h⟩
  have htokens := tokenize_spaced hne hall h
  refine ⟨htokens, Outcome.ofExpression_congr ?_⟩
  rw [evaluate, evaluate, htokens]

/-- Blanks between two minus signs, and inside a number. -/
theorem Outcome.ofExpression_spaced_of_signs :
    ¬ MeetInNumber "7*-" "-2" ∧ tokenize "7*- \t-2" = tokenize "7*--2" ∧
      Outcome.ofExpression "7*- \t-2" = Outcome.ofExpression "7*--2" ∧
      MeetInNumber "(3." "5%" ∧
      ∃ before x y after, x ≠ "" ∧ y ≠ "" ∧
        [.leftParen, .number "3.5", .percent] = before ++ .number (x ++ y) :: after ∧
        tokenize "(3. 5%" = .ok (before ++ .number x :: .number y :: after) := by
  have hsigns : ¬ MeetInNumber "7*-" "-2" := by
    unfold MeetInNumber
    decide
  have hnumber : MeetInNumber "(3." "5%" := by
    unfold MeetInNumber
    decide
  have hblanks : ∀ c ∈ " \t".toList, Text.isBlank c = true := List.all_eq_true.mp (by decide)
  have hblank : ∀ c ∈ " ".toList, Text.isBlank c = true := List.all_eq_true.mp (by decide)
  obtain ⟨htokens, houtcome⟩ :=
    (Outcome.ofExpression_spaced "7*-" " \t" "-2" (by decide) hblanks).1 hsigns
  have hparted := (Outcome.ofExpression_spaced "(3." " " "5%" (by decide) hblank).2 hnumber
  exact ⟨hsigns, htokens, houtcome, hnumber, hparted _ rfl⟩

end DeskCalculator
