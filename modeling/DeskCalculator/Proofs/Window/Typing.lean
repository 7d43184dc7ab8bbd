import DeskCalculator.Proofs.Input.Literals
import DeskCalculator.Proofs.Window.Steps

/-!
# DeskCalculator.Proofs.Window.Typing

The line holds nothing but typable texts while a person uses the window without a history file.

What is typed stays in the language by the editing rules, results belong to it, and the entries that
can be recalled were on the line before (`Typed.step`). So the only fault of a number that can be
met is a literal above the finite values.

Main statement: `typable_exactly`, for the line alone and for all runs of the window.
-/

namespace DeskCalculator

open Expression (FailureKind)
open Numeric.Binary64 (rankValue greatestRank)

theorem Outcome.typable_of_success {expression value : String}
    (h : Outcome.ofExpression expression = .success value) : Input.Typable value.toList := by
  obtain ⟨x, y, -, -, rfl⟩ := calculate_eq_ok_iff.mp (Outcome.ofExpression_eq_success_iff.mp h)
  exact Input.typable_resultText y

namespace Window

open History (Entry Store)
open Input (Typable TypableText)

/-- The line and the expressions of the history are typable. -/
structure Typed (w : Window) : Prop where
  line : TypableText w.input.text
  history : ∀ entry ∈ w.history.entries, TypableText entry.expression

variable {w w' : Window} {fault? : Option History.Fault}

theorem InputChange.typable (h : InputChange w w') (hw : w.Typed) : TypableText w'.input.text := by
  cases h with
  | kept input => rw [input]; exact hw.line
  | edited edit input => rw [input]; exact Input.typable_edit hw.line edit
  | @result expression value outcome input =>
    rw [input]
    exact ⟨value, rfl, Outcome.typable_of_success outcome⟩
  | recalled mem input => rw [input]; exact hw.history _ mem

theorem HistoryChange.typable (h : HistoryChange w w' fault?) (hw : w.Typed) :
    ∀ entry ∈ w'.history.entries, TypableText entry.expression := by
  intro entry hentry
  obtain hold | ⟨expression, value, rfl, hline, -⟩ := h.mem_entries hentry
  · exact hw.history entry hold
  · show TypableText expression
    rw [← hline]
    exact hw.line

/-- No event of a person puts anything else on the line or into the history. -/
theorem Typed.step (hw : w.Typed) {e : Event} (he : e.isManual = true) : (w.step e).1.Typed where
  line := (inputChange_step w he).typable hw
  history := (historyChange_step w e).typable hw

theorem Typed.run (hw : w.Typed) {events : List Event} (h : ∀ e ∈ events, e.isManual = true) :
    (w.run events).Typed :=
  run_invariant (P := Typed) (fun _ _ he hw => hw.step he) h hw

theorem typed_of_start {start : Window} (h : start ∈ [(launch none).1, bare]) : start.Typed := by
  have hnew : ∀ history : Store, history.entries = [] → (new history).Typed := fun history hempty =>
    { line := Input.typableText_empty
      history := fun entry hentry => absurd (hempty ▸ hentry) List.not_mem_nil }
  rw [List.mem_cons, List.mem_singleton] at h
  obtain rfl | rfl := h <;> exact hnew _ rfl

/-- A failure that a typable text can come to, as far as its characters and its numbers go: every
character may stand in an expression, and a number is refused only if some literal of the text is
above every finite value. -/
def Explained (text : LooseText) (kind : FailureKind) : Prop :=
  kind ≠ .invalidCharacter ∧
    (kind = .invalidNumber → ∃ line : String, text = line ∧
      ∃ literal ∈ Input.segments line.toList, Input.IsLiteral literal ∧
        rankValue greatestRank < (Input.literalDecimal literal).value)

theorem explained_of_typable {text : LooseText} (h : TypableText text) {kind : FailureKind}
    (hkind : (Outcome.ofText text).kind? = some kind) : Explained text kind := by
  obtain ⟨line, rfl, hline⟩ := h
  rw [Outcome.ofText_ofString] at hkind
  constructor
  · rintro rfl
    exact hline.kind?_ne_invalidCharacter hkind
  · rintro rfl
    exact ⟨line, rfl, hline.exists_lt_of_invalidNumber hkind⟩

/-- **What can be typed is exactly the language of typable texts**, and evaluation can complain
about the numbers of such a text only if they are too large.

* No row of edits on an empty line leaves the language, and every text of the language is typed as
  it stands, key by key, with no key refused.
* While a person uses a window that began without a history file, the line and all expressions of
  the history stay in the language. So whatever is calculated, and whatever a further event reports
  as rejected, fails for no character and for no number that is not too large. -/
theorem typable_exactly :
    (∀ row : List Input.Edit, TypableText (Input.empty.edits row).text) ∧
    (∀ text : String, Typable text.toList →
      Input.empty.pressAll text.toList = (⟨text⟩, List.replicate text.toList.length true)) ∧
    ∀ start ∈ [(launch none).1, bare], ∀ events : List Event, (∀ e ∈ events, e.isManual = true) →
      let w := start.run events
      TypableText w.input.text ∧
      (∀ entry ∈ w.history.entries, TypableText entry.expression) ∧
      (∀ kind, (Outcome.ofText w.input.text).kind? = some kind → Explained w.input.text kind) ∧
      ∀ e expression kind, Notice.expressionRejected expression kind ∈ (w.step e).2.notices →
        Explained expression kind := by
  refine ⟨fun row => Input.typable_edits Input.typableText_empty row, fun text htext => ?_,
    fun start hstart events hevents => ?_⟩
  · rw [Input.pressAll_of_typable htext, String.ofList_toList]
  · intro w
    have hw : w.Typed := (typed_of_start hstart).run hevents
    refine ⟨hw.line, hw.history, fun kind hkind => explained_of_typable hw.line hkind, ?_⟩
    intro e expression kind hrejected
    obtain ⟨rfl, hkind⟩ := kind?_of_mem_notices hrejected
    exact explained_of_typable hw.line hkind

/-- A quarter is typed on a line alone; and then on the keyboard and with a key of the screen. -/
theorem typable_exactly_of_quarter :
    Typable "1/4".toList ∧ Input.empty.pressAll "1/4".toList = (⟨"1/4"⟩, [true, true, true]) ∧
    let events := [.typed "1", .button "÷", .typed "4", .shortcut .enter]
    (∀ e ∈ events, e.isManual = true) ∧
      TypableText ((launch none).1.run events).input.text := by
  obtain ⟨hedits, hpress, hruns⟩ := typable_exactly
  have hquarter : Typable "1/4".toList := by
    have htyped := hedits [.key '1' (by decide), .key '/' (by decide), .key '4' (by decide)]
    have htext : (Input.empty.edits
        [.key '1' (by decide), .key '/' (by decide), .key '4' (by decide)]).text = "1/4" := by decide
    obtain ⟨line, hline, htyped⟩ := htyped
    rwa [LooseText.ofString_inj.mp (htext.symm.trans hline)]
  refine ⟨hquarter, hpress "1/4" hquarter, ?_⟩
  intro events
  have hmanual : ∀ e ∈ events, e.isManual = true := by decide
  have hstart : (launch none).1 ∈ [(launch none).1, bare] := List.mem_cons_self
  exact ⟨hmanual, (hruns _ hstart events hmanual).1⟩

end Window

end DeskCalculator
