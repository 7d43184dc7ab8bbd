import DeskCalculator.Window.State
import DeskCalculator.Proofs.History.Persistence
import DeskCalculator.Proofs.Input.Editing

/-!
# DeskCalculator.Proofs.Window.Steps

What an event can do to a window, said once for all proofs about runs.

* **Effects.** An event ends in one of six ways (`effect_step`). The only actions that it can
  perform are those of keys, unless it is an action itself.
* **Calculating** ends in one of four ways (`calculation`). In one of them a fault ends the handler
  between the change of the history and that of the view.
* **The model.** From these follow the ways in which the history (`historyChange_step`) and the line
  (`inputChange_step`) change.
* **Runs.** What every step preserves is preserved by a run (`run_invariant`), and what every step
  preserves that no fault ends is preserved by a run of such (`run_invariant_of_ended`). Over a
  history of strings no fault ends a step (`isScalar_run`).
-/

namespace DeskCalculator.Window

open History (Entry Fault Store Storage)

/-! ### Events and actions of a person -/

/-- Whether a person causes an event: everything but an action that is given directly. -/
def Event.isManual : Event → Bool
  | .action _ => false
  | _ => true

/-- Whether an action is that of a key: if it types a text, this is a single plain character. -/
def Action.isKey : Action → Bool
  | .clear | .backspace | .equals => true
  | .insert text =>
    match text.points with
    | [.char c] => plainKeys.contains c
    | _ => false
  | .other => false

theorem isKey_of_keyLabelled? {label : String} {key : Key} (h : keyLabelled? label = some key) :
    key.action.isKey = true := by
  have hall : ∀ key ∈ keypad.flatten, key.action.isKey = true := by decide
  exact hall key (List.mem_of_find?_eq_some h)

theorem isKey_of_typedAction? {text : LooseText} {action : Action}
    (h : typedAction? text = some action) : action.isKey = true := by
  unfold typedAction? at h
  split at h
  · obtain rfl := Option.some.inj h
    rfl
  split at h
  · rename_i c htext
    split at h
    · rename_i hplain
      obtain rfl := Option.some.inj h
      simpa only [Action.isKey, htext] using hplain
    · exact absurd h (by simp)
  · exact absurd h (by simp)

theorem isKey_action (key : Shortcut) : key.action.isKey = true := by
  cases key <;> rfl

/-! ### Events that perform actions -/

/-- The action that an event performs, if it performs one. -/
def Event.action? : Event → Option Action
  | .typed text => typedAction? text
  | .shortcut key => some key.action
  | .button label =>
    if label = clearHistoryLabel then none else (keyLabelled? label).map Key.action
  | .action a => some a
  | .pick _ | .toggle _ => none

theorem step_of_action? {w : Window} {e : Event} {action : Action} (h : e.action? = some action) :
    w.step e = reporting (w.perform action) := by
  cases e with
  | typed text =>
    simp only [Event.action?] at h
    simp only [step, h]
  | shortcut key =>
    obtain rfl := Option.some.inj h
    rfl
  | button label =>
    simp only [Event.action?] at h
    split at h
    · exact absurd h (by simp)
    · rename_i hlabel
      obtain ⟨key, hkey, rfl⟩ := Option.map_eq_some_iff.mp h
      simp only [step, if_neg hlabel, hkey]
  | action action' =>
    obtain rfl := Option.some.inj h
    rfl
  | pick line => exact absurd h (by simp [Event.action?])
  | toggle hidden => exact absurd h (by simp [Event.action?])

/-! ### Effects -/

/-- Puts the expression of an entry on the line. -/
def recallEntry (w : Window) (entry : Entry) : Window :=
  refreshDisplay
    { w with
      input := w.input.set entry.expression
      selected := none
      focusCount := w.focusCount + 1 }

/-- What an event can do to a window, and what it comes to besides. -/
inductive Effect (e : Event) (w : Window) : Window × Reply → Prop
  | ignored : Effect e w (w, .report [])
  | performed {action : Action} (performs : e.action? = some action)
      (h : e = .action action ∨ action.isKey = true) : Effect e w (reporting (w.perform action))
  | cleared : Effect e w (reporting w.clearHistory)
  | selected (line : Option Nat) : Effect e w ({ w with selected := line }, .report [])
  | recalled {entry : Entry} (h : entry ∈ w.history.entries) :
    Effect e w (w.recallEntry entry, ⟨true, [], none⟩)
  | toggled (hidden : Bool) : Effect e w ({ w with toggles := w.toggles ++ [hidden] }, .report [])

/-- A pick recalls an entry of the history or leaves a selection behind. -/
theorem effect_recallSelected (e : Event) (w : Window) (line : Option Nat) :
    Effect e w { w with selected := line }.recallSelected := by
  rw [recallSelected]
  split
  · exact .selected line
  · rename_i entry hentry
    obtain ⟨i, -, hi⟩ := Option.bind_eq_some_iff.mp hentry
    have hmem : entry ∈ w.history.latestFirst := List.mem_of_getElem? hi
    exact .recalled (List.mem_reverse.mp hmem)

/-- **What an event can do**, one case for each way in which a handler ends. -/
theorem effect_step (w : Window) (e : Event) : Effect e w (w.step e) := by
  cases e with
  | typed text =>
    rw [step]
    cases haction : typedAction? text with
    | none => exact .ignored
    | some action => exact .performed haction (.inr (isKey_of_typedAction? haction))
  | shortcut key => exact .performed rfl (.inr (isKey_action key))
  | button label =>
    rw [step]
    split
    · exact .cleared
    · rename_i hlabel
      cases hkey : keyLabelled? label with
      | none => exact .ignored
      | some key =>
        refine .performed ?_ (.inr (isKey_of_keyLabelled? hkey))
        rw [Event.action?, if_neg hlabel, hkey]
        rfl
  | action action => exact .performed rfl (.inl rfl)
  | pick line =>
    cases line with
    | none => exact effect_recallSelected _ w w.selected
    | some line =>
      rw [step, select]
      split
      · exact effect_recallSelected _ w (some line.toNat)
      · exact effect_recallSelected _ w none
  | toggle hidden => exact .toggled hidden

/-! ### Calculating -/

theorem continueWith_of_ok {w : Window} {saved : Store × Ending} {rest : Window → Window}
    {notices : List Notice} (h : saved.2 = .ok notices) :
    w.continueWith saved rest = (rest { w with history := saved.1 }, .ok notices) := by
  simp only [continueWith, h]

theorem continueWith_of_error {w : Window} {saved : Store × Ending} {rest : Window → Window}
    {fault : Fault} (h : saved.2 = .error fault) :
    w.continueWith saved rest = ({ w with history := saved.1 }, .error fault) := by
  simp only [continueWith, h]

theorem calculate_of_empty {w : Window} (h : w.input.text = "") : w.calculate = (w, .ok []) := by
  rw [calculate, if_pos h]

theorem calculate_of_failure {w : Window} (h : w.input.text ≠ "")
    {kind : Expression.FailureKind} {message : String}
    (hfailure : Outcome.ofText w.input.text = .failure kind message) :
    w.calculate =
      ({ w with input := .empty, display := rejectionText },
        .ok [.evaluationFailed w.input.text kind message,
          .expressionRejected w.input.text kind]) := by
  rw [calculate, if_neg h, hfailure]
  rfl

theorem calculate_of_success {w : Window} {expression value : String}
    (hline : w.input.text = expression) (hnonempty : expression ≠ "")
    (hsuccess : Outcome.ofExpression expression = .success value) :
    w.calculate =
      w.continueWith (w.history.add ⟨expression, value⟩) fun w => w.showResult value := by
  have hne : w.input.text ≠ "" := by
    rw [hline]
    exact fun h => hnonempty (LooseText.ofString_inj.mp h)
  rw [calculate, if_neg hne, hline, Outcome.ofText_ofString, hsuccess, settle, hline]

/-- What a calculation can come to. -/
inductive Calculation (w : Window) : Window × Ending → Prop
  | empty (line : w.input.text = "") : Calculation w (w, .ok [])
  | rejected {kind : Expression.FailureKind} {message : String}
      (outcome : Outcome.ofText w.input.text = .failure kind message) :
    Calculation w
      ({ w with input := .empty, display := rejectionText },
        .ok [.evaluationFailed w.input.text kind message, .expressionRejected w.input.text kind])
  /-- The expression has a result, and the history with its entry is saved. -/
  | added {expression value : String} {notices : List Notice} (line : w.input.text = expression)
      (nonempty : expression ≠ "") (outcome : Outcome.ofExpression expression = .success value)
      (saved : (w.history.add ⟨expression, value⟩).2 = .ok notices) :
    Calculation w
      (showResult { w with history := (w.history.add ⟨expression, value⟩).1 } value, .ok notices)
  /-- The expression has a result, and a fault ends the saving of its entry. -/
  | unsaved {expression value : String} {fault : Fault} (line : w.input.text = expression)
      (nonempty : expression ≠ "") (outcome : Outcome.ofExpression expression = .success value)
      (failed : (w.history.add ⟨expression, value⟩).2 = .error fault) :
    Calculation w ({ w with history := (w.history.add ⟨expression, value⟩).1 }, .error fault)

/-- **What a calculation can come to**, one case for each way in which it ends. -/
theorem calculation (w : Window) : Calculation w w.calculate := by
  by_cases hempty : w.input.text = ""
  · rw [calculate_of_empty hempty]
    exact .empty hempty
  cases houtcome : Outcome.ofText w.input.text with
  | failure kind message =>
    rw [calculate_of_failure hempty houtcome]
    exact .rejected houtcome
  | success value =>
    obtain ⟨expression, hline, hsuccess⟩ := Outcome.ofText_eq_success_iff.mp houtcome
    have hnonempty : expression ≠ "" := by
      rintro rfl
      exact hempty hline
    rw [calculate_of_success hline hnonempty hsuccess]
    cases hsaved : (w.history.add ⟨expression, value⟩).2 with
    | ok notices =>
      rw [continueWith_of_ok hsaved]
      exact .added hline hnonempty hsuccess hsaved
    | error fault =>
      rw [continueWith_of_error hsaved]
      exact .unsaved hline hnonempty hsuccess hsaved

/-- Nothing keeps the history from being cleared. -/
theorem clearHistory_eq (w : Window) :
    ∃ notices, w.history.clear.2 = .ok notices ∧
      w.clearHistory = (refreshList { w with history := w.history.clear.1 }, .ok notices) := by
  obtain ⟨notices, hsaved⟩ := isOk_iff.mp w.history.isOk_clear
  exact ⟨notices, hsaved, continueWith_of_ok hsaved⟩

/-! ### Changes of the model -/

/-- How a step changes the history, and the fault that ends its handler. The list is refreshed
whenever the history changes, unless a fault comes before. -/
inductive HistoryChange (w w' : Window) : Option Fault → Prop
  | kept (history : w'.history = w.history) (lines : w'.lines = w.lines) : HistoryChange w w' none
  | added {expression value : String} (line : w.input.text = expression)
      (nonempty : expression ≠ "") (outcome : Outcome.ofExpression expression = .success value)
      (saved : (w.history.add ⟨expression, value⟩).2.isOk = true)
      (history : w'.history = (w.history.add ⟨expression, value⟩).1)
      (lines : w'.lines = w'.history.latestFirst.map Entry.line) : HistoryChange w w' none
  | unsaved {expression value : String} {fault : Fault} (line : w.input.text = expression)
      (nonempty : expression ≠ "") (outcome : Outcome.ofExpression expression = .success value)
      (failed : (w.history.add ⟨expression, value⟩).2 = .error fault)
      (window : w' = { w with history := (w.history.add ⟨expression, value⟩).1 }) :
    HistoryChange w w' (some fault)
  | cleared (history : w'.history = w.history.clear.1)
      (lines : w'.lines = w'.history.latestFirst.map Entry.line) : HistoryChange w w' none

theorem historyChange_calculate (w : Window) :
    HistoryChange w w.calculate.1 (Reply.ofEnding w.calculate.2).fault? := by
  have hcalculation := calculation w
  generalize w.calculate = result at hcalculation
  cases hcalculation with
  | empty => exact .kept rfl rfl
  | rejected => exact .kept rfl rfl
  | added line nonempty outcome saved =>
    exact .added line nonempty outcome (by rw [saved]; rfl) rfl rfl
  | unsaved line nonempty outcome failed => exact .unsaved line nonempty outcome failed rfl

theorem Effect.historyChange {e : Event} {w : Window} {result : Window × Reply}
    (h : Effect e w result) : HistoryChange w result.1 result.2.fault? := by
  cases h with
  | @performed action =>
    cases action with
    | equals => exact historyChange_calculate w
    | _ => exact .kept rfl rfl
  | cleared =>
    obtain ⟨notices, -, hcleared⟩ := clearHistory_eq w
    rw [hcleared]
    exact .cleared rfl rfl
  | _ => exact .kept rfl rfl

theorem historyChange_step (w : Window) (e : Event) :
    HistoryChange w (w.step e).1 (w.step e).2.fault? :=
  (effect_step w e).historyChange

/-- An entry that was not in the history before is the line with its result. -/
theorem HistoryChange.mem_entries {w w' : Window} {fault? : Option Fault}
    (h : HistoryChange w w' fault?) {entry : Entry} (hentry : entry ∈ w'.history.entries) :
    entry ∈ w.history.entries ∨ ∃ expression value : String, entry = ⟨expression, value⟩ ∧
      w.input.text = expression ∧ expression ≠ "" ∧
      Outcome.ofExpression expression = .success value := by
  have hadd : ∀ {added : Entry}, entry ∈ (w.history.add added).1.entries →
      entry ∈ w.history.entries ∨ entry = added := fun {added} hmem => by
    rw [Store.entries_add] at hmem
    obtain hold | hnew := List.mem_append.mp (History.mem_of_mem_keepLast hmem)
    · exact .inl hold
    · exact .inr (List.mem_singleton.mp hnew)
  cases h with
  | kept history => exact .inl (history ▸ hentry)
  | added line nonempty outcome saved history =>
    exact (hadd (history ▸ hentry)).imp_right fun hnew => ⟨_, _, hnew, line, nonempty, outcome⟩
  | unsaved line nonempty outcome failed window =>
    rw [window] at hentry
    exact (hadd hentry).imp_right fun hnew => ⟨_, _, hnew, line, nonempty, outcome⟩
  | cleared history =>
    rw [history, Store.entries_clear] at hentry
    exact absurd hentry List.not_mem_nil

/-- How an event of a person changes the line. -/
inductive InputChange (w w' : Window) : Prop
  | kept (input : w'.input = w.input)
  | edited (edit : Input.Edit) (input : w'.input = w.input.edit edit)
  | result {expression value : String} (outcome : Outcome.ofExpression expression = .success value)
      (input : w'.input = ⟨value⟩)
  | recalled {entry : Entry} (mem : entry ∈ w.history.entries)
      (input : w'.input = ⟨entry.expression⟩)

theorem inputChange_calculate (w : Window) : InputChange w w.calculate.1 := by
  have hcalculation := calculation w
  generalize w.calculate = result at hcalculation
  cases hcalculation with
  | empty => exact .kept rfl
  | rejected => exact .edited .clear rfl
  | added line nonempty outcome => exact .result outcome rfl
  | unsaved => exact .kept rfl

theorem inputChange_perform (w : Window) {action : Action} (h : action.isKey = true) :
    InputChange w (w.perform action).1 := by
  cases action with
  | clear => exact .edited .clear rfl
  | backspace => exact .edited .backspace rfl
  | equals => exact inputChange_calculate w
  | insert text =>
    rw [Action.isKey] at h
    split at h
    · rename_i c htext
      obtain rfl : text = String.singleton c := by
        rw [LooseText.ofString_singleton, ← htext]
      exact .edited (.key c (List.contains_iff_mem.mp h)) rfl
    · exact absurd h (by simp)
  | other => exact absurd h (by simp [Action.isKey])

theorem Effect.inputChange {e : Event} {w : Window} {result : Window × Reply}
    (h : Effect e w result) (he : e.isManual = true) : InputChange w result.1 := by
  cases h with
  | performed _ h =>
    obtain rfl | h := h
    · exact absurd he (by simp [Event.isManual])
    · exact inputChange_perform w h
  | cleared =>
    obtain ⟨notices, -, hcleared⟩ := clearHistory_eq w
    rw [hcleared]
    exact .kept rfl
  | recalled h => exact .recalled h rfl
  | _ => exact .kept rfl

theorem inputChange_step (w : Window) {e : Event} (he : e.isManual = true) :
    InputChange w (w.step e).1 :=
  (effect_step w e).inputChange he

/-! ### Rejections -/

theorem mem_notices_ofEnding {ending : Ending} {notice : Notice} :
    notice ∈ (Reply.ofEnding ending).notices ↔
      ∃ notices, ending = .ok notices ∧ notice ∈ notices := by
  cases ending <;> simp [Reply.ofEnding, Reply.report]

/-- What a calculation rejects is the line, and for the reason that its outcome gives. -/
theorem kind?_of_mem_calculate {w : Window} {expression : LooseText} {kind : Expression.FailureKind}
    {notices : List Notice} (h : w.calculate.2 = .ok notices)
    (hrejected : .expressionRejected expression kind ∈ notices) :
    expression = w.input.text ∧ (Outcome.ofText w.input.text).kind? = some kind := by
  have hcalculation := calculation w
  generalize w.calculate = result at h hcalculation
  cases hcalculation with
  | empty =>
    obtain rfl := Except.ok.inj h
    exact absurd hrejected List.not_mem_nil
  | @rejected kind' message outcome =>
    obtain rfl := Except.ok.inj h
    obtain ⟨rfl, rfl⟩ : expression = w.input.text ∧ kind = kind' := by simpa using hrejected
    exact ⟨rfl, by rw [outcome]; rfl⟩
  | added _ _ _ saved =>
    obtain rfl := Except.ok.inj h
    obtain ⟨fault, hfault⟩ := Store.eq_historyUnsaved_of_save saved hrejected
    exact absurd hfault (by simp)
  | unsaved => exact absurd h (by simp)

theorem kind?_of_mem_notices {w : Window} {e : Event} {expression : LooseText}
    {kind : Expression.FailureKind}
    (h : .expressionRejected expression kind ∈ (w.step e).2.notices) :
    expression = w.input.text ∧ (Outcome.ofText w.input.text).kind? = some kind := by
  have heffect := effect_step w e
  generalize w.step e = result at h heffect
  cases heffect with
  | @performed action =>
    obtain ⟨notices, hnotices, hmem⟩ := mem_notices_ofEnding.mp h
    cases action with
    | equals => exact kind?_of_mem_calculate hnotices hmem
    | _ =>
      obtain rfl := Except.ok.inj hnotices
      exact absurd hmem List.not_mem_nil
  | cleared =>
    obtain ⟨notices, hsaved, hcleared⟩ := clearHistory_eq w
    rw [hcleared] at h
    obtain ⟨fault, hfault⟩ := Store.eq_historyUnsaved_of_save hsaved h
    exact absurd hfault (by simp)
  | _ => exact absurd h List.not_mem_nil

/-! ### Runs -/

/-- What the handlers reply to some events. -/
def replies (w : Window) : List Event → List Reply
  | [] => []
  | e :: events => (w.step e).2 :: (w.step e).1.replies events

/-- What every step preserves is preserved by a run. -/
theorem run_invariant {P : Window → Prop} {allowed : Event → Prop}
    (hstep : ∀ w e, allowed e → P w → P (w.step e).1) {events : List Event}
    (hevents : ∀ e ∈ events, allowed e) {w : Window} (hw : P w) : P (w.run events) := by
  induction events generalizing w with
  | nil => exact hw
  | cons e events ih =>
    rw [List.forall_mem_cons] at hevents
    exact ih hevents.2 (hstep w e hevents.1 hw)

/-- What every step preserves that no fault ends is preserved by a run of such. -/
theorem run_invariant_of_ended {P : Window → Prop}
    (hstep : ∀ w e, (w.step e).2.fault? = none → P w → P (w.step e).1) {events : List Event}
    {w : Window} (hended : ∀ reply ∈ w.replies events, reply.fault? = none) (hw : P w) :
    P (w.run events) := by
  induction events generalizing w with
  | nil => exact hw
  | cons e events ih =>
    rw [replies, List.forall_mem_cons] at hended
    exact ih hended.2 (hstep w e hended.1 hw)

/-! ### Histories without surrogates -/

/-- Over a history of strings no fault ends a step, and it stays one of strings. The line may hold
anything: what is no string has no result. -/
theorem isScalar_step {w : Window} (h : w.history.IsScalar) (e : Event) :
    (w.step e).2.fault? = none ∧ (w.step e).1.history.IsScalar := by
  have hchange := historyChange_step w e
  have hadd : ∀ expression value : String, (w.history.add ⟨expression, value⟩).2.isOk = true ∧
      (w.history.add ⟨expression, value⟩).1.IsScalar := fun expression value =>
    h.add (Entry.isScalar_ofString expression value)
  generalize (w.step e).1 = w', (w.step e).2.fault? = fault? at hchange
  cases hchange with
  | kept history => exact ⟨rfl, by rwa [history]⟩
  | added _ _ _ _ history => exact ⟨rfl, by rw [history]; exact (hadd _ _).2⟩
  | @unsaved expression value fault _ _ _ failed =>
    have hended := (hadd expression value).1
    rw [failed] at hended
    exact absurd hended (by simp)
  | cleared history => exact ⟨rfl, by rw [history]; exact h.clear.2⟩

/-- **Over a history of strings no fault ever ends a step.** -/
theorem isScalar_run {w : Window} (h : w.history.IsScalar) (events : List Event) :
    (∀ reply ∈ w.replies events, reply.fault? = none) ∧ (w.run events).history.IsScalar := by
  induction events generalizing w with
  | nil => exact ⟨List.forall_mem_nil _, h⟩
  | cons e events ih =>
    obtain ⟨hended, hscalar⟩ := isScalar_step h e
    obtain ⟨hreplies, hrun⟩ := ih hscalar
    exact ⟨List.forall_mem_cons.mpr ⟨hended, hreplies⟩, hrun⟩

theorem isScalar_launch {file : Option ByteArray} (h : Storage.IsScalar ⟨.file, file⟩) :
    (launch file).1.history.IsScalar :=
  (Store.isScalar_new h fileLimit).load

end DeskCalculator.Window
