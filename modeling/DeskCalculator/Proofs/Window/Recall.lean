import DeskCalculator.Proofs.Expression.Computing
import DeskCalculator.Proofs.Numeric.NumeralText
import DeskCalculator.Proofs.Window.Restart

/-!
# DeskCalculator.Proofs.Window.Recall

The entries of the history are true, and each of them can be recalled.

* **Saving.** A person does not bring surrogates into a history, so no fault ends a handler, and the
  history is the one in its file (`Reachable.saved`).
* **Truth.** Every entry is an expression with its result (`Truthful`). An entry is added only with
  the outcome of its expression, and a restart finds the same entries, so that this holds in every
  window that a person can come to (`truthful_of_reachable`).
* **Recall.** The list shows the history, so a line that is picked is an entry of it; being true, it
  comes to its result once more when Enter is pressed (`enter_of_recallEntry`).
-/

namespace DeskCalculator

/-- A result is never empty. -/
theorem Outcome.ne_empty_of_success {expression value : String}
    (h : Outcome.ofExpression expression = .success value) : value ≠ "" := by
  obtain ⟨x, y, -, -, rfl⟩ := calculate_eq_ok_iff.mp (Outcome.ofExpression_eq_success_iff.mp h)
  intro hempty
  have hnil : (resultText y).toList = [] := by rw [hempty]; rfl
  rw [resultText] at hnil
  split at hnil
  · exact absurd hnil (by decide)
  · rw [String.toList_ofList] at hnil
    split at hnil
    · exact absurd hnil (by simp)
    · exact Numeric.Decimal.positional_ne_nil _ hnil

namespace Window

open History (Entry Storage Store keepLast)

/-! ### The windows that a person can come to -/

/-- A window of a run that a person makes, beginning without a history file or with the file that
such a run left behind. -/
inductive Reachable : Window → Prop
  | start : Reachable (launch none).1
  /-- Without a place for a file. -/
  | bare : Reachable bare
  | event {w : Window} (h : Reachable w) {e : Event} (he : e.isManual = true) :
    Reachable (w.step e).1
  | restart {w : Window} (h : Reachable w) : Reachable (launch w.history.storage.file).1

variable {w w' : Window}

/-- The history is that of its file, if it has one, and its entries are strings. -/
theorem Reachable.saved (h : Reachable w) :
    (w.Synced ∨ w.history.storage = ⟨.memory, none⟩) ∧ w.history.IsScalar := by
  have hnone : ∀ place, Storage.IsScalar ⟨place, none⟩ := by
    rintro (_ | _ | _ | _) <;> exact List.forall_mem_nil _
  induction h with
  | start => exact ⟨.inl (synced_launch none), isScalar_launch (hnone .file)⟩
  | bare =>
    exact ⟨.inr (Store.storage_new ⟨.memory, none⟩ Store.defaultLimit),
      Store.isScalar_new (hnone .memory) Store.defaultLimit⟩
  | @event w _ e _ ih =>
    obtain ⟨hended, hscalar⟩ := isScalar_step ih.2 e
    refine ⟨ih.1.imp (fun hw => hw.step hended) fun hw => ?_, hscalar⟩
    obtain ⟨operations, hrun, -⟩ := (historyChange_step w e).exists_run
    rw [hrun]
    exact Store.storage_run_of_memory hw operations
  | @restart w _ ih =>
    refine ⟨.inl (synced_launch _), isScalar_launch ?_⟩
    obtain hsynced | hmemory := ih.1
    · rw [← hsynced.kept.place]
      exact ih.2.storage
    · -- nothing was left behind
      rw [hmemory]
      exact hnone .file

theorem Reachable.listed (h : Reachable w) : w.lines = w.history.latestFirst.map Entry.line := by
  induction h with
  | @event w hw e _ ih =>
    have hchange := historyChange_step w e
    rw [(isScalar_step hw.saved.2 e).1] at hchange
    exact hchange.listed ih
  | _ => rfl

/-! ### Truth -/

/-- An entry that is an expression with its result. -/
def IsTrue (entry : Entry) : Prop :=
  ∃ expression result : String, entry = ⟨expression, result⟩ ∧ expression ≠ "" ∧
    Outcome.ofExpression expression = .success result

/-- Every entry of the history is an expression with its result. -/
def Truthful (w : Window) : Prop := ∀ entry ∈ w.history.entries, IsTrue entry

/-- Only the outcome of an expression is added to the history. -/
theorem HistoryChange.truthful {fault? : Option History.Fault} (h : HistoryChange w w' fault?)
    (hw : w.Truthful) : w'.Truthful := by
  intro entry hentry
  obtain hold | ⟨expression, value, hnew, -, hnonempty, houtcome⟩ := h.mem_entries hentry
  · exact hw entry hold
  · exact ⟨expression, value, hnew, hnonempty, houtcome⟩

theorem truthful_launch_none : (launch none).1.Truthful :=
  fun _ hentry => absurd hentry List.not_mem_nil

theorem truthful_of_reachable (h : Reachable w) : w.Truthful := by
  induction h with
  | start => exact truthful_launch_none
  | bare => exact fun _ hentry => absurd hentry List.not_mem_nil
  | event _ _ ih => exact (historyChange_step _ _).truthful ih
  | restart h ih =>
    obtain hsynced | hmemory := h.saved.1
    · rw [Truthful, hsynced.history_launch]
      exact ih
    · -- nothing was left behind
      rw [hmemory]
      exact truthful_launch_none

/-! ### Recall -/

/-- Picking a line recalls the entry in its place, if the history has as many entries as the list
has lines. -/
theorem exists_step_pick (h : w.lines.length ≤ w.history.entries.length) {i : Int}
    (hi : 0 ≤ i ∧ i < w.lines.length) :
    ∃ entry ∈ w.history.entries, w.history.latestFirst[i.toNat]? = some entry ∧
      w.step (.pick (some i)) = (w.recallEntry entry, ⟨true, [], none⟩) := by
  have hlt : i.toNat < w.history.latestFirst.length := by
    rw [Store.latestFirst, List.length_reverse]
    omega
  have hentry := List.getElem?_eq_getElem hlt
  refine ⟨w.history.latestFirst[i.toNat], List.mem_reverse.mp (List.getElem_mem hlt), hentry, ?_⟩
  rw [step, select, if_pos hi, recallSelected]
  simp only [Option.bind_some, hentry]
  rfl

/-- Enter on a recalled entry that is true comes to its result, and adds the entry once more. -/
theorem enter_of_recallEntry {entry : Entry} (h : IsTrue entry)
    (hsaved : (w.history.add entry).2.isOk = true) :
    let w' := ((w.recallEntry entry).step (.shortcut .enter)).1
    w'.input.text = entry.result ∧ w'.display = entry.result ∧
      w'.history = (w.history.add entry).1 := by
  obtain ⟨expression, result, rfl, hnonempty, houtcome⟩ := h
  obtain ⟨notices, hsaved⟩ := isOk_iff.mp hsaved
  have hcalculate :=
    (calculate_of_success (w := w.recallEntry ⟨expression, result⟩) rfl hnonempty houtcome).trans
      (continueWith_of_ok hsaved)
  intro w'
  have hw' : w' = (w.recallEntry ⟨expression, result⟩).calculate.1 := rfl
  rw [hw', hcalculate]
  refine ⟨rfl, ?_, rfl⟩
  exact if_neg fun hempty => Outcome.ne_empty_of_success houtcome (LooseText.ofString_inj.mp hempty)

/-- The entry that was added last is shown first. -/
theorem head?_latestFirst_add (s : Store) (entry : Entry) :
    (s.add entry).1.latestFirst.head? = some entry := by
  rw [Store.latestFirst, Store.entries_add, History.keepLast_concat s.limit_pos]
  simp

/-- **History entries are true and recallable.** In every window that a person can come to, every
entry of the history is an expression with its result; and picking a line of the list, then pressing
Enter, puts the result of its entry on the line and on the display and adds the entry as the newest
one. -/
theorem history_true_and_recallable (hw : Reachable w) :
    (∀ entry ∈ w.history.entries, ∃ expression result : String, entry = ⟨expression, result⟩ ∧
      expression ≠ "" ∧ Outcome.ofExpression expression = .success result) ∧
    ∀ i : Int, 0 ≤ i → i < w.lines.length →
      ∃ entry, w.history.latestFirst[i.toNat]? = some entry ∧
        w.lines[i.toNat]? = some entry.line ∧
        let w' := w.run [.pick (some i), .shortcut .enter]
        w'.input.text = entry.result ∧ w'.display = entry.result ∧
          w'.history.entries = keepLast w.history.limit (w.history.entries ++ [entry]) ∧
          w'.history.latestFirst.head? = some entry := by
  have htrue := truthful_of_reachable hw
  refine ⟨htrue, fun i hi hlines => ?_⟩
  have hlength : w.lines.length ≤ w.history.entries.length := by
    rw [hw.listed, List.length_map, Store.latestFirst, List.length_reverse]
  obtain ⟨entry, hmem, hentry, hpick⟩ := exists_step_pick hlength ⟨hi, hlines⟩
  have hline : w.lines[i.toNat]? = some entry.line := by
    rw [hw.listed, List.getElem?_map, hentry]
    rfl
  have hscalar := hw.saved.2
  have hsaved : (w.history.add entry).2.isOk = true :=
    (hscalar.add (hscalar.entries entry hmem)).1
  refine ⟨entry, hentry, hline, ?_⟩
  rw [run_cons, hpick, run_cons, run_nil]
  obtain ⟨hinput, hdisplay, hhistory⟩ := enter_of_recallEntry (htrue entry hmem) hsaved
  refine ⟨hinput, hdisplay, ?_, ?_⟩
  · rw [hhistory, Store.entries_add]
  · rw [hhistory, head?_latestFirst_add]

/-- A quarter is calculated, the window is closed and opened again, and the line of the quarter is
picked. -/
theorem history_true_and_recallable_of_quarter :
    let quarter := (launch none).1.run [.typed "1", .typed "/", .typed "4", .shortcut .enter]
    let w := (launch quarter.history.storage.file).1
    Reachable w ∧ (0 : Int) < w.lines.length ∧
      w.history.entries = [⟨"1/4", "0.25"⟩] ∧ Outcome.ofExpression "1/4" = .success "0.25" ∧
      (w.run [.pick (some 0), .shortcut .enter]).display = "0.25" := by
  intro quarter w
  have hquarter : Reachable quarter :=
    (((Reachable.start.event rfl).event rfl).event rfl).event rfl
  have hwritten : quarter.history.entries = [⟨"1/4", "0.25"⟩] := by decide +kernel
  have hended : ∀ reply ∈ (launch none).1.replies
      [.typed "1", .typed "/", .typed "4", .shortcut .enter], reply.fault? = none := by
    decide +kernel
  have hsynced : Synced quarter := (synced_launch none).run hended
  have hw : Reachable w := hquarter.restart
  have hentries : w.history.entries = [⟨"1/4", "0.25"⟩] := by
    rw [← hwritten, ← hsynced.history_launch]
  have hlines : (0 : Int) < w.lines.length := by
    rw [hw.listed, Store.latestFirst, hentries]
    decide
  obtain ⟨htrue, hrecall⟩ := history_true_and_recallable hw
  obtain ⟨entry, hentry, -, -, hdisplay, -⟩ := hrecall 0 (by decide) hlines
  have houtcome : Outcome.ofExpression "1/4" = .success "0.25" := by
    obtain ⟨expression, result, hentry, -, houtcome⟩ := htrue ⟨"1/4", "0.25"⟩ (by simp [hentries])
    obtain ⟨hexpression, hresult⟩ := Entry.mk.inj hentry
    rwa [LooseText.ofString_inj.mp hexpression, LooseText.ofString_inj.mp hresult]
  refine ⟨hw, hlines, hentries, houtcome, hdisplay.trans ?_⟩
  rw [Store.latestFirst, hentries] at hentry
  obtain rfl := Option.some.inj hentry
  rfl

end Window

end DeskCalculator
