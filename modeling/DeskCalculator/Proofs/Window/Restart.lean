import DeskCalculator.Proofs.Window.Steps

/-!
# DeskCalculator.Proofs.Window.Restart

A window that is closed and opened again has its history back. While it runs over its file and no
fault ends a handler, its history is kept there and its list shows the history (`Synced`); so the
window that is launched next finds the same history (`Synced.launch_eq`) and shows the same lines.
-/

namespace DeskCalculator.Window

open History (Entry Fault Store Storage)

/-- The history is kept in its file, and the list shows it. -/
structure Synced (w : Window) : Prop where
  kept : w.history.Kept
  limit : w.history.limit = (Store.new w.history.storage fileLimit).limit
  listed : w.lines = w.history.latestFirst.map Entry.line

variable {w w' : Window} {fault? : Option Fault}

/-- A step works on the history by its operations only, and a fault of theirs ends it. -/
theorem HistoryChange.exists_run (h : HistoryChange w w' fault?) :
    ∃ operations, w'.history = w.history.run operations ∧
      (fault? = none → ∀ ending ∈ w.history.endings operations, ending.isOk = true) := by
  cases h with
  | kept history => exact ⟨[], history, fun _ => List.forall_mem_nil _⟩
  | @added expression value _ _ _ saved history =>
    exact ⟨[.add ⟨expression, value⟩], history, fun _ => List.forall_mem_singleton.mpr saved⟩
  | @unsaved expression value _ _ _ _ _ window =>
    exact ⟨[.add ⟨expression, value⟩], by rw [window]; rfl, fun h => absurd h (by simp)⟩
  | cleared history =>
    exact ⟨[.clear], history, fun _ => List.forall_mem_singleton.mpr w.history.isOk_clear⟩

theorem HistoryChange.listed (h : HistoryChange w w' none)
    (hw : w.lines = w.history.latestFirst.map Entry.line) :
    w'.lines = w'.history.latestFirst.map Entry.line := by
  cases h with
  | kept history lines => rw [lines, history, hw]
  | added _ _ _ _ _ lines => exact lines
  | cleared _ lines => exact lines

theorem synced_launch (file : Option ByteArray) : (launch file).1.Synced where
  kept := Store.Kept.load (by rw [Store.storage_new])
  limit := by
    -- reading keeps the limit, and the limit does not depend on what the file holds
    have hload : (Store.new ⟨.file, file⟩ fileLimit).load.1.limit =
        (Store.new ⟨.file, file⟩ fileLimit).limit := by rw [Store.load_eq]
    exact hload.trans (Store.limit_new _ _ fileLimit)
  listed := rfl

/-- No event parts the window from its file, unless a fault ends it. -/
theorem Synced.step (h : w.Synced) {e : Event} (hended : (w.step e).2.fault? = none) :
    (w.step e).1.Synced := by
  have hchange := historyChange_step w e
  rw [hended] at hchange
  obtain ⟨operations, hrun, hendings⟩ := hchange.exists_run
  refine ⟨?_, ?_, hchange.listed h.listed⟩
  · rw [hrun]
    exact h.kept.run (hendings rfl)
  · rw [hrun, Store.limit_run, h.limit]
    exact Store.limit_new _ _ fileLimit

theorem Synced.run (h : w.Synced) {events : List Event}
    (hended : ∀ reply ∈ w.replies events, reply.fault? = none) : (w.run events).Synced :=
  run_invariant_of_ended (P := Synced) (fun _ _ hended h => h.step hended) hended h

/-- The next window has the same history. -/
theorem Synced.launch_eq (h : w.Synced) :
    (launch w.history.storage.file).1 = new w.history := by
  show new (Store.new ⟨.file, w.history.storage.file⟩ fileLimit).load.1 = _
  rw [h.kept.load_new h.limit]

theorem Synced.history_launch (h : w.Synced) :
    (launch w.history.storage.file).1.history = w.history := by
  rw [h.launch_eq]
  rfl

/-- **Memory and file never drift apart.** Whatever the file held at first, after any operations on
a history that was read from it, reading the file again with the same limit gives the same entries;
and after any events in a window, a restart shows the same lines. Both hold as long as no fault ends
an operation or a handler, and over strings none does: neither where the file holds strings and
strings are added, nor in a window over a file of strings, whatever is typed. (Reading is without
the nesting limit that a reader of files may have.) -/
theorem history_survives_restart (file : Option ByteArray) :
    (∀ (limit : Int) (operations : List Store.Operation),
      let start := (Store.new ⟨.file, file⟩ limit).load.1
      let s := start.run operations
      (Storage.IsScalar ⟨.file, file⟩ → (∀ op ∈ operations, op.IsScalar) →
        ∀ ending ∈ start.endings operations, ending.isOk = true) ∧
      ((∀ ending ∈ start.endings operations, ending.isOk = true) →
        (Store.new ⟨.file, s.storage.file⟩ limit).load.1.entries = s.entries)) ∧
    ∀ events : List Event,
      let start := (launch file).1
      let w := start.run events
      (Storage.IsScalar ⟨.file, file⟩ → ∀ reply ∈ start.replies events, reply.fault? = none) ∧
      ((∀ reply ∈ start.replies events, reply.fault? = none) →
        (launch w.history.storage.file).1.lines = w.lines) := by
  refine ⟨fun limit operations => ⟨fun hfile hoperations => ?_, fun hended => ?_⟩,
    fun events => ⟨fun hfile => (isScalar_run (isScalar_launch hfile) events).1, fun hended => ?_⟩⟩
  case refine_1 =>
    exact (Store.isScalar_new hfile limit).load.endings hoperations
  case refine_2 =>
    have hkept := (Store.Kept.load (by rw [Store.storage_new])).run hended
    have hlimit : ∀ storage, ((Store.new ⟨.file, file⟩ limit).load.1.run operations).limit =
        (Store.new storage limit).limit := fun storage => by
      rw [Store.limit_run, Store.load_eq]
      exact Store.limit_new _ storage limit
    rw [hkept.load_new (hlimit _)]
  case refine_3 =>
    have hsynced := (synced_launch file).run hended
    rw [hsynced.launch_eq, hsynced.listed]
    rfl

/-- A file with one entry, to which a history that keeps only one adds another; and a window over
the same file, in which something is calculated. -/
theorem history_survives_restart_of_sum :
    let file := some "[\x7b\"expr\": \"1+1\", \"result\": \"2\"\x7d]".toUTF8
    let operations : List Store.Operation := [.load, .add ⟨"2*3", "6"⟩, .save]
    let events : List Event := [.typed "7", .shortcut .enter]
    Storage.IsScalar ⟨.file, file⟩ ∧ (∀ op ∈ operations, op.IsScalar) ∧
      (Store.new
        ⟨.file, ((Store.new ⟨.file, file⟩ 1).load.1.run operations).storage.file⟩ 1).load.1.entries =
          [⟨"2*3", "6"⟩] ∧
      (launch ((launch file).1.run events).history.storage.file).1.lines =
        ["7 = 7", "1+1 = 2"] := by
  intro file operations events
  have hfile : Storage.IsScalar ⟨.file, file⟩ := by
    have hstored : Storage.stored ⟨.file, file⟩ = [⟨"1+1", "2"⟩] := by decide +kernel
    rw [Storage.IsScalar, hstored]
    exact List.forall_mem_singleton.mpr (Entry.isScalar_ofString _ _)
  have hoperations : ∀ op ∈ operations, op.IsScalar := by
    simp only [operations, List.forall_mem_cons]
    exact ⟨trivial, Entry.isScalar_ofString _ _, trivial, List.forall_mem_nil _⟩
  have hadded : ((Store.new ⟨.file, file⟩ 1).load.1.run operations).entries = [⟨"2*3", "6"⟩] := by
    decide +kernel
  have hshown : ((launch file).1.run events).lines = ["7 = 7", "1+1 = 2"] := by decide +kernel
  obtain ⟨hstore, hwindow⟩ := history_survives_restart file
  obtain ⟨hended, hentries⟩ := hstore 1 operations
  obtain ⟨hended', hlines⟩ := hwindow events
  exact ⟨hfile, hoperations, (hentries (hended hfile hoperations)).trans hadded,
    (hlines (hended' hfile)).trans hshown⟩

end DeskCalculator.Window
