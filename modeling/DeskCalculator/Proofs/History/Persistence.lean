import DeskCalculator.History.Store
import DeskCalculator.Proofs.ExceptLaws
import DeskCalculator.Proofs.History.FileText

/-!
# DeskCalculator.Proofs.History.Persistence

A history over a file and the file itself never say different things.

* **Saving** can end with a fault only for a surrogate without its partner
  (`Store.save_eq_error_iff`).
* **One step.** `Store.Kept` says that the entries are those that a new reading of the file would
  find. Reading establishes it, and every operation preserves it that ends without a fault
  (`Store.Kept.apply`).
* **A whole run.** What such operations preserve, a run of them preserves
  (`Store.run_invariant_of_ended`). Where everything is strings all of them end without a fault
  (`Store.IsScalar.perform`).
-/

namespace DeskCalculator.History

/-! ### What a place holds -/

@[simp] theorem keepLast_nil {α : Type} (count : Nat) : keepLast count ([] : List α) = [] :=
  keepLast_of_length_le (Nat.zero_le count)

/-- A new element is kept, and what there is no more room for goes first. -/
theorem keepLast_concat {α : Type} {count : Nat} (h : 0 < count) (list : List α) (a : α) :
    keepLast count (list ++ [a]) = keepLast (count - 1) list ++ [a] := by
  have hlength : (list ++ [a]).length - count = list.length - (count - 1) := by
    rw [List.length_append, List.length_singleton]
    omega
  rw [keepLast, hlength, List.drop_append_of_le_length (Nat.sub_le _ _)]
  rfl

theorem mem_of_mem_keepLast {α : Type} {count : Nat} {list : List α} {a : α}
    (h : a ∈ keepLast count list) : a ∈ list :=
  List.mem_of_mem_drop h

namespace Storage

/-- The entries that a place holds: none if there is nothing or it cannot be read. -/
def stored (s : Storage) : List Entry :=
  match s.read? with
  | none => []
  | some content => (content.bind decode).toOption.getD []

/-- No entry that a place holds has a surrogate in it. -/
def IsScalar (s : Storage) : Prop := ∀ entry ∈ s.stored, entry.IsScalar

theorem stored_of_fileText {entries : List Entry} {text : String} (h : fileText entries = text) :
    stored ⟨.file, some text.toUTF8⟩ = entries := by
  show (decode text.toUTF8).toOption.getD [] = entries
  rw [decode_of_fileText h]
  rfl

end Storage

/-! ### The operations -/

namespace Store

/-- What is done to a history. -/
inductive Operation
  | add (entry : Entry)
  | clear
  | save
  | load
  deriving DecidableEq, Repr

/-- The history after an operation, and how the operation ends. -/
def perform (s : Store) : Operation → Store × Ending
  | .add entry => s.add entry
  | .clear => s.clear
  | .save => s.save
  | .load => (s.load.1, .ok s.load.2)

/-- The history after an operation. -/
def apply (s : Store) (op : Operation) : Store := (s.perform op).1

/-- The history after some operations, one after the other. -/
def run (s : Store) (operations : List Operation) : Store := operations.foldl apply s

/-- How some operations end, one after the other. -/
def endings (s : Store) : List Operation → List Ending
  | [] => []
  | op :: operations => (s.perform op).2 :: (s.apply op).endings operations

/-- What every operation preserves is preserved by a run of them. -/
theorem run_invariant {P : Store → Prop} (hstep : ∀ s op, P s → P (s.apply op)) {s : Store}
    (h : P s) (ops : List Operation) : P (s.run ops) := by
  induction ops generalizing s with
  | nil => exact h
  | cons op ops ih => exact ih (hstep s op h)

/-- What every operation preserves that ends without a fault is preserved by a run of such. -/
theorem run_invariant_of_ended {P : Store → Prop}
    (hstep : ∀ s op, (s.perform op).2.isOk = true → P s → P (s.apply op)) {s : Store} (h : P s)
    {ops : List Operation} (hended : ∀ ending ∈ s.endings ops, ending.isOk = true) :
    P (s.run ops) := by
  induction ops generalizing s with
  | nil => exact h
  | cons op ops ih =>
    obtain ⟨hop, hops⟩ := List.forall_mem_cons.mp hended
    exact ih (hstep s op hop h) hops

/-- Reading takes what the place holds, as far as it fits. -/
theorem load_eq (s : Store) :
    s.load.1 = { s with entries := keepLast s.limit s.storage.stored } := by
  unfold load Storage.stored
  cases s.storage.read? with
  | none => simp only [keepLast_nil]
  | some content =>
    simp only
    cases content.bind decode with
    | ok entries => rfl
    | error fault => simp only [Except.toOption, Option.getD_none, keepLast_nil]

theorem entries_save (s : Store) : s.save.1.entries = s.entries := rfl

theorem limit_save (s : Store) : s.save.1.limit = s.limit := rfl

theorem entries_add (s : Store) (entry : Entry) :
    (s.add entry).1.entries = keepLast s.limit (s.entries ++ [entry]) := rfl

theorem entries_clear (s : Store) : s.clear.1.entries = [] := rfl

/-- **Saving into a file** writes all entries, or empties the file and ends with a fault. -/
theorem save_of_file {s : Store} (h : s.storage.place = .file) :
    (∃ text : String, fileText s.entries = text ∧
      s.save = ({ s with storage := ⟨.file, some text.toUTF8⟩ }, .ok [])) ∨
    (¬ (fileText s.entries).IsScalar ∧
      s.save = ({ s with storage := ⟨.file, some .empty⟩ }, .error .unencodable)) := by
  obtain ⟨entries, limit, limit_pos, place, file⟩ := s
  obtain rfl : place = .file := h
  cases hbytes : (fileText entries).toUTF8? with
  | some bytes =>
    obtain ⟨text, htext, rfl⟩ := LooseText.toUTF8?_eq_some_iff.mp hbytes
    refine .inl ⟨text, htext, ?_⟩
    simp only [save, Storage.write, hbytes]
  | none =>
    refine .inr ⟨?_, ?_⟩
    · rintro ⟨text, htext⟩
      rw [LooseText.toUTF8?_eq_some_iff.mpr ⟨text, htext, rfl⟩] at hbytes
      exact absurd hbytes (by simp)
    · simp only [save, Storage.write, hbytes]
      rfl

/-- **Saving elsewhere** changes nothing and ends without a fault. -/
theorem save_of_ne_file {s : Store} (h : s.storage.place ≠ .file) :
    ∃ notices, s.save = (s, .ok notices) := by
  obtain ⟨entries, limit, limit_pos, place, file⟩ := s
  cases place with
  | memory => exact ⟨[], rfl⟩
  | file => exact absurd rfl h
  | directory => exact ⟨[.historyUnsaved .isDirectory], rfl⟩
  | missingDirectory => exact ⟨[.historyUnsaved .noDirectory], rfl⟩

/-- **The only fault that ends an operation** is a surrogate in a text for a file. -/
theorem save_eq_error_iff {s : Store} {fault : Fault} :
    s.save.2 = .error fault ↔
      s.storage.place = .file ∧ fault = .unencodable ∧ ∃ entry ∈ s.entries, ¬ entry.IsScalar := by
  have hentries : (∃ entry ∈ s.entries, ¬ entry.IsScalar) ↔ ¬ (fileText s.entries).IsScalar := by
    rw [isScalar_fileText_iff]
    simp
  rw [hentries]
  by_cases hplace : s.storage.place = .file
  · obtain ⟨text, htext, hsave⟩ | ⟨hloose, hsave⟩ := save_of_file hplace
    · simp [hsave, show (fileText s.entries).IsScalar from ⟨text, htext⟩]
    · simp [hsave, hplace, hloose, eq_comm]
  · obtain ⟨notices, hsave⟩ := save_of_ne_file hplace
    simp [hsave, hplace]

/-- Saving reports nothing but its own failure. -/
theorem eq_historyUnsaved_of_save {s : Store} {notices : List Notice} (h : s.save.2 = .ok notices)
    {notice : Notice} (hnotice : notice ∈ notices) : ∃ fault, notice = .historyUnsaved fault := by
  simp only [save] at h
  split at h
  · obtain rfl := Except.ok.inj h
    exact absurd hnotice List.not_mem_nil
  · split at h
    · obtain rfl := Except.ok.inj h
      exact ⟨_, List.mem_singleton.mp hnotice⟩
    · exact absurd h (by simp)

/-- Adding strings ends with a fault only for an entry that was held before and is kept. -/
theorem add_eq_error_iff {s : Store} {entry : Entry} {fault : Fault} (hentry : entry.IsScalar) :
    (s.add entry).2 = .error fault ↔ s.storage.place = .file ∧ fault = .unencodable ∧
      ∃ old ∈ keepLast (s.limit - 1) s.entries, ¬ old.IsScalar := by
  have hsave : (s.add entry).2 = .error fault ↔ s.storage.place = .file ∧ fault = .unencodable ∧
      ∃ e ∈ keepLast s.limit (s.entries ++ [entry]), ¬ e.IsScalar := save_eq_error_iff
  rw [hsave, keepLast_concat s.limit_pos]
  simp [or_and_right, exists_or, hentry]

/-- A fault that ends the saving leaves an empty file behind. -/
theorem storage_of_save_eq_error {s : Store} {fault : Fault} (h : s.save.2 = .error fault) :
    s.save.1.storage = ⟨.file, some .empty⟩ := by
  obtain ⟨text, -, hsave⟩ | ⟨-, hsave⟩ := save_of_file (save_eq_error_iff.mp h).1
  · rw [hsave] at h
    exact absurd h (by simp)
  · rw [hsave]

theorem isOk_save_of_isScalar {s : Store} (h : ∀ entry ∈ s.entries, entry.IsScalar) :
    s.save.2.isOk = true := by
  cases hsave : s.save.2 with
  | ok notices => rfl
  | error fault =>
    obtain ⟨-, -, entry, hentry, hloose⟩ := save_eq_error_iff.mp hsave
    exact absurd (h entry hentry) hloose

/-- Nothing keeps a history from being cleared. -/
theorem isOk_clear (s : Store) : s.clear.2.isOk = true :=
  isOk_save_of_isScalar (List.forall_mem_nil _)

/-! ### Memory and file -/

/-- The history is over a file, and has the entries that a new reading of the file finds. -/
structure Kept (s : Store) : Prop where
  place : s.storage.place = .file
  entries : s.entries = keepLast s.limit s.storage.stored

theorem Kept.load {s : Store} (h : s.storage.place = .file) : s.load.1.Kept := by
  rw [load_eq]
  exact ⟨h, rfl⟩

/-- A history that fits is found in the file that it was written to. -/
theorem Kept.save {s : Store} (h : s.storage.place = .file) (hfits : s.entries.length ≤ s.limit)
    (hended : s.save.2.isOk = true) : s.save.1.Kept := by
  obtain ⟨text, htext, hsave⟩ | ⟨-, hsave⟩ := save_of_file h
  · rw [hsave]
    refine ⟨rfl, ?_⟩
    show s.entries = keepLast s.limit (Storage.stored ⟨.file, some text.toUTF8⟩)
    rw [Storage.stored_of_fileText htext, keepLast_of_length_le hfits]
  · rw [hsave] at hended
    exact absurd hended (by simp)

theorem Kept.fits {s : Store} (h : s.Kept) : s.entries.length ≤ s.limit := by
  rw [h.entries]
  exact length_keepLast_le s.limit s.storage.stored

/-- No operation that ends without a fault parts a history from its file. -/
theorem Kept.apply {s : Store} (h : s.Kept) (op : Operation)
    (hended : (s.perform op).2.isOk = true) : (s.apply op).Kept := by
  cases op with
  | add entry => exact Kept.save h.place (length_keepLast_le s.limit _) hended
  | clear => exact Kept.save h.place (Nat.zero_le _) hended
  | save => exact Kept.save h.place h.fits hended
  | load => exact Kept.load h.place

theorem Kept.run {s : Store} (h : s.Kept) {ops : List Operation}
    (hended : ∀ ending ∈ s.endings ops, ending.isOk = true) : (s.run ops).Kept :=
  run_invariant_of_ended (P := Kept) (fun _ op hop h => h.apply op hop) h hended

/-! ### Histories without surrogates -/

/-- No entry holds a surrogate, in memory or in the place where they are kept. -/
structure IsScalar (s : Store) : Prop where
  entries : ∀ entry ∈ s.entries, entry.IsScalar
  storage : s.storage.IsScalar

/-- Whether an operation adds strings, if it adds anything. -/
def Operation.IsScalar : Operation → Prop
  | .add entry => entry.IsScalar
  | .clear | .save | .load => True

/-- Entries without surrogates can be saved. -/
theorem IsScalar.save {s : Store} (h : s.IsScalar) : s.save.2.isOk = true ∧ s.save.1.IsScalar := by
  have hended := isOk_save_of_isScalar h.entries
  refine ⟨hended, h.entries, ?_⟩
  by_cases hplace : s.storage.place = .file
  · obtain ⟨text, htext, hsave⟩ | ⟨-, hsave⟩ := save_of_file hplace
    · rw [hsave, Storage.IsScalar, Storage.stored_of_fileText htext]
      exact h.entries
    · rw [hsave] at hended
      exact absurd hended (by simp)
  · obtain ⟨notices, hsave⟩ := save_of_ne_file hplace
    rw [hsave]
    exact h.storage

theorem IsScalar.add {s : Store} (h : s.IsScalar) {entry : Entry} (hentry : entry.IsScalar) :
    (s.add entry).2.isOk = true ∧ (s.add entry).1.IsScalar := by
  refine IsScalar.save ⟨fun e he => ?_, h.storage⟩
  obtain he | he := List.mem_append.mp (mem_of_mem_keepLast he)
  · exact h.entries e he
  · exact List.mem_singleton.mp he ▸ hentry

theorem IsScalar.clear {s : Store} (h : s.IsScalar) :
    s.clear.2.isOk = true ∧ s.clear.1.IsScalar :=
  IsScalar.save ⟨List.forall_mem_nil _, h.storage⟩

theorem IsScalar.load {s : Store} (h : s.IsScalar) : s.load.1.IsScalar := by
  rw [load_eq]
  exact ⟨fun entry hentry => h.storage entry (mem_of_mem_keepLast hentry), h.storage⟩

/-- **Where everything is strings, no operation ends with a fault.** -/
theorem IsScalar.perform {s : Store} (h : s.IsScalar) {op : Operation} (hop : op.IsScalar) :
    (s.perform op).2.isOk = true ∧ (s.apply op).IsScalar := by
  cases op with
  | add entry => exact h.add hop
  | clear => exact h.clear
  | save => exact h.save
  | load => exact ⟨rfl, h.load⟩

theorem IsScalar.endings {s : Store} (h : s.IsScalar) {ops : List Operation}
    (hops : ∀ op ∈ ops, op.IsScalar) : ∀ ending ∈ s.endings ops, ending.isOk = true := by
  induction ops generalizing s with
  | nil => exact List.forall_mem_nil _
  | cons op ops ih =>
    obtain ⟨hop, hops⟩ := List.forall_mem_cons.mp hops
    obtain ⟨hended, hscalar⟩ := h.perform hop
    exact List.forall_mem_cons.mpr ⟨hended, ih hscalar hops⟩

/-! ### What no operation changes -/

theorem limit_apply (s : Store) (op : Operation) : (s.apply op).limit = s.limit := by
  cases op with
  | add entry => exact limit_save _
  | clear => exact limit_save _
  | save => exact limit_save s
  | load =>
    show s.load.1.limit = s.limit
    rw [load_eq]

theorem limit_run (s : Store) (ops : List Operation) : (s.run ops).limit = s.limit := by
  refine run_invariant (P := fun t => t.limit = s.limit) ?_ rfl ops
  intro t op ht
  rw [limit_apply, ht]

theorem storage_save_of_memory {s : Store} (h : s.storage = ⟨.memory, none⟩) :
    s.save.1.storage = ⟨.memory, none⟩ := by
  obtain ⟨notices, hsave⟩ := save_of_ne_file (s := s) (by rw [h]; simp)
  rw [hsave, h]

/-- A history without a place for a file stays without one. -/
theorem storage_apply_of_memory {s : Store} (h : s.storage = ⟨.memory, none⟩) (op : Operation) :
    (s.apply op).storage = ⟨.memory, none⟩ := by
  cases op with
  | load =>
    show s.load.1.storage = _
    rwa [load_eq]
  | _ => exact storage_save_of_memory h

theorem storage_run_of_memory {s : Store} (h : s.storage = ⟨.memory, none⟩)
    (ops : List Operation) : (s.run ops).storage = ⟨.memory, none⟩ :=
  run_invariant (P := fun t => t.storage = ⟨.memory, none⟩)
    (fun _ op ht => storage_apply_of_memory ht op) h ops

/-- The limit of a new history does not depend on its place. -/
theorem limit_new (a b : Storage) (limit : Int) : (new a limit).limit = (new b limit).limit := by
  rw [new, new]
  split <;> rfl

theorem storage_new (storage : Storage) (limit : Int) : (new storage limit).storage = storage := by
  rw [new]
  split <;> rfl

theorem entries_new (storage : Storage) (limit : Int) : (new storage limit).entries = [] := by
  rw [new]
  split <;> rfl

theorem isScalar_new {storage : Storage} (h : storage.IsScalar) (limit : Int) :
    (new storage limit).IsScalar where
  entries := by
    rw [entries_new]
    exact List.forall_mem_nil _
  storage := by rwa [storage_new]

/-- **A history that is kept is found again** by a new one over the same file with the same
limit. -/
theorem Kept.load_new {s : Store} (h : s.Kept) {limit : Int}
    (hlimit : s.limit = (new s.storage limit).limit) :
    (new ⟨.file, s.storage.file⟩ limit).load.1 = s := by
  have hstorage : (⟨.file, s.storage.file⟩ : Storage) = s.storage := by rw [← h.place]
  have hentries := h.entries
  rw [hstorage, load_eq]
  -- the new history and the old one agree in each of their fields
  obtain ⟨entries, limit', limit_pos, storage⟩ := s
  congr 1
  · rw [storage_new, ← hlimit]
    exact hentries.symm
  · exact hlimit.symm
  · exact storage_new storage limit

end Store

end DeskCalculator.History
