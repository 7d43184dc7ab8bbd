import Mathlib.Data.List.DropRight
import DeskCalculator.Proofs.History.Faults

/-!
# DeskCalculator.Proofs.History.Queue

The history is a bounded queue, whatever happens to the place where it is kept.

* **Acts.** Besides the operations of a history there are looks at it, and others who write or
  remove its file. `outstanding` is the queue without a bound: what the most recent reading or
  clearing produced, and everything added since.
* **One act.** The entries stay the last ones of the queue (`entries_act`): dropping after every
  addition comes to the same as dropping once (`keepLast_append`).
* **Two histories** over different places that agree in their entries go on to agree, as long as
  nothing is read (`observed_congr`).
-/

namespace DeskCalculator.History

/-! ### Acts and answers -/

/-- What happens to a history, or to its file. -/
inductive Act
  | operation (op : Store.Operation)
  /-- The entries are asked for, the latest first. -/
  | recent
  /-- Somebody else writes the file or, without a content, removes it. -/
  | outside (file : Option ByteArray)

/-- Whether an act is one of the history itself. -/
def Act.isOwn : Act → Bool
  | .outside _ => false
  | _ => true

/-- Whether an act brings strings only into a history or its file. -/
def Act.IsScalar : Act → Prop
  | .operation op => op.IsScalar
  | .recent => True
  | .outside file => Storage.IsScalar ⟨.file, file⟩

/-- What an act gives back. -/
inductive Answer
  | nothing
  | entry (entry : Entry)
  | entries (entries : List Entry)
  deriving DecidableEq, Repr

namespace Store

/-- The history after an act. -/
def act (s : Store) : Act → Store
  | .operation op => s.apply op
  | .recent => s
  | .outside file => { s with storage := { s.storage with file } }

/-- What a history gives back to an act. -/
def answer (s : Store) : Act → Answer
  | .operation (.add entry) => .entry entry
  | .operation .load => .entries s.load.1.entries
  | .recent => .entries s.latestFirst
  | _ => .nothing

/-- An act that a fault may end. -/
def attemptAct (s : Store) : Act → Except Fault Store
  | .operation op => s.attemptApply op
  | a => .ok (s.act a)

/-- The history after some acts, one after the other. -/
def after (s : Store) (acts : List Act) : Store := acts.foldl act s

/-- Acts with the answers that they get, one after the other. -/
def trace (s : Store) : List Act → List (Act × Answer)
  | [] => []
  | a :: acts => (a, s.answer a) :: (s.act a).trace acts

/-- What the users of a history see: at each of its own acts the answer, and the entries then. -/
def observed (s : Store) : List Act → List (Answer × List Entry)
  | [] => []
  | a :: acts =>
    if a.isOwn then (s.answer a, (s.act a).entries) :: (s.act a).observed acts
    else (s.act a).observed acts

end Store

/-! ### The queue without a bound -/

/-- What an act and its answer do to a queue that has no bound. -/
def account (queue : List Entry) : Act × Answer → List Entry
  | (.operation (.add entry), _) => queue ++ [entry]
  | (.operation .clear, _) => []
  | (.operation .load, .entries produced) => produced
  | _ => queue

/-- What the most recent reading or clearing produced, and everything added since. -/
def outstanding (trace : List (Act × Answer)) : List Entry := trace.foldl account []

/-- What was dropped once need not be there when more is dropped. -/
theorem keepLast_append {α : Type} (count : Nat) (a b : List α) :
    keepLast count (keepLast count a ++ b) = keepLast count (a ++ b) := by
  simp only [keepLast, List.drop_append, List.drop_drop, List.length_append, List.length_drop]
  congr 2 <;> omega

namespace Store

variable {s t : Store}

theorem limit_act (s : Store) (a : Act) : (s.act a).limit = s.limit := by
  cases a with
  | operation op => exact limit_apply s op
  | recent => rfl
  | outside file => rfl

/-- **Where everything is strings, no fault ends an act,** and everything stays strings. -/
theorem IsScalar.act (h : s.IsScalar) {a : Act} (ha : a.IsScalar) :
    s.attemptAct a = .ok (s.act a) ∧ (s.act a).IsScalar := by
  cases a with
  | operation op =>
    obtain ⟨hended, hscalar⟩ := h.perform ha
    exact ⟨attemptApply_of_isOk hended, hscalar⟩
  | recent => exact ⟨rfl, h⟩
  | outside file =>
    refine ⟨rfl, h.entries, ?_⟩
    obtain ⟨entries, limit, limit_pos, place, file'⟩ := s
    cases place with
    | file => exact ha
    | _ => exact List.forall_mem_nil _

theorem IsScalar.after (h : s.IsScalar) {acts : List Act} (hacts : ∀ a ∈ acts, a.IsScalar) :
    (s.after acts).IsScalar := by
  induction acts generalizing s with
  | nil => exact h
  | cons a acts ih =>
    obtain ⟨ha, hacts⟩ := List.forall_mem_cons.mp hacts
    exact ih (h.act ha).2 hacts

/-- **One act.** If the entries are the last ones of a queue, they are so afterwards. -/
theorem entries_act {queue : List Entry} (h : s.entries = keepLast s.limit queue) (a : Act) :
    (s.act a).entries = keepLast s.limit (account queue (a, s.answer a)) := by
  cases a with
  | operation op =>
    cases op with
    | add entry =>
      show (s.add entry).1.entries = keepLast s.limit (queue ++ [entry])
      rw [entries_add, h, keepLast_append]
    | clear =>
      show s.clear.1.entries = keepLast s.limit []
      rw [entries_clear, keepLast_nil]
    | save => exact (entries_save s).trans h
    | load =>
      -- what is read is bounded already
      show s.load.1.entries = keepLast s.limit s.load.1.entries
      rw [load_eq]
      exact (keepLast_of_length_le (length_keepLast_le s.limit _)).symm
  | recent => exact h
  | outside file => exact h

theorem entries_after {queue : List Entry} (h : s.entries = keepLast s.limit queue)
    (acts : List Act) :
    (s.after acts).entries = keepLast s.limit ((s.trace acts).foldl account queue) := by
  induction acts generalizing s queue with
  | nil => exact h
  | cons a acts ih =>
    have hact := entries_act h a
    rw [← limit_act s a] at hact
    have hrest := ih hact
    rwa [limit_act] at hrest

/-! ### The place does not matter -/

/-- An act of its own, other than reading, does not show a history where it is kept. -/
theorem act_congr (hentries : s.entries = t.entries) (hlimit : s.limit = t.limit) {a : Act}
    (ha : a ≠ .operation .load) :
    s.answer a = t.answer a ∧ (s.act a).entries = (t.act a).entries := by
  cases a with
  | operation op =>
    cases op with
    | add entry =>
      refine ⟨rfl, ?_⟩
      show (s.add entry).1.entries = (t.add entry).1.entries
      rw [entries_add, entries_add, hentries, hlimit]
    | clear =>
      refine ⟨rfl, ?_⟩
      show s.clear.1.entries = t.clear.1.entries
      rw [entries_clear, entries_clear]
    | save =>
      refine ⟨rfl, ?_⟩
      show s.save.1.entries = t.save.1.entries
      rw [entries_save, entries_save, hentries]
    | load => exact absurd rfl ha
  | recent =>
    refine ⟨?_, hentries⟩
    show Answer.entries s.entries.reverse = .entries t.entries.reverse
    rw [hentries]
  | outside file => exact ⟨rfl, hentries⟩

/-- Without reading, what is seen of a history is seen of every other one that starts with the same
entries, and whatever others do to the file. -/
theorem observed_congr (hentries : s.entries = t.entries) (hlimit : s.limit = t.limit)
    {acts : List Act} (hload : ∀ a ∈ acts, a ≠ .operation .load) :
    s.observed acts = t.observed (acts.filter Act.isOwn) := by
  induction acts generalizing s t with
  | nil => rfl
  | cons a acts ih =>
    rw [List.forall_mem_cons] at hload
    obtain ⟨hanswer, hact⟩ := act_congr hentries hlimit hload.1
    by_cases hown : a.isOwn = true
    · have hrest := ih (t := t.act a) hact (by rw [limit_act, limit_act, hlimit]) hload.2
      rw [List.filter_cons_of_pos hown, observed, observed, if_pos hown, if_pos hown, hanswer, hact,
        hrest]
    · cases a with
      | outside file => exact ih hentries hlimit hload.2
      | _ => exact absurd rfl hown

theorem limit_new_eq (storage : Storage) (limit : Int) :
    (new storage limit).limit = (max 1 limit).toNat := by
  rw [new]
  split
  · rename_i h
    rw [Int.max_eq_right h]
  · rename_i h
    rw [Int.max_eq_left (by omega)]
    rfl

/-- **The history is a bounded queue.** Wherever it is kept and whatever happened, its entries are
the last ones, as many as its limit but at least one, of what the most recent reading or clearing
produced and everything added since, and they are given back with the latest first. If nothing but
strings was ever added or found in a file, no fault ends a further act. Where nothing is read, two
histories that are used in the same way show the same, wherever they are kept and whatever others
did to their files. -/
theorem bounded_queue_anywhere (storage : Storage) (limit : Int) :
    (∀ acts : List Act,
      let s := (new storage limit).after acts
      s.entries = (outstanding ((new storage limit).trace acts)).rtake (max 1 limit).toNat ∧
        s.answer .recent = .entries s.entries.reverse ∧
        (storage.IsScalar → (∀ a ∈ acts, a.IsScalar) →
          ∀ a, a.IsScalar → s.attemptAct a = .ok (s.act a))) ∧
    ∀ (storage' : Storage) (acts acts' : List Act),
      acts.filter Act.isOwn = acts'.filter Act.isOwn → (∀ a ∈ acts, a ≠ .operation .load) →
      (new storage limit).observed acts = (new storage' limit).observed acts' := by
  constructor
  · intro acts s
    have hnew : (new storage limit).entries = keepLast (new storage limit).limit [] := by
      rw [entries_new, keepLast_nil]
    refine ⟨?_, rfl, fun hstorage hacts a ha => ?_⟩
    case refine_2 => exact (((isScalar_new hstorage limit).after hacts).act ha).1
    rw [← limit_new_eq storage limit]
    exact entries_after hnew acts
  · intro storage' acts acts' hsame hload
    have hload' : ∀ a ∈ acts', a ≠ .operation .load := by
      rintro a ha rfl
      have hmem : Act.operation .load ∈ acts'.filter Act.isOwn := List.mem_filter.mpr ⟨ha, rfl⟩
      rw [← hsame] at hmem
      exact hload _ (List.mem_of_mem_filter hmem) rfl
    have hentries : ∀ place, (new place limit).entries = (new storage limit).entries :=
      fun place => by rw [entries_new, entries_new]
    rw [observed_congr rfl rfl hload, hsame]
    exact (observed_congr (hentries storage') (limit_new _ _ limit) hload').symm

/-- Every writing fails, the file is removed meanwhile, and the limit counts as one; and a history
over a file that is not there yet. -/
theorem bounded_queue_anywhere_of_directory :
    let acts : List Act :=
      [.operation (.add ⟨"1+1", "2"⟩), .outside none, .recent, .operation (.add ⟨"2*3", "6"⟩),
        .operation .save]
    let acts' : List Act :=
      [.operation (.add ⟨"1+1", "2"⟩), .recent, .operation (.add ⟨"2*3", "6"⟩), .operation .save]
    (acts.filter Act.isOwn = acts'.filter Act.isOwn ∧ (∀ a ∈ acts, a ≠ .operation .load) ∧
        Storage.IsScalar ⟨.file, none⟩ ∧ ∀ a ∈ acts, a.IsScalar) ∧
      (new ⟨.directory, none⟩ 0).observed acts =
        [(.entry ⟨"1+1", "2"⟩, [⟨"1+1", "2"⟩]), (.entries [⟨"1+1", "2"⟩], [⟨"1+1", "2"⟩]),
          (.entry ⟨"2*3", "6"⟩, [⟨"2*3", "6"⟩]), (.nothing, [⟨"2*3", "6"⟩])] ∧
      let s := (new ⟨.file, none⟩ 0).after acts
      s.attemptAct (.operation .load) = .ok (s.act (.operation .load)) := by
  intro acts acts'
  have hsame : acts.filter Act.isOwn = acts'.filter Act.isOwn := rfl
  have hload : ∀ a ∈ acts, a ≠ .operation .load := by simp [acts]
  have hfile : Storage.IsScalar ⟨.file, none⟩ := List.forall_mem_nil _
  have hacts : ∀ a ∈ acts, a.IsScalar := by
    simp only [acts, List.forall_mem_cons]
    exact ⟨Entry.isScalar_ofString _ _, hfile, trivial, Entry.isScalar_ofString _ _, trivial,
      List.forall_mem_nil _⟩
  have hmemory :=
    (bounded_queue_anywhere ⟨.directory, none⟩ 0).2 ⟨.memory, none⟩ acts acts' hsame hload
  obtain ⟨-, -, hended⟩ := (bounded_queue_anywhere ⟨.file, none⟩ 0).1 acts
  exact ⟨⟨hsame, hload, hfile, hacts⟩, hmemory.trans rfl,
    hended hfile hacts (.operation .load) trivial⟩

end Store

end DeskCalculator.History
