import DeskCalculator.Notice

/-!
# DeskCalculator.History.Store

The history of calculations: a bounded list of entries and the place where it is kept.

* **The list** holds the latest entries, as many as the limit allows. What does not fit goes first.
* **The place** is written after every change of the list. If that fails, or if reading fails, a
  notice says so and the list goes on without it.
* **Saving is not prepared for all faults.** A text with a surrogate that has no partner cannot be
  written. By the time this is found out the file is empty, and the fault ends the operation.
* **Reading is all or nothing.** A place that cannot be read as a whole leaves the list empty.
-/

namespace DeskCalculator.History

/-- Where the path that a history is given leads. -/
inductive Place
  /-- Nowhere: the history lasts as long as the program. -/
  | memory
  /-- To the history file, which need not exist. -/
  | file
  /-- To a directory, which can be neither read nor written as a file. -/
  | directory
  | missingDirectory
  deriving DecidableEq, Repr

/-- What a history is kept on. -/
structure Storage where
  /-- Where the path of the history leads. -/
  place : Place
  /-- The content of the history file, if there is one. Others can write and remove the file as
  well, and it is there whether or not the path leads to it. -/
  file : Option ByteArray

namespace Storage

/-- What the path leads to: nothing, bytes, or something that cannot be read. -/
def read? (s : Storage) : Option (Except Fault ByteArray) :=
  match s.place with
  | .memory => none
  | .file => s.file.map .ok
  | .directory => some (.error .isDirectory)
  | .missingDirectory => none

/-- Writes a text, and says whether that succeeds. A file is emptied before the text is brought into
bytes. -/
def write (s : Storage) (text : LooseText) : Storage × Except Fault Unit :=
  match s.place with
  | .memory => (s, .ok ())
  | .file =>
    match text.toUTF8? with
    | some bytes => ({ s with file := some bytes }, .ok ())
    | none => ({ s with file := some .empty }, .error .unencodable)
  | .directory => (s, .error .isDirectory)
  | .missingDirectory => (s, .error .noDirectory)

end Storage

/-- The last elements of a list, at most as many as the first argument says. -/
def keepLast (count : Nat) {α : Type} (list : List α) : List α := list.drop (list.length - count)

theorem length_keepLast_le {α : Type} (count : Nat) (list : List α) :
    (keepLast count list).length ≤ count := by
  simp only [keepLast, List.length_drop]
  omega

theorem keepLast_of_length_le {α : Type} {count : Nat} {list : List α} (h : list.length ≤ count) :
    keepLast count list = list := by
  simp [keepLast, Nat.sub_eq_zero_of_le h]

/-- The history of calculations. -/
structure Store where
  /-- The entries, the oldest first. -/
  entries : List Entry
  /-- How many entries are kept. -/
  limit : Nat
  limit_pos : 0 < limit
  storage : Storage

namespace Store

/-- How many entries are kept unless another limit is asked for. -/
def defaultLimit : Int := 200

/-- An empty history over a place, which is not read yet. A limit below one counts as one. -/
def new (storage : Storage) (limit : Int) : Store :=
  if h : 1 ≤ limit then ⟨[], limit.toNat, by omega, storage⟩ else ⟨[], 1, by decide, storage⟩

/-- The entries in the order in which they are shown. -/
def latestFirst (s : Store) : List Entry := s.entries.reverse

/-- Writes the entries to their place. A fault of the system is reported; any other one ends the
operation. -/
def save (s : Store) : Store × Ending :=
  let (storage, written) := s.storage.write (fileText s.entries)
  ({ s with storage },
    match written with
    | .ok () => .ok []
    | .error fault => if fault.isOfSystem then .ok [.historyUnsaved fault] else .error fault)

/-- Adds an entry, and drops the oldest one if there are too many. -/
def add (s : Store) (entry : Entry) : Store × Ending :=
  { s with entries := keepLast s.limit (s.entries ++ [entry]) }.save

/-- Drops all entries. -/
def clear (s : Store) : Store × Ending := { s with entries := [] }.save

/-- Takes the entries from their place; none if there is nothing or it cannot be read. -/
def load (s : Store) : Store × List Notice :=
  match s.storage.read? with
  | none => ({ s with entries := [] }, [])
  | some content =>
    match content.bind decode with
    | .ok entries => ({ s with entries := keepLast s.limit entries }, [])
    | .error fault => ({ s with entries := [] }, [.historyUnreadable fault])

end Store

end DeskCalculator.History
