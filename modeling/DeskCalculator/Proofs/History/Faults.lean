import DeskCalculator.Proofs.ExceptLaws
import DeskCalculator.Proofs.History.Persistence

/-!
# DeskCalculator.Proofs.History.Faults

The faults that can end an operation on a history. Saving is prepared for the faults of the system
that files are kept on, reading for those of the content as well. `attemptLoad` is the reading that
ends with what it is not prepared for; it never does (`attemptLoad_eq`). So what ends an operation
is a surrogate in a text for a file, and nothing else (`attemptApply_eq_error_iff`).
-/

namespace DeskCalculator.History

/-- Whether a fault lies in the content of a file that is read. -/
def Fault.isOfContent : Fault → Bool
  | .notText | .malformed | .hugeInteger | .notAList | .badEntry => true
  | .isDirectory | .noDirectory | .unencodable => false

/-- A place that cannot be read is a fault of the system. -/
theorem Storage.isOfSystem_of_read? {s : Storage} {fault : Fault}
    (h : s.read? = some (.error fault)) : fault.isOfSystem = true := by
  obtain ⟨place, file⟩ := s
  cases place with
  | directory =>
    obtain rfl := Except.error.inj (Option.some.inj h)
    rfl
  | file =>
    obtain ⟨bytes, -, heq⟩ := Option.map_eq_some_iff.mp h
    exact absurd heq (by simp)
  | memory | missingDirectory => exact absurd h (by simp [read?])

theorem Entry.eq_badEntry_of_ofJson {value : Json.Value} {fault : Fault}
    (h : ofJson value = .error fault) : fault = .badEntry := by
  unfold ofJson at h
  split at h
  · split at h
    · exact absurd h (by simp)
    · exact (Except.error.inj h).symm
  · exact (Except.error.inj h).symm

/-- Bytes that are no history are a fault of the content. -/
theorem isOfContent_of_decode {bytes : ByteArray} {fault : Fault}
    (h : decode bytes = .error fault) :
    fault.isOfContent = true := by
  unfold decode at h
  split at h
  · rw [← Except.error.inj h]
    rfl
  · split at h
    · rename_i refusal _
      rw [← Except.error.inj h]
      cases refusal <;> rfl
    · unfold ofJson at h
      split at h
      · obtain ⟨value, -, hvalue⟩ := exists_mem_of_mapM_eq_error h
        rw [Entry.eq_badEntry_of_ofJson hvalue]
        rfl
      · rw [← Except.error.inj h]
        rfl

namespace Store

/-- Takes the entries from their place. A fault that is neither one of the system nor one of the
content ends the operation. -/
def attemptLoad (s : Store) : Except Fault (Store × List Notice) :=
  match s.storage.read? with
  | none => .ok ({ s with entries := [] }, [])
  | some content =>
    match content.bind decode with
    | .ok entries => .ok ({ s with entries := keepLast s.limit entries }, [])
    | .error fault =>
      if fault.isOfSystem ∨ fault.isOfContent then
        .ok ({ s with entries := [] }, [.historyUnreadable fault])
      else .error fault

/-- An operation that a fault may end. -/
def attemptApply (s : Store) : Operation → Except Fault Store
  | .load => s.attemptLoad.map Prod.fst
  | op => (s.perform op).2.map fun _ => s.apply op

/-- **No fault ends the reading of a history.** -/
theorem attemptLoad_eq (s : Store) : s.attemptLoad = .ok s.load := by
  rw [attemptLoad, load]
  cases hread : s.storage.read? with
  | none => rfl
  | some content =>
    simp only
    cases hcontent : content.bind decode with
    | ok entries => rfl
    | error fault =>
      refine if_pos ?_
      cases content with
      | error fault' =>
        obtain rfl : fault' = fault := by simpa using hcontent
        exact .inl (Storage.isOfSystem_of_read? hread)
      | ok bytes => exact .inr (isOfContent_of_decode hcontent)

theorem attemptApply_eq (s : Store) (op : Operation) :
    s.attemptApply op = (s.perform op).2.map fun _ => s.apply op := by
  cases op with
  | load => rw [attemptApply, attemptLoad_eq]; rfl
  | _ => rfl

theorem attemptApply_of_isOk {s : Store} {op : Operation} (h : (s.perform op).2.isOk = true) :
    s.attemptApply op = .ok (s.apply op) := by
  rw [attemptApply_eq]
  cases hending : (s.perform op).2 with
  | ok notices => rfl
  | error fault => exact absurd h (by simp [hending])

/-- **What ends an operation** is a surrogate in a text for a file, and nothing else. -/
theorem attemptApply_eq_error_iff {s : Store} {op : Operation} {fault : Fault} :
    s.attemptApply op = .error fault ↔ op ≠ .load ∧ s.storage.place = .file ∧
      fault = .unencodable ∧ ∃ entry ∈ (s.apply op).entries, ¬ entry.IsScalar := by
  have hmap : ∀ {ending : Ending}, (ending.map fun _ => s.apply op) = .error fault ↔
      ending = .error fault := fun {ending} => by cases ending <;> simp
  rw [attemptApply_eq, hmap]
  cases op with
  | load => simp [perform]
  | _ => exact save_eq_error_iff.trans (and_iff_right (by simp)).symm

end Store

end DeskCalculator.History
