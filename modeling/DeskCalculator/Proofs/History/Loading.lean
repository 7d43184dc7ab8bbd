import Mathlib.Data.List.DropRight
import Mathlib.Data.List.Forall2
import DeskCalculator.Proofs.History.Faults

/-!
# DeskCalculator.Proofs.History.Loading

Reading a history is all or nothing, over every content of its file.

* **Values.** `ofJson` finds the entries that a value holds, and refuses a value with a single item
  that is no entry (`ofJson_eq_ok_iff`).
* **Bytes.** Entries have many renderings. Each of them is read as the entries
  (`decode_of_renders`), and nothing else is read at all (`renders_of_decode`).
* **The store** drops what does not fit once everything is read (`Store.load_all_or_nothing`).
-/

namespace DeskCalculator.History

open Json (Value Spaced SpellsText)

/-! ### Entries in values -/

/-- Some members, the last one of this name with this value. -/
def LastNamed (name : LooseText) (value : Value) (members : List (LooseText × Value)) : Prop :=
  ∃ before after, members = before ++ (name, value) :: after ∧ ∀ member ∈ after, member.1 ≠ name

/-- A value that holds an entry: an object with two strings, among any other members. -/
def Entry.IsHeldBy (entry : Entry) (value : Value) : Prop :=
  ∃ members, value = .object members ∧ LastNamed "expr" (.string entry.expression) members ∧
    LastNamed "result" (.string entry.result) members

variable {name : LooseText} {value : Value} {members : List (LooseText × Value)}

theorem member?_eq_some_iff :
    Value.member? name members = some value ↔ LastNamed name value members := by
  constructor
  · intro h
    obtain ⟨⟨name', value'⟩, hfind, rfl⟩ := Option.map_eq_some_iff.mp h
    obtain ⟨hname, after, before, hreverse, hafter⟩ := List.find?_eq_some_iff_append.mp hfind
    obtain rfl : name' = name := by simpa using hname
    refine ⟨before.reverse, after.reverse, ?_, fun member hmember => ?_⟩
    · rw [← List.reverse_reverse members, hreverse]
      simp
    · simpa using hafter member (List.mem_reverse.mp hmember)
  · rintro ⟨before, after, rfl, hafter⟩
    refine Option.map_eq_some_iff.mpr ⟨(name, value), ?_, rfl⟩
    refine List.find?_eq_some_iff_append.mpr ⟨by simp, after.reverse, before.reverse, by simp, ?_⟩
    exact fun member hmember => by simpa using hafter member (List.mem_reverse.mp hmember)

theorem string?_eq_some_iff {text : LooseText} :
    value.string? = some text ↔ value = .string text := by
  cases value <;> simp [Value.string?]

/-- Where a member is read as a string, it is one. -/
theorem member?_string?_eq_some_iff {text : LooseText} :
    (Value.member? name members).bind Value.string? = some text ↔
      LastNamed name (.string text) members := by
  rw [← member?_eq_some_iff, Option.bind_eq_some_iff]
  simp [string?_eq_some_iff]

theorem Entry.ofJson_eq_ok_iff {entry : Entry} :
    ofJson value = .ok entry ↔ entry.IsHeldBy value := by
  constructor
  · intro h
    unfold ofJson at h
    split at h
    · split at h
      · rename_i members _ _ expression result hexpression hresult
        obtain rfl := Except.ok.inj h
        exact ⟨members, rfl, member?_string?_eq_some_iff.mp hexpression,
          member?_string?_eq_some_iff.mp hresult⟩
      · exact absurd h (by simp)
    · exact absurd h (by simp)
  · rintro ⟨members, rfl, hexpression, hresult⟩
    rw [ofJson, member?_string?_eq_some_iff.mpr hexpression,
      member?_string?_eq_some_iff.mpr hresult]

theorem mapM_ofJson_eq_ok_iff {items : List Value} {entries : List Entry} :
    items.mapM Entry.ofJson = .ok entries ↔ List.Forall₂ Entry.IsHeldBy entries items := by
  simp only [mapM_eq_ok_iff, Entry.ofJson_eq_ok_iff]

/-- The entries of a value are those that its items hold, one in each. -/
theorem ofJson_eq_ok_iff {entries : List Entry} :
    ofJson value = .ok entries ↔
      ∃ items, value = .array items ∧ List.Forall₂ Entry.IsHeldBy entries items := by
  cases value with
  | array items => simp [ofJson, mapM_ofJson_eq_ok_iff]
  | _ => simp [ofJson]

/-! ### Renderings -/

/-- A text of some entries: an array with an object for each entry, with any spaces, any order of
the members, further ones and earlier ones of the same names, and any spelling of the strings. -/
def Renders (entries : List Entry) (text : String) : Prop :=
  ∃ items, List.Forall₂ Entry.IsHeldBy entries items ∧
    Spaced (Value.array items).lexemes text.toList

theorem toUTF8_of_fromUTF8? {bytes : ByteArray} {text : String}
    (h : String.fromUTF8? bytes = some text) : bytes = text.toUTF8 := by
  unfold String.fromUTF8? at h
  split at h
  · obtain rfl := Option.some.inj h
    rfl
  · exact absurd h (by simp)

/-- **A rendering is read as the entries.** -/
theorem decode_of_renders {entries : List Entry} {text : String}
    (h : Renders entries text) : decode text.toUTF8 = .ok entries := by
  obtain ⟨items, hitems, htext⟩ := h
  rw [decode, fromUTF8?_toUTF8]
  simp only [Json.parse_of_spaced htext]
  exact ofJson_eq_ok_iff.mpr ⟨items, rfl, hitems⟩

/-- **What is read is a rendering.** -/
theorem renders_of_decode {bytes : ByteArray} {entries : List Entry}
    (h : decode bytes = .ok entries) :
    ∃ text, Renders entries text ∧ bytes = text.toUTF8 := by
  unfold decode at h
  split at h
  · exact absurd h (by simp)
  · rename_i text htext
    split at h
    · exact absurd h (by simp)
    · rename_i value hparse
      obtain ⟨items, rfl, hitems⟩ := ofJson_eq_ok_iff.mp h
      exact ⟨text, ⟨items, hitems, Json.spaced_of_parse hparse⟩, toUTF8_of_fromUTF8? htext⟩

/-! ### The store -/

namespace Store

/-- **Reading is all or nothing.** Whatever the history held before: if its file is a rendering of
some entries, it has the last of them, as many as the limit allows, and reports nothing. If the file
is anything else, it is empty, and reports this with one warning. No fault ends the reading, and the
file stays as it is. (The file has no more brackets inside one another than a reader can hold.) -/
theorem load_all_or_nothing (s : Store) (bytes : ByteArray) (hplace : s.storage.place = .file)
    (hfile : s.storage.file = some bytes) :
    (∀ entries text, Renders entries text → bytes = text.toUTF8 →
      s.load = ({ s with entries := entries.rtake s.limit }, [])) ∧
    ((∀ entries text, Renders entries text → bytes ≠ text.toUTF8) →
      ∃ notice, notice.level = .warning ∧ s.load = ({ s with entries := [] }, [notice])) ∧
    s.attemptLoad = .ok s.load ∧ s.load.1.storage = s.storage := by
  have hread : s.storage.read? = some (.ok bytes) := by
    rw [Storage.read?, hplace, hfile]
    rfl
  refine ⟨?_, ?_, attemptLoad_eq s, by rw [load_eq]⟩
  · rintro entries text hrenders rfl
    unfold load
    simp only [hread, bind_ok, decode_of_renders hrenders]
    rfl
  · intro hnone
    cases hdecode : decode bytes with
    | ok entries =>
      obtain ⟨text, hrenders, hbytes⟩ := renders_of_decode hdecode
      exact absurd hbytes (hnone entries text hrenders)
    | error fault =>
      refine ⟨.historyUnreadable fault, rfl, ?_⟩
      unfold load
      simp only [hread, bind_ok, hdecode]

/-- A name that occurs twice, and a character by its code; and the empty file, which renders no
entries. -/
theorem load_all_or_nothing_of_escape :
    let text := "[\x7b\"expr\":\"\",\"result\":\"2\",\"expr\":\"1\\u002b1\"\x7d] "
    let s : Store := ⟨[⟨"9", "9"⟩], 5, by decide, ⟨.file, some text.toUTF8⟩⟩
    let s' : Store := ⟨[⟨"9", "9"⟩], 5, by decide, ⟨.file, some "".toUTF8⟩⟩
    Renders [⟨"1+1", "2"⟩] text ∧ (s.load.1.entries, s.load.2) = ([⟨"1+1", "2"⟩], []) ∧
      ∃ notice, notice.level = .warning ∧ (s'.load.1.entries, s'.load.2) = ([], [notice]) := by
  intro text s s'
  let members : List (LooseText × Value) :=
    [("expr", .string ""), ("result", .string "2"), ("expr", .string "1+1")]
  have hheld : Entry.IsHeldBy ⟨"1+1", "2"⟩ (.object members) :=
    ⟨members, rfl, ⟨members.take 2, [], rfl, by simp⟩,
      ⟨members.take 1, members.drop 2, rfl, by simp [members]⟩⟩
  have hplain : ∀ text : String,
      SpellsText (LooseText.points text) (text.toList.flatMap Json.writeChar) :=
    fun text => Json.spellsText_flatMap_writeChar text.toList
  have hescape : SpellsText (LooseText.points "1+1") "1\\u002b1".toList :=
    @SpellsText.cons '1' _ ['1'] _ (Json.spells_writeChar '1') <|
      @SpellsText.cons '+' _ ['\\', 'u', '0', '0', '2', 'b'] _
        (.code (Json.codeUnit?_eq_some_iff.mp rfl)) (hplain "1")
  have hspaced : Spaced (Value.array [.object members]).lexemes text.toList := by
    have hlexemes : (Value.array [.object members]).lexemes =
        [.openBracket, .openBrace, .string "expr", .colon, .string "", .comma, .string "result",
          .colon, .string "2", .comma, .string "expr", .colon, .string "1+1", .closeBrace,
          .closeBracket] := by
      simp [members, Value.lexemes, Json.itemLexemes, Json.memberLexemes]
    rw [hlexemes]
    subst text
    exact .cons_mark rfl <| .cons_mark rfl <|
      .cons_string "expr" (hplain _) <| .cons_mark rfl <| .cons_string "" .nil <| .cons_mark rfl <|
      .cons_string "result" (hplain _) <| .cons_mark rfl <| .cons_string "2" (hplain _) <|
      .cons_mark rfl <| .cons_string "expr" (hplain _) <| .cons_mark rfl <|
      .cons_string "1+1" hescape <| .cons_mark rfl <| .cons_mark rfl <|
      .nil (List.forall_mem_singleton.mpr rfl)
  have hrenders : Renders [⟨"1+1", "2"⟩] text := ⟨_, .cons hheld .nil, hspaced⟩
  have hempty : ∀ entries text, Renders entries text → "".toUTF8 ≠ text.toUTF8 := by
    rintro entries text ⟨items, -, htext⟩ hbytes
    obtain rfl : "" = text := String.toByteArray_inj.mp hbytes
    have hlength := htext.length_le
    simp [Value.lexemes] at hlength
  have hload := (load_all_or_nothing s text.toUTF8 rfl rfl).1 _ text hrenders rfl
  obtain ⟨notice, hlevel, hload'⟩ := (load_all_or_nothing s' "".toUTF8 rfl rfl).2.1 hempty
  refine ⟨hrenders, by rw [hload]; rfl, notice, hlevel, by rw [hload']⟩

end Store

end DeskCalculator.History
