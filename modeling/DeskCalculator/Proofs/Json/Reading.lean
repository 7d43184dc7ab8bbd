import DeskCalculator.Json.Reading
import DeskCalculator.Proofs.ExceptLaws

/-!
# DeskCalculator.Proofs.Json.Reading

The lexemes of a value are read as the value, and no others are.

* **Taking all of them.** In whatever it is contained, a value is read from its lexemes
  (`Reading.run_lexemes`).
* **Taking nothing else.** A reading holds exactly the lexemes that it has taken
  (`Reading.lexemes_step`), so lexemes that are read as a value are those of the value.
-/

namespace DeskCalculator.Json

/-! ### From a value -/

namespace Reading

theorem run_cons (s : Reading) (l : Lexeme) (ls : List Lexeme) :
    s.run (l :: ls) = (s.step l).bind fun s' => s'.run ls := rfl

/-- No integer among the lexemes has too many digits. -/
def Readable (ls : List Lexeme) : Prop :=
  ∀ text, .number text ∈ ls → isHugeInteger text = false

theorem Readable.left {a b : List Lexeme} (h : Readable (a ++ b)) : Readable a :=
  fun text hmem => h text (List.mem_append_left b hmem)

theorem Readable.right {a b : List Lexeme} (h : Readable (a ++ b)) : Readable b :=
  fun text hmem => h text (List.mem_append_right a hmem)

theorem Readable.tail {l : Lexeme} {ls : List Lexeme} (h : Readable (l :: ls)) : Readable ls :=
  fun text hmem => h text (List.mem_cons_of_mem l hmem)

/-- A value begins with no closing bracket. -/
theorem exists_lexemes_eq_cons (v : Value) :
    ∃ l ls, v.lexemes = l :: ls ∧ l ≠ .closeBracket := by
  cases v <;> exact ⟨_, _, by rw [Value.lexemes], by simp⟩

theorem exists_itemLexemes_eq_cons (item : Value) (rest : List Value) :
    ∃ l ls, itemLexemes (item :: rest) = l :: ls ∧ l ≠ .closeBracket := by
  obtain ⟨l, ls, hls, hl⟩ := exists_lexemes_eq_cons item
  cases rest with
  | nil => exact ⟨l, ls, by rw [itemLexemes, hls], hl⟩
  | cons next rest => exact ⟨l, _, by rw [itemLexemes, hls]; rfl, hl⟩

/-- The members of an object begin with a name. -/
theorem exists_memberLexemes_eq_cons (name : LooseText) (value : Value)
    (rest : List (LooseText × Value)) :
    ∃ ls, memberLexemes ((name, value) :: rest) = .string name :: ls := by
  cases rest with
  | nil => exact ⟨_, by rw [memberLexemes]⟩
  | cons next rest => exact ⟨_, by rw [memberLexemes]⟩

/-- The first item of an array is read like any other. -/
theorem run_arrayStart {frames : List Frame} {l : Lexeme} {ls : List Lexeme}
    (h : l ≠ .closeBracket) :
    run ⟨frames, .arrayStart⟩ (l :: ls) = run ⟨.items [] :: frames, .value⟩ (l :: ls) := by
  rw [run_cons, run_cons]
  cases l <;> first | rfl | exact absurd rfl h

mutual

/-- The lexemes of a value are read as the value, whatever is open around it. -/
theorem run_lexemes (v : Value) (frames : List Frame) (h : Readable v.lexemes) :
    run ⟨frames, .value⟩ v.lexemes = .ok ⟨frames, .complete v⟩ := by
  match v with
  | .word word => rfl
  | .number text =>
    have hsmall : isHugeInteger text = false := h text (by simp [Value.lexemes])
    rw [Value.lexemes, run_cons]
    show (beginValue frames (.number text)).bind _ = _
    rw [beginValue, hsmall]
    rfl
  | .string text => rfl
  | .array [] => rfl
  | .array (item :: rest) =>
    rw [Value.lexemes] at h ⊢
    have hitems := run_itemLexemes item rest [] frames h.tail.left
    -- behind the bracket an item or the end is awaited, and it is an item that comes
    obtain ⟨l, ls, hls, hl⟩ := exists_itemLexemes_eq_cons item rest
    rw [hls] at hitems ⊢
    rw [run_cons]
    exact (run_arrayStart hl).trans hitems
  | .object [] => rfl
  | .object ((name, value) :: rest) =>
    rw [Value.lexemes] at h ⊢
    have hmembers := run_memberLexemes name value rest [] frames h.tail.left
    obtain ⟨ls, hls⟩ := exists_memberLexemes_eq_cons name value rest
    rw [hls] at hmembers ⊢
    exact hmembers
termination_by sizeOf v

theorem run_itemLexemes (item : Value) (rest done : List Value) (frames : List Frame)
    (h : Readable (itemLexemes (item :: rest))) :
    run ⟨.items done :: frames, .value⟩ (itemLexemes (item :: rest) ++ [.closeBracket]) =
      .ok ⟨frames, .complete (.array (done.reverse ++ item :: rest))⟩ := by
  match rest with
  | [] =>
    rw [itemLexemes] at h ⊢
    rw [run_append, run_lexemes item _ h, ← List.reverse_cons]
    rfl
  | next :: rest =>
    rw [itemLexemes] at h ⊢
    have hrest := run_itemLexemes next rest (item :: done) frames h.right.tail
    rw [List.reverse_cons, List.append_assoc] at hrest
    rw [List.append_assoc, run_append, run_lexemes item _ h.left]
    exact hrest
termination_by sizeOf item + sizeOf rest

theorem run_memberLexemes (name : LooseText) (value : Value) (rest done : List (LooseText × Value))
    (frames : List Frame) (h : Readable (memberLexemes ((name, value) :: rest))) :
    run ⟨frames, .name done⟩ (memberLexemes ((name, value) :: rest) ++ [.closeBrace]) =
      .ok ⟨frames, .complete (.object (done.reverse ++ (name, value) :: rest))⟩ := by
  match rest with
  | [] =>
    rw [memberLexemes] at h ⊢
    have hvalue := run_lexemes value (.members done name :: frames) h.tail.tail
    show run ⟨.members done name :: frames, .value⟩ (value.lexemes ++ [.closeBrace]) = _
    rw [run_append, hvalue, ← List.reverse_cons]
    rfl
  | (name', value') :: rest =>
    rw [memberLexemes] at h ⊢
    have hvalue := run_lexemes value (.members done name :: frames) h.tail.tail.left
    have hrest := run_memberLexemes name' value' rest ((name, value) :: done) frames
      h.tail.tail.right.tail
    show run ⟨.members done name :: frames, .value⟩
      (value.lexemes ++ .comma :: memberLexemes ((name', value') :: rest) ++ [.closeBrace]) = _
    rw [List.reverse_cons, List.append_assoc] at hrest
    rw [List.append_assoc, run_append, hvalue]
    exact hrest
termination_by sizeOf value + sizeOf rest

end

end Reading

/-- **The lexemes of a value are read as the value.** -/
theorem ofLexemes_lexemes {v : Value} (h : Reading.Readable v.lexemes) :
    ofLexemes v.lexemes = .ok v := by
  rw [ofLexemes, Reading.start, Reading.run_lexemes v [] h]
  rfl

/-! ### Items and members before a comma -/

/-- Items with a comma behind each of them. -/
def listedItems (items : List Value) : List Lexeme :=
  items.flatMap fun item => item.lexemes ++ [.comma]

/-- Members with a comma behind each of them. -/
def listedMembers (members : List (LooseText × Value)) : List Lexeme :=
  members.flatMap fun member => .string member.1 :: .colon :: (member.2.lexemes ++ [.comma])

theorem itemLexemes_concat (items : List Value) (last : Value) :
    itemLexemes (items ++ [last]) = listedItems items ++ last.lexemes := by
  induction items with
  | nil => rw [List.nil_append, itemLexemes]; rfl
  | cons item rest ih =>
    obtain ⟨next, more, hnext⟩ := List.exists_cons_of_ne_nil
      (List.append_ne_nil_of_right_ne_nil rest (List.cons_ne_nil last []))
    rw [List.cons_append, hnext, itemLexemes, ← hnext, ih]
    simp [listedItems]

theorem memberLexemes_concat (members : List (LooseText × Value)) (name : LooseText)
    (value : Value) :
    memberLexemes (members ++ [(name, value)]) =
      listedMembers members ++ .string name :: .colon :: value.lexemes := by
  induction members with
  | nil => rw [List.nil_append, memberLexemes]; rfl
  | cons member rest ih =>
    obtain ⟨next, more, hnext⟩ := List.exists_cons_of_ne_nil
      (List.append_ne_nil_of_right_ne_nil rest (List.cons_ne_nil (name, value) []))
    rw [List.cons_append, hnext, memberLexemes, ← hnext, ih]
    simp [listedMembers]

/-! ### The lexemes taken so far -/

/-- The lexemes of an array or object that is open. -/
def Frame.lexemes : Frame → List Lexeme
  | .items done => .openBracket :: listedItems done.reverse
  | .members done name => .openBrace :: (listedMembers done.reverse ++ [.string name, .colon])

/-- The lexemes taken so far of what is being read. -/
def Focus.lexemes : Focus → List Lexeme
  | .value => []
  | .arrayStart => [.openBracket]
  | .objectStart => [.openBrace]
  | .name done => .openBrace :: listedMembers done.reverse
  | .colon done key => .openBrace :: (listedMembers done.reverse ++ [.string key])
  | .complete v => v.lexemes

/-- What is around the current place. -/
def openLexemes (frames : List Frame) : List Lexeme := frames.reverse.flatMap Frame.lexemes

@[simp] theorem openLexemes_cons (frame : Frame) (frames : List Frame) :
    openLexemes (frame :: frames) = openLexemes frames ++ frame.lexemes := by
  simp [openLexemes]

namespace Reading

/-- The lexemes that a reading has taken. -/
def lexemes (s : Reading) : List Lexeme := openLexemes s.frames ++ s.focus.lexemes

variable {s s' : Reading} {frames : List Frame} {l : Lexeme}

theorem lexemes_beginValue (h : beginValue frames l = .ok s') :
    s'.lexemes = openLexemes frames ++ [l] := by
  unfold beginValue at h
  split at h
  · obtain rfl := Except.ok.inj h
    simp [lexemes, Focus.lexemes, Value.lexemes]
  · split at h
    · exact absurd h (by simp)
    · obtain rfl := Except.ok.inj h
      simp [lexemes, Focus.lexemes, Value.lexemes]
  · obtain rfl := Except.ok.inj h
    simp [lexemes, Focus.lexemes, Value.lexemes]
  · obtain rfl := Except.ok.inj h
    simp [lexemes, Focus.lexemes]
  · obtain rfl := Except.ok.inj h
    simp [lexemes, Focus.lexemes]
  · exact absurd h (by simp)

theorem lexemes_endValue {value : Value} (h : endValue value frames l = .ok s') :
    s'.lexemes = openLexemes frames ++ value.lexemes ++ [l] := by
  unfold endValue at h
  split at h
  · obtain rfl := Except.ok.inj h
    simp [lexemes, Focus.lexemes, Frame.lexemes, listedItems]
  · obtain rfl := Except.ok.inj h
    simp [lexemes, Focus.lexemes, Frame.lexemes, Value.lexemes, itemLexemes_concat]
  · obtain rfl := Except.ok.inj h
    simp [lexemes, Focus.lexemes, Frame.lexemes, listedMembers]
  · obtain rfl := Except.ok.inj h
    simp [lexemes, Focus.lexemes, Frame.lexemes, Value.lexemes, memberLexemes_concat]
  · exact absurd h (by simp)

/-- **A step takes one lexeme** and loses none. -/
theorem lexemes_step (h : s.step l = .ok s') : s'.lexemes = s.lexemes ++ [l] := by
  unfold step at h
  split at h
  · rename_i hfocus
    rw [lexemes_beginValue h]
    simp [lexemes, hfocus, Focus.lexemes]
  · rename_i hfocus
    obtain rfl := Except.ok.inj h
    simp [lexemes, hfocus, Focus.lexemes, Value.lexemes, itemLexemes]
  · rename_i hfocus _
    rw [lexemes_beginValue h]
    simp [lexemes, hfocus, Focus.lexemes, Frame.lexemes, listedItems]
  · rename_i hfocus
    obtain rfl := Except.ok.inj h
    simp [lexemes, hfocus, Focus.lexemes, Value.lexemes, memberLexemes]
  · rename_i hfocus
    obtain rfl := Except.ok.inj h
    simp [lexemes, hfocus, Focus.lexemes, listedMembers]
  · rename_i hfocus
    obtain rfl := Except.ok.inj h
    simp [lexemes, hfocus, Focus.lexemes]
  · rename_i hfocus
    obtain rfl := Except.ok.inj h
    simp [lexemes, hfocus, Focus.lexemes, Frame.lexemes]
  · rename_i hfocus
    rw [lexemes_endValue h]
    simp [lexemes, hfocus, Focus.lexemes]
  · exact absurd h (by simp)

theorem lexemes_run {ls : List Lexeme} (h : s.run ls = .ok s') : s'.lexemes = s.lexemes ++ ls := by
  induction ls generalizing s with
  | nil =>
    obtain rfl := Except.ok.inj h
    simp
  | cons l ls ih =>
    obtain ⟨next, hstep, hrun⟩ := bind_eq_ok_iff.mp h
    rw [ih hrun, lexemes_step hstep, List.append_assoc, List.singleton_append]

/-! ### What is not taken -/

/-- Behind a value neither junk nor a number is taken. -/
theorem endValue_eq_error {value : Value} (hl : l = .junk ∨ ∃ text, l = .number text) :
    endValue value frames l = .error .malformed := by
  obtain rfl | ⟨text, rfl⟩ := hl
  all_goals
    cases frames with
    | nil => rfl
    | cons frame frames => cases frame <;> rfl

theorem ne_junk_of_step (h : s.step l = .ok s') : l ≠ .junk := by
  rintro rfl
  obtain ⟨frames, focus⟩ := s
  cases focus with
  | complete value =>
    have hend : endValue value frames .junk = .ok s' := h
    rw [endValue_eq_error (.inl rfl)] at hend
    exact absurd hend (by simp)
  | _ => exact absurd h (by simp [step, beginValue])

theorem isHugeInteger_of_beginValue {text : String}
    (h : beginValue frames (.number text) = .ok s') : isHugeInteger text = false := by
  cases hhuge : isHugeInteger text with
  | false => rfl
  | true =>
    rw [beginValue, if_pos hhuge] at h
    exact absurd h (by simp)

/-- A huge integer is not taken. -/
theorem isHugeInteger_of_step {text : String} (h : s.step (.number text) = .ok s') :
    isHugeInteger text = false := by
  obtain ⟨frames, focus⟩ := s
  cases focus with
  | value => exact isHugeInteger_of_beginValue h
  | arrayStart => exact isHugeInteger_of_beginValue h
  | complete value =>
    have hend : endValue value frames (.number text) = .ok s' := h
    rw [endValue_eq_error (.inr ⟨text, rfl⟩)] at hend
    exact absurd hend (by simp)
  | _ => exact absurd h (by simp [step])

theorem takes_of_run {ls : List Lexeme} (h : s.run ls = .ok s') :
    .junk ∉ ls ∧ Readable ls := by
  induction ls generalizing s with
  | nil => exact ⟨by simp, fun text htext => absurd htext (by simp)⟩
  | cons l ls ih =>
    obtain ⟨next, hstep, hrun⟩ := bind_eq_ok_iff.mp h
    obtain ⟨hjunk, hreadable⟩ := ih hrun
    refine ⟨?_, fun text htext => ?_⟩
    · rw [List.mem_cons, not_or]
      exact ⟨(ne_junk_of_step hstep).symm, hjunk⟩
    · obtain rfl | htext := List.mem_cons.mp htext
      · exact isHugeInteger_of_step hstep
      · exact hreadable text htext

end Reading

/-- **Lexemes that are read as a value are those of the value.** -/
theorem eq_lexemes_of_ofLexemes {ls : List Lexeme} {v : Value} (h : ofLexemes ls = .ok v) :
    ls = v.lexemes := by
  obtain ⟨s, hrun, hclose⟩ := bind_eq_ok_iff.mp h
  have hlexemes := Reading.lexemes_run hrun
  unfold Reading.close at hclose
  split at hclose
  · obtain rfl := Except.ok.inj hclose
    simpa [Reading.lexemes, Reading.start, openLexemes, Focus.lexemes] using hlexemes.symm
  · exact absurd hclose (by simp)

end DeskCalculator.Json
