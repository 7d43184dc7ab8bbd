import DeskCalculator.Proofs.Json.NumberText
import DeskCalculator.Proofs.Json.Reading
import DeskCalculator.Proofs.Json.StringText

/-!
# DeskCalculator.Proofs.Json.Rendering

The texts that fall into given lexemes: a text of each lexeme, with any spaces before, between and
behind them (`Spaced`).

* **What falls into lexemes** without junk is such a text (`spaced_of_lex`).
* **Such a text falls into its lexemes** if none of them runs into the next one (`lex_of_spaced`).
  Only numbers could, and in a value they do not (`delimited_lexemes`).
-/

namespace DeskCalculator.Json

/-! ### Texts of lexemes -/

/-- The character of a punctuation mark. -/
def Lexeme.mark? : Lexeme → Option Char
  | .openBracket => some '['
  | .closeBracket => some ']'
  | .openBrace => some '{'
  | .closeBrace => some '}'
  | .comma => some ','
  | .colon => some ':'
  | .word _ | .number _ | .string _ | .junk => none

/-- A lexeme and a text of it. Junk has none, and neither has an integer with too many digits. -/
inductive LexemeText : Lexeme → List Char → Prop
  | word (w : Word) : LexemeText (.word w) w.spelling.toList
  | number {text : List Char} (h : NumberText text)
      (hsize : isHugeInteger (String.ofList text) = false) :
      LexemeText (.number (String.ofList text)) text
  | string {text : List CodePoint} {written : List Char} (h : SpellsText text written) :
      LexemeText (.string ⟨text⟩) ('"' :: (written ++ ['"']))
  | mark {l : Lexeme} {c : Char} (h : l.mark? = some c) : LexemeText l [c]

/-- Lexemes and a text of them, with spaces in any places but inside the lexemes. -/
inductive Spaced : List Lexeme → List Char → Prop
  | nil {spaces : List Char} (h : ∀ c ∈ spaces, isSpace c = true) : Spaced [] spaces
  | cons {spaces written rest : List Char} {l : Lexeme} {ls : List Lexeme}
      (hspaces : ∀ c ∈ spaces, isSpace c = true) (hl : LexemeText l written)
      (hrest : Spaced ls rest) : Spaced (l :: ls) (spaces ++ (written ++ rest))

variable {l : Lexeme} {ls : List Lexeme} {text written rest : List Char}

theorem Spaced.cons_mark {c : Char} (h : l.mark? = some c) (hrest : Spaced ls rest) :
    Spaced (l :: ls) (c :: rest) :=
  .cons (List.forall_mem_nil _) (.mark h) hrest

theorem Spaced.cons_string (string : LooseText) (h : SpellsText string.points written)
    (hrest : Spaced ls rest) :
    Spaced (.string string :: ls) ('"' :: (written ++ ['"']) ++ rest) :=
  .cons (List.forall_mem_nil _) (.string h) hrest

theorem not_continuesNumber_of_isSpace {c : Char} (h : isSpace c = true) : ¬ ContinuesNumber c := by
  simp only [isSpace, List.contains_eq_mem, List.mem_cons, List.not_mem_nil, or_false,
    decide_eq_true_eq] at h
  obtain rfl | rfl | rfl | rfl := h <;> simp [ContinuesNumber]

theorem isSpace_of_isDigit {c : Char} (h : c.isDigit = true) : isSpace c = false := by
  by_contra hspace
  exact not_continuesNumber_of_isSpace (by simpa using hspace) (.inl h)

theorem NumberText.exists_cons (h : NumberText text) : ∃ c cs, text = c :: cs ∧
    (c.isDigit = true ∨ c = '-' ∧ ∃ d ds, cs = d :: ds ∧ d.isDigit = true) := by
  obtain @⟨sign, integer, fraction, exponent, hsign, hinteger, -, -⟩ := h
  obtain ⟨c, cs, rfl, hc⟩ := hinteger.exists_cons
  obtain rfl | rfl := hsign
  · exact ⟨c, _, rfl, .inl hc⟩
  · exact ⟨'-', _, rfl, .inr ⟨rfl, c, _, rfl, hc⟩⟩

/-- No lexeme is written with a space in front. -/
theorem LexemeText.exists_cons (h : LexemeText l text) :
    ∃ c cs, text = c :: cs ∧ isSpace c = false := by
  cases h with
  | word w => cases w <;> exact ⟨_, _, rfl, by decide⟩
  | number h _ =>
    obtain ⟨c, cs, rfl, hc | ⟨rfl, -⟩⟩ := h.exists_cons
    · exact ⟨c, cs, rfl, isSpace_of_isDigit hc⟩
    · exact ⟨'-', cs, rfl, by decide⟩
  | string _ => exact ⟨_, _, rfl, by decide⟩
  | @mark _ c h =>
    refine ⟨c, [], rfl, ?_⟩
    cases l <;> simp [Lexeme.mark?] at h <;> subst h <;> decide

/-! ### Words -/

theorem dropStart?_eq_some_iff {start : List Char} :
    dropStart? start text = some rest ↔ text = start ++ rest := by
  fun_induction dropStart? start text with
  | case1 => simp [eq_comm]
  | case2 => simp
  | case3 c start text ih => simp [ih]
  | case4 c start d text hne => simp [Ne.symm hne]

theorem takeWord?_append (w : Word) (rest : List Char) :
    takeWord? (w.spelling.toList ++ rest) = some (w, rest) := by
  cases w <;> rfl

theorem eq_append_of_takeWord? {w : Word} (h : takeWord? text = some (w, rest)) :
    text = w.spelling.toList ++ rest := by
  obtain ⟨w', -, hw'⟩ := List.exists_of_findSome?_eq_some h
  obtain ⟨rest', hdrop, heq⟩ := Option.map_eq_some_iff.mp hw'
  obtain ⟨rfl, rfl⟩ := Prod.mk.inj heq
  exact dropStart?_eq_some_iff.mp hdrop

/-- No word begins like a number. -/
theorem takeWord?_number (h : NumberText text) (rest : List Char) :
    takeWord? (text ++ rest) = none := by
  obtain ⟨c, cs, rfl, hc⟩ := h.exists_cons
  by_contra hsome
  obtain ⟨⟨w, rest'⟩, hw⟩ := Option.ne_none_iff_exists'.mp hsome
  have htext := eq_append_of_takeWord? hw
  obtain hc | ⟨rfl, d, ds, rfl, hd⟩ := hc
  · cases w <;>
    · obtain rfl := (List.cons.inj htext).1
      exact absurd hc (by decide)
  · -- the sign is that of the infinity as well
    cases w with
    | minusInfinity =>
      obtain rfl := (List.cons.inj (List.cons.inj htext).2).1
      exact absurd hd (by decide)
    | _ => exact absurd (List.cons.inj htext).1 (by decide)

/-! ### Lexemes -/

theorem takeLexeme?_mark {c : Char} (h : l.mark? = some c) (rest : List Char) :
    takeLexeme? (c :: rest) = some (l, rest) := by
  cases l <;> simp [Lexeme.mark?] at h <;> subst h <;> rfl

/-- What begins with no mark and no quote is a word or a number. -/
theorem takeLexeme?_other {c : Char} (h : c ∉ ['[', ']', '{', '}', ',', ':', '"'])
    (cs : List Char) :
    takeLexeme? (c :: cs) =
      match takeWord? (c :: cs) with
      | some (word, rest) => some (.word word, rest)
      | none => (takeNumber? (c :: cs)).map fun (number, rest) =>
        (.number (String.ofList number), rest) := by
  simp only [List.mem_cons, List.not_mem_nil, or_false, not_or] at h
  rw [takeLexeme?] <;> first | rfl | simp [h]

/-- **A lexeme is taken as it was written.** Behind a number nothing may follow that could be a part
of it. -/
theorem takeLexeme?_append (h : LexemeText l written)
    (hrest : (∃ text, l = .number text) → NotFirst ContinuesNumber rest) :
    takeLexeme? (written ++ rest) = some (l, rest) := by
  cases h with
  | word w =>
    have htake := takeWord?_append w rest
    obtain ⟨c, cs, hspelling, hc⟩ : ∃ c cs, w.spelling.toList = c :: cs ∧
        c ∉ ['[', ']', '{', '}', ',', ':', '"'] := by
      cases w <;> exact ⟨_, _, rfl, by decide⟩
    rw [hspelling, List.cons_append] at htake ⊢
    rw [takeLexeme?_other hc, htake]
  | number h hsize =>
    have hword := takeWord?_number h rest
    have htake := takeNumber?_append h (hrest ⟨_, rfl⟩)
    obtain ⟨c, cs, rfl, hc⟩ := h.exists_cons
    have hmark : c ∉ ['[', ']', '{', '}', ',', ':', '"'] := by
      intro hmem
      simp only [List.mem_cons, List.not_mem_nil, or_false] at hmem
      obtain rfl | rfl | rfl | rfl | rfl | rfl | rfl := hmem <;> simp at hc
    rw [List.cons_append] at hword htake ⊢
    rw [takeLexeme?_other hmark, hword, htake]
    rfl
  | string h =>
    have htake := takeLexeme?_string h rest
    simpa using htake
  | mark h => exact takeLexeme?_mark h rest

theorem lexemeText_of_takeLexeme? (h : takeLexeme? text = some (l, rest))
    (hsize : ∀ number, l = .number number → isHugeInteger number = false) :
    ∃ written, LexemeText l written ∧ text = written ++ rest := by
  unfold takeLexeme? at h
  split at h
  · exact absurd h (by simp)
  iterate 6
    obtain ⟨rfl, rfl⟩ := Prod.mk.inj (Option.some.inj h)
    exact ⟨_, .mark rfl, rfl⟩
  · obtain ⟨⟨pieces, rest'⟩, htake, heq⟩ := Option.map_eq_some_iff.mp h
    obtain ⟨rfl, rfl⟩ := Prod.mk.inj heq
    obtain ⟨written, hwritten, rfl⟩ := spellsText_of_takePieces? htake
    exact ⟨_, .string hwritten, by simp⟩
  · split at h
    · rename_i w rest' hword
      obtain ⟨rfl, rfl⟩ := Prod.mk.inj (Option.some.inj h)
      exact ⟨_, .word w, eq_append_of_takeWord? hword⟩
    · obtain ⟨⟨number, rest'⟩, htake, heq⟩ := Option.map_eq_some_iff.mp h
      obtain ⟨rfl, rfl⟩ := Prod.mk.inj heq
      obtain ⟨hnumber, htext⟩ := numberText_of_takeNumber? htake
      exact ⟨number, .number hnumber (hsize _ rfl), htext⟩

/-! ### From texts to lexemes -/

/-- **What falls into lexemes is a text of them,** if there is no junk and no huge integer. -/
theorem spaced_of_lexUpTo {bound : Nat} (hbound : text.length ≤ bound)
    (hjunk : .junk ∉ lexUpTo bound text) (hreadable : Reading.Readable (lexUpTo bound text)) :
    Spaced (lexUpTo bound text) text := by
  induction bound generalizing text with
  | zero =>
    rw [Nat.le_zero, List.length_eq_zero_iff] at hbound
    rw [hbound]
    exact .nil (by simp)
  | succ bound ih =>
    have hspaces : ∀ c ∈ text.takeWhile isSpace, isSpace c = true :=
      fun c hc => List.mem_takeWhile_imp hc
    have htext : text.takeWhile isSpace ++ text.dropWhile isSpace = text :=
      List.takeWhile_append_dropWhile
    cases hdrop : text.dropWhile isSpace with
    | nil =>
      have hlex : lexUpTo (bound + 1) text = [] := by rw [lexUpTo, hdrop]
      rw [hdrop, List.append_nil] at htext
      rw [hlex, ← htext]
      exact .nil hspaces
    | cons c cs =>
      cases htake : takeLexeme? (c :: cs) with
      | none =>
        have hlex : lexUpTo (bound + 1) text = [.junk] := by
          rw [lexUpTo, hdrop]
          simp only [htake]
        exact absurd (by simp) (hlex ▸ hjunk)
      | some taken =>
        obtain ⟨l, rest⟩ := taken
        have hlex : lexUpTo (bound + 1) text = l :: lexUpTo bound rest := by
          rw [lexUpTo, hdrop]
          simp only [htake]
        rw [hlex] at hjunk hreadable ⊢
        obtain ⟨written, hwritten, hcs⟩ := lexemeText_of_takeLexeme? htake
          fun number hl => hreadable number (by simp [hl])
        -- a lexeme has a character, so the bound suffices for the rest
        obtain ⟨d, ds, rfl, -⟩ := hwritten.exists_cons
        have hlength := congrArg List.length htext
        rw [hdrop, hcs] at hlength
        simp only [List.length_append, List.length_cons] at hlength
        rw [← htext, hdrop, hcs]
        exact .cons hspaces hwritten
          (ih (by omega) (fun h => hjunk (List.mem_cons_of_mem l h)) hreadable.tail)

theorem spaced_of_lex (hjunk : .junk ∉ lex text) (hreadable : Reading.Readable (lex text)) :
    Spaced (lex text) text :=
  spaced_of_lexUpTo (Nat.le_refl _) hjunk hreadable

/-! ### From lexemes to texts -/

/-- Whether a lexeme can stand behind a complete value. -/
def Lexeme.endsValue : Lexeme → Bool
  | .closeBracket | .closeBrace | .comma => true
  | .word _ | .number _ | .string _ | .openBracket | .openBrace | .colon | .junk => false

/-- What stands behind a number can stand behind a value, if anything does. -/
inductive Delimited : List Lexeme → Prop
  | nil : Delimited []
  | cons {l : Lexeme} {ls : List Lexeme}
      (hl : (∃ text, l = .number text) → ∀ next, ls.head? = some next → next.endsValue = true)
      (hls : Delimited ls) : Delimited (l :: ls)

/-- A text of something that can stand behind a value does not go on like a number. -/
theorem Spaced.notFirst (h : Spaced ls text)
    (hhead : ∀ l, ls.head? = some l → l.endsValue = true) : NotFirst ContinuesNumber text := by
  cases h with
  | nil h =>
    exact fun c hc => not_continuesNumber_of_isSpace (h c (List.mem_of_mem_head? hc))
  | @cons spaces written rest l ls hspaces hl hrest =>
    cases spaces with
    | cons c spaces =>
      intro d hd
      obtain rfl := Option.some.inj hd
      exact not_continuesNumber_of_isSpace (hspaces c List.mem_cons_self)
    | nil =>
      have hends := hhead l rfl
      cases hl with
      | word | number | string => exact absurd hends (by simp [Lexeme.endsValue])
      | mark hmark =>
        intro d hd
        obtain rfl := Option.some.inj hd
        cases l <;> simp [Lexeme.mark?, Lexeme.endsValue] at hmark hends <;> subst hmark <;>
          simp [ContinuesNumber]

theorem lexUpTo_of_spaced (h : Spaced ls text) (hdelimited : Delimited ls) {bound : Nat}
    (hbound : ls.length ≤ bound) : lexUpTo bound text = ls := by
  induction h generalizing bound with
  | @nil spaces h =>
    have hdrop : spaces.dropWhile isSpace = [] := List.dropWhile_eq_nil_iff.mpr h
    cases bound with
    | zero => rfl
    | succ bound => rw [lexUpTo, hdrop]
  | @cons spaces written rest l ls hspaces hl hrest ih =>
    obtain ⟨bound, rfl⟩ : ∃ b, bound = b + 1 :=
      ⟨bound - 1, by rw [List.length_cons] at hbound; omega⟩
    obtain _ | ⟨hnext, hls⟩ := hdelimited
    have htake : takeLexeme? (written ++ rest) = some (l, rest) :=
      takeLexeme?_append hl fun hnumber => hrest.notFirst (hnext hnumber)
    obtain ⟨c, cs, rfl, hc⟩ := hl.exists_cons
    have hdrop : (spaces ++ (c :: cs ++ rest)).dropWhile isSpace = c :: cs ++ rest := by
      rw [List.dropWhile_append_of_pos hspaces, List.cons_append,
        List.dropWhile_cons_of_neg (by simp [hc])]
    rw [List.cons_append] at htake hdrop ⊢
    rw [lexUpTo, hdrop]
    simp only [htake, ih hls (Nat.le_of_succ_le_succ hbound)]

theorem Spaced.length_le (h : Spaced ls text) : ls.length ≤ text.length := by
  induction h with
  | nil => exact Nat.zero_le _
  | cons hspaces hl hrest ih =>
    obtain ⟨c, cs, rfl, -⟩ := hl.exists_cons
    simp only [List.length_cons, List.length_append]
    omega

/-- **A text of lexemes falls into them,** if they are delimited. -/
theorem lex_of_spaced (h : Spaced ls text) (hdelimited : Delimited ls) :
    lex text = ls :=
  lexUpTo_of_spaced h hdelimited h.length_le

/-! ### Lexemes of values -/

theorem Delimited.cons_other (hl : ∀ text, l ≠ .number text) (h : Delimited ls) :
    Delimited (l :: ls) :=
  .cons (fun ⟨text, htext⟩ => absurd htext (hl text)) h

/-- The lexemes of some items are delimited if those of each item are. -/
theorem delimited_itemLexemes_append {items : List Value} {tail : List Lexeme}
    (hitems : ∀ v ∈ items, ∀ tail, Delimited tail →
      (∀ l, tail.head? = some l → l.endsValue = true) → Delimited (v.lexemes ++ tail))
    (h : Delimited tail) (hhead : ∀ l, tail.head? = some l → l.endsValue = true) :
    Delimited (itemLexemes items ++ tail) := by
  induction items with
  | nil => exact h
  | cons item rest ih =>
    have hitem := hitems item List.mem_cons_self
    cases rest with
    | nil => exact hitem tail h hhead
    | cons next rest =>
      have hrest := ih fun v hv => hitems v (List.mem_cons_of_mem item hv)
      rw [itemLexemes, List.append_assoc, List.cons_append]
      exact hitem _ (.cons_other (by simp) hrest) (by simp [Lexeme.endsValue])

theorem delimited_memberLexemes_append {members : List (LooseText × Value)} {tail : List Lexeme}
    (hmembers : ∀ m ∈ members, ∀ tail, Delimited tail →
      (∀ l, tail.head? = some l → l.endsValue = true) → Delimited (m.2.lexemes ++ tail))
    (h : Delimited tail) (hhead : ∀ l, tail.head? = some l → l.endsValue = true) :
    Delimited (memberLexemes members ++ tail) := by
  induction members with
  | nil => exact h
  | cons member rest ih =>
    have hmember := hmembers member List.mem_cons_self
    cases rest with
    | nil => exact .cons_other (by simp) (.cons_other (by simp) (hmember tail h hhead))
    | cons next rest =>
      have hrest := ih fun m hm => hmembers m (List.mem_cons_of_mem member hm)
      rw [memberLexemes, List.cons_append, List.cons_append, List.append_assoc, List.cons_append]
      exact .cons_other (by simp) (.cons_other (by simp)
        (hmember _ (.cons_other (by simp) hrest) (by simp [Lexeme.endsValue])))

/-- The lexemes of a value are delimited, with what can stand behind them. -/
theorem delimited_lexemes_append (v : Value) {tail : List Lexeme} (h : Delimited tail)
    (hhead : ∀ l, tail.head? = some l → l.endsValue = true) : Delimited (v.lexemes ++ tail) := by
  match v with
  | .word word => exact .cons_other (by simp) h
  | .number text => exact .cons (fun _ => hhead) h
  | .string text => exact .cons_other (by simp) h
  | .array items =>
    rw [Value.lexemes, List.cons_append, List.append_assoc]
    refine .cons_other (by simp) (delimited_itemLexemes_append (fun v hv tail h hhead => ?_)
      (.cons_other (by simp) h) (by simp [Lexeme.endsValue]))
    exact delimited_lexemes_append v h hhead
  | .object members =>
    rw [Value.lexemes, List.cons_append, List.append_assoc]
    refine .cons_other (by simp) (delimited_memberLexemes_append (fun m hm tail h hhead => ?_)
      (.cons_other (by simp) h) (by simp [Lexeme.endsValue]))
    exact delimited_lexemes_append m.2 h hhead
termination_by sizeOf v
decreasing_by
  · have := List.sizeOf_lt_of_mem hv
    simp_wf
    omega
  · have := List.sizeOf_lt_of_mem hm
    obtain ⟨name, value⟩ := m
    simp_wf
    simp at this
    omega

theorem delimited_lexemes (v : Value) : Delimited v.lexemes := by
  have h : Delimited (v.lexemes ++ []) := delimited_lexemes_append v .nil (by simp)
  rwa [List.append_nil] at h

end DeskCalculator.Json
