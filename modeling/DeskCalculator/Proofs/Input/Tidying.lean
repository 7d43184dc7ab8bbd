import DeskCalculator.Proofs.Expression.Respelling
import DeskCalculator.Proofs.Input.Editing
import DeskCalculator.Proofs.Input.Literals

/-!
# DeskCalculator.Proofs.Input.Tidying

The editing rules do not change the meaning of what is typed. They tidy every segment: needless
zeros in front of it go, and a point that begins it gets a zero.

* **A segment.** `tidy` is what becomes of a segment. It can be computed as the segment is typed,
  one character after the other (`tidy_concat`), and keeps the value of a number (`decimal?_tidy`).
* **A row of keys** makes a text that is scanned to the tidied tokens of the keys (`Tidies.press`,
  `exists_tidies`). So the two are evaluated alike, however odd they are.
-/

namespace DeskCalculator.Input

open Expression (Token Scan tokenize isNumberChar KeepsValue)
open Numeric (Numeral)
open Text (IsNumeralChar)
open Window (plainKeys)

/-! ### Segments -/

/-- A segment as the editing rules make it. -/
def tidy : List Char → List Char
  | '0' :: c :: rest => if c.isDigit then tidy (c :: rest) else '0' :: c :: rest
  | '.' :: rest => '0' :: '.' :: rest
  | segment => segment

/-- Whether a segment with a point denotes a number: it has no second point, and a digit. -/
def PointsWell (segment : List Char) : Prop :=
  segment.count '.' ≤ 1 ∧ ('.' ∈ segment → ∃ c ∈ segment, c.isDigit = true)

variable {segment keys text : List Char} {c : Char}

@[simp] theorem tidy_nil : tidy [] = [] := rfl

theorem tidy_eq_nil_iff : tidy segment = [] ↔ segment = [] := by
  fun_induction tidy segment with
  | case1 c rest hc ih => simp [ih]
  | case2 c rest hc => simp
  | case3 rest => simp
  | case4 segment => rfl

theorem point_mem_tidy_iff : '.' ∈ tidy segment ↔ '.' ∈ segment := by
  fun_induction tidy segment with
  | case1 c rest hc ih => simp [ih]
  | case2 c rest hc => rfl
  | case3 rest => simp
  | case4 segment => rfl

theorem isNumeralChar_of_mem_tidy (h : ∀ c ∈ segment, IsNumeralChar c) :
    ∀ c ∈ tidy segment, IsNumeralChar c := by
  fun_induction tidy segment with
  | case1 c rest hc ih => exact ih (List.forall_mem_cons.mp h).2
  | case2 c rest hc => exact h
  | case3 rest => exact List.forall_mem_cons.mpr ⟨.inl (by decide), h⟩
  | case4 segment => exact h

/-- Other characters are left in front. -/
theorem tidy_cons_of_ne {rest : List Char} (hzero : c ≠ '0') (hpoint : c ≠ '.') :
    tidy (c :: rest) = c :: rest := by
  rw [tidy]
  · exact fun _ _ h => hzero (List.cons.inj h).1
  · exact fun _ h => hpoint (List.cons.inj h).1

theorem tidy_singleton (hc : c ≠ '.') : tidy [c] = [c] := by
  rw [tidy]
  · simp
  · simpa using hc

/-- **One more character** of a segment: a digit takes the place of a lone zero. -/
theorem tidy_concat (hne : segment ≠ []) :
    tidy (segment ++ [c]) =
      if c.isDigit ∧ tidy segment = ['0'] then [c] else tidy segment ++ [c] := by
  fun_induction tidy segment with
  | case1 d rest hd ih =>
    rw [List.cons_append, List.cons_append, tidy, if_pos hd]
    exact ih (by simp)
  | case2 d rest hd =>
    rw [List.cons_append, List.cons_append, tidy, if_neg hd, if_neg (by simp)]
  | case3 rest =>
    rw [List.cons_append, tidy, if_neg (by simp)]
    rfl
  | case4 segment hzeros hpoints =>
    obtain ⟨lead, rest, rfl⟩ := List.exists_cons_of_ne_nil hne
    have hpoint : lead ≠ '.' := fun h => hpoints rest (by rw [h])
    by_cases hzero : lead = '0'
    · obtain rfl : rest = [] := by
        cases rest with
        | nil => rfl
        | cons d rest => exact absurd (by rw [hzero]) (hzeros d rest)
      rw [hzero, List.singleton_append, tidy]
      by_cases hc : c.isDigit = true
      · rw [if_pos hc, if_pos ⟨hc, rfl⟩, tidy_singleton (ne_point_of_isDigit hc)]
      · rw [if_neg hc, if_neg fun h => hc h.1]
    · rw [List.cons_append, tidy_cons_of_ne hzero hpoint,
        if_neg fun h => hzero (List.cons.inj h.2).1]

/-! ### Values -/

/-- A point that is not alone is among digits. -/
theorem decimal?_ne_none (h : PointsWell segment) (hchars : ∀ c ∈ segment, IsNumeralChar c)
    (hne : segment ≠ []) : Numeral.decimal? segment ≠ none := by
  have hdigits : ∀ part ⊆ segment, '.' ∉ part → ∀ c ∈ part, c.isDigit = true := by
    intro part hpart hnone c hc
    obtain hdigit | rfl := hchars c (hpart hc)
    · exact hdigit
    · exact absurd hc hnone
  by_cases hpoint : '.' ∈ segment
  · obtain ⟨whole, fraction, rfl, hwhole⟩ := List.eq_append_cons_of_mem hpoint
    have hfraction : '.' ∉ fraction := by
      have hcount := h.1
      rw [List.count_append, List.count_cons_self] at hcount
      exact List.count_eq_zero.mp (by omega)
    have hsome : ¬ (whole = [] ∧ fraction = []) := by
      rintro ⟨rfl, rfl⟩
      obtain ⟨c, hc, hdigit⟩ := h.2 hpoint
      rw [List.mem_singleton.mp hc] at hdigit
      exact absurd hdigit (by decide)
    rw [Numeral.decimal?, Numeral.splitPoint_point (hdigits whole (by simp) hwhole)
      (hdigits fraction (by simp) hfraction)]
    simp [hsome, Numeral.exponent?]
  · rw [Numeral.decimal?, Numeral.splitPoint_digits (hdigits segment (List.Subset.refl _) hpoint)]
    simp [hne, Numeral.exponent?]

/-- **A number keeps its value** when it is tidied. -/
theorem decimal?_tidy (h : PointsWell segment) (hchars : ∀ c ∈ segment, IsNumeralChar c) :
    Numeral.decimal? (tidy segment) = Numeral.decimal? segment := by
  fun_induction tidy segment with
  | case1 c rest hc ih =>
    have hrest : PointsWell (c :: rest) := by
      refine ⟨?_, fun _ => ⟨c, List.mem_cons_self, hc⟩⟩
      have hcount := h.1
      rwa [List.count_cons_of_ne (by decide)] at hcount
    have hchars' := (List.forall_mem_cons.mp hchars).2
    rw [ih hrest hchars',
      Numeral.decimal?_zero_cons (decimal?_ne_none hrest hchars' (List.cons_ne_nil c rest))]
  | case2 c rest hc => rfl
  | case3 rest =>
    exact Numeral.decimal?_zero_cons (decimal?_ne_none h hchars (List.cons_ne_nil '.' rest))
  | case4 segment => rfl

/-- The spelling of numbers that tidies them. -/
def tidyText (text : String) : String := String.ofList (tidy text.toList)

theorem tidyText_eq_empty_iff (text : String) : tidyText text = "" ↔ text = "" := by
  rw [tidyText, String.ofList_eq_empty_iff, tidy_eq_nil_iff, String.toList_eq_nil_iff]

theorem keepsValue_tidyText {n : String} (h : PointsWell n.toList)
    (hchars : ∀ c ∈ n.toList, IsNumeralChar c) : KeepsValue tidyText n := by
  rw [KeepsValue, Numeric.Binary64.Finite.ofText?, Numeric.Binary64.Finite.ofText?, tidyText,
    String.toList_ofList, Numeral.ofText?_eq (isNumeralChar_of_mem_tidy hchars),
    Numeral.ofText?_eq hchars, decimal?_tidy h hchars]

/-! ### Keys -/

theorem isNumeralChar_of_mem_lastPart (hkeys : ∀ c ∈ keys, c ∈ plainKeys) :
    ∀ c ∈ lastPart keys, IsNumeralChar c := by
  intro c hc
  rw [lastPart, List.mem_reverse] at hc
  have hinside := List.mem_takeWhile_imp hc
  have hmem : c ∈ keys := List.mem_reverse.mp (List.takeWhile_subset _ hc)
  exact (isSegmentEnd_or_isNumeralChar (hkeys c hmem)).resolve_left (by simpa using hinside)

theorem isNumeralChar_of_mem_segments (hkeys : ∀ c ∈ keys, c ∈ plainKeys) :
    ∀ segment ∈ segments keys, ∀ c ∈ segment, IsNumeralChar c := by
  induction keys using List.reverseRecOn with
  | nil => simp [segments]
  | append_singleton keys c ih =>
    have hbefore := ih fun d hd => hkeys d (List.mem_append_left _ hd)
    obtain hend | hnumeral := isSegmentEnd_or_isNumeralChar (hkeys c (by simp))
    · rw [segments_concat_end hend, List.forall_mem_append]
      exact ⟨hbefore, by simp⟩
    · rw [segments_append (by simpa using isSegmentEnd_of_isNumeralChar hnumeral),
        ← lastPart_concat (isSegmentEnd_of_isNumeralChar hnumeral), List.forall_mem_append,
        List.forall_mem_singleton]
      exact ⟨fun segment hsegment => hbefore segment (List.dropLast_subset _ hsegment),
        isNumeralChar_of_mem_lastPart hkeys⟩

/-- What holds of all segments of some keys holds of those before the last key. -/
theorem forall_segments_of_concat {P : List Char → Prop} (hc : c ∈ plainKeys)
    (hP : ∀ segment, P (segment ++ [c]) → P segment)
    (h : ∀ segment ∈ segments (keys ++ [c]), P segment) : ∀ segment ∈ segments keys, P segment := by
  intro segment hsegment
  obtain hend | hnumeral := isSegmentEnd_or_isNumeralChar hc
  · rw [segments_concat_end hend] at h
    exact h segment (List.mem_append_left _ hsegment)
  · rw [segments_append (by simpa using isSegmentEnd_of_isNumeralChar hnumeral)] at h
    rw [segments_eq, List.mem_append, List.mem_singleton] at hsegment
    obtain hbefore | rfl := hsegment
    · exact h segment (List.mem_append_left _ hbefore)
    · exact hP _ (h _ (List.mem_append_right _ (List.mem_singleton_self _)))

/-- A character of a number is typed so that the last segment stays tidied. -/
theorem typedChars?_of_tidy {front : List Char} (hc : IsNumeralChar c) (hplain : c ∈ plainKeys)
    (htext : text = front ++ tidy segment) (hlast : lastPart text = tidy segment)
    (hpoint : c = '.' → '.' ∉ segment) :
    typedChars? text [c] = some (front ++ tidy (segment ++ [c])) := by
  have hpoint' : c = '.' → '.' ∉ tidy segment := fun h => point_mem_tidy_iff.not.mpr (hpoint h)
  by_cases hzero : c.isDigit = true ∧ tidy segment = ['0']
  · have hne : segment ≠ [] := by
      rintro rfl
      exact absurd hzero.2 (by simp)
    rw [typedChars?, if_pos ⟨(isDigitKey_eq hplain).trans hzero.1, hlast.trans hzero.2⟩,
      tidy_concat hne, if_pos hzero, htext, hzero.2, List.dropLast_concat]
  by_cases hempty : c = '.' ∧ segment = []
  · obtain ⟨rfl, rfl⟩ := hempty
    rw [typedChars?, hlast, if_neg (by simp), if_pos rfl, if_neg (by simp), if_pos tidy_nil, htext]
    simp [tidy]
  · -- all other characters fit
    have hcontinues : Continues (lastPart text) c := by
      rw [hlast]
      refine ⟨fun hdigit hlone => hzero ⟨hdigit, hlone⟩, fun hc => ⟨fun hnil => ?_, hpoint' hc⟩⟩
      exact hempty ⟨hc, tidy_eq_nil_iff.mp hnil⟩
    rw [typedChars?_of_fits hplain (fits_of_isNumeralChar hc hcontinues), htext, List.append_assoc]
    by_cases hne : segment = []
    · rw [hne, List.nil_append, tidy_singleton fun h => hempty ⟨h, hne⟩]
      rfl
    · rw [tidy_concat hne, if_neg hzero]

/-- What typing some keys makes of the line, beside the scan of the keys as they are: the complete
tokens are tidied, and so is the open run of digits. -/
structure Tidies (keys text : List Char) (s : Scan) : Prop where
  scanned : Scan.empty.run keys = .ok s
  typable : Typable text
  nonempty : keys ≠ [] → text ≠ []
  exists_front : ∃ front, text = front ++ tidy s.digits.toList ∧
    Scan.empty.run front = .ok ⟨(s.respell tidyText).tokens, ""⟩

variable {s : Scan}

theorem tidies_nil : Tidies [] [] Scan.empty where
  scanned := rfl
  typable := typable_nil
  nonempty := id
  exists_front := ⟨[], rfl, by simp [Scan.respell, Scan.empty]⟩

theorem Tidies.isNumeralChar (h : Tidies keys text s) (hkeys : ∀ c ∈ keys, c ∈ plainKeys) :
    ∀ c ∈ s.digits.toList, IsNumeralChar c := by
  rw [(follows_of_run hkeys h.scanned).digits]
  exact isNumeralChar_of_mem_lastPart hkeys

/-- The line is scanned to the tidied tokens. -/
theorem Tidies.run (h : Tidies keys text s) (hkeys : ∀ c ∈ keys, c ∈ plainKeys) :
    Scan.empty.run text = .ok (s.respell tidyText) := by
  obtain ⟨front, rfl, hfront⟩ := h.exists_front
  have hchars : ∀ c ∈ tidy s.digits.toList, isNumberChar c = true := fun c hc =>
    Expression.isNumberChar_iff.mpr (isNumeralChar_of_mem_tidy (h.isNumeralChar hkeys) c hc)
  rw [Scan.run_append, hfront, bind_ok, Scan.run_numberChars hchars]
  simp [Scan.respell, tidyText]

/-- **One more key** goes through. -/
theorem Tidies.press (h : Tidies keys text s) (hkeys : ∀ c ∈ keys, c ∈ plainKeys)
    (hc : c ∈ plainKeys) (hpercent : c = '%' → keys ≠ [])
    (hpoint : c = '.' → '.' ∉ lastPart keys) :
    ∃ text' s', typedChars? text [c] = some text' ∧ Tidies (keys ++ [c]) text' s' := by
  have hdigits := (follows_of_run hkeys h.scanned).digits
  have hrun := h.run hkeys
  have hlast : tidy s.digits.toList = lastPart text := by
    rw [← (follows_of_run h.typable.keys hrun).digits, Scan.respell, tidyText, String.toList_ofList]
  obtain hend | hnumeral := isSegmentEnd_or_isNumeralChar hc
  · -- the segment is complete, and the key is typed as it is
    have hfits : Fits text c :=
      ⟨fun h' => h.nonempty (hpercent h'), continues_of_isSegmentEnd hend⟩
    have htyped := typedChars?_of_fits hc hfits
    obtain ⟨l, hchars, hl⟩ := exists_lexeme_of_isSegmentEnd hend
    have hstep := Scan.step_of_chars s hchars hl
    have hstep' := Scan.step_respell tidyText_eq_empty_iff rfl s hchars hl
    rw [hstep, map_ok] at hstep'
    refine ⟨text ++ [c], ⟨s.close ++ l.tokens (Expression.awaitsOperand s.close), ""⟩, htyped, ?_,
      typable_of_typedChars? h.typable hc htyped, by simp, text ++ [c], by simp, ?_⟩
    · rw [Scan.run_append, h.scanned, bind_ok, Scan.run_singleton, hstep]
    · rw [Scan.run_append, hrun, bind_ok, Scan.run_singleton, hstep']
      rfl
  · -- the segment goes on
    obtain ⟨front, htext, hfront⟩ := h.exists_front
    have htyped := typedChars?_of_tidy hnumeral hc htext hlast.symm (fun h' => hdigits ▸ hpoint h')
    refine ⟨_, ⟨s.tokens, s.digits.push c⟩, htyped, ?_, typable_of_typedChars? h.typable hc htyped, ?_,
      front, by simp, hfront⟩
    · rw [Scan.run_append, h.scanned, bind_ok, Scan.run_singleton, Scan.step,
        if_pos (Expression.isNumberChar_iff.mpr hnumeral)]
    · intro _ hnil
      exact absurd (tidy_eq_nil_iff.mp (List.append_eq_nil_iff.mp hnil).2) (by simp)

/-- A row of keys with at most one point in every segment goes through. -/
theorem exists_tidies (hkeys : ∀ c ∈ keys, c ∈ plainKeys) (hstart : keys.head? ≠ some '%')
    (hpoints : ∀ segment ∈ segments keys, segment.count '.' ≤ 1) :
    ∃ text s, (empty.pressAll keys).1 = ⟨String.ofList text⟩ ∧ Tidies keys text s := by
  induction keys using List.reverseRecOn with
  | nil => exact ⟨[], Scan.empty, rfl, tidies_nil⟩
  | append_singleton keys c ih =>
    have hkeys' : ∀ d ∈ keys, d ∈ plainKeys := fun d hd => hkeys d (List.mem_append_left _ hd)
    have hc : c ∈ plainKeys := hkeys c (by simp)
    have hpoints' : ∀ segment ∈ segments keys, segment.count '.' ≤ 1 := by
      refine forall_segments_of_concat hc (fun segment hcount => ?_) hpoints
      rw [List.count_append] at hcount
      omega
    have hstart' : keys.head? ≠ some '%' := fun h => hstart (by simp [List.head?_append, h])
    obtain ⟨text, s, htext, htidies⟩ := ih hkeys' hstart' hpoints'
    have hpercent : c = '%' → keys ≠ [] := by
      rintro rfl rfl
      exact hstart rfl
    have hpoint : c = '.' → '.' ∉ lastPart keys := by
      rintro rfl
      have hcount := hpoints (lastPart keys ++ ['.']) (by
        rw [segments_append (List.forall_mem_singleton.mpr rfl)]
        simp)
      rw [List.count_append, List.count_singleton_self] at hcount
      exact List.count_eq_zero.mp (by omega)
    obtain ⟨text', s', htyped, htidies'⟩ := htidies.press hkeys' hc hpercent hpoint
    refine ⟨text', s', ?_, htidies'⟩
    rw [pressAll_append, htext]
    simp only [pressAll, press_ofString, String.toList_ofList, String.toList_singleton, htyped]

/-! ### The meaning of a row of keys -/

/-- **The editing rules do not change the meaning of what is typed.** If a row of keys does not
begin with a percent sign, and every segment of it has at most one point and with a point at least
one digit, then the line that it makes has the same outcome as the keys themselves put in a row, but
for the spelling of a number in the message of a failure. -/
theorem typing_keeps_meaning (keys : List Char) (hkeys : ∀ c ∈ keys, c ∈ plainKeys)
    (hstart : keys.head? ≠ some '%')
    (hsegments : ∀ segment ∈ segments keys,
      segment.count '.' ≤ 1 ∧ ('.' ∈ segment → ∃ c ∈ segment, c.isDigit = true)) :
    let typed := Outcome.ofText (empty.pressAll keys).1.text
    let plain := Outcome.ofExpression (String.ofList keys)
    typed.ok = plain.ok ∧ typed.value? = plain.value? ∧ typed.kind? = plain.kind? := by
  obtain ⟨text, s, htext, htidies⟩ :=
    exists_tidies hkeys hstart fun segment hsegment => (hsegments segment hsegment).1
  have hplain : tokenize (String.ofList keys) = .ok s.close.toList :=
    Expression.tokenize_eq_ok_iff.mpr ⟨s, by rw [String.toList_ofList]; exact htidies.scanned, rfl⟩
  have htyped : tokenize (String.ofList text) =
      .ok (s.close.toList.map (Token.respell tidyText)) := by
    refine Expression.tokenize_eq_ok_iff.mpr ⟨s.respell tidyText, ?_, ?_⟩
    · rw [String.toList_ofList]
      exact htidies.run hkeys
    · rw [Scan.close_respell tidyText_eq_empty_iff, Array.toList_map]
  have hkeeps : ∀ n, Token.number n ∈ s.close.toList → KeepsValue tidyText n := by
    intro n hn
    obtain rfl | ⟨-, hmem⟩ :=
      mem_segments_of_tokenize (by rwa [String.toList_ofList]) hplain hn
    · rfl
    · rw [String.toList_ofList] at hmem
      exact keepsValue_tidyText (hsegments _ hmem) (isNumeralChar_of_mem_segments hkeys _ hmem)
  have hline : (empty.pressAll keys).1.text = String.ofList text := congrArg Input.text htext
  have hevaluate := Expression.evaluate_respell hplain htyped hkeeps
  rw [hline, Outcome.ofText_ofString]
  exact Outcome.ofExpression_of_mapError Expression.Failure.kind_respell hevaluate

/-- The zeros of seven go, the half gets one, and the final point stays. -/
theorem typing_keeps_meaning_of_ragged_keys :
    let typed := Outcome.ofText (empty.pressAll "007+.5*2.".toList).1.text
    (∀ c ∈ "007+.5*2.".toList, c ∈ plainKeys) ∧ "007+.5*2.".toList.head? ≠ some '%' ∧
      (∀ segment ∈ segments "007+.5*2.".toList,
        segment.count '.' ≤ 1 ∧ ('.' ∈ segment → ∃ c ∈ segment, c.isDigit = true)) ∧
      (empty.pressAll "007+.5*2.".toList).1.text = "7+0.5*2." ∧
      typed.ok = true ∧ typed.value? = some "8" ∧ typed.kind? = none := by
  have hkeys : ∀ c ∈ "007+.5*2.".toList, c ∈ plainKeys := by
    have hall : "007+.5*2.".toList.all plainKeys.contains = true := by decide
    simpa only [List.all_eq_true, List.contains_eq_mem, decide_eq_true_eq] using hall
  have hstart : "007+.5*2.".toList.head? ≠ some '%' := by decide
  have hsegments : ∀ segment ∈ segments "007+.5*2.".toList,
      segment.count '.' ≤ 1 ∧ ('.' ∈ segment → ∃ c ∈ segment, c.isDigit = true) := by
    have hparts : segments "007+.5*2.".toList = [['0', '0', '7'], ['.', '5'], ['2', '.']] := by
      decide
    simp only [hparts, List.forall_mem_cons]
    exact ⟨⟨by decide, fun _ => ⟨'7', by simp, rfl⟩⟩, ⟨by decide, fun _ => ⟨'5', by simp, rfl⟩⟩,
      ⟨by decide, fun _ => ⟨'2', by simp, rfl⟩⟩, List.forall_mem_nil _⟩
  have hplain : Outcome.ofExpression "007+.5*2." = .success "8" := by decide +kernel
  have h := typing_keeps_meaning "007+.5*2.".toList hkeys hstart hsegments
  rw [String.ofList_toList, hplain] at h
  exact ⟨hkeys, hstart, hsegments, by decide +kernel, h⟩

end DeskCalculator.Input
