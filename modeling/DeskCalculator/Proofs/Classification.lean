import DeskCalculator.Proofs.Definedness
import DeskCalculator.Proofs.Expression.Alphabet
import DeskCalculator.Proofs.Expression.Conservation

/-!
# DeskCalculator.Proofs.Classification

Which failure a text comes to. The three stages look at different things, and the first stage that
finds a fault decides, whatever other faults the text holds:

* **scanning** looks at characters (`evaluate_of_find?`),
* **ordering** at parentheses (`evaluate_of_not_balanced`),
* **computing** is left with tokens that hold no parenthesis (`exists_evaluate_eq`), and fails for
  reasons of its own (`Failure.IsComputing`).

Main statement: `Outcome.ofExpression_classified`, for every text.
-/

namespace DeskCalculator

namespace Expression

/-! ### The last stage -/

/-- The kinds of failure of the last stage. -/
def computingKinds : List FailureKind :=
  [.invalidNumber, .percentError, .operatorError, .divisionByZero, .invalidExpression, .mathError]

theorem Failure.IsComputing.kind_mem {cause : Failure} (h : cause.IsComputing) :
    cause.kind ∈ computingKinds := by
  have hstage := h.1
  cases cause with
  | invalidCharacter c => cases hstage
  | mismatchedParentheses => cases hstage
  | _ => simp [kind, computingKinds]

/-! ### Texts -/

/-- Every character of the text may stand in an expression. -/
def Admitted (text : List Char) : Prop := ∀ c ∈ text, isAdmitted c = true

theorem find?_eq_none_iff_admitted {text : List Char} :
    text.find? (fun c => !isAdmitted c) = none ↔ Admitted text := by
  simp [Admitted]

theorem evaluate_of_find? {expression : String} {c : Char}
    (h : expression.toList.find? (fun c => !isAdmitted c) = some c) :
    evaluate expression = .error (.invalidCharacter c) := by
  rw [evaluate, tokenize_eq_error_iff.mpr ⟨c, h, rfl⟩]
  rfl

/-- A text of the alphabet has tokens, and they have its parentheses. -/
theorem exists_tokenize_of_admitted {expression : String} (h : Admitted expression.toList) :
    ∃ ts, tokenize expression = .ok ts ∧
      ts.filterMap Token.paren? = parens expression.toList := by
  cases hts : tokenize expression with
  | error cause =>
    obtain ⟨c, hc, -⟩ := tokenize_eq_error_iff.mp hts
    rw [find?_eq_none_iff_admitted.mpr h] at hc
    exact absurd hc (by simp)
  | ok ts => exact ⟨ts, rfl, parens_of_tokenize hts⟩

theorem evaluate_of_not_balanced {expression : String} (hadmitted : Admitted expression.toList)
    (h : ¬ Balanced (parens expression.toList)) :
    evaluate expression = .error .mismatchedParentheses := by
  obtain ⟨ts, hts, hparens⟩ := exists_tokenize_of_admitted hadmitted
  have horder : evaluationOrder ts = .error .mismatchedParentheses :=
    evaluationOrder_eq_error_iff.mpr ⟨rfl, hparens ▸ h⟩
  rw [evaluate, hts, bind_ok, horder]
  rfl

/-- The other texts are left to the last stage. -/
theorem exists_evaluate_eq {expression : String} (hadmitted : Admitted expression.toList)
    (h : Balanced (parens expression.toList)) :
    ∃ post, (∀ t ∈ post, t.isParen = false) ∧ evaluate expression = evaluateOrdered post := by
  obtain ⟨ts, hts, hparens⟩ := exists_tokenize_of_admitted hadmitted
  obtain ⟨post, hpost⟩ := exists_evaluationOrder_of_groupsClose
    ((groupsClose_iff_balanced ts).mpr (hparens ▸ h))
  refine ⟨post, fun t ht => isParen_of_mem_evaluationOrder hpost ht, ?_⟩
  rw [evaluate, hts, bind_ok, hpost, bind_ok]

theorem isComputing_of_evaluate {expression : String} {cause : Failure}
    (hadmitted : Admitted expression.toList) (hbalanced : Balanced (parens expression.toList))
    (h : evaluate expression = .error cause) : cause.IsComputing := by
  obtain ⟨post, hpost, heq⟩ := exists_evaluate_eq hadmitted hbalanced
  exact isComputing_of_evaluateOrdered hpost (heq ▸ h)

/-- **The first stage that finds a fault decides.** -/
theorem evaluate_cases (expression : String) :
    (∃ c, expression.toList.find? (fun c => !isAdmitted c) = some c ∧
      evaluate expression = .error (.invalidCharacter c)) ∨
    (Admitted expression.toList ∧ ¬ Balanced (parens expression.toList) ∧
      evaluate expression = .error .mismatchedParentheses) ∨
    (Admitted expression.toList ∧ Balanced (parens expression.toList) ∧
      ∀ cause, evaluate expression = .error cause → cause.IsComputing) := by
  cases hfind : expression.toList.find? (fun c => !isAdmitted c) with
  | some c => exact .inl ⟨c, rfl, evaluate_of_find? hfind⟩
  | none =>
    have hadmitted := find?_eq_none_iff_admitted.mp hfind
    by_cases hbalanced : Balanced (parens expression.toList)
    · exact .inr (.inr ⟨hadmitted, hbalanced,
        fun _ h => isComputing_of_evaluate hadmitted hbalanced h⟩)
    · exact .inr (.inl ⟨hadmitted, hbalanced, evaluate_of_not_balanced hadmitted hbalanced⟩)

/-- The last stage calls a number invalid only when it reads one. -/
theorem exists_readNumber_of_evaluateOrdered {post : List Token} {cause : Failure}
    (h : evaluateOrdered post = .error cause) (hkind : cause.kind = .invalidNumber) :
    ∃ n, Token.number n ∈ post ∧ readNumber n = .error cause := by
  rw [evaluateOrdered] at h
  cases hrun : Stack.run [] post with
  | ok stack =>
    rw [hrun] at h
    obtain rfl | rfl := Stack.eq_of_close_eq_error h <;> exact absurd hkind (by decide)
  | error cause' =>
    obtain rfl : cause' = cause := by simpa [hrun] using h
    obtain ⟨stack, t, ht, hstep⟩ := Stack.exists_step_of_run hrun
    obtain ⟨n, rfl, hread⟩ | rfl | ⟨op, rfl⟩ | rfl | ⟨-, rfl⟩ :=
      Stack.step_error_cases hstep
    · exact ⟨n, ht, hread⟩
    all_goals exact absurd hkind (by simp [Failure.kind])

/-- An evaluation calls a number invalid only when it reads one of the tokens. -/
theorem exists_readNumber_of_evaluate {expression : String} {cause : Failure}
    (h : evaluate expression = .error cause) (hkind : cause.kind = .invalidNumber) :
    ∃ ts n, tokenize expression = .ok ts ∧ Token.number n ∈ ts ∧
      readNumber n = .error cause := by
  rw [evaluate] at h
  cases hts : tokenize expression with
  | error cause' =>
    obtain rfl : cause' = cause := by simpa [hts] using h
    obtain ⟨c, -, rfl⟩ := tokenize_eq_error_iff.mp hts
    exact absurd hkind (by simp [Failure.kind])
  | ok ts =>
    cases hpost : evaluationOrder ts with
    | error cause' =>
      obtain rfl : cause' = cause := by simpa [hts, hpost] using h
      rw [eq_mismatchedParentheses_of_evaluationOrder hpost] at hkind
      exact absurd hkind (by decide)
    | ok post =>
      obtain ⟨n, hn, hread⟩ :=
        exists_readNumber_of_evaluateOrdered (by simpa [hts, hpost] using h) hkind
      exact ⟨ts, n, rfl, mem_of_mem_evaluationOrder hpost hn, hread⟩

theorem not_admitted_of_find? {text : List Char} {c : Char}
    (h : text.find? (fun c => !isAdmitted c) = some c) : ¬ Admitted text := by
  rw [← find?_eq_none_iff_admitted, h]
  simp

/-! ### Messages -/

/-- There is something to tell about every failure. -/
theorem Failure.message_ne_empty (cause : Failure) : cause.message ≠ "" := by
  have happend : ∀ a b : String, a ≠ "" → a ++ b ≠ "" :=
    fun a b ha hab => ha (String.append_eq_empty_iff.mp hab).1
  cases cause with
  | invalidCharacter c => exact happend _ _ (by decide)
  | invalidNumber text => exact happend _ _ (by decide)
  | missingOperands op => exact happend _ _ (happend _ _ (by decide))
  | unexpectedToken token => exact happend _ _ (by decide)
  | _ => decide

end Expression

open Expression

/-! ### Outcomes -/

/-- A value can always be rounded and written, so a calculation fails as its evaluation does. -/
theorem calculate_eq_error_iff {expression : String} {cause : Failure} :
    calculate expression = .error cause ↔ evaluate expression = .error cause := by
  rw [calculate]
  cases evaluate expression with
  | error cause' => simp
  | ok x =>
    obtain ⟨y, hy⟩ := exists_roundedResult x
    simp [hy]

namespace Outcome

theorem kind?_ofExpression_eq_some_iff {expression : String} {kind : FailureKind} :
    (ofExpression expression).kind? = some kind ↔
      ∃ cause, evaluate expression = .error cause ∧ cause.kind = kind := by
  simp only [← calculate_eq_error_iff, ofExpression]
  cases calculate expression <;> simp [kind?]

theorem kind?_eq_invalidCharacter_iff {expression : String} :
    (ofExpression expression).kind? = some .invalidCharacter ↔ ¬ Admitted expression.toList := by
  rw [kind?_ofExpression_eq_some_iff]
  rcases evaluate_cases expression with ⟨c, hc, h⟩ | ⟨hadmitted, -, h⟩ | ⟨hadmitted, -, h⟩
  · simp [h, Failure.kind, not_admitted_of_find? hc]
  · simp [h, Failure.kind, hadmitted]
  · simp only [hadmitted, not_true_eq_false, iff_false]
    rintro ⟨cause, hcause, hkind⟩
    exact absurd (hkind ▸ (h cause hcause).kind_mem) (by decide)

theorem kind?_eq_mismatchedParentheses_iff {expression : String} :
    (ofExpression expression).kind? = some .mismatchedParentheses ↔
      Admitted expression.toList ∧ ¬ Balanced (parens expression.toList) := by
  rw [kind?_ofExpression_eq_some_iff]
  rcases evaluate_cases expression with ⟨c, hc, h⟩ | ⟨hadmitted, hopen, h⟩ | ⟨-, hbalanced, h⟩
  · simp [h, Failure.kind, not_admitted_of_find? hc]
  · simp [h, Failure.kind, hadmitted, hopen]
  · simp only [hbalanced, not_true_eq_false, and_false, iff_false]
    rintro ⟨cause, hcause, hkind⟩
    exact absurd (hkind ▸ (h cause hcause).kind_mem) (by decide)

theorem calculate_eq_invalidCharacter_iff {expression : String} {c : Char} :
    calculate expression = .error (.invalidCharacter c) ↔
      expression.toList.find? (fun c => !isAdmitted c) = some c := by
  rw [calculate_eq_error_iff]
  rcases evaluate_cases expression with ⟨c', hc, h⟩ | ⟨hadmitted, -, h⟩ | ⟨hadmitted, -, h⟩
  · simp [h, hc]
  · simp [h, find?_eq_none_iff_admitted.mpr hadmitted]
  · simp only [find?_eq_none_iff_admitted.mpr hadmitted, reduceCtorEq, iff_false]
    exact fun hcause => nomatch (h _ hcause).1

/-- The message names the character. -/
theorem ofExpression_of_find? {expression : String} {c : Char}
    (h : expression.toList.find? (fun c => !isAdmitted c) = some c) :
    ofExpression expression = .failure .invalidCharacter
      ("Carácter inválido: " ++ Text.quoted (String.singleton c)) := by
  rw [ofExpression, calculate_eq_invalidCharacter_iff.mpr h, LooseText.ofString_singleton]
  rfl

/-- No token is ever unexpected. -/
theorem calculate_ne_unexpectedToken (expression : String) (t : Token) :
    calculate expression ≠ .error (.unexpectedToken t) := by
  rw [Ne, calculate_eq_error_iff]
  rcases evaluate_cases expression with ⟨c, -, h⟩ | ⟨-, -, h⟩ | ⟨-, -, h⟩
  · simp [h]
  · simp [h]
  · exact fun hcause => (h _ hcause).2 t rfl

/-- A text without a fault in its characters and parentheses has a result, or fails in the last
stage. -/
theorem exists_success_or_kind {expression : String} (hadmitted : Admitted expression.toList)
    (hbalanced : Balanced (parens expression.toList)) :
    (∃ value, ofExpression expression = .success value) ∨
      ∃ kind ∈ computingKinds, (ofExpression expression).kind? = some kind := by
  cases houtcome : ofExpression expression with
  | success value => exact .inl ⟨value, rfl⟩
  | failure kind message =>
    have hkind : (ofExpression expression).kind? = some kind := by
      rw [houtcome]
      rfl
    obtain ⟨cause, hcause, rfl⟩ := kind?_ofExpression_eq_some_iff.mp hkind
    exact .inr ⟨_, (isComputing_of_evaluate hadmitted hbalanced hcause).kind_mem, rfl⟩

/-- What an outcome tells fits with whether it is a success. -/
theorem ofExpression_fields (expression : String) :
    ((ofExpression expression).ok = true →
      (∃ value, (ofExpression expression).value? = some value) ∧
        (ofExpression expression).kind? = none ∧ (ofExpression expression).message = "") ∧
    ((ofExpression expression).ok = false →
      (ofExpression expression).value? = none ∧
        (∃ kind, (ofExpression expression).kind? = some kind) ∧
          (ofExpression expression).message ≠ "") := by
  rw [ofExpression]
  cases calculate expression with
  | ok value => simp [ok, value?, kind?, message]
  | error cause => simp [ok, value?, kind?, message, cause.message_ne_empty]

/-- **Failures are classified by the first stage that finds a fault.** For every text: the
calculation is defined; it fails for its first character that is neither blank nor in the alphabet,
if there is one; otherwise for its parentheses, if they do not pair up; and otherwise it has a
result or fails for a reason of the last stage, where no token is unexpected. A success has a value
and nothing else, a failure a kind and a message and no value. -/
theorem ofExpression_classified (expression : String) :
    (attempt expression).run = some (calculate expression) ∧
    ((ofExpression expression).kind? = some .invalidCharacter ↔
      ∃ c ∈ expression.toList, Text.isBlank c = false ∧ c ∉ alphabet) ∧
    (∀ c : Char, calculate expression = .error (.invalidCharacter c) ↔
      expression.toList.find? (fun c => !isAdmitted c) = some c) ∧
    (∀ c, expression.toList.find? (fun c => !isAdmitted c) = some c →
      ofExpression expression = .failure .invalidCharacter
        ("Carácter inválido: " ++ Text.quoted (String.singleton c))) ∧
    ((ofExpression expression).kind? = some .mismatchedParentheses ↔
      (∀ c ∈ expression.toList, Text.isBlank c = true ∨ c ∈ alphabet) ∧
        ¬ Balanced (parens expression.toList)) ∧
    ((∀ c ∈ expression.toList, Text.isBlank c = true ∨ c ∈ alphabet) →
      Balanced (parens expression.toList) →
      (∃ value, ofExpression expression = .success value) ∨
        ∃ kind ∈ computingKinds, (ofExpression expression).kind? = some kind) ∧
    (∀ t, calculate expression ≠ .error (.unexpectedToken t)) ∧
    ((ofExpression expression).ok = true →
      (∃ value, (ofExpression expression).value? = some value) ∧
        (ofExpression expression).kind? = none ∧ (ofExpression expression).message = "") ∧
    ((ofExpression expression).ok = false →
      (ofExpression expression).value? = none ∧
        (∃ kind, (ofExpression expression).kind? = some kind) ∧
          (ofExpression expression).message ≠ "") := by
  have hadmitted : Admitted expression.toList ↔
      ∀ c ∈ expression.toList, Text.isBlank c = true ∨ c ∈ alphabet := by
    simp [Admitted, isAdmitted]
  have hnot : ¬ Admitted expression.toList ↔
      ∃ c ∈ expression.toList, Text.isBlank c = false ∧ c ∉ alphabet := by
    simp [hadmitted]
  exact ⟨attempt_eq expression, kind?_eq_invalidCharacter_iff.trans hnot,
    fun _ => calculate_eq_invalidCharacter_iff, fun _ => ofExpression_of_find?,
    kind?_eq_mismatchedParentheses_iff.trans (and_congr_left' hadmitted),
    fun h => exists_success_or_kind (hadmitted.mpr h), calculate_ne_unexpectedToken expression,
    ofExpression_fields expression⟩

end Outcome

end DeskCalculator
