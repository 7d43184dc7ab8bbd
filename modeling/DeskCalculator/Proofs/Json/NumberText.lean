import Mathlib.Data.List.TakeWhile
import DeskCalculator.Json.Lexing

/-!
# DeskCalculator.Proofs.Json.NumberText

The texts of a number. `NumberText` is their grammar: a minus or none, an integer without leading
zeros, a fraction or none, an exponent or none.

* **What is taken** from a text is a number (`numberText_of_takeNumber?`).
* **A number is taken as a whole** if what follows it cannot be a part of it (`takeNumber?_append`).
-/

namespace DeskCalculator.Json

/-! ### The grammar -/

/-- Digits of ASCII, at least one. -/
structure IsDigits (text : List Char) : Prop where
  ne_nil : text ≠ []
  isDigit : ∀ c ∈ text, c.isDigit = true

/-- The whole part of a number: zero, or digits that do not begin with one. -/
inductive IntegerText : List Char → Prop
  | zero : IntegerText ['0']
  | digits {c : Char} {cs : List Char} (hc : c.isDigit = true) (hzero : c ≠ '0')
      (hcs : ∀ d ∈ cs, d.isDigit = true) : IntegerText (c :: cs)

/-- The places of a number, with their point, or nothing. -/
inductive FractionText : List Char → Prop
  | absent : FractionText []
  | digits {ds : List Char} (h : IsDigits ds) : FractionText ('.' :: ds)

/-- The power of ten of a number, or nothing. -/
inductive ExponentText : List Char → Prop
  | absent : ExponentText []
  | digits {letter : Char} {sign ds : List Char} (hletter : letter = 'e' ∨ letter = 'E')
      (hsign : sign = [] ∨ sign = ['+'] ∨ sign = ['-']) (h : IsDigits ds) :
      ExponentText (letter :: (sign ++ ds))

/-- A number as JSON writes it. -/
inductive NumberText : List Char → Prop
  | parts {sign integer fraction exponent : List Char} (hsign : sign = [] ∨ sign = ['-'])
      (hinteger : IntegerText integer) (hfraction : FractionText fraction)
      (hexponent : ExponentText exponent) :
      NumberText (sign ++ (integer ++ fraction ++ exponent))

/-- A text that does not begin with such a character. -/
def NotFirst (p : Char → Prop) (text : List Char) : Prop := ∀ c, text.head? = some c → ¬ p c

theorem NotFirst.mono {p q : Char → Prop} {text : List Char} (h : NotFirst q text)
    (hpq : ∀ c, p c → q c) : NotFirst p text :=
  fun c hc hp => h c hc (hpq c hp)

/-- A character that a number could go on with. -/
def ContinuesNumber (c : Char) : Prop := c.isDigit = true ∨ c = '.' ∨ c = 'e' ∨ c = 'E'

variable {text rest : List Char}

theorem IntegerText.exists_cons (h : IntegerText text) :
    ∃ c cs, text = c :: cs ∧ c.isDigit = true := by
  cases h with
  | zero => exact ⟨'0', [], rfl, by decide⟩
  | digits hc _ _ => exact ⟨_, _, rfl, hc⟩

/-- A fraction, and what comes in its place, begins with no digit. -/
theorem FractionText.notFirst (h : FractionText text)
    (hrest : NotFirst (fun c => c.isDigit = true) rest) :
    NotFirst (fun c => c.isDigit = true) (text ++ rest) := by
  cases h with
  | absent => exact hrest
  | digits _ => simp [NotFirst]

/-- An exponent, and what comes in its place, begins with no digit and no point. -/
theorem ExponentText.notFirst (h : ExponentText text) (hrest : NotFirst ContinuesNumber rest) :
    NotFirst (fun c => c.isDigit = true ∨ c = '.') (text ++ rest) := by
  cases h with
  | absent => exact hrest.mono fun c hc => hc.imp_right .inl
  | digits hletter _ _ =>
    intro c hc
    obtain rfl := Option.some.inj hc
    obtain rfl | rfl := hletter <;> decide

/-! ### Taking the parts -/

theorem takeDigits_append {ds : List Char} (hds : ∀ c ∈ ds, c.isDigit = true)
    (hrest : NotFirst (fun c => c.isDigit = true) rest) : takeDigits (ds ++ rest) = (ds, rest) := by
  rw [takeDigits, List.takeWhile_append_of_pos hds, List.dropWhile_append_of_pos hds]
  cases rest with
  | nil => simp
  | cons c rest =>
    have hc := hrest c rfl
    rw [List.takeWhile_cons_of_neg hc, List.dropWhile_cons_of_neg hc, List.append_nil]

theorem takeDigits_spec {ds : List Char} (h : takeDigits text = (ds, rest)) :
    text = ds ++ rest ∧ ∀ c ∈ ds, c.isDigit = true := by
  rw [takeDigits, Prod.mk.injEq] at h
  obtain ⟨rfl, rfl⟩ := h
  exact ⟨List.takeWhile_append_dropWhile.symm, fun c hc => List.mem_takeWhile_imp hc⟩

theorem takeInteger?_append {integer : List Char} (h : IntegerText integer)
    (hrest : NotFirst (fun c => c.isDigit = true) rest) :
    takeInteger? (integer ++ rest) = some (integer, rest) := by
  cases h with
  | zero => rfl
  | @digits c cs hc hzero hcs =>
    rw [takeInteger?, takeDigits_append (List.forall_mem_cons.mpr ⟨hc, hcs⟩) hrest]
    exact fun _ h => hzero (List.cons.inj h).1

theorem integerText_of_takeInteger? {integer : List Char}
    (h : takeInteger? text = some (integer, rest)) :
    IntegerText integer ∧ text = integer ++ rest := by
  unfold takeInteger? at h
  split at h
  · obtain ⟨rfl, rfl⟩ := Prod.mk.inj (Option.some.inj h)
    exact ⟨.zero, rfl⟩
  · rename_i hzero
    split at h
    · exact absurd h (by simp)
    · rename_i found hnone
      obtain ⟨rfl, hdigits⟩ := takeDigits_spec (Option.some.inj h)
      cases integer with
      | nil => exact absurd (Option.some.inj h) (hnone rest)
      | cons c cs =>
        obtain ⟨hc, hcs⟩ := List.forall_mem_cons.mp hdigits
        exact ⟨.digits hc (fun h => hzero (cs ++ rest) (by rw [h]; rfl)) hcs, rfl⟩

theorem takeFraction_append {fraction : List Char} (h : FractionText fraction)
    (hrest : NotFirst (fun c => c.isDigit = true ∨ c = '.') rest) :
    takeFraction (fraction ++ rest) = (fraction, rest) := by
  cases h with
  | absent =>
    rw [List.nil_append, takeFraction]
    rintro rest rfl
    exact hrest '.' rfl (.inr rfl)
  | @digits ds h =>
    rw [List.cons_append, takeFraction, takeDigits_append h.isDigit (hrest.mono fun _ => .inl)]
    simp [h.ne_nil]

theorem takeFraction_spec (text : List Char) :
    FractionText (takeFraction text).1 ∧
      (takeFraction text).1 ++ (takeFraction text).2 = text := by
  unfold takeFraction
  split
  · split
    · exact ⟨.absent, rfl⟩
    · rename_i ds rest hne hdigits
      obtain ⟨rfl, hds⟩ := takeDigits_spec hdigits
      exact ⟨.digits ⟨hne, hds⟩, rfl⟩
  · exact ⟨.absent, rfl⟩

theorem takeExponentSign_append {sign ds : List Char}
    (hsign : sign = [] ∨ sign = ['+'] ∨ sign = ['-']) (h : IsDigits ds) :
    takeExponentSign (sign ++ (ds ++ rest)) = (sign, ds ++ rest) := by
  obtain rfl | rfl | rfl := hsign
  · obtain ⟨c, cs, rfl⟩ := List.exists_cons_of_ne_nil h.ne_nil
    have hc := h.isDigit c List.mem_cons_self
    rw [List.nil_append, takeExponentSign]
    · rintro _ heq
      obtain rfl := (List.cons.inj heq).1
      exact absurd hc (by decide)
    · rintro _ heq
      obtain rfl := (List.cons.inj heq).1
      exact absurd hc (by decide)
  · rfl
  · rfl

theorem takeExponentSign_spec (text : List Char) :
    ((takeExponentSign text).1 = [] ∨ (takeExponentSign text).1 = ['+'] ∨
      (takeExponentSign text).1 = ['-']) ∧
      (takeExponentSign text).1 ++ (takeExponentSign text).2 = text := by
  unfold takeExponentSign
  split <;> simp

theorem takeExponent_append {exponent : List Char} (h : ExponentText exponent)
    (hrest : NotFirst ContinuesNumber rest) :
    takeExponent (exponent ++ rest) = (exponent, rest) := by
  cases h with
  | absent =>
    cases rest with
    | nil => rfl
    | cons c rest =>
      have hletter : ¬ (c = 'e' ∨ c = 'E') := fun h => hrest c rfl (.inr (.inr h))
      rw [List.nil_append, takeExponent, if_neg hletter]
  | @digits letter sign ds hletter hsign h =>
    rw [List.cons_append, List.append_assoc, takeExponent, if_pos hletter,
      takeExponentSign_append hsign h]
    simp only [takeDigits_append h.isDigit (hrest.mono fun _ => .inl)]
    split
    · rename_i heq
      exact absurd (Prod.mk.inj heq).1 h.ne_nil
    · rename_i heq
      obtain ⟨rfl, rfl⟩ := Prod.mk.inj heq
      rfl

theorem takeExponent_spec (text : List Char) :
    ExponentText (takeExponent text).1 ∧
      (takeExponent text).1 ++ (takeExponent text).2 = text := by
  unfold takeExponent
  split
  · exact ⟨.absent, rfl⟩
  · rename_i letter behind
    split
    · rename_i hletter
      obtain ⟨hsign, hbehind⟩ := takeExponentSign_spec behind
      generalize takeExponentSign behind = signed at hsign hbehind ⊢
      obtain ⟨sign, afterSign⟩ := signed
      dsimp only
      split
      · exact ⟨.absent, rfl⟩
      · rename_i ds rest hne hdigits
        obtain ⟨hafter, hds⟩ := takeDigits_spec hdigits
        refine ⟨.digits hletter hsign ⟨hne, hds⟩, ?_⟩
        show letter :: (sign ++ ds) ++ rest = letter :: behind
        rw [List.cons_append, List.append_assoc, ← hafter]
        exact congrArg (letter :: ·) hbehind
    · exact ⟨.absent, rfl⟩

/-! ### Taking a number -/

/-- **A number is taken as a whole** from a text that does not go on like a number. -/
theorem takeNumber?_append {number : List Char} (h : NumberText number)
    (hrest : NotFirst ContinuesNumber rest) :
    takeNumber? (number ++ rest) = some (number, rest) := by
  obtain @⟨sign, integer, fraction, exponent, hsign, hinteger, hfraction, hexponent⟩ := h
  have hmagnitude : takeMagnitude? (integer ++ fraction ++ exponent ++ rest) =
      some (integer ++ fraction ++ exponent, rest) := by
    have hbehindFraction := hexponent.notFirst hrest
    have hbehindInteger := hfraction.notFirst (hbehindFraction.mono fun _ => .inl)
    rw [takeMagnitude?, List.append_assoc, List.append_assoc,
      takeInteger?_append hinteger hbehindInteger]
    simp [takeFraction_append hfraction hbehindFraction, takeExponent_append hexponent hrest]
  obtain rfl | rfl := hsign
  · obtain ⟨c, cs, rfl, hc⟩ := hinteger.exists_cons
    rw [List.nil_append, takeNumber?]
    · exact hmagnitude
    · rintro _ heq
      obtain rfl := (List.cons.inj heq).1
      exact absurd hc (by decide)
  · rw [List.append_assoc, List.singleton_append, takeNumber?, hmagnitude]
    rfl

theorem numberText_of_takeMagnitude? {sign magnitude : List Char} (hsign : sign = [] ∨ sign = ['-'])
    (h : takeMagnitude? text = some (magnitude, rest)) :
    NumberText (sign ++ magnitude) ∧ text = magnitude ++ rest := by
  obtain ⟨⟨integer, behindInteger⟩, hinteger, heq⟩ := Option.map_eq_some_iff.mp h
  obtain ⟨hintegerText, rfl⟩ := integerText_of_takeInteger? hinteger
  obtain ⟨hfractionText, hfraction⟩ := takeFraction_spec behindInteger
  obtain ⟨hexponentText, hexponent⟩ := takeExponent_spec (takeFraction behindInteger).2
  have hmagnitude : integer ++ (takeFraction behindInteger).1 ++
      (takeExponent (takeFraction behindInteger).2).1 = magnitude := congrArg Prod.fst heq
  have hrest : (takeExponent (takeFraction behindInteger).2).2 = rest := congrArg Prod.snd heq
  refine ⟨hmagnitude ▸ .parts hsign hintegerText hfractionText hexponentText, ?_⟩
  rw [← hmagnitude, ← hrest, List.append_assoc, List.append_assoc, hexponent, hfraction]

/-- **What is taken is a number**, from the start of the text. -/
theorem numberText_of_takeNumber? {number : List Char}
    (h : takeNumber? text = some (number, rest)) : NumberText number ∧ text = number ++ rest := by
  unfold takeNumber? at h
  split at h
  · obtain ⟨⟨digits, rest'⟩, htake, heq⟩ := Option.map_eq_some_iff.mp h
    obtain ⟨rfl, rfl⟩ := Prod.mk.inj heq
    obtain ⟨hnumber, rfl⟩ := numberText_of_takeMagnitude? (.inr rfl) htake
    exact ⟨hnumber, rfl⟩
  · exact numberText_of_takeMagnitude? (.inl rfl) h

end DeskCalculator.Json
