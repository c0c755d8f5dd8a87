import Concordance.Json.Reader

/-! # Texts of numbers

A number is written with digits, a point, signs and a letter, and where such a text stands the
reader takes a number and nothing beyond it. An integer that 64 bits hold is read back as it was.
Any other number may change, since its digits are combined with rounding.
-/
namespace Concordance.Json

def isNumber : Json → Bool
  | integer _ | float _ => true
  | _ => false

namespace Reading
variable {α β : Type} {rest tail : List Char} {c : Char} {P : α → List Char → Prop}
  {Q : β → List Char → Prop}

/-- Whatever is read where the text goes on so satisfies this, with what is left of the text. -/
def Yields (m : Reading α) (rest : List Char) (P : α → List Char → Prop) : Prop :=
  ∀ place a cursor, m ⟨rest, place⟩ = .ok (a, cursor) → P a cursor.rest

theorem Yields.imp {P' : α → List Char → Prop} {m : Reading α} (h : m.Yields rest P)
    (himp : ∀ a r, P a r → P' a r) : m.Yields rest P' :=
  fun place a cursor hread => himp _ _ (h place a cursor hread)

theorem Yields.bind {m : Reading β} {f : β → Reading α} (h : m.Yields rest Q)
    (hf : ∀ b r, Q b r → (f b).Yields r P) : (m >>= f).Yields rest P := by
  intro place a cursor hread
  cases hm : m ⟨rest, place⟩ with
  | error fault => simp only [Bind.bind, StateT.bind, hm, Except.bind, reduceCtorEq] at hread
  | ok result =>
    simp only [Bind.bind, StateT.bind, hm, Except.bind] at hread
    exact hf _ _ (h place _ _ hm) _ _ _ hread

theorem yields_pure {a : α} (h : P a rest) : (pure a : Reading α).Yields rest P := by
  intro place b cursor hread
  cases hread
  exact h

theorem yields_fail (problem : Problem) : (fail problem : Reading α).Yields rest P := by
  intro place a cursor hread
  cases hread

theorem yields_failNext (problem : Problem) : (failNext problem : Reading α).Yields rest P := by
  intro place a cursor hread
  cases hread

theorem Yields.peek {f : Option Char → Reading α} (h : (f rest.head?).Yields rest P) :
    (peek >>= f).Yields rest P := fun place a cursor hread => h place a cursor hread

theorem advance_cons (c : Char) (rest : List Char) (place : Place) :
    ∃ place', Cursor.advance ⟨c :: rest, place⟩ = ⟨rest, place'⟩ := by
  simp only [Cursor.advance]
  split
  · contradiction
  · rename_i heq
    cases heq
    exact ⟨_, rfl⟩
  · rename_i heq
    cases heq
    exact ⟨_, rfl⟩

theorem Yields.skip {f : Unit → Reading α} (h : (f ()).Yields rest P) :
    (skip >>= f).Yields (c :: rest) P := by
  intro place a cursor hread
  obtain ⟨place', hadvance⟩ := advance_cons c rest place
  refine h place' a cursor ?_
  rw [← hread, ← hadvance]
  rfl

theorem Yields.peekToken {f : Option Char → Reading α} (hc : isSpace c = false)
    (h : (f (some c)).Yields (c :: rest) P) : (peekToken >>= f).Yields (c :: rest) P := by
  intro place a cursor hread
  refine h place a cursor ?_
  rw [← hread]
  simp [Bind.bind, StateT.bind, Reading.peekToken, skipSpaces, hc, Except.bind]

/-! ## Numbers -/

/-- A character of a number. -/
def isNumberChar (c : Char) : Bool :=
  isDigit c || c = '.' || c = 'e' || c = 'E' || c = '+' || c = '-'

/-- Only characters of numbers. -/
def IsNumeral (chars : List Char) : Prop := ∀ c ∈ chars, isNumberChar c

instance (chars : List Char) : Decidable (IsNumeral chars) :=
  List.decidableBAll (fun c => isNumberChar c) chars

theorem IsNumeral.append {front back : List Char} (h : IsNumeral front) (h' : IsNumeral back) :
    IsNumeral (front ++ back) := by
  intro c hc
  rcases List.mem_append.1 hc with hc | hc
  · exact h c hc
  · exact h' c hc

/-- The text ends here, or goes on with what is in no number. -/
def Ends (tail : List Char) : Prop := ∀ c, tail.head? = some c → isNumberChar c = false

/-- Only characters of a number stand before the tail. -/
def Within (tail rest : List Char) : Prop :=
  ∃ chars : List Char, IsNumeral chars ∧ rest = chars ++ tail

theorem Within.refl (tail : List Char) : Within tail tail := ⟨[], by decide, rfl⟩

theorem isNumberChar_of_isDigit (h : isDigit c) : isNumberChar c := by
  simp [isNumberChar, h]

theorem isSpace_of_isNumberChar (hc : isNumberChar c) : isSpace c = false := by
  cases hs : isSpace c with
  | false => rfl
  | true =>
    simp only [isSpace, Bool.or_eq_true, decide_eq_true_eq] at hs
    rcases hs with ((rfl | rfl) | rfl) | rfl
    · cases hc
    · cases hc
    · cases hc
    · cases hc

theorem Within.of_cons (h : Within tail (c :: rest)) (hends : Ends tail) (hc : isNumberChar c) :
    Within tail rest := by
  obtain ⟨chars, hchars, heq⟩ := h
  cases chars with
  | nil =>
    have hnot := hends c (by rw [← List.nil_append tail, ← heq]; rfl)
    rw [hc] at hnot
    cases hnot
  | cons d more =>
    cases heq
    exact ⟨more, fun c hc => hchars c (List.mem_cons_of_mem _ hc), rfl⟩

theorem Within.digitsFrom (hends : Ends tail) (push : Nat → Nat → Option Nat) {l : List Char}
    (h : Within tail l) (value count : Nat) (place : Place) :
    let read := digitsFrom push l value count ⟨l, place⟩
    Within tail read.2.rest ∧
      (read.1.2.2 = false → ∃ c more, read.2.rest = c :: more ∧ isDigit c) := by
  induction l generalizing value count place with
  | nil => exact ⟨h, fun hwhole => by cases hwhole⟩
  | cons c rest ih =>
    simp only [Reading.digitsFrom]
    split
    · rename_i hc
      split
      · obtain ⟨place', hadvance⟩ := advance_cons c rest place
        rw [hadvance]
        exact ih (h.of_cons hends (isNumberChar_of_isDigit hc)) _ _ place'
      · exact ⟨h, fun _ => ⟨c, rest, rfl, hc⟩⟩
    · exact ⟨h, fun hwhole => by cases hwhole⟩

section
variable (hends : Ends tail) (h : Within tail rest)
include hends h

theorem yields_digits (limit value : Nat) :
    (digits limit value).Yields rest fun read r =>
      Within tail r ∧ (read.2.2 = false → ∃ c more, r = c :: more ∧ isDigit c) := by
  intro place a cursor hread
  have hdigits := h.digitsFrom hends
    (fun v d => if v * 10 + d ≤ limit then some (v * 10 + d) else none) value 0 place
  rw [Except.ok.inj hread] at hdigits
  exact hdigits

theorem yields_skipDigits : skipDigits.Yields rest fun _ r => Within tail r := by
  intro place a cursor hread
  cases hread
  exact (h.digitsFrom hends _ 0 0 place).1

end

theorem yields_scaled (negative : Bool) (significand : Nat) (exponent : Int) :
    (scaled negative significand exponent).Yields rest fun _ r => r = rest := by
  unfold scaled
  dsimp only
  split
  · exact yields_pure rfl
  · split
    · split
      · exact yields_pure rfl
      · exact yields_fail _
    · split
      · exact yields_pure rfl
      · exact yields_fail _

/-- The digits of an exponent, and the number that they complete. -/
def exponentDigits (negative : Bool) (significand : Nat) (exponent : Int) (down : Bool) :
    Reading Binary64 := do
  match ← peek with
  | none => fail .endInValue
  | some c =>
    if !isDigit c then failNext .badNumber
    else
      skip
      let (value, _, whole) ← digits maxExponent (digitValue c)
      if whole then
        scaled negative significand (if down then exponent - value else exponent + value)
      else
        skip
        if significand ≠ 0 ∧ !down then fail .numberRange
        else
          let _ ← skipDigits
          return signed negative .zero

theorem exponentPart_eq (negative : Bool) (significand : Nat) (exponent : Int) :
    exponentPart negative significand exponent = (do
      skip
      match ← peek with
      | some '+' => skip; exponentDigits negative significand exponent false
      | some '-' => skip; exponentDigits negative significand exponent true
      | _ => exponentDigits negative significand exponent false) := rfl

section
variable (hends : Ends tail) (negative : Bool) (significand : Nat)
include hends

theorem yields_exponentDigits (h : Within tail rest) (exponent : Int) (down : Bool) :
    (exponentDigits negative significand exponent down).Yields rest fun _ r => Within tail r := by
  refine Yields.peek ?_
  cases rest with
  | nil => exact yields_fail _
  | cons c more =>
    simp only [List.head?_cons]
    split
    · exact yields_failNext _
    · rename_i hc
      have hc : isNumberChar c := isNumberChar_of_isDigit (by simpa using hc)
      refine Yields.skip ((yields_digits hends (h.of_cons hends hc) _ _).bind ?_)
      rintro ⟨value, count, whole⟩ r ⟨hr, hstop⟩
      dsimp only
      split
      · exact (yields_scaled _ _ _).imp fun _ _ heq => heq ▸ hr
      · rename_i hwhole
        obtain ⟨d, more, rfl, hd⟩ := hstop (by simpa using hwhole)
        have hr := hr.of_cons hends (isNumberChar_of_isDigit hd)
        refine Yields.skip ?_
        split
        · exact yields_fail _
        · exact (yields_skipDigits hends hr).bind fun _ _ hr => yields_pure hr

theorem yields_exponentPart (hc : isNumberChar c) (h : Within tail (c :: rest)) (exponent : Int) :
    (exponentPart negative significand exponent).Yields (c :: rest) fun _ r => Within tail r := by
  have h := h.of_cons hends hc
  rw [exponentPart_eq]
  refine Yields.skip (Yields.peek ?_)
  cases rest with
  | nil => exact yields_exponentDigits hends _ _ h _ _
  | cons d more =>
    simp only [List.head?_cons]
    split
    · rename_i hd
      cases hd
      exact Yields.skip (yields_exponentDigits hends _ _ (h.of_cons hends (by decide)) _ _)
    · rename_i hd
      cases hd
      exact Yields.skip (yields_exponentDigits hends _ _ (h.of_cons hends (by decide)) _ _)
    · exact yields_exponentDigits hends _ _ h _ _

theorem yields_afterDigits (h : Within tail rest) (exponent : Int) :
    (afterDigits negative significand exponent).Yields rest fun _ r => Within tail r := by
  refine Yields.peek ?_
  have hscaled : (scaled negative significand exponent).Yields rest fun _ r => Within tail r :=
    (yields_scaled negative significand exponent).imp fun _ _ heq => heq ▸ h
  cases rest with
  | nil => exact hscaled
  | cons c more =>
    simp only [List.head?_cons]
    split
    · rename_i hc
      cases hc
      exact yields_exponentPart hends _ _ (by decide) h _
    · rename_i hc
      cases hc
      exact yields_exponentPart hends _ _ (by decide) h _
    · exact hscaled

theorem yields_fraction (hc : isNumberChar c) (h : Within tail (c :: rest)) (exponent : Int) :
    (fraction negative significand exponent).Yields (c :: rest) fun _ r => Within tail r := by
  refine Yields.skip ((yields_digits hends (h.of_cons hends hc) _ _).bind ?_)
  rintro ⟨value, count, whole⟩ r ⟨hr, -⟩
  dsimp only
  split
  · split
    · refine Yields.peek ?_
      split
      · exact yields_failNext _
      · exact yields_failNext _
    · exact yields_afterDigits hends _ _ hr _
  · exact (yields_skipDigits hends hr).bind fun _ _ hr => yields_afterDigits hends _ _ hr _

theorem yields_longInteger (h : Within tail rest) :
    (longInteger negative significand).Yields rest fun _ r => Within tail r := by
  refine (yields_skipDigits hends h).bind fun count r hr => Yields.peek ?_
  cases r with
  | nil => exact yields_afterDigits hends _ _ hr _
  | cons c more =>
    simp only [List.head?_cons]
    split
    · rename_i hc
      cases hc
      exact yields_fraction hends _ _ (by decide) hr _
    · exact yields_afterDigits hends _ _ hr _

theorem yields_numberTail (h : Within tail rest) :
    (numberTail negative significand).Yields rest fun v r => v.isNumber ∧ Within tail r := by
  refine Yields.peek ?_
  have hinteger : (if !negative then return integer significand
      else if significand = 0 ∨ 0x8000000000000000 < significand then
        return float (signed true ((Binary64.ofRatio significand 1).getD .zero))
      else return integer (-significand) : Reading Json).Yields rest
        fun v r => v.isNumber ∧ Within tail r := by
    split
    · exact yields_pure ⟨rfl, h⟩
    · split
      · exact yields_pure ⟨rfl, h⟩
      · exact yields_pure ⟨rfl, h⟩
  cases rest with
  | nil => exact hinteger
  | cons c more =>
    simp only [List.head?_cons]
    split
    · rename_i hc
      cases hc
      exact (yields_fraction hends _ _ (by decide) h _).bind fun _ _ hr => yields_pure ⟨rfl, hr⟩
    · rename_i hc
      cases hc
      exact (yields_exponentPart hends _ _ (by decide) h _).bind fun _ _ hr =>
        yields_pure ⟨rfl, hr⟩
    · rename_i hc
      cases hc
      exact (yields_exponentPart hends _ _ (by decide) h _).bind fun _ _ hr =>
        yields_pure ⟨rfl, hr⟩
    · exact hinteger

omit significand in
/-- What is read as a number is a number, and nothing beyond its characters is taken. -/
theorem yields_number (h : Within tail rest) :
    (number negative).Yields rest fun v r => v.isNumber ∧ Within tail r := by
  refine Yields.peek ?_
  cases rest with
  | nil => exact yields_fail _
  | cons c more =>
    simp only [List.head?_cons]
    split
    · rename_i hc
      have hmore := h.of_cons hends (hc ▸ by decide)
      refine Yields.skip (Yields.peek ?_)
      split
      · split
        · exact yields_failNext _
        · exact yields_numberTail hends _ _ hmore
      · exact yields_numberTail hends _ _ hmore
    · split
      · rename_i hc
        have hmore := h.of_cons hends (isNumberChar_of_isDigit hc)
        refine Yields.skip ((yields_digits hends hmore _ _).bind ?_)
        rintro ⟨value, count, whole⟩ r ⟨hr, -⟩
        dsimp only
        split
        · exact yields_numberTail hends _ _ hr
        · exact (yields_longInteger hends _ _ hr).bind fun _ _ hr => yields_pure ⟨rfl, hr⟩
      · exact yields_failNext _

end

/-! ## Integers -/

theorem le_ofDigitChars (digits : List Char) (value : Nat) :
    value ≤ Nat.ofDigitChars 10 digits value := by
  rw [Nat.ofDigitChars_eq_ofDigitChars_zero]
  have hpos : 0 < 10 ^ digits.length := Nat.pow_pos (by decide)
  have hle := Nat.le_mul_of_pos_left value hpos
  omega

/-- Digits that make no number beyond the limit are all taken. -/
theorem digitsFrom_append (hends : Ends tail) {limit : Nat} {digits : List Char}
    (hdigits : ∀ c ∈ digits, isDigit c) (value count : Nat) (place : Place)
    (hmax : Nat.ofDigitChars 10 digits value ≤ limit) :
    ∃ place', digitsFrom (fun v d => if v * 10 + d ≤ limit then some (v * 10 + d) else none)
        (digits ++ tail) value count ⟨digits ++ tail, place⟩ =
      ((Nat.ofDigitChars 10 digits value, count + digits.length, true), ⟨tail, place'⟩) := by
  induction digits generalizing value count place with
  | nil =>
    refine ⟨place, ?_⟩
    cases tail with
    | nil => rfl
    | cons c rest =>
      have hc : isDigit c = false := by
        have hnot := hends c rfl
        simp only [isNumberChar, Bool.or_eq_false_iff] at hnot
        exact hnot.1.1.1.1.1
      simp [digitsFrom, hc]
  | cons c rest ih =>
    obtain ⟨place', hadvance⟩ := advance_cons c (rest ++ tail) place
    have hc := hdigits c (List.mem_cons_self ..)
    have hvalue : value * 10 + digitValue c = 10 * value + (c.toNat - '0'.toNat) := by
      rw [digitValue, Nat.mul_comm]
    rw [Nat.ofDigitChars_cons, ← hvalue] at hmax ⊢
    have hle := Nat.le_trans (le_ofDigitChars rest _) hmax
    obtain ⟨place'', hrest⟩ := ih (fun d hd => hdigits d (List.mem_cons_of_mem _ hd)) _ (count + 1)
      place' hmax
    refine ⟨place'', ?_⟩
    simp only [List.cons_append, digitsFrom, hc, if_true, hle, hadvance]
    rw [hrest, List.length_cons, Nat.add_right_comm, Nat.add_assoc]

/-- A number that ends after its integer part is that integer if 64 bits hold it. -/
theorem yields_numberTail_integer (hends : Ends tail) (negative : Bool) (n : Nat) :
    (numberTail negative n).Yields tail fun v _ =>
      (negative = false → v = integer n) ∧
        (negative = true → 0 < n → n ≤ 0x8000000000000000 → v = integer (-n)) := by
  refine Yields.peek ?_
  have hinteger : (if !negative then return integer n
      else if n = 0 ∨ 0x8000000000000000 < n then
        return float (signed true ((Binary64.ofRatio n 1).getD .zero))
      else return integer (-n) : Reading Json).Yields tail fun v _ =>
      (negative = false → v = integer n) ∧
        (negative = true → 0 < n → n ≤ 0x8000000000000000 → v = integer (-n)) := by
    split
    · rename_i hpositive
      exact yields_pure ⟨fun _ => rfl, fun hnegative => by simp [hnegative] at hpositive⟩
    · rename_i hnegative
      split
      · exact yields_pure ⟨fun hpositive => by simp [hpositive] at hnegative, by omega⟩
      · exact yields_pure ⟨fun hpositive => by simp [hpositive] at hnegative, fun _ _ _ => rfl⟩
  cases tail with
  | nil => exact hinteger
  | cons c rest =>
    have hc := hends c rfl
    simp only [List.head?_cons]
    split
    · rename_i heq
      cases heq
      cases hc
    · rename_i heq
      cases heq
      cases hc
    · rename_i heq
      cases heq
      cases hc
    · exact hinteger

theorem isDigit_of_mem_toDigits {n : Nat} (hc : c ∈ Nat.toDigits 10 n) : isDigit c := by
  have hdigit := Nat.isDigit_of_mem_toDigits (by decide) (by decide) hc
  simpa [isDigit, Char.isDigit, Char.le_def] using hdigit

/-- The decimal digits of an integer are read back as the integer if 64 bits hold it. -/
theorem yields_number_toDigits (hends : Ends tail) (negative : Bool) {n : Nat}
    (hn : n ≤ maxSignificand) :
    (number negative).Yields (Nat.toDigits 10 n ++ tail) fun v _ =>
      (negative = false → v = integer n) ∧
        (negative = true → 0 < n → n ≤ 0x8000000000000000 → v = integer (-n)) := by
  obtain ⟨d, more, hdigits⟩ := List.exists_cons_of_ne_nil (Nat.toDigits_ne_nil (n := n) (b := 10))
  have hall : ∀ c ∈ d :: more, isDigit c := fun c hc => isDigit_of_mem_toDigits (hdigits ▸ hc)
  have hvalue : Nat.ofDigitChars 10 (d :: more) 0 = n := by
    rw [← hdigits, Nat.ofDigitChars_ten_toDigits]
  rw [hdigits]
  refine Yields.peek ?_
  simp only [List.cons_append, List.head?_cons]
  rw [Nat.ofDigitChars_cons, Nat.mul_zero, Nat.zero_add] at hvalue
  split
  · rename_i hd
    refine Yields.skip (Yields.peek ?_)
    cases more with
    | nil =>
      obtain rfl : n = 0 := by rw [← hvalue, hd]; rfl
      have htail := yields_numberTail_integer hends negative 0
      rw [List.nil_append]
      split
      · rename_i c hc
        split
        · exact yields_failNext _
        · exact htail
      · exact htail
    | cons e more =>
      simp only [List.cons_append, List.head?_cons, hall e (by simp), if_true]
      exact yields_failNext _
  · rw [if_pos (hall d (List.mem_cons_self ..))]
    refine Yields.skip ?_
    intro place v cursor hread
    obtain ⟨place', hfrom⟩ := digitsFrom_append hends
      (fun c hc => hall c (List.mem_cons_of_mem _ hc)) (digitValue d) 0 place
      (Nat.le_trans (Nat.le_of_eq hvalue) hn)
    have htaken : digits maxSignificand (digitValue d) ⟨more ++ tail, place⟩ =
        .ok ((n, 0 + more.length, true), ⟨tail, place'⟩) := by
      rw [digits, hfrom]
      exact congrArg (fun m => Except.ok ((m, 0 + more.length, true), _)) hvalue
    simp only [Bind.bind, StateT.bind, htaken, Except.bind, if_true] at hread
    exact yields_numberTail_integer hends negative n _ _ _ hread

/-! ## What is written -/

theorem isNumeral_toDigits (n : Nat) : IsNumeral (Nat.toDigits 10 n) :=
  fun _ hc => isNumberChar_of_isDigit (isDigit_of_mem_toDigits hc)

theorem isNumeral_zeros (n : Nat) : IsNumeral (Binary64.zeros n).toList := by
  intro c hc
  rw [Binary64.zeros, String.toList_ofList] at hc
  rw [List.eq_of_mem_replicate hc]
  decide

theorem isNumeral_layout (d : Decimal) : IsNumeral (Binary64.layout d).toList := by
  have hdigits := isNumeral_toDigits d.digits
  have htake (n : Nat) : IsNumeral ((Nat.toDigits 10 d.digits).take n) :=
    fun c hc => hdigits c (List.mem_of_mem_take hc)
  have hdrop (n : Nat) : IsNumeral ((Nat.toDigits 10 d.digits).drop n) :=
    fun c hc => hdigits c (List.mem_of_mem_drop hc)
  unfold Binary64.layout
  dsimp only
  simp only [Nat.toString_eq_ofList_toDigits, String.toList_ofList]
  split
  · simp only [String.toList_append, String.toList_ofList]
    exact (hdigits.append (isNumeral_zeros _)).append (by decide)
  · split
    · simp only [String.toList_append, String.toList_ofList]
      exact ((htake _).append (by decide)).append (hdrop _)
    · split
      · simp only [String.toList_append, String.toList_ofList]
        exact (IsNumeral.append (by decide) (isNumeral_zeros _)).append hdigits
      · simp only [String.toList_append, String.toList_ofList]
        refine IsNumeral.append (IsNumeral.append (IsNumeral.append ((htake _).append ?_)
          (by decide)) ?_) (isNumeral_toDigits _)
        · split
          · decide
          · simp only [String.toList_append, String.toList_ofList]
            exact IsNumeral.append (by decide) (hdrop _)
        · split <;> decide

theorem isNumeral_text (x : Binary64) : IsNumeral x.text.toList := by
  have hmagnitude : IsNumeral
      (if x.isZero then "0.0" else Binary64.layout (Decimal.shortest x)).toList := by
    split
    · decide
    · exact isNumeral_layout _
  unfold Binary64.text
  dsimp only
  split
  · rw [String.toList_append]
    exact IsNumeral.append (by decide) hmagnitude
  · exact hmagnitude

theorem text_ne_nil (x : Binary64) : x.text.toList ≠ [] := by
  have hmagnitude : (if x.isZero then "0.0"
      else Binary64.layout (Decimal.shortest x)).toList ≠ [] := by
    split
    · decide
    · unfold Binary64.layout
      dsimp only
      split
      · simp
      · split
        · simp
        · split
          · simp
          · simp
  unfold Binary64.text
  dsimp only
  split
  · simp
  · exact hmagnitude

theorem toList_ofNat (m : Nat) : (toString (Int.ofNat m)).toList = Nat.toDigits 10 m := by
  exact Nat.toList_repr

theorem toList_negSucc (m : Nat) :
    (toString (Int.negSucc m)).toList = '-' :: Nat.toDigits 10 (m + 1) := by
  change ("-" ++ Nat.repr (m + 1)).toList = _
  rw [String.toList_append, Nat.toList_repr]
  rfl

theorem isNumeral_integer (n : Int) : IsNumeral (toString n).toList := by
  cases n with
  | ofNat m =>
    rw [toList_ofNat]
    exact isNumeral_toDigits m
  | negSucc m =>
    rw [toList_negSucc]
    exact IsNumeral.append (by decide : IsNumeral ['-']) (isNumeral_toDigits _)

theorem integer_ne_nil (n : Int) : (toString n).toList ≠ [] := by
  cases n with
  | ofNat m =>
    rw [toList_ofNat]
    exact Nat.toDigits_ne_nil
  | negSucc m =>
    rw [toList_negSucc]
    exact List.cons_ne_nil _ _

end Reading
end Concordance.Json
