import Concordance.Proofs.NumberTexts
import Concordance.Proofs.Outcomes
import Concordance.Proofs.WellFormed

/-! # Texts of values

A value that is kept as JSON text is read back, if it is read at all, as a value of its kind: texts,
truth values and integers of 64 bits as they were, any other number as a number, and a list of such
values item by item. So the column that took the value takes what is read back.
-/
namespace Concordance.Json

namespace Reading
variable {α : Type} {rest : List Char} {P : α → List Char → Prop}

/-! ## Strings -/

theorem hexValue_hexDigit {n : Nat} (hn : n < 16) : hexValue (hexDigit n) = some n := by
  have hall : ∀ n < 16, hexValue (hexDigit n) = some n := by decide
  exact hall n hn

theorem yields_hexEscape {n : Nat} (hn : n < 0x20) :
    hexEscape.Yields ('0' :: '0' :: hexDigit (n / 16) :: hexDigit (n % 16) :: rest)
      fun m r => m = n ∧ r = rest := by
  intro place m cursor hread
  have hzero : hexValue '0' = some 0 := by decide
  obtain ⟨place₁, h₁⟩ := advance_cons '0'
    ('0' :: hexDigit (n / 16) :: hexDigit (n % 16) :: rest) place
  obtain ⟨place₂, h₂⟩ := advance_cons '0' (hexDigit (n / 16) :: hexDigit (n % 16) :: rest) place₁
  obtain ⟨place₃, h₃⟩ := advance_cons (hexDigit (n / 16)) (hexDigit (n % 16) :: rest) place₂
  obtain ⟨place₄, h₄⟩ := advance_cons (hexDigit (n % 16)) rest place₃
  simp only [hexEscape, List.take_succ_cons, List.take_zero, h₁, h₂, h₃, h₄, List.mapM_cons,
    List.mapM_nil, hzero, hexValue_hexDigit (show n / 16 < 16 by omega),
    hexValue_hexDigit (show n % 16 < 16 by omega), Option.bind_eq_bind, Option.bind_some,
    Option.pure_def] at hread
  split at hread
  · cases hread
  · cases hread
    exact ⟨by omega, rfl⟩

/-- A character stands for itself in a string, or for an escape that is read back as it. -/
theorem escape_cases (c : Char) :
    escape c = [c] ∧ c ≠ '"' ∧ c ≠ '\\' ∧ ¬ c.toNat < 0x20 ∨
      ∃ more, escape c = '\\' :: more ∧
        ∀ rest, escapeTail.Yields (more ++ rest) fun d r => d = c ∧ r = rest := by
  unfold escape
  split
  · exact .inr ⟨_, rfl, fun rest => Yields.peek (Yields.skip (yields_pure ⟨rfl, rfl⟩))⟩
  · exact .inr ⟨_, rfl, fun rest => Yields.peek (Yields.skip (yields_pure ⟨rfl, rfl⟩))⟩
  · exact .inr ⟨_, rfl, fun rest => Yields.peek (Yields.skip (yields_pure ⟨rfl, rfl⟩))⟩
  · exact .inr ⟨_, rfl, fun rest => Yields.peek (Yields.skip (yields_pure ⟨rfl, rfl⟩))⟩
  · exact .inr ⟨_, rfl, fun rest => Yields.peek (Yields.skip (yields_pure ⟨rfl, rfl⟩))⟩
  · exact .inr ⟨_, rfl, fun rest => Yields.peek (Yields.skip (yields_pure ⟨rfl, rfl⟩))⟩
  · exact .inr ⟨_, rfl, fun rest => Yields.peek (Yields.skip (yields_pure ⟨rfl, rfl⟩))⟩
  · rename_i hquote hbackslash _ _ _ _ _
    split
    · rename_i hcontrol
      refine .inr ⟨_, rfl, fun rest => Yields.peek (Yields.skip ?_)⟩
      refine (yields_hexEscape hcontrol).bind ?_
      rintro _ r ⟨rfl, rfl⟩
      rw [if_neg (by omega), if_pos (by omega)]
      exact yields_pure ⟨Char.ofNat_toNat c, rfl⟩
    · exact .inl ⟨rfl, hquote, hbackslash, ‹_›⟩

/-- A string is read back to its closing quote. -/
theorem yields_stringTail (fuel : Nat) (read text : List Char) :
    (stringTail fuel read).Yields (text.flatMap escape ++ '"' :: rest) fun s r =>
      s = String.ofList (read.reverse ++ text) ∧ r = rest := by
  induction text generalizing fuel read with
  | nil =>
    cases fuel with
    | zero => exact yields_fail _
    | succ fuel =>
      refine Yields.peek (Yields.skip (yields_pure ⟨?_, rfl⟩))
      rw [List.append_nil]
  | cons c text ih =>
    cases fuel with
    | zero => exact yields_fail _
    | succ fuel =>
      rw [List.flatMap_cons, List.append_assoc]
      have hrest := ih fuel (c :: read)
      rw [List.reverse_cons, List.append_assoc] at hrest
      rcases escape_cases c with ⟨hc, hquote, hbackslash, hcontrol⟩ | ⟨more, hc, hmore⟩
      · rw [hc]
        refine Yields.peek ?_
        simp only [List.cons_append, List.nil_append, List.head?_cons, hquote, hbackslash,
          hcontrol, if_false]
        exact Yields.skip hrest
      · rw [hc]
        refine Yields.peek (Yields.skip ((hmore _).bind ?_))
        rintro _ _ ⟨rfl, rfl⟩
        exact hrest

end Reading

/-! ## Scalars -/

/-- Neither a list nor an object. -/
def isScalar : Json → Bool
  | array _ | object _ => false
  | _ => true

/-- What a scalar may be read back as: itself, but a number that is no integer of 64 bits only as
some number. -/
def Resembles (v w : Json) : Prop :=
  match v with
  | float _ => w.isNumber
  | integer n => w.isNumber ∧
      (-0x8000000000000000 ≤ n → n ≤ 0xFFFFFFFFFFFFFFFF → w = integer n)
  | v => w = v

/-- Each of these resembles one of those. -/
def ResembleAll (vs ws : List Json) : Prop := ∀ w ∈ ws, ∃ v ∈ vs, v.Resembles w

theorem ResembleAll.cons {vs ws : List Json} (h : ResembleAll vs ws) {v w : Json}
    (hw : v.Resembles w) : ResembleAll (v :: vs) (w :: ws) := by
  intro u hu
  rcases List.mem_cons.1 hu with rfl | hu
  · exact ⟨v, List.mem_cons_self .., hw⟩
  · obtain ⟨u', hu', hres⟩ := h u hu
    exact ⟨u', List.mem_cons_of_mem _ hu', hres⟩

namespace Reading
variable {α : Type} {rest tail : List Char} {c : Char} {P : α → List Char → Prop}
  {Q : Json → List Char → Prop}

theorem yields_literal (word : List Char) :
    (literal word).Yields (word ++ tail) fun _ r => r = tail := by
  induction word with
  | nil => exact yields_pure rfl
  | cons c more ih =>
    refine Yields.peek ?_
    simp only [List.cons_append, List.head?_cons, if_true]
    exact Yields.skip ih

/-- Without fuel no value is read. -/
theorem yields_value_of_succ {depth : Nat} (h : ∀ fuel, (value (fuel + 1) depth).Yields rest Q)
    (fuel : Nat) : (value fuel depth).Yields rest Q := by
  cases fuel with
  | zero =>
    unfold value
    exact yields_fail _
  | succ fuel => exact h fuel

/-- A value that starts like a number is one. -/
theorem yields_value_number (fuel depth : Nat) (hc : isNumberChar c)
    (hnegative : c = '-' → (number true).Yields rest Q)
    (hdigit : isDigit c → (number false).Yields (c :: rest) Q) :
    (value fuel depth).Yields (c :: rest) Q := by
  have hother : ∀ d, isNumberChar d = false → c ≠ d := by
    rintro d hd rfl
    rw [hc] at hd
    cases hd
  refine yields_value_of_succ (fun fuel => ?_) fuel
  unfold value
  refine Yields.peekToken (isSpace_of_isNumberChar hc) ?_
  simp only [hother 'n' rfl, hother 't' rfl, hother 'f' rfl, hother '"' rfl, hother '[' rfl,
    hother '\x7b' rfl, if_false]
  split
  · exact Yields.skip (hnegative ‹_›)
  · split
    · exact hdigit ‹_›
    · exact yields_failNext _

theorem yields_value_numeral (fuel depth : Nat) {chars : List Char} (hchars : IsNumeral chars)
    (hne : chars ≠ []) (hends : Ends tail) :
    (value fuel depth).Yields (chars ++ tail) fun w r => w.isNumber ∧ Within tail r := by
  obtain ⟨c, more, rfl⟩ := List.exists_cons_of_ne_nil hne
  have hmore : IsNumeral more := fun d hd => hchars d (List.mem_cons_of_mem _ hd)
  exact yields_value_number fuel depth (hchars c (List.mem_cons_self ..))
    (fun _ => yields_number hends true ⟨more, hmore, rfl⟩)
    (fun _ => yields_number hends false ⟨c :: more, hchars, rfl⟩)

theorem yields_value_toDigits (hends : Ends tail) (fuel depth : Nat) {n : Nat}
    (hn : n ≤ maxSignificand) :
    (value fuel depth).Yields (Nat.toDigits 10 n ++ tail) fun w _ => w = integer n := by
  have hread := yields_number_toDigits hends false hn
  obtain ⟨c, more, hdigits⟩ := List.exists_cons_of_ne_nil (Nat.toDigits_ne_nil (n := n) (b := 10))
  have hc : isDigit c := isDigit_of_mem_toDigits (hdigits ▸ List.mem_cons_self ..)
  rw [hdigits] at hread ⊢
  refine yields_value_number fuel depth (isNumberChar_of_isDigit hc) ?_
    fun _ => hread.imp fun w _ hw => hw.1 rfl
  rintro rfl
  cases hc

theorem yields_value_negative (hends : Ends tail) (fuel depth : Nat) {n : Nat} (hpos : 0 < n)
    (hn : n ≤ 0x8000000000000000) :
    (value fuel depth).Yields ('-' :: (Nat.toDigits 10 n ++ tail)) fun w _ => w = integer (-n) := by
  have hread := yields_number_toDigits hends true (Nat.le_trans hn (by decide))
  exact yields_value_number fuel depth rfl (fun _ => hread.imp fun w _ hw => hw.2 rfl hpos hn)
    fun hdigit => by cases hdigit

theorem yields_value_integer (hends : Ends tail) (fuel depth : Nat) (n : Int) :
    (value fuel depth).Yields ((toString n).toList ++ tail) fun w r =>
      (integer n).Resembles w ∧ Within tail r := by
  have hnumber := yields_value_numeral fuel depth (isNumeral_integer n) (integer_ne_nil n) hends
  have hexact (hlow : -0x8000000000000000 ≤ n) (hhigh : n ≤ 0xFFFFFFFFFFFFFFFF) :
      (value fuel depth).Yields ((toString n).toList ++ tail) fun w _ => w = integer n := by
    cases n with
    | ofNat m =>
      rw [toList_ofNat]
      exact yields_value_toDigits hends fuel depth (Int.ofNat_le.1 hhigh)
    | negSucc m =>
      rw [toList_negSucc]
      exact yields_value_negative hends fuel depth (Nat.succ_pos m) (by omega)
  intro place w cursor hread
  obtain ⟨hw, hr⟩ := hnumber place w cursor hread
  exact ⟨⟨hw, fun hlow hhigh => hexact hlow hhigh place w cursor hread⟩, hr⟩

/-- A scalar is read back as one that resembles it. -/
theorem yields_value_scalar {v : Json} (hv : v.isScalar) (hends : Ends tail) (fuel depth : Nat) :
    (value fuel depth).Yields (v.compact.toList ++ tail) fun w r =>
      v.Resembles w ∧ Within tail r := by
  cases v with
  | integer n => exact yields_value_integer hends fuel depth n
  | float x => exact yields_value_numeral fuel depth (isNumeral_text x) (text_ne_nil x) hends
  | array items => cases hv
  | object fields => cases hv
  | null =>
    refine yields_value_of_succ (fun fuel => ?_) fuel
    unfold value
    refine Yields.peekToken (c := 'n') rfl (Yields.skip ?_)
    refine (yields_literal ['u', 'l', 'l']).bind ?_
    rintro _ _ rfl
    exact yields_pure ⟨rfl, .refl _⟩
  | bool b =>
    refine yields_value_of_succ (fun fuel => ?_) fuel
    unfold value
    cases b with
    | true =>
      refine Yields.peekToken (c := 't') rfl (Yields.skip ?_)
      refine (yields_literal ['r', 'u', 'e']).bind ?_
      rintro _ _ rfl
      exact yields_pure ⟨rfl, .refl _⟩
    | false =>
      refine Yields.peekToken (c := 'f') rfl (Yields.skip ?_)
      refine (yields_literal ['a', 'l', 's', 'e']).bind ?_
      rintro _ _ rfl
      exact yields_pure ⟨rfl, .refl _⟩
  | text s =>
    refine yields_value_of_succ (fun fuel => ?_) fuel
    unfold value
    rw [compact, quote, String.toList_ofList, List.append_assoc]
    refine Yields.peekToken (c := '"') rfl (Yields.skip ?_)
    refine (yields_stringTail fuel [] s.toList).bind ?_
    rintro _ _ ⟨rfl, rfl⟩
    exact yields_pure ⟨by simp [Resembles], .refl _⟩

/-! ## Lists -/

/-- What follows the first item of a list. -/
def more (vs : List Json) (tail : List Char) : List Char :=
  vs.flatMap (fun v => ',' :: v.compact.toList) ++ ']' :: tail

theorem more_cons (v : Json) (vs : List Json) (tail : List Char) :
    more (v :: vs) tail = ',' :: (v.compact.toList ++ more vs tail) := by
  simp [more]

theorem ends_more (vs : List Json) (tail : List Char) : Ends (more vs tail) := by
  intro c hc
  cases vs with
  | nil =>
    cases hc
    decide
  | cons v vs =>
    cases hc
    decide

/-- A scalar starts with what neither is a blank nor ends a list. -/
theorem compact_cons {v : Json} (hv : v.isScalar) :
    ∃ c chars, v.compact.toList = c :: chars ∧ isSpace c = false ∧ c ≠ ']' := by
  have hnumeral {chars : List Char} (hchars : IsNumeral chars) (hne : chars ≠ []) :
      ∃ c cs, chars = c :: cs ∧ isSpace c = false ∧ c ≠ ']' := by
    obtain ⟨c, cs, rfl⟩ := List.exists_cons_of_ne_nil hne
    have hc := hchars c (List.mem_cons_self ..)
    refine ⟨c, cs, rfl, isSpace_of_isNumberChar hc, ?_⟩
    rintro rfl
    cases hc
  cases v with
  | null => exact ⟨'n', _, rfl, rfl, by decide⟩
  | bool b =>
    cases b with
    | true => exact ⟨'t', _, rfl, rfl, by decide⟩
    | false => exact ⟨'f', _, rfl, rfl, by decide⟩
  | integer n => exact hnumeral (isNumeral_integer n) (integer_ne_nil n)
  | float x => exact hnumeral (isNumeral_text x) (text_ne_nil x)
  | text s =>
    rw [compact, quote, String.toList_ofList]
    exact ⟨'"', _, rfl, rfl, by decide⟩
  | array items => cases hv
  | object fields => cases hv

/-- A list does not go on with characters of a number. -/
theorem Within.yields_items {vs : List Json} {Q : List Json → List Char → Prop} {fuel depth : Nat}
    (hwithin : Within (more vs tail) rest) (h : (items fuel depth false).Yields (more vs tail) Q) :
    (items fuel depth false).Yields rest Q := by
  obtain ⟨chars, hchars, rfl⟩ := hwithin
  cases chars with
  | nil => exact h
  | cons c chars =>
    have hc := hchars c (List.mem_cons_self ..)
    have hother : ∀ d, isNumberChar d = false → c ≠ d := by
      rintro d hd rfl
      rw [hc] at hd
      cases hd
    cases fuel with
    | zero =>
      unfold items
      exact yields_fail _
    | succ fuel =>
      unfold items
      refine Yields.peekToken (isSpace_of_isNumberChar hc) ?_
      simp only [hother ']' rfl, hother ',' rfl, Bool.false_eq_true, if_false]
      exact yields_failNext _

/-- An item is read back, and then those that follow it. -/
theorem yields_item {v : Json} {vs : List Json} (hv : v.isScalar) {fuel depth : Nat}
    (h : (items fuel depth false).Yields (more vs tail) fun ws _ => ResembleAll vs ws) :
    (do return (← value fuel depth) :: (← items fuel depth false) : Reading (List Json)).Yields
      (v.compact.toList ++ more vs tail) fun ws _ => ResembleAll (v :: vs) ws := by
  refine (yields_value_scalar hv (ends_more vs tail) fuel depth).bind fun w r ⟨hw, hr⟩ => ?_
  exact (hr.yields_items h).bind fun ws _ hws => yields_pure (hws.cons hw)

/-- Without fuel no items are read. -/
theorem yields_items_of_succ {Q : List Json → List Char → Prop} {depth : Nat} {first : Bool}
    (h : ∀ fuel, (items (fuel + 1) depth first).Yields rest Q) (fuel : Nat) :
    (items fuel depth first).Yields rest Q := by
  cases fuel with
  | zero =>
    unfold items
    exact yields_fail _
  | succ fuel => exact h fuel

theorem yields_items_more {vs : List Json} (hvs : ∀ v ∈ vs, v.isScalar) (fuel depth : Nat) :
    (items fuel depth false).Yields (more vs tail) fun ws _ => ResembleAll vs ws := by
  induction vs generalizing fuel with
  | nil =>
    refine yields_items_of_succ (fun fuel => ?_) fuel
    unfold items
    exact Yields.peekToken (c := ']') rfl (Yields.skip (yields_pure nofun))
  | cons v vs ih =>
    refine yields_items_of_succ (fun fuel => ?_) fuel
    have hv := hvs v (List.mem_cons_self ..)
    have hitem := yields_item hv (ih (fun u hu => hvs u (List.mem_cons_of_mem _ hu)) fuel)
    obtain ⟨c, chars, hcompact, hspace, hbracket⟩ := compact_cons hv
    rw [hcompact] at hitem
    unfold items
    rw [more_cons, hcompact]
    refine Yields.peekToken (c := ',') rfl (Yields.skip (Yields.peekToken hspace ?_))
    simp only [hbracket, if_false]
    exact hitem

/-- The text of a list after its opening bracket. -/
theorem toList_items (vs : List Json) (tail : List Char) :
    (String.intercalate "," (compactItems vs)).toList ++ ']' :: tail =
      match vs with
      | [] => ']' :: tail
      | v :: vs => v.compact.toList ++ more vs tail := by
  induction vs with
  | nil => rfl
  | cons v vs ih =>
    cases vs with
    | nil => simp [compactItems, more]
    | cons u vs =>
      rw [compactItems, compactItems, String.intercalate_cons_cons]
      rw [compactItems] at ih
      simp only [String.toList_append, List.append_assoc, ih, more_cons]
      rfl

theorem yields_items {vs : List Json} (hvs : ∀ v ∈ vs, v.isScalar) (fuel depth : Nat) :
    (items fuel depth true).Yields
      ((String.intercalate "," (compactItems vs)).toList ++ ']' :: tail)
      fun ws _ => ResembleAll vs ws := by
  rw [toList_items]
  refine yields_items_of_succ (fun fuel => ?_) fuel
  unfold items
  cases vs with
  | nil => exact Yields.peekToken (c := ']') rfl (Yields.skip (yields_pure nofun))
  | cons v vs =>
    have hv := hvs v (List.mem_cons_self ..)
    have hmore : (items fuel depth false).Yields (more vs tail) fun ws _ => ResembleAll vs ws :=
      yields_items_more (fun u hu => hvs u (List.mem_cons_of_mem _ hu)) fuel depth
    have hitem := yields_item hv hmore
    obtain ⟨c, chars, hcompact, hspace, hbracket⟩ := compact_cons hv
    dsimp only
    rw [hcompact] at hitem ⊢
    refine Yields.peekToken hspace ?_
    simp only [hbracket, if_false, if_true]
    exact hitem

theorem yields_value_array {vs : List Json} (hvs : ∀ v ∈ vs, v.isScalar) (fuel depth : Nat) :
    (value fuel depth).Yields (array vs).compact.toList fun w _ =>
      ∃ ws, w = array ws ∧ ResembleAll vs ws := by
  have htext : (array vs).compact.toList =
      '[' :: ((String.intercalate "," (compactItems vs)).toList ++ ']' :: []) := by
    simp [compact]
  refine yields_value_of_succ (fun fuel => ?_) fuel
  unfold value
  rw [htext]
  refine Yields.peekToken (c := '[') rfl ?_
  simp only [show isDigit '[' = false from rfl, Char.reduceEq, Bool.false_eq_true, if_false,
    if_true]
  split
  · exact yields_failNext _
  · exact Yields.skip ((yields_items hvs fuel (depth - 1)).bind fun ws _ hws =>
      yields_pure ⟨ws, rfl, hws⟩)

theorem yields_document {Q : Json → List Char → Prop} (fuel : Nat)
    (h : (value fuel 128).Yields rest Q) :
    (document fuel).Yields rest fun w _ => ∃ r, Q w r := by
  refine h.bind fun w r hw => ?_
  have hpeek : peekToken.Yields r fun _ _ => True := fun _ _ _ _ => trivial
  refine hpeek.bind fun next _ _ => ?_
  cases next with
  | none => exact yields_pure ⟨r, hw⟩
  | some c => exact yields_failNext _

end Reading

/-! ## Stored values -/

theorem Reading.Yields.of_read {Q : Json → List Char → Prop} {source : String} {w : Json}
    (hread : read source = .ok w)
    (h : ∀ fuel, (Reading.value fuel 128).Yields source.toList Q) : ∃ r, Q w r := by
  rw [read] at hread
  cases hdocument : Reading.document (4 * source.length + 4) (Cursor.start source) with
  | error fault =>
    rw [hdocument] at hread
    cases hread
  | ok result =>
    rw [hdocument] at hread
    cases hread
    exact Reading.yields_document _ (h _) _ _ _ hdocument

/-- A scalar is read back as one that resembles it. -/
theorem resembles_of_read {v w : Json} (hv : v.isScalar) (hread : read v.compact = .ok w) :
    v.Resembles w := by
  obtain ⟨r, hw, -⟩ := Reading.Yields.of_read hread fun fuel => by
    have hends : Reading.Ends [] := nofun
    have hvalue := Reading.yields_value_scalar hv hends fuel 128
    rwa [List.append_nil] at hvalue
  exact hw

/-- A list of scalars is read back as one that resembles it. -/
theorem resembleAll_of_read {vs : List Json} {w : Json} (hvs : ∀ v ∈ vs, v.isScalar)
    (hread : read (array vs).compact = .ok w) : ∃ ws, w = array ws ∧ ResembleAll vs ws := by
  obtain ⟨r, hw⟩ := Reading.Yields.of_read hread fun fuel => Reading.yields_value_array hvs fuel 128
  exact hw

/-! ## Values that columns take -/

theorem isScalar_of_isScalarOf {t : DataType} {v : Json} (h : v.isScalarOf t) : v.isScalar := by
  cases v with
  | array items => cases h
  | object fields => cases h
  | _ => rfl

theorem checkType_of_isScalar {t : DataType} {v : Json} (hv : v.isScalar) :
    v.checkType t = .ok () ↔ v.isScalarOf t := by
  cases v with
  | array items => cases hv
  | object fields => cases hv
  | _ => simp [checkType]

theorem checkItems_eq_ok {t : DataType} {vs : List Json} :
    checkItems t vs = .ok () ↔ ∀ v ∈ vs, v.checkType t = .ok () := by
  induction vs with
  | nil => simp [checkItems]
  | cons v vs ih =>
    rw [checkItems, List.forall_mem_cons, ← ih]
    cases v.checkType t <;> simp

theorem itemText_eq_ok {v : Json} : (∃ s, v.itemText = .ok s) ↔ v.isScalar := by
  cases v <;> simp [itemText, scalarText?, isScalar]

theorem exists_mapM_itemText {items : List Json} :
    (∃ texts, items.mapM itemText = .ok texts) ↔ ∀ item ∈ items, item.isScalar := by
  induction items with
  | nil => exact ⟨fun _ => nofun, fun _ => ⟨[], rfl⟩⟩
  | cons item rest ih =>
    rw [List.forall_mem_cons, ← ih, ← itemText_eq_ok]
    simp only [mapM_cons_eq_ok]
    constructor
    · rintro ⟨_, s, texts, hs, htexts, -⟩
      exact ⟨⟨s, hs⟩, texts, htexts⟩
    · rintro ⟨⟨s, hs⟩, texts, htexts⟩
      exact ⟨s :: texts, s, texts, hs, htexts, rfl⟩

/-- What a column stores: a scalar of its type, or a list of such scalars, and never null. -/
theorem indexable_iff {t : DataType} {v : Json} : v.Indexable t ↔
    v.isNull = false ∧
      (v.isScalarOf t ∨ ∃ items, v = array items ∧ ∀ item ∈ items, item.isScalarOf t) := by
  refine and_congr_right fun hnull => ?_
  cases v with
  | array items =>
    simp only [checkType, checkItems_eq_ok, indexTexts, exists_mapM_itemText, array.injEq,
      exists_eq_left', isScalarOf, Bool.false_eq_true, false_or]
    constructor
    · rintro ⟨hcheck, hscalar⟩ item hitem
      exact (checkType_of_isScalar (hscalar item hitem)).1 (hcheck item hitem)
    · intro hitems
      have hscalar := fun item hitem => isScalar_of_isScalarOf (hitems item hitem)
      exact ⟨fun item hitem => (checkType_of_isScalar (hscalar item hitem)).2 (hitems item hitem),
        hscalar⟩
  | object fields => simp [checkType, isScalarOf]
  | null => cases hnull
  | bool b => simp [checkType_of_isScalar (v := bool b) rfl, indexTexts, scalarText?]
  | integer n => simp [checkType_of_isScalar (v := integer n) rfl, indexTexts, scalarText?]
  | float x => simp [checkType_of_isScalar (v := float x) rfl, indexTexts, scalarText?]
  | text s => simp [checkType_of_isScalar (v := text s) rfl, indexTexts, scalarText?]

theorem Resembles.isNull {v w : Json} (h : v.Resembles w) : w.isNull = v.isNull := by
  cases v with
  | integer n => cases w <;> first | rfl | cases h.1
  | float x => cases w <;> first | rfl | cases h
  | _ => rw [show w = _ from h]

theorem isScalarOf_float_of_isNumber {w : Json} (h : w.isNumber) : w.isScalarOf .float := by
  cases w with
  | integer n => rfl
  | float x => rfl
  | _ => cases h

theorem Resembles.isScalarOf {t : DataType} {v w : Json} (h : v.Resembles w)
    (hv : v.isScalarOf t) : w.isScalarOf t := by
  cases v with
  | integer n =>
    obtain ⟨hnumber, hexact⟩ := h
    have hinteger (hlow : -0x8000000000000000 ≤ n) (hhigh : n ≤ 0xFFFFFFFFFFFFFFFF) :
        w.isScalarOf t := by
      rw [hexact hlow hhigh]
      exact hv
    cases t with
    | float => exact isScalarOf_float_of_isNumber hnumber
    | int32 =>
      simp only [Json.isScalarOf, Bool.and_eq_true, decide_eq_true_eq] at hv
      exact hinteger (by omega) (by omega)
    | uint32 =>
      simp only [Json.isScalarOf, Bool.and_eq_true, decide_eq_true_eq] at hv
      exact hinteger (by omega) (by omega)
    | int64 =>
      simp only [Json.isScalarOf, Bool.and_eq_true, decide_eq_true_eq] at hv
      exact hinteger (by omega) (by omega)
    | _ => cases hv
  | float x =>
    obtain rfl : t = .float := by simpa [Json.isScalarOf] using hv
    exact isScalarOf_float_of_isNumber h
  | _ => rwa [show w = _ from h]

/-- A column takes what is read back of a value that it took. -/
theorem Indexable.of_read {t : DataType} {v w : Json} (h : v.Indexable t)
    (hread : read v.compact = .ok w) : w.Indexable t := by
  obtain ⟨hnull, hv⟩ := indexable_iff.1 h
  refine indexable_iff.2 ?_
  rcases hv with hv | ⟨items, rfl, hitems⟩
  · have hresembles := resembles_of_read (isScalar_of_isScalarOf hv) hread
    exact ⟨hresembles.isNull.trans hnull, .inl (hresembles.isScalarOf hv)⟩
  · obtain ⟨ws, rfl, hws⟩ := resembleAll_of_read
      (fun item hitem => isScalar_of_isScalarOf (hitems item hitem)) hread
    refine ⟨rfl, .inr ⟨ws, rfl, fun w hw => ?_⟩⟩
    obtain ⟨item, hitem, hresembles⟩ := hws w hw
    exact hresembles.isScalarOf (hitems item hitem)

end Concordance.Json
