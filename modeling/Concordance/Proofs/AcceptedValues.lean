import Concordance.Proofs.Reopening

/-! # Values that columns accept

A column accepts null, the scalars of its type and lists of these: the type check goes into lists of
lists, but no texts come out of them, and nothing is stored before both have passed.
-/
namespace Concordance
namespace Json

/-- The scalars of a type: its texts, its booleans, its integers within their bounds, any numbers. -/
inductive ScalarOf : DataType → Json → Prop where
  | text {t : DataType} (ht : t = .shortText ∨ t = .text ∨ t = .longText) (s : String) :
    ScalarOf t (.text s)
  | bool (b : Bool) : ScalarOf .bool (.bool b)
  | int32 {n : Int} (hlow : -0x80000000 ≤ n) (hhigh : n < 0x80000000) : ScalarOf .int32 (.integer n)
  | uint32 {n : Int} (hlow : 0 ≤ n) (hhigh : n < 0x100000000) : ScalarOf .uint32 (.integer n)
  | int64 {n : Int} (hlow : -0x8000000000000000 ≤ n) (hhigh : n < 0x8000000000000000) :
    ScalarOf .int64 (.integer n)
  | integer (n : Int) : ScalarOf .float (.integer n)
  | float (x : Binary64) : ScalarOf .float (.float x)

/-- What a column of a type accepts: null, a scalar of the type, or a list of these. -/
inductive Acceptable (t : DataType) : Json → Prop where
  | null : Acceptable t .null
  | scalar {v : Json} (hv : ScalarOf t v) : Acceptable t v
  | list {items : List Json} (hitems : ∀ item ∈ items, item = .null ∨ ScalarOf t item) :
    Acceptable t (.array items)

variable {t : DataType} {v : Json}

theorem isScalarOf_iff : v.isScalarOf t ↔ v = .null ∨ ScalarOf t v := by
  constructor
  · intro h
    cases v with
    | null => exact .inl rfl
    | text s => exact .inr (.text (by cases t <;> simp_all [isScalarOf, DataType.isText,
        DataType.fixedWidth]) s)
    | bool b =>
      obtain rfl : t = .bool := by simpa [isScalarOf] using h
      exact .inr (.bool b)
    | integer n =>
      cases t <;> simp only [isScalarOf, Bool.and_eq_true, decide_eq_true_eq, reduceCtorEq] at h
      · exact .inr (.int32 (by omega) (by omega))
      · exact .inr (.uint32 (by omega) (by omega))
      · exact .inr (.int64 (by omega) (by omega))
      · exact .inr (.integer n)
    | float x =>
      obtain rfl : t = .float := by simpa [isScalarOf] using h
      exact .inr (.float x)
    | array items => cases h
    | object fields => cases h
  · rintro (rfl | h)
    · rfl
    · cases h with
      | text ht s => rcases ht with rfl | rfl | rfl <;> rfl
      | int32 hlow hhigh => simp [isScalarOf]; omega
      | uint32 hlow hhigh => simp [isScalarOf]; omega
      | int64 hlow hhigh => simp [isScalarOf]; omega
      | _ => rfl

theorem forall_isScalarOf_iff {items : List Json} : (∀ item ∈ items, item.isScalarOf t) ↔
    ∀ item ∈ items, item = .null ∨ ScalarOf t item :=
  forall₂_congr fun _ _ => isScalarOf_iff

/-- Type check and text conversion pass together on exactly these values. -/
theorem acceptable_iff : v.Acceptable t ↔
    v.checkType t = .ok () ∧ ∃ texts, v.indexTexts = .ok texts := by
  cases hnull : v.isNull with
  | true =>
    obtain rfl : v = .null := by cases v <;> first | rfl | cases hnull
    exact ⟨fun _ => ⟨by simp [checkType, isScalarOf], [], rfl⟩, fun _ => .null⟩
  | false =>
    have hindexable : v.Indexable t ↔ v.checkType t = .ok () ∧ ∃ texts, v.indexTexts = .ok texts :=
      and_iff_right hnull
    rw [← hindexable, indexable_iff, and_iff_right hnull]
    constructor
    · intro h
      cases h with
      | null => cases hnull
      | scalar hv => exact .inl (isScalarOf_iff.2 (.inr hv))
      | list hitems => exact .inr ⟨_, rfl, forall_isScalarOf_iff.2 hitems⟩
    · rintro (hv | ⟨items, rfl, hitems⟩)
      · rcases isScalarOf_iff.1 hv with rfl | hv
        · exact .null
        · exact .scalar hv
      · exact .list (forall_isScalarOf_iff.1 hitems)

end Json

namespace Database
variable {db : Database}

theorem Catalogued.exists_checkValue (h : db.Catalogued) {column record : Nat} {v : Json} :
    (∃ found, db.checkValue column record v = .ok found) ↔ ∃ table valueType,
      db.kind? column = some (.column table valueType) ∧ db.isLive table record ∧
        v.Acceptable valueType := by
  constructor
  · rintro ⟨found, hfound⟩
    obtain ⟨table, valueType, hkind, hlive, htype, htexts, -⟩ := checkValue_eq_ok hfound
    exact ⟨table, valueType, hkind, hlive, Json.acceptable_iff.2 ⟨htype, _, htexts⟩⟩
  · rintro ⟨table, valueType, hkind, hlive, hv⟩
    obtain ⟨htype, texts, htexts⟩ := Json.acceptable_iff.1 hv
    obtain ⟨⟨values, hvalues⟩, -⟩ := h.columnData hkind
    refine ⟨(texts, values), bind_eq_ok.2 ⟨_, columnType_of_kind hkind, ?_⟩⟩
    simp only [hlive, htype, htexts, hvalues]
    rfl

theorem WellFormed.value?_setValue (h : db.WellFormed) {column record : Nat} {v : Json}
    (hok : (db.setValue column record v).1 = .ok ()) (c r : Nat) :
    (db.setValue column record v).2.value? c r =
      if c = column ∧ r = record then if v.isNull then none else some v else db.value? c r := by
  rcases h.setValue_cases (Prod.eta (db.setValue column record v)).symm with ⟨e, he, -⟩ |
    ⟨-, table, valueType, values, texts, hkind, hlive, htype, htexts, hvalues, hdb⟩
  · cases hok.symm.trans he
  · obtain ⟨hwf, hlives⟩ := h.live_withColumn hvalues hkind
      (h.indexable_keep hvalues hkind hlive htype htexts) hlive
    obtain ⟨-, hfed⟩ := hwf.feed hlives (db.textsOf column record) texts
    rw [hdb, value?, hfed.columns, ← value?, value?_withColumn, FiniteMap.getElem?_keep]
    by_cases hc : c = column
    · have hvalue : db.value? column r = values[r]? := by simp [value?, hvalues]
      simp only [hc, if_true, true_and, hvalue]
    · simp only [hc, if_false, false_and]

/-- `setValue` accepts exactly the acceptable values for live records of columns. What it accepts is
then the value of the record, null being none, and no other value changes; what it refuses changes
nothing. -/
theorem setValue_spec (hreached : Reached OwnFiles db) (column record : Nat) (v : Json) :
    ((db.setValue column record v).1 = .ok () ↔ ∃ table valueType,
        db.kind? column = some (.column table valueType) ∧ db.isLive table record ∧
          v.Acceptable valueType) ∧
      ((db.setValue column record v).1 = .ok () → ∀ c r,
        (db.setValue column record v).2.value? c r =
          if c = column ∧ r = record then if v.isNull then none else some v
          else db.value? c r) ∧
      ((db.setValue column record v).1 ≠ .ok () → (db.setValue column record v).2 = db) := by
  have h := hreached.wellFormed_of_ownFiles
  refine ⟨?_, h.value?_setValue, fun herror => ?_⟩
  · rw [← h.catalogued.exists_checkValue]
    unfold setValue
    cases hcheck : db.checkValue column record v with
    | error e => simp
    | ok found =>
      obtain ⟨table, valueType, hkind, -, -, -, hvalues⟩ := checkValue_eq_ok hcheck
      simp [h.textsBefore hvalues hkind]
  · rcases h.setValue_cases (Prod.eta (db.setValue column record v)).symm with ⟨_, -, hsame⟩ |
      ⟨hok, -⟩
    · exact hsame
    · exact absurd hok herror

/-- The body of the note takes a list with a gap in it for a text, and null for no text. It takes no
list in a list and no number. -/
theorem setValue_spec_notes : Reached OwnFiles notes ∧ notes.textsOf 259 1 = ["to be"] ∧
    (notes.setValue 259 1 (.array [.text "or", .null])).2.value? 259 1 =
      some (.array [.text "or", .null]) ∧
    (notes.setValue 259 1 .null).2.value? 259 1 = none ∧
    (notes.setValue 259 1 (.array [.array []])).2 = notes ∧
    (notes.setValue 259 1 (.integer 7)).2 = notes := by
  have hspec := setValue_spec reached_ownFiles_notes 259 1
  have hkind : notes.kind? 259 = some (.column 257 .text) := by decide +kernel
  have haccepted : ∀ {v : Json}, v.Acceptable .text →
      (notes.setValue 259 1 v).2.value? 259 1 = if v.isNull then none else some v := by
    intro v hv
    rw [(hspec v).2.1 ((hspec v).1.2 ⟨257, .text, hkind, by decide +kernel, hv⟩)]
    exact if_pos ⟨rfl, rfl⟩
  have hrefused : ∀ {v : Json}, ¬ v.Acceptable .text → (notes.setValue 259 1 v).2 = notes := by
    intro v hv
    refine (hspec v).2.2 fun hok => hv ?_
    obtain ⟨table, valueType, hkind', -, hv⟩ := (hspec v).1.1 hok
    cases hkind.symm.trans hkind'
    exact hv
  refine ⟨reached_ownFiles_notes, by decide +kernel, haccepted (.list ?_), haccepted .null,
    hrefused ?_, hrefused ?_⟩
  · intro item hitem
    obtain rfl | rfl : item = .text "or" ∨ item = .null := by simpa using hitem
    · exact .inr (.text (.inr (.inl rfl)) "or")
    · exact .inl rfl
  · rintro (_ | hv | hitems)
    · cases hv
    · rcases hitems _ (List.mem_singleton_self _) with h | h <;> cases h
  · rintro (_ | hv | hitems)
    cases hv

end Database
end Concordance
