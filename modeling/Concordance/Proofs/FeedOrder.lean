import Concordance.Proofs.Deleting
import Concordance.Proofs.Orders
import Concordance.Proofs.Renaming

/-! # The order in which indexes are fed

A change of one text brings every index of a lexicon the same terms, so it makes no difference in
which order the indexes are told of it: not even the ids of new terms depend on it.
-/
namespace Concordance

/-- Parts that commute with each other make up the same list in any order. -/
theorem flatMap_eq_of_perm {α β : Type} {f : α → List β} (hf : ∀ a b, f a ++ f b = f b ++ f a)
    {l l' : List α} (h : l.Perm l') : l.flatMap f = l'.flatMap f := by
  induction h with
  | nil => rfl
  | cons a _ ih => rw [List.flatMap_cons, List.flatMap_cons, ih]
  | swap a b rest =>
    rw [List.flatMap_cons, List.flatMap_cons, List.flatMap_cons, List.flatMap_cons,
      ← List.append_assoc, ← List.append_assoc, hf]
  | trans _ _ ih ih' => exact ih.trans ih'

namespace Database
variable {db : Database}

/-- The indexes of one lexicon take in the same terms of one text. -/
theorem Catalogued.terms_comm (h : db.Catalogued) (lexicon : Nat) (texts : List String)
    (i j : Nat) :
    let terms (i : Nat) : List String := db.indexes[i]?.elim [] fun ix =>
      if ix.lexicon = lexicon then ix.tokenizer.terms texts else []
    terms i ++ terms j = terms j ++ terms i := by
  intro terms
  by_cases hterms : terms i = [] ∨ terms j = []
  · rcases hterms with hnil | hnil <;> simp [hnil]
  · have hsome : ∀ {k : Nat}, terms k ≠ [] → ∃ kx, db.indexes[k]? = some kx ∧
        kx.lexicon = lexicon ∧ terms k = kx.tokenizer.terms texts := by
      intro k hne
      cases hkx : db.indexes[k]? with
      | none => exact absurd (by simp [terms, hkx]) hne
      | some kx =>
        by_cases hlexicon : kx.lexicon = lexicon
        · exact ⟨kx, rfl, hlexicon, by simp [terms, hkx, hlexicon]⟩
        · exact absurd (by simp [terms, hkx, hlexicon]) hne
    rw [not_or] at hterms
    obtain ⟨ix, hix, hlexicon, hi⟩ := hsome hterms.1
    obtain ⟨jx, hjx, hlexicon', hj⟩ := hsome hterms.2
    have htokenizer := h.lexicon hix
    rw [hlexicon, ← hlexicon', h.lexicon hjx] at htokenizer
    rw [hi, hj, Except.ok.inj htokenizer]

end Database

namespace HashOrder
open Database
variable (e : HashOrder) {db db' : Database} {table column record source : Nat}

theorem fedBy_perm (db : Database) (source : ObjectId) :
    (e.fedBy db source).Perm (db.fedBy source) := (e.indexes_perm db.indexes).flatMap_right _

theorem effectAt_fedBy (source record : Nat) (old new : List String) (i : Nat) (t : String)
    (r s q n : Nat) :
    db.effectAt ((e.fedBy db source).map fun place => (place.1, ⟨record, place.2, old, new⟩))
        i t r s q n =
      db.effectAt ((db.fedBy source).map fun place => (place.1, ⟨record, place.2, old, new⟩))
        i t r s q n := by
  simp only [effectAt]
  cases hix : db.indexes[i]? with
  | none => rfl
  | some ix =>
    dsimp only
    rw [List.filter_map, List.filter_map]
    congr 3
    exact (filter_places hix (e.indexes_perm db.indexes) source).trans (filter_fedBy hix source).symm

/-- Feeding the change of one text leads to the same database in any order of the indexes. -/
theorem feed_eq (h : db.WellFormed)
    (hlive : ∀ range, db.checkSource range source = .ok () → db.isLive range record)
    (old new : List String) :
    e.feed db source record old new = db.feed (db.fedBy source) record old new := by
  have hreceives := h.receives_fedBy hlive old new
  rw [feed, feed_eq_carry, feed_eq_carry]
  have hterms : ∀ lexicon : Nat,
      db.termsFor lexicon ((e.fedBy db source).map fun place =>
          (place.1, ⟨record, place.2, old, new⟩)) =
        db.termsFor lexicon ((db.fedBy source).map fun place =>
          (place.1, ⟨record, place.2, old, new⟩)) := by
    intro lexicon
    unfold termsFor
    rw [List.flatMap_map, List.flatMap_map]
    exact flatMap_eq_of_perm
      (fun a b => h.catalogued.terms_comm lexicon new a.1 b.1) (e.fedBy_perm db source)
  refine h.carry_congr ⟨hreceives, fun change hc => ?_, fun lexicon => ?_, fun i t r s q n => ?_⟩
    hterms
  · exact hreceives change (((e.fedBy_perm db source).map _).mem_iff.1 hc)
  · rw [hterms]
  · exact e.effectAt_fedBy source record old new i t r s q n

theorem addRecordWithKey_eq (h : db.WellFormed) (table : ObjectId) (key : String) :
    e.addRecordWithKey db table key = db.addRecordWithKey table key := by
  refine congrArg db.attempt ?_
  cases hlimit : db.keyLimit table with
  | error err => rfl
  | ok limit =>
    refine bind_congr (x := checkKey limit key) fun _ => ?_
    cases ht : db.table table with
    | error err => rfl
    | ok t =>
      have ht := table_eq_ok.1 ht
      obtain ⟨kind, keyType, tokenizer, hkind, -⟩ := keyLimit_eq_ok hlimit
      have hsound := h.filled.sound ht
      have hwf := h.withTable ht (hsound.grows_addKey key)
        (hsound.addKey (h.catalogued.hasKey_of_keyType ht hkind) key)
      let added := db.withTable table (t.addKey key).2
      have hfeed : (t.find? key).isNone → e.feed added table (t.addKey key).1 [] [key] =
          added.feed (added.fedBy table) (t.addKey key).1 [] [key] := by
        intro hnew
        have hfind := Option.isNone_iff_eq_none.1 hnew
        have hid : (t.addKey key).1 = t.next := by rw [Table.addKey_of_new hfind]
        rw [hid]
        exact e.feed_eq hwf (fun _ => h.isLive_newKey ht hfind) [] [key]
      exact congrArg (fun fed => Except.ok ((t.addKey key).1, fed)) (ite_congr rfl hfeed fun _ => rfl)

theorem setValue_eq (h : db.WellFormed) (column : ObjectId) (record : RecordId) (v : Json) :
    e.setValue db column record v = db.setValue column record v := by
  unfold setValue Database.setValue
  cases hcheck : db.checkValue column record v with
  | error err => rfl
  | ok found =>
    obtain ⟨texts, values⟩ := found
    obtain ⟨table, valueType, hkind, hlive, htype, htexts, hvalues⟩ := checkValue_eq_ok hcheck
    obtain ⟨hwf, hlive'⟩ := h.live_withColumn hvalues hkind
      (h.indexable_keep hvalues hkind hlive htype htexts) hlive
    simp only [h.textsBefore hvalues hkind]
    exact congrArg (Prod.mk _) (e.feed_eq hwf hlive' _ texts)

theorem retractValues_eq (h : db.WellFormed) {columns : List ObjectId}
    (hcolumns : ∀ c ∈ columns, ∃ valueType, db.kind? c = some (.column table valueType))
    (hr : db.isLive table record) :
    e.retractValues db record columns = db.retractValues record columns := by
  induction columns generalizing db with
  | nil => rfl
  | cons column rest ih =>
    have hrest := fun c hc => hcolumns c (List.mem_cons_of_mem column hc)
    unfold retractValues Database.retractValues
    cases hv : db.value? column record with
    | none => exact ih h hrest hr
    | some v =>
      obtain ⟨valueType, hkind⟩ := hcolumns column (List.mem_cons_self ..)
      obtain ⟨values, hvalues, hget⟩ := value?_eq_some.1 hv
      have htexts := (h.value_of_kind hvalues hkind hget).2.indexTexts
      obtain ⟨hwf, hcleared, -⟩ := h.retractValue hkind hr hv
      simp only [← hcleared.same.kind?] at hrest
      obtain ⟨herased, hlive⟩ := h.live_withColumn hvalues hkind
        (h.indexable_erase record hvalues hkind) hr
      rw [← eraseValue_of_get hvalues] at herased hlive
      simp only [htexts, e.feed_eq herased hlive]
      exact ih hwf hrest (hcleared.isLive hr)

theorem retractKey_eq (h : db.WellFormed) {t : Table} (ht : db.tables[table]? = some t)
    (hr : t.isLive record) : e.retractKey db table record = db.retractKey table record := by
  unfold retractKey Database.retractKey
  cases db.recordKey? table record with
  | none => rfl
  | some key => exact e.feed_eq h (fun _ => h.isLive_of_source ht hr) [key] []

theorem deleteRecord_eq (h : db.WellFormed) (table : ObjectId) (record : RecordId) :
    e.deleteRecord db table record = db.deleteRecord table record := by
  unfold deleteRecord Database.deleteRecord
  cases ht : db.table table with
  | error err => rfl
  | ok t =>
    have ht := table_eq_ok.1 ht
    dsimp only
    cases hr : t.isLive record with
    | false => rfl
    | true =>
      have hlive : db.isLive table record := by rw [isLive_of_table ht, hr]
      have hcolumns : ∀ c ∈ db.columnsOf table,
          ∃ valueType, db.kind? c = some (.column table valueType) := fun c hc => mem_columnsOf.1 hc
      obtain ⟨db₁, hvalues, hwf₁, hcleared, -⟩ := h.retractValues hcolumns hlive
      obtain ⟨t₁, ht₁, -⟩ := hcleared.same.symm.table ht
      have hr₁ : t₁.isLive record := by
        rw [← isLive_of_table ht₁]
        exact hcleared.isLive hlive
      simp only [e.retractValues_eq h hcolumns hlive, hvalues, e.retractKey_eq hwf₁ ht₁ hr₁]

end HashOrder
end Concordance
