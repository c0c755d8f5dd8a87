import Concordance.Proofs.HandleSearches
import Concordance.Proofs.Merging

/-! # Compiled queries

A compiled query makes a table of its own, as searches for its clauses one after another would, and
this table is then merged like the matches of any other query. The first clause seeds the table, so
its operator has no effect.
-/
namespace Concordance

/-- The clauses of a query with the operators that have an effect: the first one adds its matches to
nothing. -/
def Clause.seeding : List Clause → List Clause
  | [] => []
  | first :: rest => { first with operator := .or } :: rest

def Database.mergeOf (db : Database) (ix : Index) (clause : Clause) : Merge :=
  ⟨clause.operator, db.matchText ix clause.text clause.mode⟩

/-- The table of a compiled query is what merging its clauses makes of an empty one. -/
theorem Database.runClauses_eq_mergeAll (db : Database) (ix : Index) (flags : ResultFlags)
    (clauses : List Clause) : db.runClauses ix flags clauses =
      (ResultTable.empty ix.range flags).mergeAll
        ((Clause.seeding clauses).map (db.mergeOf ix)) := by
  cases clauses with
  | nil => rfl
  | cons first rest =>
    rw [runClauses, Clause.seeding, ResultTable.mergeAll, List.foldl_map]
    rfl

namespace ResultTable
variable {t : ResultTable}

theorem keyTable_mergeAll (t : ResultTable) (steps : List Merge) :
    (t.mergeAll steps).keyTable = t.keyTable := by
  induction steps generalizing t with
  | nil => rfl
  | cons step rest ih => exact (ih _).trans (keyTable_merge ..)

/-- A new table that takes in all of a table becomes that table, if both count sections. -/
theorem merge_records_or (hfits : t.Fits) (hflags : t.flags = .all) :
    (empty t.keyTable .all).merge t.records .or = t := by
  refine eq_of_records rfl ?_ fun key => ?_
  · rw [flags_merge, hflags]
    rfl
  · rw [getElem?_merge]
    cases hhit : t.records[key]? with
    | none => simp [mergeHit, empty]
    | some hit =>
      have hfit := hfits hhit
      simp [mergeHit, empty, accumulate, ResultFlags.all, saturate_of_le hfit.score,
        saturate_of_le hfit.subrecords]

end ResultTable

namespace IndexColumn
variable {c : IndexColumn} {s : Session} {ix : Index}

/-- Searches through the handle for the text of one clause after another, each in the clause's mode
and merged into the table by the clause's operator, and stops at an error. -/
def searchEach : List Clause → ResultTable × IndexColumn × Session →
    Except Error (ResultTable × IndexColumn × Session)
  | [], state => .ok state
  | clause :: rest, (set, c, s) =>
    match c.searchInto s (.text (Text.utf8 clause.text.toList)) set
        ⟨clause.operator, clause.mode⟩ with
    | (⟨.ok (), c, s⟩, set) => searchEach rest (set, c, s)
    | (⟨.error e, _, _⟩, _) => .error e

theorem Serves.searchEach (h : c.Serves s ix) (hwf : s.database.WellFormed)
    (hclean : s.pending = none) (clauses : List Clause) {set : ResultTable}
    (hkey : set.keyTable = ix.range) : ∃ c', c'.Serves s ix ∧
      IndexColumn.searchEach clauses (set, c, s) =
        .ok (set.mergeAll (clauses.map (s.database.mergeOf ix)), c', s) := by
  induction clauses generalizing c set with
  | nil => exact ⟨c, h, rfl⟩
  | cons clause rest ih =>
    obtain ⟨c', hserves, hsearch⟩ := h.searchInto_text hwf clause.text hkey
      ⟨clause.operator, clause.mode⟩
    rw [Session.settle_of_clean hclean] at hsearch
    simp only [IndexColumn.searchEach, hsearch]
    exact ih hserves ((ResultTable.keyTable_merge ..).trans hkey)

/-- In a clean context a search for a new table is a search into one that is empty. -/
theorem Serves.search (h : c.Serves s ix) (hwf : s.database.WellFormed)
    (hclean : s.pending = none) (query : Query) (options : SearchOptions) :
    c.search s query options =
      let (reply, result) := c.searchInto s query (.empty ix.range .all) options
      ⟨reply.result.map fun () => result, reply.column, reply.session⟩ := by
  obtain ⟨scratch, hparts, -⟩ := h.parts
  obtain ⟨t, ht⟩ := hwf.catalogued.range h.index
  have hcreate : s.createResult c.range .all = (.ok (.empty ix.range .all), s) := by
    simp [Session.createResult, Session.ask, Session.call, Database.createResult, h.range,
      Std.ExtTreeMap.contains_eq_isSome_getElem?, ht]
  simp only [IndexColumn.search, hparts, hcreate, Session.settle_of_clean hclean]

/-- In every state that a run reaches, with an empty slot, searching for the clauses of a compiled
query one after another succeeds, and the query merges the table that they leave into any table that
counts sections in the same way, whatever the mode. Taken in by a new table it is that table. The
operator of the first clause has no effect, and without clauses nothing matches. -/
theorem searchInto_compiled_eq (hreached : Database.Reached Database.OwnFiles s.database)
    (hc : c.Serves s ix) (hclean : s.pending = none) (query : CompiledQuery) (flags : ResultFlags) :
    ∃ set c', searchEach (Clause.seeding query.clauses) (.empty ix.range flags, c, s) =
        .ok (set, c', s) ∧
      (∀ result options, result.keyTable = ix.range → result.flags = flags →
        c.searchInto s (.compiled query) result options =
          (⟨.ok (), c, s⟩, result.merge set.records options.operator)) ∧
      (flags = .all → ∀ mode, c.search s (.compiled query) ⟨.or, mode⟩ = ⟨.ok set, c, s⟩) ∧
      (∀ first rest operator, query.clauses = first :: rest → ∀ result options,
        result.keyTable = ix.range →
          c.searchInto s (.compiled ⟨{ first with operator } :: rest⟩) result options =
            c.searchInto s (.compiled query) result options) ∧
      (query.clauses = [] → set.records = ∅) := by
  have hwf := hreached.wellFormed_of_ownFiles
  let set := s.database.runClauses ix flags query.clauses
  have hset : set = (ResultTable.empty ix.range flags).mergeAll
      ((Clause.seeding query.clauses).map (s.database.mergeOf ix)) :=
    s.database.runClauses_eq_mergeAll ix flags query.clauses
  have hquery {result : ResultTable} {options : SearchOptions} (hkey : result.keyTable = ix.range)
      (hflags : result.flags = flags) : c.searchInto s (.compiled query) result options =
        (⟨.ok (), c, s⟩, result.merge set.records options.operator) := by
    rw [hc.searchInto_compiled query hkey, Session.settle_of_clean hclean, hflags]
  have hempty : (ResultTable.empty ix.range flags).keyTable = ix.range := rfl
  obtain ⟨c', -, heach⟩ := hc.searchEach hwf hclean (Clause.seeding query.clauses) hempty
  refine ⟨set, c', hset ▸ heach, fun _ _ => hquery, ?_, ?_, ?_⟩
  · rintro rfl mode
    have hkeyTable : set.keyTable = ix.range := hset ▸ ResultTable.keyTable_mergeAll ..
    have hflags : set.flags = .all := hset ▸ ResultTable.flags_mergeAll ..
    have hfits : set.Fits := by
      rw [hset]
      exact ResultTable.Fits.mergeAll (ResultTable.fits_empty ix.range .all) _
    have hnew := ResultTable.merge_records_or hfits hflags
    rw [hkeyTable] at hnew
    rw [hc.search hwf hclean, hquery rfl rfl, hnew]
    rfl
  · intro first rest operator hclauses result options hkey
    rw [hc.searchInto_compiled _ hkey, hc.searchInto_compiled _ hkey, hclauses]
    rfl
  · intro hclauses
    simp only [set, hclauses]
    rfl

/-- A query whose first clause would take records out, merged into a table with a score that cannot
grow by all that the query finds. -/
theorem searchInto_compiled_eq_verses :
    let s := Session.start Database.verses
    let query : CompiledQuery :=
      ⟨[⟨.andNot, "to be", .exact⟩, ⟨.adjust, "b", .startsWith⟩, ⟨.and, "not", .exact⟩]⟩
    let known : List (RecordId × Hit) := [(1, ⟨0xFFFFFFFE, 3⟩), (7, ⟨1, 1⟩)]
    let result : ResultTable := ⟨257, .all, .ofList known⟩
    s.pending = none ∧
      ∃ set c', searchEach (Clause.seeding query.clauses) (.empty 257 .all, versesIndex, s) =
          .ok (set, c', s) ∧
        versesIndex.searchInto s (.compiled query) result ⟨.and, .endsWith⟩ =
          (⟨.ok (), versesIndex, s⟩, result.merge set.records .and) ∧
        (result.merge set.records .and).records.toList = [(1, ⟨0xFFFFFFFF, 6⟩)] ∧
        versesIndex.search s (.compiled query) ⟨.or, .exact⟩ = ⟨.ok set, versesIndex, s⟩ := by
  intro s query known result
  obtain ⟨hreached, ix, hserves, -, hrange, -⟩ := serves_versesIndex
  obtain ⟨set, c', heach, hinto, hnew, -⟩ := searchInto_compiled_eq hreached hserves rfl query .all
  rw [hrange] at heach hinto
  have hmerged := hinto result ⟨.and, .endsWith⟩ rfl rfl
  have hrecords : (versesIndex.searchInto s (.compiled query) result
      ⟨.and, .endsWith⟩).2.records.toList = [(1, ⟨0xFFFFFFFF, 6⟩)] := by decide +kernel
  rw [hmerged] at hrecords
  exact ⟨rfl, set, c', heach, hmerged, hrecords, hnew rfl .exact⟩

end IndexColumn
end Concordance
