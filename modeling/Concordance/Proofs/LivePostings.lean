import Concordance.Database.Search
import Concordance.Proofs.Phrases
import Concordance.Proofs.Reopening

/-! # Live postings

Postings name terms and records that are there, wherever the postings came from and whatever was
deleted since. A search finds nothing but records of postings, and merging finds nothing new, so
all that a search can match is live.
-/
namespace Concordance
namespace Postings
variable {p : Postings} {record : Nat}

/-- A record of a neat list has an occurrence. -/
theorem Neat.exists_position (h : p.Neat) {term : Nat}
    (hrecord : record ∈ (p.list term).records) :
    ∃ sec position, position ∈ p.positions term record sec := by
  obtain ⟨sec, hne⟩ := (h.list term).mem_records_iff.1 hrecord
  exact ⟨sec, List.exists_mem_of_ne_nil _ hne⟩

/-- What a term finds in a record: its occurrences, and the sections that have them. -/
theorem getElem?_matchTerm (p : Postings) (term record : Nat) :
    (p.matchTerm term)[record]? = if record ∈ (p.list term).records then
      some ⟨(p.list term).frequency record, ((p.list term).sections record).length⟩ else none := by
  rw [matchTerm, FiniteMap.getElem?_foldl_insert_image, Std.ExtTreeMap.getElem?_empty]
  simp only [Std.ExtTreeSet.mem_toList]

theorem mem_matchTerm {term : Nat} : record ∈ p.matchTerm term ↔ record ∈ (p.list term).records := by
  rw [Std.ExtTreeMap.mem_iff_isSome_getElem?, getElem?_matchTerm]
  split <;> simp [*]

/-- Some term occurs in the record. -/
def Mentions (p : Postings) (record : Nat) : Prop := ∃ term, record ∈ (p.list term).records

theorem mentions_of_matchTerm {term : Nat} (h : record ∈ p.matchTerm term) : p.Mentions record :=
  ⟨term, mem_matchTerm.1 h⟩

theorem mentions_of_matchSelections {phrase : Bool} {query : List Selection}
    (h : record ∈ p.matchSelections phrase query) : p.Mentions record := by
  rw [Std.ExtTreeMap.mem_iff_isSome_getElem?, getElem?_matchSelections] at h
  split at h
  · rename_i hfound
    cases query with
    | nil => cases hfound.1
    | cons first rest =>
      obtain ⟨term, -, hrecord⟩ :=
        (mem_candidates (List.cons_ne_nil _ _)).1 hfound.1 first (List.mem_cons_self ..)
      exact ⟨term, hrecord⟩
  · cases h

end Postings

theorem Index.mentions_of_matchText {ix : Index} {lexicon : Table} {text : String}
    {mode : SearchMode} {record : Nat} (h : record ∈ ix.matchText lexicon text mode) :
    ix.postings.Mentions record := by
  simp only [Index.matchText] at h
  split at h
  · simp at h
  · exact Postings.mentions_of_matchSelections h

namespace ResultTable
variable {t : ResultTable} {found : Matches} {record : Nat}

/-- Adding up hits enters no records but theirs. -/
theorem mem_of_mem_foldl_accumulate {flags : ResultFlags} {hits : List (RecordId × Hit)}
    {start : ById Hit} (h : record ∈ hits.foldl (fun records e =>
      records.insert e.1 (accumulate flags (records[e.1]?.getD ⟨0, 0⟩) e.2)) start) :
    record ∈ start ∨ record ∈ hits.map (·.1) := by
  induction hits generalizing start with
  | nil => exact .inl h
  | cons e rest ih =>
    rcases ih h with hstart | hrest
    · rcases Std.ExtTreeMap.mem_insert.1 hstart with heq | hstart
      · obtain rfl := Std.LawfulEqCmp.eq_of_compare heq
        exact .inr (List.mem_cons_self ..)
      · exact .inl hstart
    · exact .inr (List.mem_cons_of_mem _ hrest)

/-- Merging brings no records but those of the table and of the matches. -/
theorem mem_of_mem_merge {operator : SelectOperator}
    (h : record ∈ (t.merge found operator).records) : record ∈ t.records ∨ record ∈ found := by
  cases operator with
  | or =>
    simp only [merge, Std.ExtTreeMap.foldl_eq_foldl_toList] at h
    refine (mem_of_mem_foldl_accumulate h).imp_right fun hnew => ?_
    obtain ⟨e, he, rfl⟩ := List.mem_map.1 hnew
    have hget := Std.ExtTreeMap.mem_toList_iff_getElem?_eq_some.1 he
    exact Std.ExtTreeMap.mem_iff_isSome_getElem?.2 (by rw [hget]; rfl)
  | and => exact .inl (Std.ExtTreeMap.mem_of_mem_filterMap h)
  | andNot => exact .inl (Std.ExtTreeMap.mem_of_mem_filter h)
  | adjust => exact .inl (Std.ExtTreeMap.mem_of_mem_map h)

end ResultTable

namespace Database
variable {db : Database} {ix : Index} {record : Nat}

theorem mentions_of_matchText {text : String} {mode : SearchMode}
    (h : record ∈ db.matchText ix text mode) : ix.postings.Mentions record := by
  unfold matchText at h
  split at h
  · exact Index.mentions_of_matchText h
  · simp at h

theorem mentions_of_matchBuffer {b : Buffer} {mode : SearchMode} {found : Matches}
    (hfound : db.matchBuffer ix b mode = .ok found) (h : record ∈ found) :
    ix.postings.Mentions record := by
  unfold matchBuffer at hfound
  split at hfound
  · split at hfound
    · cases hfound
      exact Postings.mentions_of_matchTerm h
    · cases hfound
  · split at hfound
    · split at hfound
      · cases hfound
        exact mentions_of_matchText h
      · cases hfound
    · cases hfound

/-- All records of the table have occurrences in the index. -/
def Founded (ix : Index) (set : ResultTable) : Prop :=
  ∀ record ∈ set.records, ix.postings.Mentions record

theorem founded_empty (ix : Index) (flags : ResultFlags) : Founded ix (.empty ix.range flags) :=
  fun _ hrecord => absurd hrecord Std.ExtTreeMap.not_mem_empty

theorem Founded.mergeClause {set : ResultTable} (h : Founded ix set) (clause : Clause)
    (operator : SelectOperator) : Founded ix (db.mergeClause ix set clause operator) :=
  fun record hrecord => (ResultTable.mem_of_mem_merge hrecord).elim (h record) mentions_of_matchText

theorem Founded.foldl_mergeClause (clauses : List Clause) {set : ResultTable}
    (h : Founded ix set) : Founded ix (clauses.foldl (fun set clause =>
      db.mergeClause ix set clause clause.operator) set) := by
  induction clauses generalizing set with
  | nil => exact h
  | cons clause rest ih => exact ih (h.mergeClause clause clause.operator)

theorem founded_runClauses (flags : ResultFlags) (clauses : List Clause) :
    Founded ix (db.runClauses ix flags clauses) := by
  cases clauses with
  | nil => exact founded_empty ix flags
  | cons first rest =>
    exact .foldl_mergeClause rest ((founded_empty ix flags).mergeClause first .or)

/-- The matches that a search computes for a query, before it merges them. -/
def matchesOf (db : Database) (ix : Index) (flags : ResultFlags) (mode : SearchMode) :
    EngineQuery → Except Error Matches
  | .buffer b => db.matchBuffer ix b mode
  | .compiled q => .ok (db.runClauses ix flags q.clauses).records

theorem search_eq_ok {index : Nat} {query : EngineQuery} {result merged : ResultTable}
    {operator : SelectOperator} {mode : SearchMode} :
    db.search index query result operator mode = .ok merged ↔
      ∃ ix found, db.indexes[index]? = some ix ∧ result.keyTable = ix.range ∧
        db.matchesOf ix result.flags mode query = .ok found ∧
          merged = result.merge found operator := by
  simp only [search, bind_eq_ok, index_eq_ok]
  refine exists_congr fun ix => ?_
  by_cases hkey : result.keyTable = ix.range
  · cases query <;> simp [hkey, matchesOf, bind_eq_ok, pure, Except.pure, @eq_comm _ merged]
  · simp [hkey, bind, Except.bind]

theorem mentions_of_matchesOf {flags : ResultFlags} {mode : SearchMode} {query : EngineQuery}
    {found : Matches} (hfound : db.matchesOf ix flags mode query = .ok found)
    (h : record ∈ found) : ix.postings.Mentions record := by
  cases query with
  | buffer b => exact mentions_of_matchBuffer hfound h
  | compiled q =>
    cases hfound
    exact founded_runClauses flags q.clauses record h

/-! ## What is live -/

/-- Every posting is one of a live record, for a term that is live and has a key. -/
def PostsLive (db : Database) (ix : Index) : Prop :=
  ∀ {term record sec position : Nat}, position ∈ ix.postings.positions term record sec →
    db.isLive ix.range record ∧ db.isLive ix.lexicon term ∧
      ∃ key, db.recordKey? ix.lexicon term = some key

theorem WellFormed.postsLive (h : db.WellFormed) {i : Nat} (hix : db.indexes[i]? = some ix) :
    db.PostsLive ix := by
  intro term record sec position hposition
  obtain ⟨lexicon, hlexicon, -⟩ := h.catalogued.lexicon_table hix
  obtain ⟨key, hkey⟩ := (h.posted.matched hix hlexicon).key hposition
  refine ⟨(h.posted.live hix hposition).1, ?_, key, by simp [recordKey?, hlexicon, hkey]⟩
  rw [isLive_of_table hlexicon]
  exact (h.filled.sound hlexicon).live_of_key hkey

theorem WellFormed.live_of_mentions (h : db.WellFormed) {i : Nat}
    (hix : db.indexes[i]? = some ix) (hrecord : ix.postings.Mentions record) :
    db.isLive ix.range record := by
  obtain ⟨term, hterm⟩ := hrecord
  obtain ⟨sec, position, hposition⟩ := (h.posted.neat hix).exists_position hterm
  exact (h.posted.live hix hposition).1

/-- Whatever a run did to tables, texts and sources, postings are of what is live, and a search
matches live records only, so that it brings no others to a table. -/
theorem live_of_search (h : Reached OwnFiles db) {i : Nat} (hix : db.indexes[i]? = some ix) :
    db.PostsLive ix ∧ ∀ {query : EngineQuery} {result merged : ResultTable}
      {operator : SelectOperator} {mode : SearchMode},
        db.search i query result operator mode = .ok merged →
          (∃ found, db.matchesOf ix result.flags mode query = .ok found ∧
            merged = result.merge found operator ∧ ∀ record ∈ found, db.isLive ix.range record) ∧
          ∀ record ∈ merged.records, record ∈ result.records ∨ db.isLive ix.range record := by
  have hwf := h.wellFormed_of_ownFiles
  refine ⟨hwf.postsLive hix, fun hsearch => ?_⟩
  obtain ⟨ix', found, hix', -, hfound, rfl⟩ := search_eq_ok.1 hsearch
  obtain rfl := Option.some.inj (hix.symm.trans hix')
  have hlive : ∀ record ∈ found, db.isLive ix.range record := fun record hrecord =>
    hwf.live_of_mentions hix (mentions_of_matchesOf hfound hrecord)
  exact ⟨⟨found, hfound, rfl, hlive⟩, fun record hrecord =>
    (ResultTable.mem_of_mem_merge hrecord).imp_right (hlive record)⟩

/-- A second note with words that came from no column, after the first note and one of the words
were deleted. -/
def reworded : Database :=
  (((notes.after (.addRecord 257)).after
    (.indexUpdate 260 2 3 none (some ((Buffer.empty nilId false).append "not to be")))).after
    (.deleteRecord 257 1)).after
    (.deleteRecord 256 1)

theorem live_of_search_reworded : ∃ ix, reworded.indexes[260]? = some ix ∧
    reworded.PostsLive ix ∧ ix.postings.positions 3 2 1 = [0x200000] ∧
      ∃ merged, reworded.search 260 (.buffer ((Buffer.empty nilId false).append "be"))
        (.empty 257 .all) .or .exact = .ok merged ∧ merged.keys = [2] ∧
          reworded.isLive ix.range 2 := by
  have hreached : Reached OwnFiles reworded := by
    refine .after _ (.after _ (.after _ (.after _ reached_ownFiles_notes ?_) ?_) ?_) ?_
    all_goals exact trivial
  have hix : reworded.indexes[260]? = some (reworded.indexes[260]?.get (by decide +kernel)) :=
    (Option.some_get _).symm
  have hfound : ((reworded.search 260 (.buffer ((Buffer.empty nilId false).append "be"))
      (.empty 257 .all) .or .exact).toOption.map ResultTable.keys) = some [2] := by decide +kernel
  cases hsearch : reworded.search 260 (.buffer ((Buffer.empty nilId false).append "be"))
      (.empty 257 .all) .or .exact with
  | error e =>
    rw [hsearch] at hfound
    cases hfound
  | ok merged =>
    rw [hsearch] at hfound
    have hkeys : merged.keys = [2] := Option.some.inj hfound
    obtain ⟨hposts, hsearched⟩ := live_of_search hreached hix
    have hmem : 2 ∈ merged.records := by
      rw [← Std.ExtTreeMap.mem_keys, show merged.records.keys = [2] from hkeys]
      exact List.mem_cons_self ..
    have hlive := ((hsearched hsearch).2 2 hmem).resolve_left Std.ExtTreeMap.not_mem_empty
    exact ⟨_, hix, hposts, by decide +kernel, merged, rfl, hkeys, hlive⟩

end Database
end Concordance
