import Concordance.Proofs.FailedSearches
import Concordance.Proofs.HandUpdates
import Concordance.Proofs.Ids
import Concordance.Proofs.StoredTexts

/-! # Searches by hand

A handle that was bound to an index has one buffer of the index's lexicon, for terms, and one
without a type, for texts. So through it a term is looked up as a term and a text as a text,
whichever was looked up before, and both come down to what the index finds.
-/
namespace Concordance

theorem Session.openBuffer_eq_ok {s : Session} {domain : ObjectId} {shallow : Bool} {b : Buffer}
    (h : s.openBuffer domain shallow = .ok b) : b = .empty domain shallow := by
  unfold openBuffer at h
  split at h
  · exact (Except.ok.inj h).symm
  · cases h

theorem Scratch.new_eq_ok {s : Session} {lexicon range : ObjectId} {scratch : Scratch}
    (h : Scratch.new s lexicon range = .ok scratch) :
    scratch.idQuery = .empty lexicon false ∧ scratch.textQuery = .empty nilId true := by
  obtain ⟨value, -, h⟩ := bind_eq_ok.1 h
  obtain ⟨oldValue, -, h⟩ := bind_eq_ok.1 h
  obtain ⟨idQuery, hid, h⟩ := bind_eq_ok.1 h
  obtain ⟨textQuery, htext, h⟩ := bind_eq_ok.1 h
  cases h
  exact ⟨Session.openBuffer_eq_ok hid, Session.openBuffer_eq_ok htext⟩

theorem Database.matchesOf_setWord (db : Database) {ix : Index} {b : Buffer}
    (hdomain : b.domain = ix.lexicon) {term : RecordId} (hterm : Word.Fits term)
    (flags : ResultFlags) (mode : SearchMode) :
    db.matchesOf ix flags mode (.buffer (b.setWord term)) =
      .ok (ix.postings.matchTerm term) := by
  have hdomain' : (b.setWord term).domain = ix.lexicon := hdomain
  have hword : (b.setWord term).word? = some term := by
    simp only [Buffer.word?, Buffer.setWord, Buffer.setBytes, Word.length_bytes, if_true,
      Word.ofBytes_bytes 4 term hterm]
  simp only [matchesOf, matchBuffer, hdomain', if_true, hword]

namespace IndexColumn
variable {c : IndexColumn} {s : Session} {ix : Index} {result : ResultTable}
  {options : SearchOptions}

/-- The handle is bound to the index, and has buffers for its terms and for texts. -/
structure Serves (c : IndexColumn) (s : Session) (ix : Index) : Prop where
  index : s.database.indexes[c.id]? = some ix
  range : c.range = ix.range
  parts : ∃ scratch, c.parts s = .ok scratch ∧ scratch.idQuery.domain = ix.lexicon ∧
    scratch.textQuery.domain = nilId

theorem serves_of_bind (hwf : s.database.WellFormed) {i : Nat}
    (hix : s.database.indexes[i]? = some ix) {owner : Bool} (h : bind s i owner = .ok c) :
    c.Serves s ix := by
  obtain ⟨context, info, scratch, hcontext, hinfo, hscratch, rfl⟩ := exists_of_bind h
  have hkind : info.kind = .index ix.lexicon ix.range ix.flags :=
    Option.some.inj ((Database.kind?_of_get hinfo).symm.trans (hwf.catalogued.index hix))
  obtain ⟨hid, htext⟩ := Scratch.new_eq_ok hscratch
  have hdomain : info.domain = ix.lexicon := by rw [ObjectInfo.domain, hkind]
  have hrange : info.range = ix.range := by rw [ObjectInfo.range, hkind]
  refine ⟨hix, hrange, scratch, ?_, ?_, ?_⟩
  · exact parts_eq_ok.2 ⟨by simp [Session.isOpen, hcontext], rfl⟩
  · rw [hid]
    exact hdomain
  · rw [htext]
    rfl

theorem serves_versesIndex : Database.Reached Database.OwnFiles Database.verses ∧
    ∃ ix, versesIndex.Serves (.start Database.verses) ix ∧ ix.lexicon = 256 ∧ ix.range = 257 ∧
      ix.tokenizer = .delimit := by
  have hreached : Database.Reached Database.OwnFiles Database.verses :=
    Database.reached_verses.imp fun _ _ ⟨hindexed, _⟩ => Database.ownFiles_of_indexed hindexed
  have hix : (Session.start Database.verses).database.indexes[260]? =
      some (Database.verses.indexes[260]?.get (by decide +kernel)) := (Option.some_get _).symm
  have hbound : bind (.start Database.verses) 260 false = .ok versesIndex := by decide +kernel
  exact ⟨hreached, _, serves_of_bind hreached.wellFormed_of_ownFiles hix hbound,
    by decide +kernel, by decide +kernel, by decide +kernel⟩

theorem Serves.withScratch (h : c.Serves s ix) {scratch : Scratch}
    (hid : scratch.idQuery.domain = ix.lexicon) (htext : scratch.textQuery.domain = nilId) :
    (c.withScratch scratch).Serves s ix where
  index := h.index
  range := h.range
  parts := by
    obtain ⟨before, hparts, -⟩ := h.parts
    exact ⟨scratch, parts_eq_ok.2 ⟨(parts_eq_ok.1 hparts).1, rfl⟩, hid, htext⟩

/-- A handle stays one on its index while its context is open and the index is there, whatever the
database goes through: ids keep their meaning. -/
theorem Serves.goOn (h : c.Serves s ix) (hreached : Database.Reached Database.OwnFiles s.database)
    {s' : Session} (hopen : s'.isOpen c.context)
    (hleads : Database.Leads Database.OwnFiles s.database s'.database) {jx : Index}
    (hjx : s'.database.indexes[c.id]? = some jx) : c.Serves s' jx := by
  have hkind := hreached.wellFormed_of_ownFiles.catalogued.index h.index
  have hkind' := (hreached.leads hleads).wellFormed_of_ownFiles.catalogued.index hjx
  have hid := hreached.wellFormed_of_ownFiles.catalogued.lt_of_kind hkind
  have hsame : s'.database.kind? c.id = s.database.kind? c.id := by
    rcases (hreached.later_of_leads hleads).object hid with heq | hnone
    · simp only [Database.kind?, heq]
    · simp [Database.kind?, hnone] at hkind'
  obtain ⟨hlexicon, hrange, -⟩ :=
    ObjectKind.index.inj (Option.some.inj (hkind'.symm.trans (hsame.trans hkind)))
  obtain ⟨scratch, hparts, hterms, htexts⟩ := h.parts
  exact ⟨hjx, h.range.trans hrange.symm, scratch,
    parts_eq_ok.2 ⟨hopen, (parts_eq_ok.1 hparts).2⟩, hterms.trans hlexicon.symm, htexts⟩

/-- A search for whose query the index has matches merges these, and settles the context. -/
theorem Serves.searchInto (h : c.Serves s ix) {query : Query} {asked : EngineQuery}
    {scratch : Scratch} (hasked : (c.parts s >>= (normalize · query)) = .ok (asked, scratch))
    {found : Matches}
    (hfound : s.database.matchesOf ix result.flags options.mode asked = .ok found)
    (hkey : result.keyTable = ix.range) :
    c.searchInto s query result options =
      (⟨(s.settle (.ok ())).1, c.withScratch scratch, (s.settle (.ok ())).2⟩,
        result.merge found options.operator) := by
  have hsearch : s.database.search c.id asked result options.operator options.mode =
      .ok (result.merge found options.operator) := by
    rw [Database.search_of_get h.index, if_neg (not_not_intro hkey), hfound]
    rfl
  rcases s.search_cases c.id asked result options.operator options.mode with
    ⟨merged, hmerged, hcall⟩ | ⟨e, herror, -⟩
  · obtain rfl := Except.ok.inj (hsearch.symm.trans hmerged)
    simp only [IndexColumn.searchInto, hasked, hcall]
  · cases hsearch.symm.trans herror

theorem Serves.searchInto_term (h : c.Serves s ix) {term : RecordId} (hterm : Word.Fits term)
    (hkey : result.keyTable = ix.range) (options : SearchOptions) : ∃ c', c'.Serves s ix ∧
      c.searchInto s (.term term) result options =
        (⟨(s.settle (.ok ())).1, c', (s.settle (.ok ())).2⟩,
          result.merge (ix.postings.matchTerm term) options.operator) := by
  obtain ⟨scratch, hparts, hid, htext⟩ := h.parts
  let after : Scratch := { scratch with idQuery := scratch.idQuery.rewind.setWord term }
  have hserves : (c.withScratch after).Serves s ix := h.withScratch hid htext
  refine ⟨_, hserves, h.searchInto ?_ (s.database.matchesOf_setWord hid hterm ..) hkey⟩
  rw [hparts]
  rfl

theorem Serves.searchInto_text (h : c.Serves s ix) (hwf : s.database.WellFormed) (text : String)
    (hkey : result.keyTable = ix.range) (options : SearchOptions) : ∃ c', c'.Serves s ix ∧
      c.searchInto s (.text (Text.utf8 text.toList)) result options =
        (⟨(s.settle (.ok ())).1, c', (s.settle (.ok ())).2⟩,
          result.merge (s.database.matchText ix text options.mode) options.operator) := by
  obtain ⟨scratch, hparts, hid, htext⟩ := h.parts
  let after : Scratch := { scratch with textQuery := scratch.textQuery.rewind.append text }
  have hserves : (c.withScratch after).Serves s ix := h.withScratch hid htext
  have hempty := scratch.textQuery.isEmpty_rewind
  have hasked : normalize scratch (.text (Text.utf8 text.toList)) =
      .ok (.buffer (scratch.textQuery.rewind.append text), after) := by
    simp only [normalize, Text.ofUtf8_utf8]
    rfl
  refine ⟨_, hserves, h.searchInto ?_ (hwf.matchesOf_append h.index hempty htext text ..) hkey⟩
  rw [hparts]
  exact hasked

/-- A compiled query takes no buffer. -/
theorem Serves.searchInto_compiled (h : c.Serves s ix) (query : CompiledQuery)
    (hkey : result.keyTable = ix.range) :
    c.searchInto s (.compiled query) result options =
      (⟨(s.settle (.ok ())).1, c, (s.settle (.ok ())).2⟩,
        result.merge (s.database.runClauses ix result.flags query.clauses).records
          options.operator) := by
  obtain ⟨scratch, hparts, -⟩ := h.parts
  have hsame : c.withScratch scratch = c := by
    rw [IndexColumn.withScratch, ← (parts_eq_ok.1 hparts).2]
  have hasked :
      (c.parts s >>= (normalize · (.compiled query))) = .ok (.compiled query, scratch) := by
    rw [hparts]
    rfl
  rw [h.searchInto hasked rfl hkey, hsame]

end IndexColumn
end Concordance
