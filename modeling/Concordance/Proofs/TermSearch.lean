import Concordance.Proofs.HandleSearches

/-! # Searching for a term

A term can be looked up by its id or by its key. The id goes straight to the postings, where all
occurrences count; the key is tokenized, selects the term in the lexicon, and its occurrences are
then counted section by section. Because postings keep nothing empty and name no term that is gone,
both find the same, if the tokenizer takes the key for one term.
-/
namespace Concordance

/-! ## Texts that are one term -/

namespace Text

theorem not_isBlank_of_mem_splitOnP {text piece : List Char} (h : piece ∈ text.splitOnP isBlank) :
    ∀ c ∈ piece, isBlank c = false := by
  induction text generalizing piece with
  | nil =>
    obtain rfl : piece = [] := by simpa using h
    exact fun c hc => absurd hc List.not_mem_nil
  | cons d rest ih =>
    rw [List.splitOnP_cons_eq_if_modifyHead] at h
    split at h
    · rcases List.mem_cons.1 h with rfl | h
      · exact fun c hc => absurd hc List.not_mem_nil
      · exact ih h
    · rename_i hd
      obtain ⟨head, tail, hsplit⟩ := List.exists_cons_of_ne_nil (List.splitOnP_ne_nil isBlank rest)
      rw [hsplit, List.modifyHead_cons] at h
      rcases List.mem_cons.1 h with rfl | h
      · intro c hc
        rcases List.mem_cons.1 hc with rfl | hc
        · exact Bool.eq_false_iff.2 hd
        · exact ih (hsplit ▸ List.mem_cons_self ..) c hc
      · exact ih (hsplit ▸ List.mem_cons_of_mem _ h)

theorem words_of_not_isBlank {text : List Char} (hne : text ≠ [])
    (hblank : ∀ c ∈ text, isBlank c = false) : words text = [text] := by
  simp [words, List.splitOnP_eq_singleton hblank, hne]

theorem mem_words_self {text : List Char} :
    text ∈ words text ↔ text ≠ [] ∧ ∀ c ∈ text, isBlank c = false := by
  constructor
  · intro h
    exact ⟨ne_nil_of_mem_words h, not_isBlank_of_mem_splitOnP (List.mem_filter.1 h).1⟩
  · rintro ⟨hne, hblank⟩
    rw [words_of_not_isBlank hne hblank]
    exact List.mem_cons_self ..

end Text

namespace Tokenizer

/-- A query with the text is a query for one term, the text itself. -/
def IsTerm (tokenizer : Tokenizer) (text : String) : Prop :=
  ∃ position, tokenizer.tokens .get text = [⟨text, position, false⟩]

/-- What has to be true of a text that is not too long: any text is one term if nothing is taken
apart, a word has no blanks, and a pair is of two clusters. -/
def Single : Tokenizer → List Char → Prop
  | whole, text => text ≠ []
  | delimit, text => text ≠ [] ∧ ∀ c ∈ text, Text.isBlank c = false
  | bigram, text => ∃ a b, Text.clusters text = [a, b] ∧ ¬ isGap a ∧ ¬ isGap b

/-- Clusters that two neighbours make up the whole of are these two. -/
theorem eq_pair_of_flatten {front back : List (List Char)} {a b : List Char}
    (hne : ∀ c ∈ front ++ a :: b :: back, c ≠ [])
    (h : (front ++ a :: b :: back).flatten = a ++ b) : front = [] ∧ back = [] := by
  have hlength := congrArg List.length h
  simp only [List.flatten_append, List.flatten_cons, List.length_append] at hlength
  have hnil {cs : List (List Char)} (hcs : ∀ c ∈ cs, c ≠ []) (hzero : cs.flatten.length = 0) :
      cs = [] := by
    refine List.eq_nil_iff_forall_not_mem.2 fun c hc => hcs c hc ?_
    exact List.flatten_eq_nil_iff.1 (List.length_eq_zero_iff.1 hzero) c hc
  constructor
  · exact hnil (fun c hc => hne c (by simp [hc])) (by omega)
  · exact hnil (fun c hc => hne c (by simp [hc])) (by omega)

theorem single_of_mem_tokens {tokenizer : Tokenizer} {text : String} {position : Nat}
    (h : (⟨text, position, false⟩ : Token) ∈ tokenizer.tokens .get text) :
    tokenizer.Single text.toList := by
  have hall := (List.mem_filter.1 h).1
  cases tokenizer with
  | whole => exact ne_empty_of_mem_tokens h
  | delimit =>
    obtain ⟨⟨word, i⟩, hword, heq⟩ := List.mem_map.1 hall
    have htext : text.toList = word := by
      rw [show text = String.ofList word from (congrArg Token.text heq).symm, String.toList_ofList]
    exact Text.mem_words_self.1 (htext ▸ List.fst_mem_of_mem_zipIdx hword)
  | bigram =>
    rw [allTokens, bigrams_eq_pairTokens] at hall
    obtain ⟨front, a, b, back, hcs, ha, hb, hpair⟩ := exists_neighbours hall rfl
    have htext : text.toList = a ++ b := by
      rw [show text = String.ofList (a ++ b) from hpair, String.toList_ofList]
    have hflatten := Text.clusters_flatten text.toList
    rw [hcs, htext] at hflatten
    obtain ⟨rfl, rfl⟩ := eq_pair_of_flatten
      (fun c hc => Text.ne_nil_of_mem_clusters (hcs ▸ hc)) hflatten
    exact ⟨a, b, hcs, ha, hb⟩

theorem allTokens_of_single {tokenizer : Tokenizer} {text : String}
    (h : tokenizer.Single text.toList) : tokenizer.allTokens .get text = [⟨text, 0, false⟩] := by
  cases tokenizer with
  | whole =>
    have hne : text.isEmpty = false := by
      rw [Bool.eq_false_iff, Ne, String.isEmpty_iff]
      exact fun hempty => h (by rw [hempty]; rfl)
    simp [allTokens, wholeTokens, hne]
  | delimit =>
    obtain ⟨hne, hblank⟩ := h
    simp [allTokens, wordTokens, Text.words_of_not_isBlank hne hblank]
  | bigram =>
    obtain ⟨a, b, hcs, ha, hb⟩ := h
    have htext : String.ofList (a ++ b) = text := by
      have hflatten := Text.clusters_flatten text.toList
      rw [hcs] at hflatten
      rw [← String.ofList_toList (s := text), ← hflatten]
      simp
    rw [allTokens, bigrams_eq_pairTokens, hcs, pairTokens_next ha hb, pairTokens_last hb rfl, htext]
    rfl

theorem isTerm_iff {tokenizer : Tokenizer} {text : String} : tokenizer.IsTerm text ↔
    text.utf8ByteSize ≤ maxTermLength ∧ tokenizer.Single text.toList := by
  constructor
  · rintro ⟨position, htokens⟩
    have hmem : (⟨text, position, false⟩ : Token) ∈ tokenizer.tokens .get text := by
      rw [htokens]
      exact List.mem_cons_self ..
    exact ⟨utf8ByteSize_le_of_mem_tokens hmem, single_of_mem_tokens hmem⟩
  · rintro ⟨hsize, hsingle⟩
    refine ⟨0, ?_⟩
    simp [tokens, allTokens_of_single hsingle, hsize]

end Tokenizer

/-! ## What a term finds -/

namespace Postings
variable {p : Postings} {lexicon : Table} {term record : Nat}

/-- Counted section by section, a term has all its occurrences in a record as hits, and a hit in
each of its sections. -/
theorem Neat.hit_term (h : p.Neat) (offset term record : Nat) :
    p.hit false [⟨offset, [term]⟩] record =
      ⟨(p.list term).frequency record, ((p.list term).sections record).length⟩ := by
  let sections := (p.list term).sections record
  have hhits : p.sectionHits false [⟨offset, [term]⟩] record =
      fun sec => (p.positions term record sec).length := by
    funext sec
    simp [sectionHits, slot]
  have hkept {sec : Nat} {ps : List Nat} (hps : (sec, ps) ∈ sections) :
      p.positions term record sec = ps ∧ ps ≠ [] := by
    have hentry := PostingList.mem_sections.1 hps
    refine ⟨?_, ((h.list term).kept hentry).1⟩
    rw [positions, PostingList.positions_eq, hentry]
    rfl
  have hlengths : (sections.map (·.1)).map (fun sec => (p.positions term record sec).length) =
      sections.map (·.2.length) := by
    rw [List.map_map]
    exact List.map_congr_left fun e he => congrArg List.length (hkept he).1
  calc p.hit false [⟨offset, [term]⟩] record
      = hitOf ((sections.map (·.1)).map fun sec => (p.positions term record sec).length) := by
        rw [hit, hhits]
        refine hitOf_congr (nodup_sectionsOf _) ?_ fun sec _ => ?_
        · rw [List.Nodup, List.pairwise_map]
          exact ((p.list term).pairwise_sections record).imp Nat.ne_of_lt
        · simp [mem_sectionsOf, sections]
    _ = ⟨(p.list term).frequency record, sections.length⟩ := by
        have hall : ∀ n ∈ sections.map (·.2.length), decide (0 < n) = true := by
          intro n hn
          obtain ⟨e, he, rfl⟩ := List.mem_map.1 hn
          exact decide_eq_true (List.length_pos_iff.2 (hkept he).2)
        rw [hlengths, hitOf, List.countP_eq_length.2 hall, List.length_map]
        rfl

theorem Neat.frequency_pos (h : p.Neat) (hrecord : record ∈ (p.list term).records) :
    0 < (p.list term).frequency record := by
  obtain ⟨sec, hne⟩ := (h.list term).mem_records_iff.1 hrecord
  have hentry := ((h.list term).entryAt_eq record sec).trans (if_neg hne)
  refine total_pos.2 ⟨((p.list term).positions record sec).length, ?_, List.length_pos_iff.2 hne⟩
  exact List.mem_map_of_mem (PostingList.mem_sections.2 hentry)

theorem Neat.matchSelections_term (h : p.Neat) (offset term : Nat) :
    p.matchSelections false [⟨offset, [term]⟩] = p.matchTerm term := by
  refine Std.ExtTreeMap.ext_getElem? fun {record} => ?_
  have hcandidate : record ∈ p.candidates [⟨offset, [term]⟩] ↔ record ∈ (p.list term).records := by
    rw [mem_candidates (List.cons_ne_nil _ _)]
    simp
  rw [getElem?_matchSelections, h.hit_term, getElem?_matchTerm]
  refine ite_congr (propext ?_) (fun _ => rfl) fun _ => rfl
  rw [hcandidate]
  exact and_iff_left_of_imp h.frequency_pos

theorem Neat.matchTerm_of_new (h : p.Neat) (hm : Matched lexicon p)
    (hkey : lexicon.key? term = none) : p.matchTerm term = ∅ := by
  refine Std.ExtTreeMap.eq_empty_iff_forall_not_mem.2 fun record hrecord => ?_
  obtain ⟨sec, position, hposition⟩ := h.exists_position (mem_matchTerm.1 hrecord)
  rw [hm.positions_of_new hkey] at hposition
  cases hposition

end Postings

theorem Index.matchText_key {ix : Index} {lexicon : Table} {term : Nat} {key : String}
    (hn : ix.postings.Neat) (hs : lexicon.Sound) (hkey : lexicon.key? term = some key)
    (hterm : ix.tokenizer.IsTerm key) :
    ix.matchText lexicon key .exact = ix.postings.matchTerm term := by
  obtain ⟨position, htokens⟩ := hterm
  have hquery : selections lexicon .exact [⟨key, position, false⟩] = [⟨0, [term]⟩] := by
    simp [selections, selectTerms, hs.find?_iff.2 hkey]
  have hphrase : (decide (1 < [(⟨key, position, false⟩ : Token)].length) &&
      ix.flags.contains .withPosition) = false := rfl
  simp only [matchText, htokens, hquery, hphrase]
  exact hn.matchSelections_term 0 term

namespace IndexColumn
variable {c : IndexColumn} {s : Session} {ix : Index} {result : ResultTable}

/-- In every state that a run reaches, a handle changes a table in the same way whether it searches
for a live term of the lexicon or for the exact text of its key, if the tokenizer takes the key for
one term. Which keys these are is told by their characters. Any other id matches nothing. -/
theorem searchInto_term_eq (hreached : Database.Reached Database.OwnFiles s.database)
    (hc : c.Serves s ix) {term : RecordId} (hterm : Word.Fits term)
    (hkey : result.keyTable = ix.range) (operator : SelectOperator) (mode : SearchMode) :
    let byId := c.searchInto s (.term term) result ⟨operator, mode⟩
    (∀ key, s.database.recordKey? ix.lexicon term = some key → ix.tokenizer.IsTerm key →
      let byText := c.searchInto s (.text (Text.utf8 key.toList)) result ⟨operator, .exact⟩
      byId.2 = byText.2 ∧ byId.1.result = byText.1.result ∧ byId.1.session = byText.1.session ∧
        byText.2 = result.merge (s.database.matchText ix key .exact) operator) ∧
    (s.database.isLive ix.lexicon term = false → byId.2 = result.merge ∅ operator) ∧
    ∀ key, ix.tokenizer.IsTerm key ↔
      key.utf8ByteSize ≤ Tokenizer.maxTermLength ∧ ix.tokenizer.Single key.toList := by
  have hwf := hreached.wellFormed_of_ownFiles
  obtain ⟨lexicon, hlexicon, -⟩ := hwf.catalogued.lexicon_table hc.index
  have hneat := hwf.posted.neat hc.index
  have hsound := hwf.filled.sound hlexicon
  obtain ⟨c', -, hid⟩ := hc.searchInto_term hterm hkey ⟨operator, mode⟩
  refine ⟨fun key hrecord hone => ?_, fun hdead => ?_, fun key => Tokenizer.isTerm_iff⟩
  · obtain ⟨c'', -, htext⟩ := hc.searchInto_text hwf key hkey ⟨operator, .exact⟩
    have hlive : lexicon.key? term = some key := by
      simpa [Database.recordKey?, hlexicon] using hrecord
    have hfound : s.database.matchText ix key .exact = ix.postings.matchTerm term := by
      simp only [Database.matchText, hlexicon]
      exact Index.matchText_key hneat hsound hlive hone
    rw [hid, htext, hfound]
    exact ⟨rfl, rfl, rfl, rfl⟩
  · have hnew : lexicon.key? term = none := by
      rw [Database.isLive_of_table hlexicon] at hdead
      refine Option.eq_none_iff_forall_ne_some.2 fun key hk => ?_
      rw [hsound.live_of_key hk] at hdead
      cases hdead
    rw [hid, hneat.matchTerm_of_new (hwf.posted.matched hc.index hlexicon) hnew]

/-- A word of the verses that stands in two sections, merged into a table with other records, and an
id that no word has. -/
theorem searchInto_term_eq_verses :
    let s := Session.start Database.verses
    let known : List (RecordId × Hit) := [(1, ⟨5, 1⟩), (7, ⟨1, 1⟩)]
    let result : ResultTable := ⟨257, .all, .ofList known⟩
    s.database.recordKey? 256 2 = some "be" ∧ Tokenizer.delimit.IsTerm "be" ∧
      (versesIndex.searchInto s (.term 2) result ⟨.and, .endsWith⟩).2 =
        (versesIndex.searchInto s (.text (Text.utf8 "be".toList)) result ⟨.and, .exact⟩).2 ∧
      (versesIndex.searchInto s (.term 2) result ⟨.and, .endsWith⟩).2.records.toList =
        [(1, ⟨9, 3⟩)] ∧
      s.database.isLive 256 9 = false ∧
        (versesIndex.searchInto s (.term 9) result ⟨.and, .endsWith⟩).2 = result.merge ∅ .and := by
  intro s known result
  obtain ⟨hreached, ix, hserves, hlexicon, hrange, htokenizer⟩ := serves_versesIndex
  have hkeyTable : result.keyTable = ix.range := hrange.symm
  have hsearch (term : RecordId) (hterm : Word.Fits term) :=
    searchInto_term_eq hreached hserves hterm hkeyTable .and .endsWith
  rw [hlexicon, htokenizer] at hsearch
  have hkey : s.database.recordKey? 256 2 = some "be" := by decide +kernel
  have hterm : Tokenizer.delimit.IsTerm "be" := ⟨0, by decide +kernel⟩
  have hdead : s.database.isLive 256 9 = false := by decide +kernel
  obtain ⟨hsame, -, -⟩ := hsearch 2 (by decide +kernel)
  obtain ⟨-, hnothing, -⟩ := hsearch 9 (by decide +kernel)
  exact ⟨hkey, hterm, (hsame "be" hkey hterm).1, by decide +kernel, hdead, hnothing hdead⟩

end IndexColumn
end Concordance
