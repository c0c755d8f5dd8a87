import Concordance.Proofs.PairRuns
import Concordance.Proofs.WordPhrases

/-! # Phrases and the items of a value

Whether a match lies within one text. It does if the tokens of the query follow one another
directly, as words do and the pairs of one run of clusters. The gap between the items of a list is
no wider than a blank, so that a query of pairs with a blank in it runs from one item into the next.
-/
namespace Concordance

/-- The tokens of a query occur in one text, each at its distance from the first. -/
def OccursIn (mode : SearchMode) (tokens : List Token) (tokenizer : Tokenizer)
    (item : String) : Prop :=
  ∃ start, ∀ token ∈ tokens, ∃ t ∈ tokenizer.tokens .add item, token.selects mode t.text ∧
    t.position = start + (token.position - (tokens.head?.map Token.position).getD 0)

theorem phraseCount_pos_iff {mode : SearchMode} {tokens : List Token} (htokens : tokens ≠ [])
    {tokenizer : Tokenizer} {item : String} :
    0 < phraseCount mode tokens (textTerms tokenizer item) ↔
      OccursIn mode tokens tokenizer item := by
  obtain ⟨first, rest, rfl⟩ := List.exists_cons_of_ne_nil htokens
  simp only [phraseCount, OccursIn, List.countP_pos_iff, Bool.and_eq_true, List.all_eq_true,
    ← standsAt_textTerms, List.head?_cons, Option.map_some, Option.getD_some,
    List.forall_mem_cons, Nat.sub_self, Nat.add_zero]
  constructor
  · rintro ⟨o, ho, hfirst, hrest⟩
    exact ⟨o.2, Token.standsAt_iff.2 ⟨o, ho, hfirst, rfl⟩, hrest⟩
  · rintro ⟨start, hfirst, hrest⟩
    obtain ⟨o, ho, hselects, rfl⟩ := Token.standsAt_iff.1 hfirst
    exact ⟨o, ho, hselects, hrest⟩

namespace Tokenizer

theorem position_of_head?_pairTokens {inRun : Bool} {i : Nat} {cs : List (List Char)}
    (hgapless : ∀ c ∈ cs, isGap c = false) :
    ∀ t ∈ (pairTokens .get inRun i cs).head?, t.position = i := by
  match cs with
  | [] => simp [pairTokens]
  | [c] => cases inRun <;> simp_all [pairTokens, pairTokens.alone]
  | c :: next :: rest => simp_all [pairTokens]

/-- The pairs of one run of clusters stand one after another. -/
theorem adjacent_pairTokens {inRun : Bool} {i : Nat} {cs : List (List Char)}
    (hgapless : ∀ c ∈ cs, isGap c = false) : Adjacent (pairTokens .get inRun i cs) := by
  induction cs generalizing inRun i with
  | nil => exact .nil
  | cons c rest ih =>
    have hrest : ∀ d ∈ rest, isGap d = false := fun d hd => hgapless d (List.mem_cons_of_mem _ hd)
    have hc := hgapless c (List.mem_cons_self ..)
    cases rest with
    | nil => cases inRun <;> simp [pairTokens, pairTokens.alone, hc]
    | cons next more =>
      have hnext := hrest next (List.mem_cons_self ..)
      have hhead : ∀ t ∈ (pairTokens .get true (i + 1) (next :: more)).head?, t.position = i + 1 :=
        position_of_head?_pairTokens hrest
      rw [pairTokens]
      simp only [hc, hnext, Bool.false_eq_true, if_false, List.singleton_append]
      exact List.isChain_cons.2 ⟨hhead, ih hrest⟩

/-- Whole texts and words always follow one another directly, and so do pairs in a query without a
blank, as long as no term of the query is too long. -/
theorem adjacent_tokens {tokenizer : Tokenizer} {text : String}
    (hshort : ∀ t ∈ tokenizer.allTokens .get text, t.text.utf8ByteSize ≤ maxTermLength)
    (hgapless : tokenizer = .bigram → ∀ c ∈ Text.clusters text.toList, isGap c = false) :
    Adjacent (tokenizer.tokens .get text) := by
  rw [tokens, List.filter_eq_self.2 fun t ht => decide_eq_true (hshort t ht)]
  cases tokenizer with
  | whole =>
    rw [allTokens, wholeTokens]
    split
    · exact .nil
    · exact .singleton _
  | delimit => exact adjacent_phraseTokens (Text.words text.toList) 0
  | bigram =>
    rw [allTokens, bigrams_eq_pairTokens]
    exact adjacent_pairTokens (hgapless rfl)

end Tokenizer

namespace Database
variable {db : Database} {i : Nat} {ix : Index} {record : RecordId}

/-- If the tokens of a query follow one another directly, then the records that it finds are those
where all of them occur in one text of one source. -/
theorem matchText_item (h : Reached (LeavesToSources i) db) (hix : db.indexes[i]? = some ix)
    (hflags : ix.flags.contains .withPosition) (hcount : ix.sources.length < 4096)
    (hroom : ix.Roomy db.textsOf record) {text : String}
    (htokens : ix.tokenizer.tokens .get text ≠ [])
    (hadjacent : Adjacent (ix.tokenizer.tokens .get text)) (mode : SearchMode) :
    (db.matchText ix text mode).contains record ↔
      ∃ source ∈ ix.sources, ∃ item ∈ db.textsOf source record,
        OccursIn mode (ix.tokenizer.tokens .get text) ix.tokenizer item := by
  have hfound := (h.maintainedFor record).getElem?_matchText h.wellFormed_of_sources hix hroom hcount
    hflags mode htokens hadjacent
  have hpos : 0 < total (ix.textCounts mode (ix.tokenizer.tokens .get text) db.textsOf record) ↔
      ∃ source ∈ ix.sources, ∃ item ∈ db.textsOf source record,
        OccursIn mode (ix.tokenizer.tokens .get text) ix.tokenizer item := by
    simp only [Index.textCounts, total_pos, List.mem_map, exists_exists_and_eq_and,
      phraseCount_pos_iff htokens]
  exact (contains_iff_of_getElem? hfound).trans hpos

/-- Documents with a body, which is a list in the first and a text in the second, and an index of
its pairs with positions. -/
def letters : Database :=
  (((((((new.after (.createTable (some "Pairs") ⟨.trie, some .shortText, .bigram⟩)).after
    (.createTable (some "Docs") ⟨.array, none, .whole⟩)).after
    (.defineColumn 257 "body" .text)).after
    (.defineIndex 256 "docs" 257 ⟨.withPosition, ["Docs.body"]⟩)).after
    (.addRecord 257)).after
    (.setValue 258 1 (.array [.text "a", .text "b"]))).after
    (.addRecord 257)).after
    (.setValue 258 2 (.text "a banana"))

theorem reached_letters : Reached Maintaining letters := by
  refine .after _ (.after _ (.after _ (.after _ (.after _ (.after _ (.after _ (.after _
    .new ?_) ?_) ?_) ?_) ?_) ?_) ?_) ?_
  all_goals exact ⟨trivial, trivial, by decide +kernel⟩

theorem matchText_item_letters : ∃ ix, letters.indexes[259]? = some ix ∧
    (letters.matchText ix "nan" .exact).contains 2 := by
  have hix : letters.indexes[259]? = some (letters.indexes[259]?.get (by decide +kernel)) :=
    (Option.some_get _).symm
  refine ⟨_, hix, ?_⟩
  have hreached := reached_letters.imp fun _ _ h => h.leavesToSources 259
  have hroom : (letters.indexes[259]?.get (by decide +kernel)).Roomy letters.textsOf 2 := by
    decide +kernel
  have htokens : (letters.indexes[259]?.get (by decide +kernel)).tokenizer.tokens .get "nan" ≠
      [] := by decide +kernel
  have hadjacent : Adjacent
      ((letters.indexes[259]?.get (by decide +kernel)).tokenizer.tokens .get "nan") :=
    Tokenizer.adjacent_tokens (by decide +kernel) (by decide +kernel)
  have hitem := matchText_item hreached hix (by decide +kernel) (by decide +kernel) hroom htokens
    hadjacent .exact
  exact hitem.2 ⟨258, by decide +kernel, "a banana", by decide +kernel,
    (phraseCount_pos_iff htokens).1 (by decide +kernel)⟩

/-- A query of pairs with a blank in it is found across two items, neither of which has it. -/
theorem matchText_across_items : ∃ ix, letters.indexes[259]? = some ix ∧
    Reached (LeavesToSources 259) letters ∧ ix.flags.contains .withPosition ∧
      ix.sources.length < 4096 ∧ ix.Roomy letters.textsOf 1 ∧
        (letters.matchText ix "a b" .exact).contains 1 ∧
          ¬ ∃ source ∈ ix.sources, ∃ item ∈ letters.textsOf source 1,
            OccursIn .exact (ix.tokenizer.tokens .get "a b") ix.tokenizer item := by
  have hix : letters.indexes[259]? = some (letters.indexes[259]?.get (by decide +kernel)) :=
    (Option.some_get _).symm
  have htokens : (letters.indexes[259]?.get (by decide +kernel)).tokenizer.tokens .get "a b" ≠
      [] := by decide +kernel
  refine ⟨_, hix, reached_letters.imp fun _ _ h => h.leavesToSources 259, by decide +kernel,
    by decide +kernel, by decide +kernel, by decide +kernel, ?_⟩
  simp only [← phraseCount_pos_iff htokens]
  decide +kernel

end Database

end Concordance
