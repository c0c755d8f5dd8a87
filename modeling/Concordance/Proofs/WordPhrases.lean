import Concordance.Proofs.SourceKeys
import Concordance.Proofs.SourcePhrases

/-! # Phrases of words

Over a lexicon of words, a query finds the windows of neighbouring words in the texts that answer it
word by word. A record's score is how many windows there are in the texts of all sources.
-/
namespace Concordance

/-- Whether a word of a text answers a word of a query. One that is too long for a term never
does. -/
def wordAnswers (mode : SearchMode) (asked word : List Char) : Bool :=
  (String.ofList word).utf8ByteSize ≤ Tokenizer.maxTermLength &&
    match mode with
    | .exact => word = asked
    | .startsWith => asked.isPrefixOf word
    | .endsWith => asked.isSuffixOf word

/-- Whether the first of some words answer a phrase, word by word. -/
def phraseAnswers (mode : SearchMode) : (phrase words : List (List Char)) → Bool
  | [], _ => true
  | _ :: _, [] => false
  | asked :: phrase, word :: words => wordAnswers mode asked word && phraseAnswers mode phrase words

/-- How many windows of neighbouring words answer a phrase. -/
def windows (mode : SearchMode) (phrase words : List (List Char)) : Nat :=
  (List.range words.length).countP fun i => phraseAnswers mode phrase (words.drop i)

def phraseTokens (words : List (List Char)) (position : Nat) : List Token :=
  (words.zipIdx position).map fun (word, i) => ⟨String.ofList word, i, false⟩

theorem phraseTokens_cons (word : List Char) (rest : List (List Char)) (position : Nat) :
    phraseTokens (word :: rest) position =
      ⟨String.ofList word, position, false⟩ :: phraseTokens rest (position + 1) := rfl

theorem adjacent_phraseTokens (words : List (List Char)) (position : Nat) :
    Adjacent (phraseTokens words position) := by
  induction words generalizing position with
  | nil => exact .nil
  | cons word rest ih =>
    cases rest with
    | nil => exact .singleton _
    | cons next rest => exact List.isChain_cons_cons.2 ⟨rfl, ih (position + 1)⟩

theorem tokens_delimit {mode : TokenMode} {text : String}
    (hshort : ∀ word ∈ Text.words text.toList,
      (String.ofList word).utf8ByteSize ≤ Tokenizer.maxTermLength) :
    Tokenizer.delimit.tokens mode text = phraseTokens (Text.words text.toList) 0 := by
  refine List.filter_eq_self.2 fun token htoken => ?_
  obtain ⟨⟨word, i⟩, hword, rfl⟩ := List.mem_map.1 htoken
  simpa using hshort word (List.fst_mem_of_mem_zipIdx hword)

section Windows
variable (mode : SearchMode) (text : String)

theorem selects_word (asked word : List Char) (position : Nat) :
    ((String.ofList word).utf8ByteSize ≤ Tokenizer.maxTermLength &&
        Token.selects mode ⟨String.ofList asked, position, false⟩ (String.ofList word)) =
      wordAnswers mode asked word := by
  cases mode <;> simp [wordAnswers, Token.selects, Table.startsWith, Table.endsWith, String.ofList_inj]

theorem textTerms_delimit : textTerms .delimit text =
    ((Text.words text.toList).zipIdx.filter fun place =>
      (String.ofList place.1).utf8ByteSize ≤ Tokenizer.maxTermLength).map
        fun place => (String.ofList place.1, place.2) := by
  rw [textTerms, Tokenizer.tokens, Tokenizer.allTokens, Tokenizer.wordTokens, List.filter_map,
    List.map_map]
  rfl

theorem standsAt_word (asked : List Char) (position i : Nat) :
    Token.standsAt mode ⟨String.ofList asked, position, false⟩ (textTerms .delimit text) i =
      (Text.words text.toList)[i]?.any (wordAnswers mode asked) := by
  rw [Bool.eq_iff_iff, Token.standsAt, textTerms_delimit, List.any_map, List.any_filter,
    List.any_eq_true, Option.any_eq_true]
  constructor
  · rintro ⟨⟨word, j⟩, hplace, hanswers⟩
    simp only [Function.comp, Bool.and_eq_true, decide_eq_true_eq] at hanswers
    obtain ⟨hshort, hselects, rfl⟩ := hanswers
    refine ⟨word, List.mk_mem_zipIdx_iff_getElem?.1 hplace, ?_⟩
    rw [← selects_word mode asked word position]
    simp [hshort, hselects]
  · rintro ⟨word, hword, hanswers⟩
    rw [← selects_word mode asked word position, Bool.and_eq_true] at hanswers
    refine ⟨(word, i), List.mk_mem_zipIdx_iff_getElem?.2 hword, ?_⟩
    simpa using hanswers

/-- A run of query words goes on while the words of the text answer it. -/
theorem standRun_words (phrase : List (List Char)) (position i : Nat) :
    standRun mode (textTerms .delimit text) (phraseTokens phrase position) i =
      phraseAnswers mode phrase ((Text.words text.toList).drop i) := by
  induction phrase generalizing position i with
  | nil => rfl
  | cons asked rest ih =>
    rw [phraseTokens_cons, standRun, standsAt_word, ih (position + 1) (i + 1)]
    cases hword : (Text.words text.toList)[i]? with
    | none =>
      have hdrop := List.drop_eq_nil_iff.2 (List.getElem?_eq_none_iff.1 hword)
      rw [hdrop]
      rfl
    | some word =>
      obtain ⟨hlt, rfl⟩ := List.getElem?_eq_some_iff.1 hword
      rw [List.drop_eq_getElem_cons hlt]
      rfl

theorem phraseCount_words {phrase : List (List Char)} (hphrase : phrase ≠ []) :
    phraseCount mode (phraseTokens phrase 0) (textTerms .delimit text) =
      windows mode phrase (Text.words text.toList) := by
  obtain ⟨asked, rest, rfl⟩ := List.exists_cons_of_ne_nil hphrase
  have hadjacent := adjacent_phraseTokens (asked :: rest) 0
  rw [phraseTokens_cons] at hadjacent ⊢
  simp only [phraseCount_of_adjacent hadjacent, standRun_words]
  rw [textTerms_delimit, List.countP_map, List.countP_filter, windows, List.range_eq_range',
    ← List.zipIdx_map_snd 0, List.countP_map]
  refine List.countP_congr fun ⟨word, i⟩ hplace => ?_
  obtain ⟨hlt, hword⟩ := List.getElem?_eq_some_iff.1 (List.mk_mem_zipIdx_iff_getElem?.1 hplace)
  rw [Function.comp, Function.comp, List.drop_eq_getElem_cons hlt, hword, phraseAnswers,
    ← selects_word mode asked word 0, Bool.and_comm, Bool.and_assoc]

theorem windows_pos {phrase words : List (List Char)} (hphrase : phrase ≠ []) :
    0 < windows mode phrase words ↔ ∃ i, phraseAnswers mode phrase (words.drop i) := by
  rw [windows, List.countP_pos_iff]
  constructor
  · rintro ⟨i, -, hanswers⟩
    exact ⟨i, hanswers⟩
  · rintro ⟨i, hanswers⟩
    refine ⟨i, List.mem_range.2 (Nat.lt_of_not_le fun hle => ?_), hanswers⟩
    obtain ⟨asked, rest, rfl⟩ := List.exists_cons_of_ne_nil hphrase
    rw [List.drop_eq_nil_of_le hle] at hanswers
    cases hanswers

end Windows

namespace Database
variable {db : Database} {i : Nat} {ix : Index} {record : RecordId}

/-- A query of words finds the records that have a window which answers it in a text of a source.
The score is the number of these windows. With sections, those that have any are counted. The key of
the record must not have come into the range as a term while the index listed the range. -/
theorem matchText_words (h : Reached (KeepsKey i record) db) (hix : db.indexes[i]? = some ix)
    (htokenizer : ix.tokenizer = .delimit) (hflags : ix.flags.contains .withPosition)
    (hcount : ix.sources.length < 4096) (hroom : ix.Roomy db.textsOf record) {text : String}
    (hwords : Text.words text.toList ≠ [])
    (hshort : ∀ word ∈ Text.words text.toList,
      (String.ofList word).utf8ByteSize ≤ Tokenizer.maxTermLength) (mode : SearchMode) :
    let phrase := Text.words text.toList
    let counts := ix.sources.map fun source => total ((db.textsOf source record).map fun item =>
      windows mode phrase (Text.words item.toList))
    ((db.matchText ix text mode).contains record ↔
        ∃ source ∈ ix.sources, ∃ item ∈ db.textsOf source record,
          ∃ start, phraseAnswers mode phrase ((Text.words item.toList).drop start)) ∧
      ∀ hit, (db.matchText ix text mode)[record]? = some hit → hit.score = total counts ∧
        hit.subrecords = if ix.flags.contains .withSection then counts.countP (0 < ·) else 1 := by
  intro phrase counts
  have htokens : ix.tokenizer.tokens .get text = phraseTokens phrase 0 :=
    htokenizer ▸ tokens_delimit hshort
  have hcounts : ix.textCounts mode (ix.tokenizer.tokens .get text) db.textsOf record = counts := by
    rw [htokens, Index.textCounts, htokenizer]
    refine List.map_congr_left fun source _ => congrArg total ?_
    exact List.map_congr_left fun item _ => phraseCount_words mode item hwords
  obtain ⟨hwf, hmaintained⟩ := h.maintainedFor_of_keepsKey
  have hfound := hmaintained.getElem?_matchText hwf hix hroom hcount hflags mode
    (by rw [htokens]; simpa [phraseTokens] using hwords)
    (by rw [htokens]; exact adjacent_phraseTokens phrase 0)
  rw [hcounts] at hfound
  have hpos : 0 < total counts ↔ ∃ source ∈ ix.sources, ∃ item ∈ db.textsOf source record,
      ∃ start, phraseAnswers mode phrase ((Text.words item.toList).drop start) := by
    simp only [counts, total_pos, List.mem_map, exists_exists_and_eq_and,
      windows_pos mode hwords, phrase]
  refine ⟨(contains_iff_of_getElem? hfound).trans hpos, fun hit hhit => ?_⟩
  obtain rfl := eq_of_getElem? hfound hhit
  exact ⟨rfl, rfl⟩

/-- Verses with a line and its tags, and an index of both with sections and positions. -/
def verses : Database :=
  ((((((((new.after (.createTable (some "Words") ⟨.hash, some .shortText, .delimit⟩)).after
    (.createTable (some "Verses") ⟨.array, none, .whole⟩)).after
    (.defineColumn 257 "line" .text)).after
    (.defineColumn 257 "tags" .shortText)).after
    (.defineIndex 256 "verses" 257 ⟨⟨0x280⟩, ["Verses.line"]⟩)).after
    (.setSourceInfo 260 ((Buffer.empty nilId false).setIds [258, 259]))).after
    (.addRecord 257)).after
    (.setValue 258 1 (.text "to be or not to be"))).after
    (.setValue 259 1 (.array [.text "be", .text "to be"]))

theorem reached_verses : Reached (fun db call => call.Indexed ∧ db.KeepsTerms call ∧
    ¬ db.TakesAsTerm 260 1 call) verses := by
  refine .after _ (.after _ (.after _ (.after _ (.after _ (.after _ (.after _ (.after _ (.after _
    .new ?_) ?_) ?_) ?_) ?_) ?_) ?_) ?_) ?_
  all_goals exact ⟨trivial, trivial, by decide +kernel⟩

theorem matchText_words_verses : ∃ ix, verses.indexes[260]? = some ix ∧
    (verses.matchText ix "to be" .exact)[1]? = some ⟨3, 2⟩ := by
  have hix : verses.indexes[260]? = some (verses.indexes[260]?.get (by decide +kernel)) :=
    (Option.some_get _).symm
  refine ⟨_, hix, ?_⟩
  have hreached : Reached (KeepsKey 260 1) verses :=
    reached_verses.imp fun _ _ ⟨hindexed, hkeeps, htakes⟩ => hkeeps.keepsKey hindexed htakes
  have hroom : (verses.indexes[260]?.get (by decide +kernel)).Roomy verses.textsOf 1 := by
    decide +kernel
  have hwords : Text.words "to be".toList ≠ [] := by decide +kernel
  obtain ⟨hfound, hhit⟩ := matchText_words hreached hix (by decide +kernel) (by decide +kernel)
    (by decide +kernel) hroom hwords (by decide +kernel) .exact
  have hcontains := hfound.2 ⟨258, by decide +kernel, "to be or not to be", by decide +kernel, 0,
    by decide +kernel⟩
  rw [Std.ExtTreeMap.contains_eq_isSome_getElem?, Option.isSome_iff_exists] at hcontains
  obtain ⟨⟨score, subrecords⟩, heq⟩ := hcontains
  obtain ⟨hscore, hsections⟩ := hhit _ heq
  rw [heq, Option.some.injEq, Hit.mk.injEq]
  exact ⟨hscore.trans (by decide +kernel), hsections.trans (by decide +kernel)⟩

/-- Words that are records of an index with positions and terms of the notes: the first was entered
as a key, the second came with a note. -/
def vocabulary : Database :=
  ((((((((new.after (.createTable (some "Letters") ⟨.hash, some .shortText, .delimit⟩)).after
    (.createTable (some "Words") ⟨.hash, some .shortText, .delimit⟩)).after
    (.createTable (some "Notes") ⟨.array, none, .whole⟩)).after
    (.defineColumn 258 "body" .text)).after
    (.defineIndex 256 "words" 257 ⟨.withPosition, ["Words"]⟩)).after
    (.defineIndex 257 "notes" 258 ⟨.none, ["Notes.body"]⟩)).after
    (.addRecordWithKey 257 "pear")).after
    (.addRecord 258)).after
    (.setValue 259 1 (.text "apple"))

theorem reached_vocabulary : Reached (fun db call => call.Indexed ∧ db.KeepsTerms call ∧
    ∀ ix, (db.after call).indexes[260]? = some ix → ix.lexicon ∉ ix.sources) vocabulary := by
  refine .after _ (.after _ (.after _ (.after _ (.after _ (.after _ (.after _ (.after _ (.after _
    .new ?_) ?_) ?_) ?_) ?_) ?_) ?_) ?_) ?_
  all_goals
    refine ⟨trivial, trivial, fun ix hix => ?_⟩
    revert ix
    decide +kernel

/-- Only two words are live, and they have few positions. -/
theorem roomy_vocabulary (hix : vocabulary.indexes[260]? = some ix) (record : Nat) :
    ix.Roomy vocabulary.textsOf record := by
  have hwf : vocabulary.WellFormed :=
    (reached_vocabulary.imp fun _ _ hcall => genuine_of_indexed hcall.1).wellFormed
  have hrange : ∀ jx, vocabulary.indexes[260]? = some jx → jx.range = 257 := by decide +kernel
  have hnext : ∀ t, vocabulary.tables[257]? = some t → t.next = 3 := by decide +kernel
  by_cases hlive : vocabulary.isLive 257 record
  · obtain ⟨t, ht⟩ := hrange ix hix ▸ hwf.catalogued.range hix
    have hlt : record < 3 := by
      rw [← hnext t ht]
      exact (hwf.filled.sound ht).lt_next (isLive_of_table ht ▸ hlive)
    have hfew : ∀ r < 3, ∀ jx, vocabulary.indexes[260]? = some jx →
        jx.Roomy vocabulary.textsOf r := by decide +kernel
    exact hfew record hlt ix hix
  · intro source hsource o ho
    rw [hwf.textsOf_eq_nil hix (hrange ix hix ▸ hlive) hsource] at ho
    cases ho

/-- The index is fed through its sources alone, and its lexicon is none of them. Yet a query misses
the word that came with the note, although the word is a text of its source. -/
theorem not_matched_vocabulary :
    Reached (fun db call => call.Indexed ∧ db.KeepsTerms call ∧
        ∀ ix, (db.after call).indexes[260]? = some ix → ix.lexicon ∉ ix.sources) vocabulary ∧
      ∃ ix, vocabulary.indexes[260]? = some ix ∧ ix.tokenizer = .delimit ∧
        ix.flags.contains .withPosition ∧ ix.sources.length < 4096 ∧
          (∀ record, ix.Roomy vocabulary.textsOf record) ∧
            (∃ source ∈ ix.sources, ∃ item ∈ vocabulary.textsOf source 2, ∃ start,
              phraseAnswers .exact (Text.words "apple".toList)
                ((Text.words item.toList).drop start)) ∧
              (vocabulary.matchText ix "apple" .exact)[2]? = none := by
  have hix : vocabulary.indexes[260]? = some (vocabulary.indexes[260]?.get (by decide +kernel)) :=
    (Option.some_get _).symm
  exact ⟨reached_vocabulary, _, hix, by decide +kernel, by decide +kernel, by decide +kernel,
    roomy_vocabulary hix,
    ⟨257, by decide +kernel, "apple", by decide +kernel, 0, by decide +kernel⟩, by decide +kernel⟩

end Database

end Concordance
