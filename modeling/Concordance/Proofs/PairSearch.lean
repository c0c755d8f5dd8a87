import Concordance.Proofs.ItemPhrases
import Concordance.Proofs.PairTokens
import Mathlib.Data.Int.Interval
import Mathlib.Data.Set.Card

/-! # Searching for a part of a text

Over a lexicon of pairs, a query of printable characters finds the texts that it fits at some shift,
where a space of the query fits anything. Its score is the number of these shifts. So a query
without spaces finds exactly the texts that contain it.
-/
namespace Concordance

/-- The query fits the text when it is shifted: each of its characters other than spaces falls on
the same character. -/
def Aligned (text query : List Char) (shift : ℤ) : Prop :=
  ∀ (j : ℕ) c, query[j]? = some c → c ≠ ' ' → 0 ≤ shift + j ∧ text[(shift + j).toNat]? = some c

instance (text query : List Char) (shift : ℤ) : Decidable (Aligned text query shift) :=
  decidable_of_iff (∀ place ∈ query.zipIdx, place.1 ≠ ' ' →
      0 ≤ shift + place.2 ∧ text[(shift + place.2).toNat]? = some place.1) <| by
    constructor
    · intro h j c hc
      exact h (c, j) (List.mk_mem_zipIdx_iff_getElem?.2 hc)
    · rintro h ⟨c, j⟩ hplace
      exact h j c (List.mk_mem_zipIdx_iff_getElem?.1 hplace)

theorem ncard_eq_countP {shifts : Set ℤ} {places : List ℕ} (hnodup : places.Nodup)
    {shift : ℕ → ℤ} (hinj : shift.Injective) {p : ℕ → Bool}
    (h : ∀ d, d ∈ shifts ↔ ∃ place ∈ places, p place ∧ shift place = d) :
    shifts.ncard = places.countP p := by
  have hset : shifts = (((places.filter p).map shift).toFinset : Set ℤ) := by
    ext d
    simp [h, and_assoc]
  rw [hset, Set.ncard_coe_finset, List.toFinset_card_of_nodup ((hnodup.filter p).map hinj),
    List.length_map, List.countP_eq_length_filter]

theorem nodup_positions (tokenizer : Tokenizer) (text : String) :
    ((textTerms tokenizer text).map (·.2)).Nodup := by
  rw [textTerms, List.map_map]
  exact List.pairwise_map.2 ((tokenizer.pairwise_tokens .add text).imp Nat.ne_of_lt)

theorem lt_length_of_mem_textTerms {text : String} (htext : Text.Printable text.toList)
    {o : String × ℕ} (ho : o ∈ textTerms .bigram text) : o.2 < text.toList.length := by
  rw [textTerms, Tokenizer.tokens_printable htext] at ho
  obtain ⟨t, ht, rfl⟩ := List.mem_map.1 ho
  obtain ⟨k, c, hk, -, rfl⟩ := (Tokenizer.mem_pairTokens_add htext).1 ht
  obtain ⟨hlt, -⟩ := List.getElem?_eq_some_iff.1 hk
  simpa using hlt

section Printable
variable {query text : String} {first : Token} {rest : List Token}
  (hquery : Text.Printable query.toList) (htext : Text.Printable text.toList)
  (htokens : Tokenizer.bigram.tokens .get query = first :: rest)
include hquery htokens

theorem covers_iff {j : ℕ} {c : Char} :
    (∃ t ∈ first :: rest, t.Covers j c) ↔ query.toList[j]? = some c ∧ c ≠ ' ' := by
  have hcovers := @Tokenizer.covers_pairTokens_get false 0 query.toList hquery j c
  rw [← Tokenizer.tokens_printable hquery, htokens] at hcovers
  simpa using hcovers

theorem exists_char {t : Token} (ht : t ∈ first :: rest) :
    ∃ a, query.toList[t.position]? = some a ∧ a ≠ ' ' := by
  have hmem : t ∈ Tokenizer.pairTokens .get false 0 (query.toList.map fun c => [c]) := by
    rwa [← Tokenizer.tokens_printable hquery, htokens]
  obtain ⟨a, hchar⟩ : ∃ a, t.text.toList[0]? = some a := by
    rcases Tokenizer.of_mem_pairTokens_get hquery hmem with ⟨a, _, _, -, -, rfl⟩ | ⟨a, _, -, rfl⟩
    · exact ⟨a, by simp⟩
    · exact ⟨a, by simp⟩
  exact ⟨a, (covers_iff hquery htokens).1 ⟨t, ht, 0, hchar, rfl⟩⟩

include htext

theorem standsAt_iff_aligned (place : ℕ) :
    (∀ t ∈ first :: rest,
        t.standsAt .exact (textTerms .bigram text) (place + (t.position - first.position))) ↔
      Aligned text.toList query.toList (place - first.position) := by
  have hstands {t : Token} (ht : t ∈ first :: rest) (position : ℕ) :
      t.standsAt .exact (textTerms .bigram text) position ↔
        ∀ (k : ℕ) c, t.text.toList[k]? = some c → text.toList[position + k]? = some c := by
    rw [← htokens, Tokenizer.tokens_printable hquery] at ht
    exact Tokenizer.standsAt_printable hquery ht htext
  constructor
  · intro h j c hj hc
    obtain ⟨t, ht, k, hk, rfl⟩ := (covers_iff hquery htokens).2 ⟨hj, hc⟩
    have hle := Tokenizer.first_le_of_mem htokens ht
    have hchar := (hstands ht _).1 (h t ht) k c hk
    have hoffset : ((place : ℤ) - first.position + (t.position + k : ℕ)).toNat =
        place + (t.position - first.position) + k := by omega
    exact ⟨by omega, hoffset ▸ hchar⟩
  · intro h t ht
    have hle := Tokenizer.first_le_of_mem htokens ht
    refine (hstands ht _).2 fun k c hk => ?_
    obtain ⟨hj, hc⟩ := (covers_iff hquery htokens).1 ⟨t, ht, k, hk, rfl⟩
    have hoffset : ((place : ℤ) - first.position + (t.position + k : ℕ)).toNat =
        place + (t.position - first.position) + k := by omega
    exact hoffset ▸ (h _ c hj hc).2

/-- Where a query is aligned, its first token falls on a term of the text. -/
theorem place_of_aligned {shift : ℤ} (haligned : Aligned text.toList query.toList shift) :
    ∃ place : ℕ, place ∈ (textTerms .bigram text).map (·.2) ∧
      (place : ℤ) - first.position = shift := by
  obtain ⟨a, hquerya, ha⟩ := exists_char hquery htokens (List.mem_cons_self ..)
  obtain ⟨hle, htexta⟩ := haligned _ a hquerya ha
  refine ⟨(shift + first.position).toNat, ?_, by omega⟩
  rw [textTerms, List.map_map, Tokenizer.tokens_printable htext]
  exact List.mem_map.2 ⟨_, (Tokenizer.mem_pairTokens_add htext).2 ⟨_, a, htexta, ha, rfl⟩,
    Nat.zero_add _⟩

theorem phraseCount_eq_ncard :
    phraseCount .exact (first :: rest) (textTerms .bigram text) =
      {shift : ℤ | Aligned text.toList query.toList shift}.ncard := by
  have hnodup := nodup_positions .bigram text
  have hplaces : phraseCount .exact (first :: rest) (textTerms .bigram text) =
      ((textTerms .bigram text).map (·.2)).countP fun place : ℕ =>
        Aligned text.toList query.toList (place - first.position) := by
    rw [phraseCount, List.countP_map]
    refine List.countP_congr fun o ho => ?_
    have hfirst : first.selects .exact o.1 ↔ first.standsAt .exact (textTerms .bigram text) o.2 := by
      constructor
      · exact fun hselects => Token.standsAt_iff.2 ⟨o, ho, hselects, rfl⟩
      · intro hstands
        obtain ⟨o', ho', hselects, hposition⟩ := Token.standsAt_iff.1 hstands
        exact List.inj_on_of_nodup_map hnodup ho' ho hposition ▸ hselects
    have haligned := standsAt_iff_aligned hquery htext htokens o.2
    rw [List.forall_mem_cons, Nat.sub_self, Nat.add_zero, ← hfirst] at haligned
    simpa using haligned
  rw [hplaces]
  have hinj : (fun place : ℕ => (place - first.position : ℤ)).Injective := by
    intro a b hab
    simpa using hab
  refine (ncard_eq_countP hnodup hinj fun shift => ?_).symm
  constructor
  · intro haligned
    obtain ⟨place, hplace, rfl⟩ := place_of_aligned hquery htext htokens haligned
    exact ⟨place, hplace, decide_eq_true haligned, rfl⟩
  · rintro ⟨place, -, haligned, rfl⟩
    exact of_decide_eq_true haligned

/-- No sum of places overruns the words when the last place of the text and the last distance in the
query add up to one. Without a space in the query it is enough that the last place is a word. -/
theorem phraseOverruns_printable (hlength : text.toList.length ≤ wordMax + 1)
    (hreach : ' ' ∈ query.toList → text.toList.length + query.toList.length ≤ wordMax + 2) :
    phraseOverruns .exact (first :: rest) (textTerms .bigram text) = false := by
  by_cases hshort : text.toList.length + query.toList.length ≤ wordMax + 2
  · refine phraseOverruns_eq_false_of_le fun o ho t ht => ?_
    have hplace := lt_length_of_mem_textTerms htext ho
    obtain ⟨a, ha, -⟩ := exists_char hquery htokens ht
    obtain ⟨hdistance, -⟩ := List.getElem?_eq_some_iff.1 ha
    omega
  · have hspace : ' ' ∉ query.toList := fun hmem => hshort (hreach hmem)
    have hget : Tokenizer.bigram.tokens .get query = _ := Tokenizer.tokens_printable hquery
    rw [← htokens, hget]
    refine phraseOverruns_eq_false_of_adjacent (Tokenizer.adjacent_pairTokens ?_) ?_
    · intro c hc
      obtain ⟨a, ha, rfl⟩ := List.mem_map.1 hc
      refine Bool.eq_false_iff.2 fun hgap => hspace ?_
      rwa [← (Tokenizer.isGap_printable (hquery a ha)).1 hgap]
    · intro t ht place hstands
      -- the second character of the pair stands in the text, too
      obtain ⟨a, b, hpair⟩ := Tokenizer.exists_pair_of_mem hspace hquery (by omega) ht
      have hplaced := (Tokenizer.standsAt_printable hquery ht htext).1 hstands
      obtain ⟨hlt, -⟩ := List.getElem?_eq_some_iff.1 (hplaced 1 b (by simp [hpair]))
      omega

end Printable

/-- A query with a character other than a space fits a text at finitely many shifts. -/
theorem ncard_aligned_pos {text query : List Char} (hchar : ∃ c ∈ query, c ≠ ' ') :
    0 < {shift | Aligned text query shift}.ncard ↔ ∃ shift, Aligned text query shift := by
  refine Set.ncard_pos ?_
  obtain ⟨c, hc, hspace⟩ := hchar
  obtain ⟨j, hj⟩ := List.getElem?_of_mem hc
  refine (Set.finite_Ico (-j : ℤ) (text.length - j)).subset fun shift haligned => ?_
  obtain ⟨hpos, htext⟩ := haligned j c hj hspace
  obtain ⟨hlt, -⟩ := List.getElem?_eq_some_iff.1 htext
  exact ⟨by omega, by omega⟩

theorem exists_token {query : String} (hquery : Text.Printable query.toList)
    (hchar : ∃ c ∈ query.toList, c ≠ ' ') :
    ∃ first rest, Tokenizer.bigram.tokens .get query = first :: rest := by
  obtain ⟨c, hc, hspace⟩ := hchar
  obtain ⟨j, hj⟩ := List.getElem?_of_mem hc
  have hcovers := (@Tokenizer.covers_pairTokens_get false 0 query.toList hquery j c).2
    ⟨j, hj, hspace, (Nat.zero_add j).symm⟩
  rw [← Tokenizer.tokens_printable hquery] at hcovers
  cases htokens : Tokenizer.bigram.tokens .get query with
  | nil => simp [htokens] at hcovers
  | cons first rest => exact ⟨first, rest, rfl⟩

/-! ## Queries without spaces -/

section Spaceless
variable {text query : List Char} (hquery : query ≠ []) (hspace : ' ' ∉ query)
include hquery hspace

/-- A query without spaces is aligned where the text goes on with it. -/
theorem aligned_iff_startsWith {shift : ℤ} :
    Aligned text query shift ↔ 0 ≤ shift ∧ query <+: text.drop shift.toNat := by
  rw [List.prefix_iff_getElem?]
  constructor
  · intro h
    have hplace (j : ℕ) (hj : j < query.length) := h j query[j] (List.getElem?_eq_getElem hj)
      fun heq => hspace (heq ▸ List.getElem_mem hj)
    have hpos : 0 ≤ shift := by simpa using (hplace 0 (List.length_pos_of_ne_nil hquery)).1
    refine ⟨hpos, fun j hj => ?_⟩
    rw [List.getElem?_drop, ← (hplace j hj).2]
    congr 1
    omega
  · rintro ⟨hpos, hplace⟩ j c hj -
    obtain ⟨hlt, rfl⟩ := List.getElem?_eq_some_iff.1 hj
    refine ⟨by omega, ?_⟩
    rw [← hplace j hlt, List.getElem?_drop]
    congr 1
    omega

theorem exists_aligned_iff_contains : (∃ shift : ℤ, Aligned text query shift) ↔ query <:+: text := by
  constructor
  · rintro ⟨shift, haligned⟩
    have hprefix := ((aligned_iff_startsWith hquery hspace).1 haligned).2
    exact hprefix.isInfix.trans (List.drop_suffix ..).isInfix
  · rintro ⟨front, back, rfl⟩
    refine ⟨front.length, (aligned_iff_startsWith hquery hspace).2 ⟨by omega, back, ?_⟩⟩
    simp

/-- The shifts of a query without spaces are the places where it occurs, overlapping or not. -/
theorem ncard_aligned : {shift : ℤ | Aligned text query shift}.ncard =
    (List.range text.length).countP fun place => query.isPrefixOf (text.drop place) := by
  refine ncard_eq_countP List.nodup_range Nat.cast_injective fun shift => ?_
  rw [Set.mem_ofPred_eq, aligned_iff_startsWith hquery hspace]
  constructor
  · rintro ⟨hpos, hprefix⟩
    refine ⟨shift.toNat, List.mem_range.2 (Nat.lt_of_not_le fun hle => ?_),
      List.isPrefixOf_iff_prefix.2 hprefix, by omega⟩
    rw [List.drop_eq_nil_of_le hle] at hprefix
    exact hquery (List.prefix_nil.1 hprefix)
  · rintro ⟨place, -, hprefix, rfl⟩
    exact ⟨by omega, by simpa using List.isPrefixOf_iff_prefix.1 hprefix⟩

end Spaceless

namespace Database
variable {db : Database} {i : Nat} {ix : Index} {source record : Nat}

theorem textsOf_text {text : String} (hvalue : db.value? source record = some (.text text)) :
    db.textsOf source record = if text.isEmpty then [] else [text] := by
  obtain ⟨values, hvalues, hrecord⟩ := value?_eq_some.1 hvalue
  simp only [textsOf, hvalues, hrecord, Option.map_some, Option.getD_some]
  rfl

theorem spread_text (tokenizer : Tokenizer) (text : String) :
    spread tokenizer (if text.isEmpty then [] else [text]) 0 = textTerms tokenizer text := by
  by_cases hempty : text = ""
  · subst hempty
    cases tokenizer <;> rfl
  · have hne : text.isEmpty = false := by simpa using hempty
    simp [hne, spread, textTerms]

/-- A single text stands in the first section, with the positions that it has by itself. -/
theorem rebuilt_text (hsources : ix.sources = [source]) {text : String}
    (hvalue : db.value? source record = some (.text text))
    (hfits : ∀ o ∈ textTerms ix.tokenizer text, o.2 ≤ wordMax) :
    ix.rebuilt db.textsOf record =
      (textTerms ix.tokenizer text).map fun o => (o.1, 1, o.2) := by
  have hplaces : ix.sources.zipIdx 1 = [(source, 1)] := by rw [hsources]; rfl
  rw [Index.rebuilt, hplaces, List.flatMap_singleton, Index.contribution, textsOf_text hvalue,
    spread_text]
  refine List.map_congr_left fun o ho => ?_
  have hsat : saturate o.2 = o.2 := Nat.min_eq_left (hfits o ho)
  simp [hsat]

/-- A query of printable characters finds a single text with the number of shifts that align them.
The places of the text are words, and a query with spaces goes no further than one from the last. -/
theorem getElem?_matchText_pairs (h : Reached (LeavesToSources i) db)
    (hix : db.indexes[i]? = some ix) (htokenizer : ix.tokenizer = .bigram)
    (hflags : ix.flags.contains .withPosition) (hsources : ix.sources = [source]) {text : String}
    (hvalue : db.value? source record = some (.text text))
    (htext : Text.Printable text.toList) {query : String}
    (hlength : text.toList.length ≤ wordMax + 1)
    (hreach : ' ' ∈ query.toList → text.toList.length + query.toList.length ≤ wordMax + 2)
    (hquery : Text.Printable query.toList) (hchar : ∃ c ∈ query.toList, c ≠ ' ') :
    (db.matchText ix query .exact)[record]? =
      if 0 < {shift | Aligned text.toList query.toList shift}.ncard then
        some (hitOf [{shift | Aligned text.toList query.toList shift}.ncard])
      else none := by
  obtain ⟨first, rest, htokens⟩ := exists_token hquery hchar
  have hcount := phraseCount_eq_ncard hquery htext htokens
  have hfits : ∀ o ∈ textTerms ix.tokenizer text, o.2 ≤ wordMax := by
    intro o ho
    have hplace := lt_length_of_mem_textTerms htext (htokenizer ▸ ho)
    omega
  have hplain : wrappedCount .exact (first :: rest) (textTerms .bigram text) =
      phraseCount .exact (first :: rest) (textTerms .bigram text) :=
    wrappedCount_eq_phraseCount (phraseOverruns_printable hquery htext htokens hlength hreach)
  have hheld := rebuilt_text hsources hvalue hfits
  obtain ⟨lexicon, hlexicon, hholds⟩ := (h.maintainedFor record).holds h.wellFormed_of_sources hix
  have hone : ([1] : List ℕ).Nodup := by decide
  have hsecs : ∀ o ∈ ix.rebuilt db.textsOf record, o.2.1 ∈ [1] := by
    intro o ho
    rw [hheld] at ho
    obtain ⟨o, -, rfl⟩ := List.mem_map.1 ho
    simp
  have hneat := h.wellFormed_of_sources.posted.neat hix
  have hmatch := Index.getElem?_matchText hholds hneat hflags .exact
    (by rw [htokenizer, htokens]; simp) hone hsecs
  rw [hheld] at hmatch
  simp only [List.map_cons, List.map_nil, inSection_map, if_true, total_cons, total_nil,
    Nat.add_zero, htokenizer, htokens, hplain, hcount] at hmatch
  simp only [matchText, hlexicon, hmatch]

/-- Over a lexicon of pairs a query of printable characters finds a text that it fits at some
shift, once for each of these shifts. A query without spaces finds the texts that contain it. The
places of the text are words, and for a query with spaces so is every place that it looks at. -/
theorem matchText_pairs (h : Reached (LeavesToSources i) db) (hix : db.indexes[i]? = some ix)
    (htokenizer : ix.tokenizer = .bigram) (hflags : ix.flags.contains .withPosition)
    (hsources : ix.sources = [source]) {text : String}
    (hvalue : db.value? source record = some (.text text))
    (htext : Text.Printable text.toList) {query : String}
    (hlength : text.toList.length ≤ wordMax + 1)
    (hreach : ' ' ∈ query.toList → text.toList.length + query.toList.length ≤ wordMax + 2)
    (hquery : Text.Printable query.toList) (hchar : ∃ c ∈ query.toList, c ≠ ' ') :
    let found := db.matchText ix query .exact
    (found.contains record ↔ ∃ shift, Aligned text.toList query.toList shift) ∧
      (∀ hit, found[record]? = some hit →
        hit.score = {shift | Aligned text.toList query.toList shift}.ncard) ∧
      (' ' ∉ query.toList →
        (found.contains record ↔ query.toList <:+: text.toList) ∧
          ∀ hit, found[record]? = some hit → hit.score =
            (List.range text.toList.length).countP fun place =>
              query.toList.isPrefixOf (text.toList.drop place)) := by
  intro found
  have hfound := getElem?_matchText_pairs h hix htokenizer hflags hsources hvalue htext hlength
    hreach hquery hchar
  have hcontains : found.contains record ↔ ∃ shift, Aligned text.toList query.toList shift :=
    (contains_iff_of_getElem? hfound).trans (ncard_aligned_pos hchar)
  have hscore : ∀ hit, found[record]? = some hit →
      hit.score = {shift | Aligned text.toList query.toList shift}.ncard := by
    intro hit hhit
    rw [eq_of_getElem? hfound hhit, hitOf, total_cons, total_nil, Nat.add_zero]
  refine ⟨hcontains, hscore, fun hspace => ?_⟩
  have hne : query.toList ≠ [] := by
    obtain ⟨c, hc, -⟩ := hchar
    exact List.ne_nil_of_mem hc
  refine ⟨hcontains.trans (exists_aligned_iff_contains hne hspace), fun hit hhit => ?_⟩
  rw [hscore hit hhit, ncard_aligned hne hspace]

/-- The banana, where "ana" overlaps itself. -/
theorem matchText_pairs_letters : ∃ ix, letters.indexes[259]? = some ix ∧
    ∃ hit, (letters.matchText ix "ana" .exact)[2]? = some hit ∧ hit.score = 2 := by
  have hix : letters.indexes[259]? = some (letters.indexes[259]?.get (by decide +kernel)) :=
    (Option.some_get _).symm
  refine ⟨_, hix, ?_⟩
  have hreached := reached_letters.imp fun _ _ h => h.leavesToSources 259
  have hvalue : letters.value? 258 2 = some (.text "a banana") := by
    have hread : (letters.value? 258 2).bind (·.toText.toOption) = some "a banana" := by
      decide +kernel
    obtain ⟨v, hv, htext⟩ := Option.bind_eq_some_iff.1 hread
    rw [hv, Json.eq_text_of_toText htext]
  have htext : Text.Printable "a banana".toList := by decide +kernel
  have hquery : Text.Printable "ana".toList := by decide +kernel
  obtain ⟨-, -, hspaceless⟩ := matchText_pairs hreached hix (by decide +kernel) (by decide +kernel)
    (by decide +kernel) hvalue htext (by decide +kernel) (by decide +kernel) hquery ⟨'a', by decide +kernel, by decide⟩
  obtain ⟨hfound, hscore⟩ := hspaceless (by decide +kernel)
  have hcontains := hfound.2 (by decide +kernel)
  rw [Std.ExtTreeMap.contains_eq_isSome_getElem?, Option.isSome_iff_exists] at hcontains
  obtain ⟨hit, hhit⟩ := hcontains
  exact ⟨hit, hhit, (hscore hit hhit).trans (by decide +kernel)⟩

end Database

end Concordance
