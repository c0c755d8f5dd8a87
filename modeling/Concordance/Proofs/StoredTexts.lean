import Concordance.Proofs.Buffers
import Concordance.Proofs.ItemPhrases
import Concordance.Proofs.Matching
import Concordance.Proofs.PairRuns
import Concordance.Proofs.Reopening
import Concordance.Proofs.Revisions

/-! # A stored text finds its record

What a text is taken apart into when it is looked up is among what it is taken apart into when it is
stored, at the same positions. The change of a value ends with the new texts at the last place of
their column, and nothing comes after them there. So a text that has just been stored finds its
record, whatever was stored before.
-/
namespace Concordance

/-! ## A text and its own tokens -/

theorem Token.selects_text (token : Token) : token.selects .exact token.text := by
  simp [selects, Table.startsWith_iff]

namespace Tokenizer

theorem exists_add_of_mem_tokens {tokenizer : Tokenizer} {text : String} {token : Token}
    (htoken : token ∈ tokenizer.tokens .get text) :
    ∃ t ∈ tokenizer.tokens .add text, t.text = token.text ∧ t.position = token.position := by
  obtain ⟨hall, hsize⟩ := List.mem_filter.1 htoken
  have hadd : ∃ t ∈ tokenizer.allTokens .add text,
      t.text = token.text ∧ t.position = token.position := by
    cases tokenizer with
    | whole => exact ⟨token, hall, rfl, rfl⟩
    | delimit => exact ⟨token, hall, rfl, rfl⟩
    | bigram =>
      simp only [allTokens, bigrams_eq_pairTokens] at hall ⊢
      exact ⟨_, mem_pairTokens_add_of_get hall, rfl, rfl⟩
  obtain ⟨t, ht, htext, hposition⟩ := hadd
  exact ⟨t, List.mem_filter.2 ⟨ht, by rwa [htext]⟩, htext, hposition⟩

end Tokenizer

theorem occursIn_self (tokenizer : Tokenizer) (text : String) :
    OccursIn .exact (tokenizer.tokens .get text) tokenizer text := by
  cases htokens : tokenizer.tokens .get text with
  | nil => exact ⟨0, fun token htoken => absurd htoken List.not_mem_nil⟩
  | cons first rest =>
    refine ⟨first.position, fun token htoken => ?_⟩
    obtain ⟨t, ht, htext, hposition⟩ := Tokenizer.exists_add_of_mem_tokens (htokens ▸ htoken)
    have hfirst := Tokenizer.first_le_of_mem htokens htoken
    refine ⟨t, ht, htext ▸ token.selects_text, ?_⟩
    simp only [List.head?_cons, Option.map_some, Option.getD_some]
    omega

/-! ## Texts that are held -/

/-- More terms take no place of a query away. -/
theorem wrappedCount_pos_of_subset {mode : SearchMode} {tokens : List Token}
    {held held' : List (String × Nat)} (hsub : held ⊆ held')
    (h : 0 < wrappedCount mode tokens held) : 0 < wrappedCount mode tokens held' := by
  cases tokens with
  | nil => cases h
  | cons first rest =>
    obtain ⟨o, ho, hplace⟩ := List.countP_pos_iff.1 h
    refine List.countP_pos_iff.2 ⟨o, hsub ho, ?_⟩
    simp only [Bool.and_eq_true, List.all_eq_true, Token.standsAt_iff] at hplace ⊢
    refine ⟨hplace.1, fun token htoken => ?_⟩
    obtain ⟨o', ho', hstands⟩ := hplace.2 token htoken
    exact ⟨o', hsub ho', hstands⟩

theorem exists_textTerms_spread (tokenizer : Tokenizer) {texts : List String} {text : String}
    (htext : text ∈ texts) (start : Nat) : ∃ base,
      (textTerms tokenizer text).map (fun o => (o.1, base + o.2)) ⊆
        spread tokenizer texts start := by
  induction texts generalizing start with
  | nil => cases htext
  | cons first rest ih =>
    rcases List.mem_cons.1 htext with rfl | hrest
    · refine ⟨start, ?_⟩
      rw [textTerms, List.map_map]
      exact List.subset_append_left _ _
    · obtain ⟨base, hbase⟩ := ih hrest _
      exact ⟨base, List.subset_append_of_subset_right _ hbase⟩

theorem sectionScore_pos_of_wrappedCount_pos {mode : SearchMode} {tokens : List Token}
    {held : List (String × Nat)} (h : 0 < wrappedCount mode tokens held) (phrase : Bool) :
    0 < sectionScore phrase mode tokens held := by
  cases phrase with
  | true => exact h
  | false =>
    cases tokens with
    | nil => cases h
    | cons first rest =>
      obtain ⟨position, hposition⟩ := standsAt_of_wrappedCount_pos h (List.mem_cons_self ..)
      obtain ⟨o, ho, hselects, -⟩ := Token.standsAt_iff.1 hposition
      rw [sectionScore, if_neg Bool.false_ne_true, total_pos]
      exact ⟨_, List.mem_map_of_mem (List.mem_cons_self ..),
        List.countP_pos_iff.2 ⟨o, ho, hselects⟩⟩

theorem Index.mem_matchText_of_wrappedCount {ix : Index} {lexicon : Table} {record : RecordId}
    {held : List (String × Nat × Nat)} (h : Holds lexicon ix.postings record held)
    (hn : ix.postings.Neat) {text : String} {mode : SearchMode} {sec : Nat}
    (hpos : 0 < wrappedCount mode (ix.tokenizer.tokens .get text) (inSection held sec)) :
    record ∈ ix.matchText lexicon text mode := by
  have hnodup := List.nodup_dedup (held.map (·.2.1))
  have hsecs : ∀ o ∈ held, o.2.1 ∈ (held.map (·.2.1)).dedup :=
    fun o ho => List.mem_dedup.2 (List.mem_map_of_mem ho)
  have hmatch := getElem?_matchText_of_holds h hn text mode hnodup hsecs
  have hscore := sectionScore_pos_of_wrappedCount_pos hpos
  dsimp only at hmatch
  generalize ix.tokenizer.tokens .get text = tokens at hpos hmatch hscore
  have hstands : ∀ token ∈ tokens, ∃ o ∈ held, o.2.1 = sec ∧ token.selects mode o.1 := by
    intro token htoken
    obtain ⟨position, hposition⟩ := standsAt_of_wrappedCount_pos hpos htoken
    obtain ⟨o, ho, hselects, -⟩ := Token.standsAt_iff.1 hposition
    obtain ⟨o', ho', rfl⟩ := List.mem_map.1 ho
    obtain ⟨hmem, hsec⟩ := List.mem_filter.1 ho'
    exact ⟨o', hmem, of_decide_eq_true hsec, hselects⟩
  have htokens : tokens ≠ [] := by
    rintro rfl
    cases hpos
  have hsec : sec ∈ (held.map (·.2.1)).dedup := by
    obtain ⟨first, hfirst⟩ := List.exists_mem_of_ne_nil tokens htokens
    obtain ⟨o, ho, hsec, -⟩ := hstands first hfirst
    exact hsec ▸ hsecs o ho
  have hfound : ∀ token ∈ tokens, ∃ o ∈ held, token.selects mode o.1 := by
    intro token htoken
    obtain ⟨o, ho, -, hselects⟩ := hstands token htoken
    exact ⟨o, ho, hselects⟩
  rw [if_pos ⟨htokens, hfound, total_pos.2 ⟨_, List.mem_map_of_mem hsec, hscore _⟩⟩] at hmatch
  exact Std.ExtTreeMap.mem_iff_isSome_getElem?.2 (by rw [hmatch]; rfl)

/-- A text of a value that an index holds at a place finds the record. -/
theorem Index.mem_matchText_of_contribution {ix : Index} {lexicon : Table} {record : RecordId}
    (hn : ix.postings.Neat) {n : Nat} (hcount : n < 4096) {texts : List String}
    (hroom : ∀ o ∈ spread ix.tokenizer texts 0, o.2 < sectionSpan - 2)
    (hheld : ∀ t s q, (t, s, q) ∈ ix.contribution n texts →
      0 < tally lexicon ix.postings t record s q) {text : String} (htext : text ∈ texts)
    (htokens : ix.tokenizer.tokens .get text ≠ []) :
    record ∈ ix.matchText lexicon text .exact := by
  have h := holds_heldOf lexicon ix.postings record
  have hown := (phraseCount_pos_iff htokens).2 (occursIn_self ix.tokenizer text)
  obtain ⟨base, hbase⟩ := exists_textTerms_spread ix.tokenizer htext 0
  let start := if ix.flags.contains .withSection then 0 else (n - 1) * sectionSpan
  have hsub : (textTerms ix.tokenizer text).map (fun o => (o.1, start + base + o.2)) ⊆
      inSection (heldOf lexicon ix.postings record) (ix.place n).1 := by
    intro o' ho'
    obtain ⟨o, ho, rfl⟩ := List.mem_map.1 ho'
    have hplace : (o.1, (ix.place n).1, start + (base + o.2)) ∈ ix.contribution n texts := by
      rw [contribution_of_lt hcount hroom]
      exact List.mem_map_of_mem (hbase (List.mem_map_of_mem ho))
    have hpos := hheld _ _ _ hplace
    rw [h, ← count_inSection, ← Nat.add_assoc] at hpos
    exact List.count_pos_iff.1 hpos
  have hfits : ∀ o ∈ (textTerms ix.tokenizer text).map (fun o => (o.1, start + base + o.2)),
      o.2 ≤ wordMax := by
    intro o' ho'
    obtain ⟨o, ho, rfl⟩ := List.mem_map.1 ho'
    have hlt : base + o.2 < sectionSpan - 2 := hroom _ (hbase (List.mem_map_of_mem ho))
    have hstart : start ≤ (n - 1) * sectionSpan := by
      simp only [start]
      split <;> omega
    simp only [sectionSpan, wordMax] at hlt hstart ⊢
    omega
  rw [← phraseCount_shift (start + base)] at hown
  have hplaced := Nat.lt_of_lt_of_le hown (phraseCount_le_wrappedCount hfits)
  exact mem_matchText_of_wrappedCount h hn (wrappedCount_pos_of_subset hsub hplaced)

namespace Database
variable {db db' : Database} {column record i : Nat} {ix : Index}

/-- What the new texts yield at the last place of their column is there when they have been stored,
whatever was there. -/
theorem WellFormed.storedAt_last (h : db.WellFormed) {v : Json} {texts : List String}
    (hcall : db.setValue column record v = (.ok (), db')) (htexts : v.indexTexts = .ok texts)
    (hix : db.indexes[i]? = some ix) (hsource : column ∈ ix.sources) :
    ∃ sec ∈ ix.placesOf column, ∀ t s q,
      (ix.contribution sec texts).count (t, s, q) ≤ db'.storedAt i t record s q := by
  have hne : ix.placesOf column ≠ [] := fun hnone => Index.placesOf_eq_nil.1 hnone hsource
  obtain ⟨front, sec, hplaces⟩ := (List.eq_nil_or_concat _).resolve_left hne
  refine ⟨sec, by simp [hplaces], fun t s q => ?_⟩
  -- Nothing is taken out after the last place has been given the new texts.
  rw [h.storedAt_setValue hcall htexts hix, hplaces, List.concat_eq_append, List.map_append,
    List.foldl_append]
  simp only [List.map_cons, List.map_nil, List.foldl_cons, List.foldl_nil, Delta.effect,
    Delta.given, if_true, Index.share_eq_count]
  exact Nat.le_add_left ..

theorem WellFormed.lexicon_ne_nilId (h : db.WellFormed) (hix : db.indexes[i]? = some ix) :
    ix.lexicon ≠ nilId := by
  obtain ⟨kind, keyType, hkind, -⟩ := lexiconTokenizer_eq_ok.1 (h.catalogued.lexicon hix)
  obtain ⟨info, hinfo, htable⟩ := Option.map_eq_some_iff.1 hkind
  have hle := h.catalogued.user_le hinfo (by simp [ObjectInfo.isType, htable])
  exact Nat.ne_of_gt (Nat.lt_of_lt_of_le (by decide) hle)

theorem WellFormed.matchesOf_append (h : db.WellFormed) (hix : db.indexes[i]? = some ix)
    {b : Buffer} (hempty : b.IsEmpty) (hdomain : b.domain = nilId) (text : String)
    (flags : ResultFlags) (mode : SearchMode) :
    db.matchesOf ix flags mode (.buffer (b.append text)) = .ok (db.matchText ix text mode) := by
  have hdomain' : (b.append text).domain = nilId := hdomain
  have hne := (h.lexicon_ne_nilId hix).symm
  simp [matchesOf, matchBuffer, hdomain', hne, hempty.text_append]

/-- Right after a value has been stored, each of its texts finds the record in every index that its
column feeds, however the index came to hold what it held before. Sums of places wrap around; a build
that checks them finds the record unless other places of the query overrun the words. -/
theorem mem_matchText_of_setValue (h : Reached OwnFiles db) {v : Json} {texts : List String}
    (hok : (db.setValue column record v).1 = .ok ()) (htexts : v.indexTexts = .ok texts)
    (hix : (db.after (.setValue column record v)).indexes[i]? = some ix)
    (hsource : column ∈ ix.sources) (hcount : ix.sources.length < 4096)
    (hroom : ∀ o ∈ spread ix.tokenizer texts 0, o.2 < sectionSpan - 2) {text : String}
    (htext : text ∈ texts) (htokens : ix.tokenizer.tokens .get text ≠ []) :
    record ∈ (db.after (.setValue column record v)).matchText ix text .exact ∧
      (∀ found, (db.after (.setValue column record v)).checkedMatchText ix text .exact =
        some found → record ∈ found) ∧
      ∀ result, result.keyTable = ix.range →
        ∃ merged, (db.after (.setValue column record v)).search i
            (.buffer ((Buffer.empty nilId false).append text)) result .or .exact = .ok merged ∧
          record ∈ merged.records := by
  have hwf := h.wellFormed_of_ownFiles
  have hwf' : (db.after (.setValue column record v)).WellFormed := hwf.after trivial
  have hcall : db.setValue column record v = (.ok (), db.after (.setValue column record v)) :=
    Prod.ext hok rfl
  revert hcall hwf' hix
  generalize db.after (.setValue column record v) = db'
  intro hix hwf' hcall
  obtain ⟨jx, hjx, hframe⟩ := index_of_frames (hwf.revised_setValue hcall).frame hix
  obtain ⟨-, -, hflags, htokenizer, hsources⟩ := Index.frame_eq_iff.1 hframe
  obtain ⟨sec, hplace, hheld⟩ := hwf.storedAt_last hcall htexts hjx (hsources ▸ hsource)
  obtain ⟨lexicon, hlexicon, -⟩ := hwf'.catalogued.lexicon_table hix
  have hn : sec < 4096 := by
    rw [Index.placesOf_of_frame hframe] at hplace
    exact Nat.lt_of_le_of_lt (Index.mem_places (Index.mem_placesOf.1 hplace)).2.2 hcount
  have hcontribution : jx.contribution sec texts = ix.contribution sec texts := by
    simp only [Index.contribution, hflags, htokenizer]
  have hmem : record ∈ db'.matchText ix text .exact := by
    simp only [matchText, hlexicon]
    refine Index.mem_matchText_of_contribution (hwf'.posted.neat hix) hn hroom ?_ htext htokens
    intro t s q ho
    rw [← stored_eq_tally ix hlexicon, ← storedAt_eq hix]
    rw [hcontribution] at hheld
    exact Nat.lt_of_lt_of_le (List.count_pos_iff.2 ho) (hheld t s q)
  refine ⟨hmem, fun found hfound => matchText_of_checked hfound ▸ hmem, fun result hkey => ?_⟩
  rw [search_of_get hix, if_neg (not_not_intro hkey), hwf'.matchesOf_append hix
    (Buffer.isEmpty_empty nilId false) rfl]
  refine ⟨_, rfl, ?_⟩
  rw [Std.ExtTreeMap.mem_iff_isSome_getElem?] at hmem ⊢
  rw [ResultTable.getElem?_merge]
  obtain ⟨hit, hhit⟩ := Option.isSome_iff_exists.1 hmem
  simp [ResultTable.mergeHit, hhit]

/-- The note whose words included a deleted term finds its new words, that term among them. -/
theorem mem_matchText_of_setValue_notes :
    let forgetful := notes.after (.deleteRecord 256 2)
    let call := Call.setValue 259 1 (.array [.text "not", .null, .text "to be"])
    ∃ ix, (forgetful.after call).indexes[260]? = some ix ∧ ix.sources = [258, 259] ∧
      (1 : RecordId) ∈ (forgetful.after call).matchText ix "to be" .exact ∧
        (1 : RecordId) ∉ forgetful.matchText ix "to be" .exact := by
  intro forgetful call
  have hreached : Reached OwnFiles forgetful := .after _ reached_ownFiles_notes trivial
  have hix : (forgetful.after call).indexes[260]? =
      some ((forgetful.after call).indexes[260]?.get (by decide +kernel)) :=
    (Option.some_get _).symm
  refine ⟨_, hix, by decide +kernel, ?_, by decide +kernel⟩
  have htexts : (Json.array [.text "not", .null, .text "to be"]).indexTexts =
      .ok ["not", "", "to be"] := by decide +kernel
  exact (mem_matchText_of_setValue hreached (by decide +kernel) htexts hix (by decide +kernel)
    (by decide +kernel) (by decide +kernel) (by decide +kernel) (by decide +kernel)).1

end Database
end Concordance
