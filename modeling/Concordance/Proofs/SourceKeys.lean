import Concordance.Proofs.SourceIndexes

/-! # Keys of a source

An index may list its range as a source of its own, for the keys there. A key reaches the index when
it is entered and when the range is listed, but not when some index takes it for a term and adds it
to its lexicon. Every other key stays posted, whatever happens to the keys around it.
-/
namespace Concordance.Database
variable {db db' : Database} {i record : Nat} {ix : Index}

theorem GivenOut.of_recordKey? (h : db.WellFormed) {table : Nat} {key : String}
    (hkey : db.recordKey? table record = some key) : db.GivenOut table record := by
  intro t ht
  have hkey' : t.key? record = some key := by simpa [recordKey?, ht] using hkey
  have hsound := h.filled.sound ht
  exact hsound.lt_next (hsound.live_of_key hkey')

/-- A live record of a table without its key is in no lexicon. -/
theorem WellFormed.lexicon_ne_of_recordKey? (h : db.WellFormed) {table : Nat}
    (hlive : db.isLive table record) (hkey : db.recordKey? table record = none)
    (hix : db.indexes[i]? = some ix) : ix.lexicon ≠ table := by
  rintro rfl
  obtain ⟨t, ht, hhas⟩ := h.catalogued.lexicon_table hix
  rw [isLive_of_table ht] at hlive
  obtain ⟨key, hkey'⟩ := (h.filled.sound ht).keyed hhas hlive
  simp [recordKey?, ht, hkey'] at hkey

/-! ## Records that are gone -/

/-- The sources of an index hold no text for a record that is not live in the range. -/
theorem WellFormed.textsOf_eq_nil (h : db.WellFormed) (hix : db.indexes[i]? = some ix)
    (hdead : ¬ db.isLive ix.range record) {source : Nat} (hsource : source ∈ ix.sources) :
    db.textsOf source record = [] := by
  rcases checkSource_eq_ok.1 (h.catalogued.source hix source hsource) with
    ⟨valueType, hkind⟩ | ⟨rfl, kind, keyType, tokenizer, hkind⟩
  · have hnone : db.value? source record = none := by
      refine Option.eq_none_iff_forall_ne_some.2 fun v hv => hdead ?_
      obtain ⟨table, valueType', hkind', hlive, -⟩ := h.filled.value hv
      rw [hkind] at hkind'
      cases hkind'
      exact hlive
    exact textsOf_of_value_none h.catalogued hkind hnone
  · obtain ⟨t, ht⟩ := (h.catalogued.tableData hkind).1
    have hnone : t.key? record = none := by
      refine Option.eq_none_iff_forall_ne_some.2 fun key hkey => hdead ?_
      rw [isLive_of_table ht]
      exact (h.filled.sound ht).live_of_key hkey
    rw [h.catalogued.textsOf_table ht, hnone]
    rfl

theorem WellFormed.maintainedFor_of_not_live (h : db.WellFormed)
    (hix : db.indexes[i]? = some ix) (hdead : ¬ db.isLive ix.range record) :
    db.MaintainedFor i record := by
  intro t s q
  have hproduced : db.producedAt i t record s q = 0 := by
    simp only [producedAt, yieldAt, hix]
    exact Index.yield_eq_zero (fun place hp =>
      h.textsOf_eq_nil hix hdead (List.fst_mem_of_mem_zipIdx hp)) t s q
  have hstored : db.storedAt i t record s q = 0 := by
    rw [storedAt_eq hix, stored]
    split
    · refine List.count_eq_zero.2 fun hq => hdead (h.posted.live hix hq).1
    · rfl
  rw [hproduced, hstored]

/-! ## Records that stay -/

/-- The call brings the key of the record into the range that the index lists, as a term of some
index and not as the key of a record that it enters. -/
def TakesAsTerm (db : Database) (i record : Nat) (call : Call) : Prop :=
  ∃ ix ∈ (db.after call).indexes[i]?, ix.range ∈ ix.sources ∧
    db.recordKey? ix.range record = none ∧ (db.after call).recordKey? ix.range record ≠ none ∧
      ¬ db.Enters ix.range record call

instance (db : Database) (table record : Nat) : (call : Call) →
    Decidable (db.Enters table record call)
  | .addRecordWithKey target key _ =>
    match h : (db.addRecordWithKey target key).1 with
    | .ok id => decidable_of_iff (target = table ∧ id = record) (by simp [Enters, h])
    | .error e => .isFalse fun ⟨_, hok⟩ => by cases h.symm.trans hok
  | .createTable .. | .defineColumn .. | .defineIndex .. | .addRecord .. | .setValue ..
  | .deleteRecord .. | .setSourceInfo .. | .indexUpdate .. | .removeObject .. | .reopen .. =>
    .isFalse id

instance (db : Database) (i record : Nat) (call : Call) :
    Decidable (db.TakesAsTerm i record call) :=
  inferInstanceAs (Decidable (∃ ix ∈ (db.after call).indexes[i]?, _ ∧ _))

/-- A key that is there already, or is entered, is not added by feeding. -/
theorem WellFormed.settled_of_live (h : db.WellFormed) {call : Call}
    (h' : (db.after call).WellFormed) (hix : (db.after call).indexes[i]? = some ix)
    (hlive : (db.after call).isLive ix.range record) (htakes : ¬ db.TakesAsTerm i record call) :
    (db.after call).Settled (db.Knows call) i record := by
  intro jx hjx s hs t ht
  obtain rfl := Option.some.inj (hix.symm.trans hjx)
  obtain rfl : s = ix.range := h'.catalogued.eq_of_checkSource ht (h'.catalogued.source hix s hs)
  cases hbefore : db.recordKey? ix.range record with
  | some key => exact .inr (.inl (.of_recordKey? h hbefore))
  | none =>
    cases hafter : (db.after call).recordKey? ix.range record with
    | none => exact .inl fun j kx hkx => h'.lexicon_ne_of_recordKey? hlive hafter hkx
    | some key =>
      refine .inr (.inr (Classical.byContradiction fun henters => htakes ?_))
      exact ⟨ix, hix, hs, hbefore, by simp [hafter], henters⟩

/-- A call that keeps the key of a record posted in an index: it brings the index no texts of its
own, keeps its terms, reopens nothing but what was saved, and does not take the key for a term. -/
def KeepsKey (i record : Nat) (db : Database) (call : Call) : Prop :=
  ¬ call.Updates i ∧ db.Genuine call ∧ db.KeepsTermsOf i call ∧ ¬ db.TakesAsTerm i record call

theorem KeepsTerms.keepsKey {call : Call} (h : db.KeepsTerms call) (hindexed : call.Indexed)
    (htakes : ¬ db.TakesAsTerm i record call) : KeepsKey i record db call :=
  ⟨hindexed.not_updates i, genuine_of_indexed hindexed, h.keepsTermsOf i, htakes⟩

theorem Reached.maintainedFor_of_keepsKey (h : Reached (KeepsKey i record) db) :
    db.WellFormed ∧ db.MaintainedFor i record := by
  have hgenuine : ∀ db call, KeepsKey i record db call → db.Genuine call := fun _ _ hkeeps =>
    hkeeps.2.1
  refine ⟨(h.imp hgenuine).wellFormed, ?_⟩
  induction h with
  | new => exact maintainedFor_new i record
  | @after db call hreached hcall ih =>
    have hwf := (hreached.imp hgenuine).wellFormed
    have hwf' := ((Reached.after call hreached hcall).imp hgenuine).wellFormed
    obtain ⟨hupdates, hgen, hkeeps, htakes⟩ := hcall
    cases hix : (db.after call).indexes[i]? with
    | none =>
      intro t s q
      simp only [storedAt, producedAt, yieldAt, hix]
    | some ix =>
      by_cases hlive : (db.after call).isLive ix.range record
      · exact ih.after hwf hupdates hgen hkeeps (hwf.settled_of_live hwf' hix hlive htakes)
      · exact hwf'.maintainedFor_of_not_live hix hlive

/-! ## Keys that stay posted -/

theorem MaintainedFor.mem_positions (h : db.MaintainedFor i record) (hix : db.indexes[i]? = some ix)
    {term : String} {sec position : Nat}
    (hmem : (term, sec, position) ∈ ix.rebuilt db.textsOf record) :
    ∃ id, db.recordId? ix.lexicon term = some id ∧
      position ∈ ix.postings.positions id record sec := by
  have hpos := List.count_pos_iff.2 hmem
  rw [← producedAt_eq_count hix, ← h, storedAt_eq hix, stored] at hpos
  split at hpos
  · exact ⟨_, ‹_›, List.count_pos_iff.1 hpos⟩
  · cases hpos

theorem mem_contribution_key (ix : Index) (n : Nat) {key : String} {token : Token}
    (htoken : token ∈ ix.tokenizer.tokens .add key) :
    (token.text, if ix.flags.contains .withSection then (n, saturate token.position)
      else (1, saturate ((n - 1) * sectionSpan + token.position))) ∈ ix.contribution n [key] := by
  simp only [Index.contribution, spread, List.append_nil, List.map_map, List.mem_map]
  refine ⟨token, htoken, ?_⟩
  simp only [Function.comp_apply, Nat.zero_add]
  split <;> rfl

/-- Every token of a key that was not taken for a term is posted, in the section and at the position
of the place at which the index lists its range. -/
theorem key_posted (h : Reached (KeepsKey i record) db) (hix : db.indexes[i]? = some ix) {n : Nat}
    (hplace : (ix.range, n) ∈ ix.sources.zipIdx 1) {key : String}
    (hkey : db.recordKey? ix.range record = some key) {token : Token}
    (htoken : token ∈ ix.tokenizer.tokens .add key) :
    ∃ id, db.recordId? ix.lexicon token.text = some id ∧
      if ix.flags.contains .withSection then
        saturate token.position ∈ ix.postings.positions id record n
      else
        saturate ((n - 1) * sectionSpan + token.position) ∈ ix.postings.positions id record 1 := by
  obtain ⟨hwf, hmaintained⟩ := h.maintainedFor_of_keepsKey
  obtain ⟨t, ht⟩ := hwf.catalogued.range hix
  have hkey' : t.key? record = some key := by simpa [recordKey?, ht] using hkey
  have htexts : db.textsOf ix.range record = [key] := by
    rw [hwf.catalogued.textsOf_table ht, hkey']
    rfl
  have hrebuilt : (token.text, if ix.flags.contains .withSection then (n, saturate token.position)
      else (1, saturate ((n - 1) * sectionSpan + token.position))) ∈
        ix.rebuilt db.textsOf record := by
    refine List.mem_flatMap.2 ⟨(ix.range, n), hplace, ?_⟩
    rw [htexts]
    exact mem_contribution_key ix n htoken
  split at hrebuilt
  · simpa only [*, if_true] using hmaintained.mem_positions hix hrebuilt
  · simpa only [*, Bool.false_eq_true, if_false] using hmaintained.mem_positions hix hrebuilt

/-- Words that are an index's terms and another one's records: the first was entered as a key, the
second came with a note. -/
def glossary : Database :=
  ((((((((new.after (.createTable (some "Letters") ⟨.hash, some .shortText, .delimit⟩)).after
    (.createTable (some "Words") ⟨.hash, some .shortText, .delimit⟩)).after
    (.createTable (some "Notes") ⟨.array, none, .whole⟩)).after
    (.defineColumn 258 "body" .text)).after
    (.defineIndex 256 "words" 257 ⟨.none, ["Words"]⟩)).after
    (.defineIndex 257 "notes" 258 ⟨.none, ["Notes.body"]⟩)).after
    (.addRecordWithKey 257 "pear")).after
    (.addRecord 258)).after
    (.setValue 259 1 (.text "apple pear"))

theorem reached_glossary : Reached (fun db call => call.Indexed ∧ db.KeepsTerms call ∧
    ¬ db.TakesAsTerm 260 1 call) glossary := by
  refine .after _ (.after _ (.after _ (.after _ (.after _ (.after _ (.after _ (.after _ (.after _
    .new ?_) ?_) ?_) ?_) ?_) ?_) ?_) ?_) ?_
  all_goals exact ⟨trivial, trivial, by decide +kernel⟩

theorem key_posted_glossary : ∃ ix id, glossary.indexes[260]? = some ix ∧
    glossary.recordKey? ix.range 1 = some "pear" ∧ glossary.recordId? ix.lexicon "pear" = some id ∧
      0 ∈ ix.postings.positions id 1 1 := by
  have hreached : Reached (KeepsKey 260 1) glossary :=
    reached_glossary.imp fun _ _ ⟨hindexed, hkeeps, htakes⟩ => hkeeps.keepsKey hindexed htakes
  have hix : glossary.indexes[260]? = some (glossary.indexes[260]?.get (by decide +kernel)) :=
    (Option.some_get _).symm
  have hkey : glossary.recordKey? (glossary.indexes[260]?.get (by decide +kernel)).range 1 =
      some "pear" := by decide +kernel
  have htoken : ⟨"pear", 0, false⟩ ∈
      (glossary.indexes[260]?.get (by decide +kernel)).tokenizer.tokens .add "pear" := by
    decide +kernel
  obtain ⟨id, hid, hposted⟩ := key_posted hreached hix (n := 1) (by decide +kernel) hkey htoken
  rw [if_neg (by decide +kernel)] at hposted
  exact ⟨_, id, hix, hkey, hid, hposted⟩

/-- The key that came with the note is live and has a token, which is not even a term. -/
theorem term_not_posted_glossary :
    Reached (fun db call => call.Indexed ∧ db.KeepsTerms call) glossary ∧
      ∃ ix, glossary.indexes[260]? = some ix ∧ (ix.range, 1) ∈ ix.sources.zipIdx 1 ∧
        glossary.isLive ix.range 2 ∧ glossary.recordKey? ix.range 2 = some "apple" ∧
          ⟨"apple", 0, false⟩ ∈ ix.tokenizer.tokens .add "apple" ∧
            glossary.recordId? ix.lexicon "apple" = none := by
  have hix : glossary.indexes[260]? = some (glossary.indexes[260]?.get (by decide +kernel)) :=
    (Option.some_get _).symm
  exact ⟨reached_glossary.imp fun _ _ hkeeps => ⟨hkeeps.1, hkeeps.2.1⟩, _, hix, by decide +kernel,
    by decide +kernel, by decide +kernel, by decide +kernel, by decide +kernel⟩

end Concordance.Database
