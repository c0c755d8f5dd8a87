import Concordance.Proofs.Matching
import Concordance.Proofs.Reopening
import Concordance.Proofs.WordPhrases
import Mathlib.Algebra.BigOperators.Group.List.Basic

/-! # Searching as a scan

A text finds in a record what a scan of all occurrences of the record finds. The scan knows no
lists of terms and no candidates: it asks of every occurrence whether the tokens select its term,
and of every place whether the tokens of the text stand together from there on.
-/
namespace Concordance

/-! ## The scan -/

section
variable (mode : SearchMode) (tokens : List Token) (held : List (String × Nat × Nat))

/-- The tokens stand together from a position of a section on: each of them selects a term that
stands at the token's distance from the first. -/
def TogetherAt (sec position : Nat) : Prop :=
  ∀ token ∈ tokens, ∃ o ∈ held, token.selects mode o.1 ∧
    o.2 = (sec, position + (token.position - (tokens.head?.map Token.position).getD 0))

instance (sec position : Nat) : Decidable (TogetherAt mode tokens held sec position) :=
  inferInstanceAs (Decidable (∀ token ∈ tokens, ∃ o ∈ held, _ ∧ _))

/-- Whether the tokens stand together from an occurrence of the first one on. -/
def opens (o : String × Nat × Nat) : Bool :=
  tokens.head?.any (·.selects mode o.1) && TogetherAt mode tokens held o.2.1 o.2.2

/-- What the scan counts an occurrence for: as a phrase that it opens, or for every token that
selects it. -/
def worth (phrase : Bool) (o : String × Nat × Nat) : Nat :=
  if phrase then (opens mode tokens held o).toNat else tokens.countP (·.selects mode o.1)

end

variable {mode : SearchMode} {tokens : List Token} {held : List (String × Nat × Nat)}

/-! ## Counting by sections -/

theorem total_map_add {α : Type} (as : List α) (f g : α → Nat) :
    total (as.map fun a => f a + g a) = total (as.map f) + total (as.map g) :=
  List.sum_map_add

@[simp] theorem total_map_zero {α : Type} (as : List α) : total (as.map fun _ => 0) = 0 :=
  List.sum_map_zero

theorem countP_eq_total {α : Type} (as : List α) (f : α → Bool) :
    as.countP f = total (as.map fun a => (f a).toNat) := by
  induction as with
  | nil => rfl
  | cons a rest ih =>
    rw [List.countP_cons, ih, List.map_cons, total_cons, Nat.add_comm]
    cases f a <;> rfl

theorem total_countP_comm {α β : Type} (as : List α) (bs : List β) (f : α → β → Bool) :
    total (as.map fun a => bs.countP (f a)) = total (bs.map fun b => as.countP (f · b)) := by
  induction as with
  | nil => exact (total_map_zero bs).symm
  | cons a rest ih =>
    rw [List.map_cons, total_cons, ih, countP_eq_total, ← total_map_add]
    refine congrArg total (List.map_congr_left fun b _ => ?_)
    rw [List.countP_cons, Nat.add_comm]
    cases f a b <;> rfl

theorem total_sections {secs : List Nat} (hnodup : secs.Nodup) (w : String × Nat × Nat → Nat)
    (hsecs : ∀ o ∈ held, o.2.1 ∈ secs) :
    total (secs.map fun sec => total ((held.filter (·.2.1 = sec)).map w)) = total (held.map w) := by
  induction secs generalizing held with
  | nil =>
    obtain rfl : held = [] := List.eq_nil_iff_forall_not_mem.2 fun o ho => by cases hsecs o ho
    rfl
  | cons sec rest ih =>
    obtain ⟨hsec, hrest⟩ := List.nodup_cons.1 hnodup
    let others := held.filter fun o => ¬ o.2.1 = sec
    have hothers : ∀ o ∈ others, o.2.1 ∈ rest := by
      intro o ho
      obtain ⟨ho, hne⟩ := List.mem_filter.1 ho
      exact (List.mem_cons.1 (hsecs o ho)).resolve_left (of_decide_eq_true hne)
    have hsame : ∀ s ∈ rest, others.filter (·.2.1 = s) = held.filter (·.2.1 = s) := by
      intro s hs
      rw [List.filter_filter]
      refine List.filter_congr fun o _ => ?_
      by_cases heq : o.2.1 = s
      · have hne : o.2.1 ≠ sec := fun h => hsec (h ▸ heq ▸ hs)
        simp [hne]
      · simp [heq]
    calc total ((sec :: rest).map fun s => total ((held.filter (·.2.1 = s)).map w))
        = total ((held.filter (·.2.1 = sec)).map w) +
            total (rest.map fun s => total ((others.filter (·.2.1 = s)).map w)) := by
          rw [List.map_cons, total_cons]
          exact congrArg _ (congrArg total (List.map_congr_left fun s hs => by rw [hsame s hs]))
      _ = total ((held.filter (·.2.1 = sec)).map w) + total (others.map w) := by
          rw [ih hrest hothers]
      _ = total (held.map w) :=
          List.sum_map_filter_add_sum_map_filter_not (fun o : String × Nat × Nat => o.2.1 = sec) w held

/-! ## What one section contributes -/

theorem Token.standsAt_inSection_iff {token : Token} {sec position : Nat} :
    token.standsAt mode (inSection held sec) position ↔
      ∃ o ∈ held, token.selects mode o.1 ∧ o.2 = (sec, position) := by
  simp only [standsAt_iff, inSection, List.mem_map, List.mem_filter, decide_eq_true_eq]
  constructor
  · rintro ⟨_, ⟨o, ⟨ho, hsec⟩, rfl⟩, hselects, hposition⟩
    exact ⟨o, ho, hselects, Prod.ext hsec hposition⟩
  · rintro ⟨o, ho, hselects, heq⟩
    exact ⟨_, ⟨o, ⟨ho, congrArg Prod.fst heq⟩, rfl⟩, hselects, congrArg Prod.snd heq⟩

/-- An occurrence of the first token opens a phrase if the others stand where it wants them. -/
theorem opens_cons {first : Token} {rest : List Token} {o : String × Nat × Nat} (ho : o ∈ held) :
    opens mode (first :: rest) held o = (first.selects mode o.1 && rest.all fun token =>
      token.standsAt mode (inSection held o.2.1) (o.2.2 + (token.position - first.position))) := by
  rw [Bool.eq_iff_iff]
  simp only [opens, TogetherAt, List.head?_cons, Option.any_some, Option.map_some, Option.getD_some,
    Bool.and_eq_true, decide_eq_true_eq, List.forall_mem_cons, List.all_eq_true,
    Token.standsAt_inSection_iff, Nat.sub_self, Nat.add_zero]
  constructor
  · rintro ⟨hfirst, -, hrest⟩
    exact ⟨hfirst, hrest⟩
  · rintro ⟨hfirst, hrest⟩
    exact ⟨hfirst, ⟨o, ho, hfirst, rfl⟩, hrest⟩

theorem countP_inSection (f : String × Nat → Bool) (sec : Nat) :
    (inSection held sec).countP f =
      total ((held.filter (·.2.1 = sec)).map fun o => (f (o.1, o.2.2)).toNat) := by
  rw [inSection, List.countP_map, countP_eq_total]
  rfl

section
variable {phrase : Bool}
  (hword : phrase → ∀ sec, phraseOverruns mode tokens (inSection held sec) = false)
include hword

theorem sectionScore_inSection (sec : Nat) :
    sectionScore phrase mode tokens (inSection held sec) =
      total ((held.filter (·.2.1 = sec)).map (worth mode tokens held phrase)) := by
  cases phrase with
  | true =>
    rw [sectionScore, if_pos rfl, wrappedCount_eq_phraseCount (hword rfl sec)]
    cases tokens with
    | nil => exact (total_map_zero _).symm
    | cons first rest =>
      rw [phraseCount, countP_inSection]
      refine congrArg total (List.map_congr_left fun o ho => ?_)
      obtain ⟨hmem, hsec⟩ := List.mem_filter.1 ho
      obtain rfl : o.2.1 = sec := of_decide_eq_true hsec
      rw [worth, if_pos rfl, opens_cons hmem]
  | false =>
    rw [sectionScore, if_neg Bool.false_ne_true, total_countP_comm, inSection, List.map_map]
    rfl

/-- Over all sections, the hits are what all occurrences are worth. -/
theorem total_sectionScore :
    total ((held.map (·.2.1)).dedup.map fun sec =>
        sectionScore phrase mode tokens (inSection held sec)) =
      total (held.map (worth mode tokens held phrase)) := by
  rw [funext (sectionScore_inSection hword)]
  exact total_sections (List.nodup_dedup _) _ fun o ho =>
    List.mem_dedup.2 (List.mem_map_of_mem ho)

theorem countP_sectionScore :
    ((held.map (·.2.1)).dedup.map fun sec =>
        sectionScore phrase mode tokens (inSection held sec)).countP (0 < ·) =
      ((held.filter (0 < worth mode tokens held phrase ·)).map (·.2.1)).dedup.length := by
  rw [funext (sectionScore_inSection hword), List.countP_map, List.countP_eq_length_filter]
  refine List.Perm.length_eq ((List.perm_ext_iff_of_nodup ((List.nodup_dedup _).filter _)
    (List.nodup_dedup _)).2 fun sec => ?_)
  simp only [List.mem_filter, List.mem_dedup, List.mem_map, Function.comp_apply, decide_eq_true_eq,
    total_pos]
  constructor
  · rintro ⟨-, _, ⟨o, ⟨ho, hsec⟩, rfl⟩, hpos⟩
    exact ⟨o, ⟨ho, hpos⟩, hsec⟩
  · rintro ⟨o, ⟨ho, hpos⟩, hsec⟩
    exact ⟨⟨o, ho, hsec⟩, _, ⟨o, ⟨ho, hsec⟩, rfl⟩, hpos⟩

end

/-! ## What a text finds -/

/-- The first of the tokens that stand together is an occurrence that opens the phrase. -/
theorem exists_opens_iff (htokens : tokens ≠ []) :
    (∃ o ∈ held, opens mode tokens held o) ↔
      ∃ sec position, TogetherAt mode tokens held sec position := by
  constructor
  · rintro ⟨o, -, hopens⟩
    exact ⟨_, _, of_decide_eq_true ((Bool.and_eq_true _ _).mp hopens).2⟩
  · rintro ⟨sec, position, htogether⟩
    cases tokens with
    | nil => exact absurd rfl htokens
    | cons first rest =>
      obtain ⟨o, ho, hselects, heq⟩ := htogether first (List.mem_cons_self ..)
      have hplace : o.2 = (sec, position) := by simpa using heq
      refine ⟨o, ho, (Bool.and_eq_true _ _).mpr ⟨hselects, decide_eq_true ?_⟩⟩
      rw [hplace]
      exact htogether

theorem TogetherAt.selects {sec position : Nat} (h : TogetherAt mode tokens held sec position) :
    ∀ token ∈ tokens, ∃ o ∈ held, token.selects mode o.1 := by
  intro token htoken
  obtain ⟨o, ho, hselects, -⟩ := h token htoken
  exact ⟨o, ho, hselects⟩

theorem worth_pos {phrase : Bool} {o : String × Nat × Nat} :
    0 < worth mode tokens held phrase o ↔
      (if phrase then opens mode tokens held o else tokens.any (·.selects mode o.1)) := by
  cases phrase with
  | true => cases hopens : opens mode tokens held o <;> simp [worth, hopens]
  | false => simp [worth, List.countP_pos_iff]

theorem total_worth (phrase : Bool) : total (held.map (worth mode tokens held phrase)) =
    if phrase then held.countP (opens mode tokens held)
    else total (tokens.map fun token => held.countP (token.selects mode ·.1)) := by
  cases phrase with
  | true => exact (countP_eq_total held _).symm
  | false => exact total_countP_comm held tokens fun o token => token.selects mode o.1

/-- The tokens select terms that are worth something when, for a phrase, they stand together, and
otherwise always. -/
theorem selects_worth_iff (htokens : tokens ≠ []) (phrase : Bool) :
    ((∀ token ∈ tokens, ∃ o ∈ held, token.selects mode o.1) ∧
        0 < total (held.map (worth mode tokens held phrase))) ↔
      if phrase then ∃ sec position, TogetherAt mode tokens held sec position
      else ∀ token ∈ tokens, ∃ o ∈ held, token.selects mode o.1 := by
  cases phrase with
  | true =>
    rw [total_worth, if_pos rfl, if_pos rfl, List.countP_pos_iff, exists_opens_iff htokens]
    exact and_iff_right_of_imp fun ⟨_, _, htogether⟩ => htogether.selects
  | false =>
    rw [if_neg Bool.false_ne_true]
    refine and_iff_left_of_imp fun hall => total_pos.2 ?_
    obtain ⟨token, htoken⟩ := List.exists_mem_of_ne_nil tokens htokens
    obtain ⟨o, ho, hselects⟩ := hall token htoken
    refine ⟨_, List.mem_map_of_mem ho, worth_pos.2 ?_⟩
    exact List.any_eq_true.2 ⟨token, htoken, hselects⟩

theorem Index.getElem?_matchText_worth {ix : Index} (hn : ix.postings.Neat) {lexicon : Table}
    {record : RecordId} {text : String} {mode : SearchMode}
    (hword : ix.overruns lexicon text mode record = false) :
    (ix.matchText lexicon text mode)[record]? =
      let tokens := ix.tokenizer.tokens .get text
      let held := heldOf lexicon ix.postings record
      let phrase := 1 < tokens.length && ix.flags.contains .withPosition
      if tokens ≠ [] ∧ (∀ token ∈ tokens, ∃ o ∈ held, token.selects mode o.1) ∧
          0 < total (held.map (worth mode tokens held phrase)) then
        some ⟨total (held.map (worth mode tokens held phrase)),
          ((held.filter (0 < worth mode tokens held phrase ·)).map (·.2.1)).dedup.length⟩
      else none := by
  have hsecs : ∀ o ∈ heldOf lexicon ix.postings record,
      o.2.1 ∈ ((heldOf lexicon ix.postings record).map (·.2.1)).dedup :=
    fun o ho => List.mem_dedup.2 (List.mem_map_of_mem ho)
  have h := holds_heldOf lexicon ix.postings record
  have hover := (overruns_iff h hn).not.1 (Bool.eq_false_iff.1 hword)
  rw [getElem?_matchText_of_holds h hn text mode (List.nodup_dedup _) hsecs]
  dsimp only at hover ⊢
  generalize ix.tokenizer.tokens .get text = tokens at hover ⊢
  generalize (1 < tokens.length && ix.flags.contains .withPosition) = phrase at hover ⊢
  by_cases hall : ∀ token ∈ tokens, ∃ o ∈ heldOf lexicon ix.postings record, token.selects mode o.1
  · have hplain (hphrase : phrase) (sec : Nat) : phraseOverruns mode tokens
        (inSection (heldOf lexicon ix.postings record) sec) = false :=
      Bool.eq_false_iff.2 fun hsec => hover ⟨hphrase, hall, sec, hsec⟩
    rw [hitOf, total_sectionScore hplain, countP_sectionScore hplain]
  · rw [if_neg fun hfound => hall hfound.2.1, if_neg fun hfound => hall hfound.2.1]

namespace Database
variable {db : Database} {i : Nat} {ix : Index}

/-- In every state that a run reaches, what a text finds is what the scan finds, in a record in which
the search forms no sum of places beyond a word. A record matches if
every token selects a term of it, and with positions and several tokens if these stand together in
one of its sections. Its score counts the selected occurrences, or those that open the phrase, and
its sections are those that have one. -/
theorem matchText_scan (h : Reached OwnFiles db) (hix : db.indexes[i]? = some ix) (text : String)
    (mode : SearchMode) (record : RecordId) (hword : db.overruns ix text mode record = false) :
    ∃ lexicon, db.tables[ix.lexicon]? = some lexicon ∧
      let tokens := ix.tokenizer.tokens .get text
      let held := heldOf lexicon ix.postings record
      let phrase := 1 < tokens.length && ix.flags.contains .withPosition
      ((db.matchText ix text mode).contains record ↔ tokens ≠ [] ∧
        if phrase then ∃ sec position, TogetherAt mode tokens held sec position
        else ∀ token ∈ tokens, ∃ o ∈ held, token.selects mode o.1) ∧
      ∀ hit, (db.matchText ix text mode)[record]? = some hit →
        hit.score = (if phrase then held.countP (opens mode tokens held)
          else total (tokens.map fun token => held.countP (token.selects mode ·.1))) ∧
        hit.subrecords = ((held.filter fun o => if phrase then opens mode tokens held o
          else tokens.any (·.selects mode o.1)).map (·.2.1)).dedup.length := by
  have hwf := h.wellFormed_of_ownFiles
  obtain ⟨lexicon, hlexicon, -⟩ := hwf.catalogued.lexicon_table hix
  rw [overruns, hlexicon, Option.any_some] at hword
  have hfound := Index.getElem?_matchText_worth (hwf.posted.neat hix) hword
  refine ⟨lexicon, hlexicon, ?_⟩
  intro tokens held phrase
  simp only [matchText, hlexicon]
  refine ⟨?_, fun hit hget => ?_⟩
  · rw [contains_iff_of_getElem? hfound]
    exact and_congr_right fun htokens => selects_worth_iff htokens phrase
  · obtain rfl := eq_of_getElem? hfound hget
    refine ⟨total_worth phrase, ?_⟩
    have hworth : held.filter (0 < worth mode tokens held phrase ·) = held.filter fun o =>
        if phrase then opens mode tokens held o else tokens.any (·.selects mode o.1) := by
      refine List.filter_congr fun o _ => ?_
      rw [Bool.eq_iff_iff, decide_eq_true_iff, worth_pos]
    exact congrArg (fun os => (os.map (·.2.1)).dedup.length) hworth

/-- The phrase stands twice in the line of a verse and once in its tags. -/
theorem matchText_scan_verses : ∃ ix, verses.indexes[260]? = some ix ∧
    verses.overruns ix "to be" .exact 1 = false ∧
      (verses.matchText ix "to be" .exact)[1]? = some ⟨3, 2⟩ := by
  have hreached : Reached OwnFiles verses :=
    reached_verses.imp fun _ _ ⟨hindexed, _⟩ => ownFiles_of_indexed hindexed
  have hix : verses.indexes[260]? = some (verses.indexes[260]?.get (by decide +kernel)) :=
    (Option.some_get _).symm
  have hlexicon256 : (verses.indexes[260]?.get (by decide +kernel)).lexicon = 256 := by
    decide +kernel
  have hword : verses.overruns (verses.indexes[260]?.get (by decide +kernel)) "to be" .exact 1 =
      false := by decide +kernel
  refine ⟨_, hix, hword, ?_⟩
  obtain ⟨lexicon, hlexicon, hmatch, hhit⟩ := matchText_scan hreached hix "to be" .exact 1 hword
  rw [hlexicon256] at hlexicon
  obtain rfl : lexicon = verses.tables[256]?.get (by decide +kernel) :=
    Option.some.inj (hlexicon.symm.trans (Option.some_get _).symm)
  have hcontains := hmatch.2 ⟨by decide +kernel, by
    rw [if_pos (by decide +kernel)]
    exact ⟨1, 0, by decide +kernel⟩⟩
  rw [Std.ExtTreeMap.contains_eq_isSome_getElem?, Option.isSome_iff_exists] at hcontains
  obtain ⟨⟨score, subrecords⟩, heq⟩ := hcontains
  obtain ⟨hscore, hsections⟩ := hhit _ heq
  rw [heq, Option.some.injEq, Hit.mk.injEq]
  exact ⟨hscore.trans (by decide +kernel), hsections.trans (by decide +kernel)⟩

end Database
end Concordance
