import Concordance.Proofs.Tracking

/-! # The terms that changes bring

A change adds the terms of its new texts to a lexicon, those that the lexicon lacks. Whatever the
order in which the same terms are added, the lexicon ends up with the same keys and the same ids;
only which new key has which new id depends on it.
-/
namespace Concordance

/-- The terms of texts, in the order in which an index takes them in. -/
def Tokenizer.terms (tokenizer : Tokenizer) (texts : List String) : List String :=
  texts.flatMap fun text => (tokenizer.tokens .add text).map Token.text

theorem map_fst_positionedTokens (tokenizer : Tokenizer) (texts : List String) (start : Nat) :
    (positionedTokens tokenizer texts start).map (·.1) = tokenizer.terms texts := by
  induction texts generalizing start with
  | nil => rfl
  | cons text rest ih =>
    simp only [positionedTokens, List.map_append, List.map_map, ih, Tokenizer.terms,
      List.flatMap_cons]
    rfl

namespace Table
variable {t u v : Table} {keys keys' : List String}

/-- The table with keys added, one after another. -/
def addKeys (t : Table) (keys : List String) : Table :=
  keys.foldl (fun t key => (t.addKey key).2) t

@[simp] theorem addKeys_nil (t : Table) : t.addKeys [] = t := rfl

@[simp] theorem addKeys_cons (t : Table) (key : String) (keys : List String) :
    t.addKeys (key :: keys) = (t.addKey key).2.addKeys keys := rfl

theorem addKeys_append (t : Table) (keys keys' : List String) :
    t.addKeys (keys ++ keys') = (t.addKeys keys).addKeys keys' := List.foldl_append ..

/-- Keys that are there already change nothing. -/
theorem addKeys_of_known (h : ∀ key ∈ keys, (t.find? key).isSome) : t.addKeys keys = t := by
  induction keys with
  | nil => rfl
  | cons key rest ih =>
    obtain ⟨id, hid⟩ := Option.isSome_iff_exists.1 (h key (List.mem_cons_self ..))
    rw [addKeys_cons, addKey_of_find? hid]
    exact ih fun k hk => h k (List.mem_cons_of_mem _ hk)

theorem next_addKey (t : Table) (key : String) :
    (t.addKey key).2.next = if (t.find? key).isNone then t.next + 1 else t.next := by
  cases h : t.find? key with
  | some id => rw [addKey_of_find? h]; rfl
  | none => rw [next_addKey_of_new h]; rfl

theorem isLive_addKey (t : Table) (key : String) (id : Nat) :
    (t.addKey key).2.isLive id ↔ ((t.find? key).isNone ∧ id = t.next) ∨ t.isLive id := by
  cases h : t.find? key with
  | some i => simp [addKey_of_find? h]
  | none => simp [isLive_addKey_of_new h]

theorem isNone_find?_addKey (t : Table) (key k : String) :
    ((t.addKey key).2.find? k).isNone ↔ k ≠ key ∧ (t.find? k).isNone := by
  rw [find?_addKey]
  by_cases hk : k = key <;> simp [hk]

/-- Tables that have the same keys and the same live ids, and will give out the same ids. -/
structure SameKeys (t u : Table) : Prop where
  kind : u.kind = t.kind
  next : u.next = t.next
  isLive : ∀ id : Nat, u.isLive id ↔ t.isLive id
  isNone : ∀ key, (u.find? key).isNone ↔ (t.find? key).isNone

theorem SameKeys.refl (t : Table) : t.SameKeys t := ⟨rfl, rfl, fun _ => .rfl, fun _ => .rfl⟩

theorem SameKeys.trans (h : t.SameKeys u) (h' : u.SameKeys v) : t.SameKeys v where
  kind := h'.kind.trans h.kind
  next := h'.next.trans h.next
  isLive id := (h'.isLive id).trans (h.isLive id)
  isNone key := (h'.isNone key).trans (h.isNone key)

theorem SameKeys.addKey (h : t.SameKeys u) (key : String) :
    (t.addKey key).2.SameKeys (u.addKey key).2 where
  kind := by rw [kind_addKey, kind_addKey, h.kind]
  next := by simp only [next_addKey, h.next, h.isNone]
  isLive id := by simp only [isLive_addKey, h.next, h.isNone, h.isLive]
  isNone k := by simp only [isNone_find?_addKey, h.isNone]

theorem SameKeys.addKeys (h : t.SameKeys u) (keys : List String) :
    (t.addKeys keys).SameKeys (u.addKeys keys) := by
  induction keys generalizing t u with
  | nil => exact h
  | cons key rest ih => exact ih (h.addKey key)

theorem sameKeys_swap (t : Table) (a b : String) :
    ((t.addKey a).2.addKey b).2.SameKeys ((t.addKey b).2.addKey a).2 := by
  by_cases hab : a = b
  · rw [hab]
    exact .refl _
  · have hba := Ne.symm hab
    refine ⟨by simp only [kind_addKey], ?_, fun id => ?_, fun k => ?_⟩
    · simp only [next_addKey, isNone_find?_addKey, hab, hba, ne_eq, not_false_eq_true, true_and]
      split <;> split <;> rfl
    · simp only [isLive_addKey, next_addKey, isNone_find?_addKey, hab, hba, ne_eq,
        not_false_eq_true, true_and]
      by_cases ha : (t.find? a).isNone <;> by_cases hb : (t.find? b).isNone <;> simp [ha, hb]
    · simp only [isNone_find?_addKey]
      exact ⟨fun ⟨ha, hb, hk⟩ => ⟨hb, ha, hk⟩, fun ⟨hb, ha, hk⟩ => ⟨ha, hb, hk⟩⟩

/-- Which keys a table has, and which ids, does not depend on the order in which keys came. -/
theorem sameKeys_perm (h : keys.Perm keys') (t : Table) :
    (t.addKeys keys).SameKeys (t.addKeys keys') := by
  induction h generalizing t with
  | nil => exact .refl t
  | cons key _ ih => exact ih (t.addKey key).2
  | swap a b rest => exact (t.sameKeys_swap b a).addKeys rest
  | trans _ _ ih ih' => exact (ih t).trans (ih' t)

end Table

theorem fst_insertAll (record sec : Nat) (state : Table × Postings)
    (occurrences : List (String × Nat)) :
    (insertAll record sec state occurrences).1 = state.1.addKeys (occurrences.map (·.1)) := by
  induction occurrences generalizing state with
  | nil => rfl
  | cons o rest ih => exact ih _

/-- A delta adds the terms of its new texts. -/
theorem Index.change_fst (ix : Index) (lexicon : Table) (delta : Delta) :
    (ix.change lexicon delta).1 = lexicon.addKeys (ix.tokenizer.terms delta.new) := by
  rw [change_eq, fst_insertAll]
  exact congrArg lexicon.addKeys (map_fst_positionedTokens ..)

namespace Database
variable {db db' : Database} {changes changes' : List (ObjectId × Delta)}

/-- The terms that changes bring to a lexicon, in order. -/
def termsFor (db : Database) (lexicon : ObjectId) (changes : List (ObjectId × Delta)) :
    List String :=
  changes.flatMap fun change => db.indexes[change.1]?.elim [] fun ix =>
    if ix.lexicon = lexicon then ix.tokenizer.terms change.2.new else []

theorem termsFor_cons (db : Database) (lexicon : Nat) (change : ObjectId × Delta)
    (rest : List (ObjectId × Delta)) : db.termsFor lexicon (change :: rest) =
      db.termsFor lexicon [change] ++ db.termsFor lexicon rest := by
  simp [termsFor]

theorem termsFor_of_get (change : ObjectId × Delta) {ix : Index}
    (hix : db.indexes[change.1]? = some ix) (lexicon : Nat) :
    db.termsFor lexicon [change] =
      if ix.lexicon = lexicon then ix.tokenizer.terms change.2.new else [] := by
  simp [termsFor, hix]

theorem termsFor_of_frames
    (h : ∀ i : Nat, db'.indexes[i]?.map Index.frame = db.indexes[i]?.map Index.frame) :
    db'.termsFor = db.termsFor := by
  funext lexicon changes
  unfold termsFor
  congr 1
  funext change
  have hmap := h change.1
  cases hix : db.indexes[change.1]? with
  | none =>
    rw [hix, Option.map_none, Option.map_eq_none_iff] at hmap
    rw [hmap]
  | some ix =>
    rw [hix, Option.map_some, Option.map_eq_some_iff] at hmap
    obtain ⟨jx, hjx, hframe⟩ := hmap
    obtain ⟨hlexicon, -, -, htokenizer, -⟩ := Index.frame_eq_iff.1 hframe
    simp only [hjx, Option.elim_some, hlexicon, htokenizer]

theorem WellFormed.tables_applyDelta (h : db.WellFormed) (i : Nat) (delta : Delta)
    (lexicon : Nat) : (db.applyDelta i delta).tables[lexicon]? =
      db.tables[lexicon]?.map (·.addKeys (db.termsFor lexicon [(i, delta)])) := by
  rcases h.applyDelta_cases i delta with ⟨hix, heq⟩ | ⟨ix, t, hix, ht, -, -, heq⟩
  · simp [heq, termsFor, hix]
  · rw [heq, termsFor_of_get (i, delta) hix, FiniteMap.getElem?_insert]
    by_cases hid : ix.lexicon = lexicon
    · subst hid
      rw [if_pos rfl, if_pos rfl, ht, Option.map_some, Index.change_fst]
    · simp [hid, Ne.symm hid]

/-- After changes a lexicon has the terms that they bring to it, and other tables are the same. -/
theorem WellFormed.tables_carry (h : db.WellFormed)
    (hr : ∀ change ∈ changes, db.Receives change) (lexicon : Nat) :
    (db.carry changes).tables[lexicon]? =
      db.tables[lexicon]?.map (·.addKeys (db.termsFor lexicon changes)) := by
  induction changes generalizing db with
  | nil => simp [Database.carry, termsFor]
  | cons change rest ih =>
    have hfed := h.fed_applyDelta change.1 change.2
    have hstep := h.applyDelta (hr change (List.mem_cons_self ..))
    have hrest := ih hstep fun c hc => (hr c (List.mem_cons_of_mem _ hc)).fed hfed
    rw [Database.carry] at hrest
    rw [Database.carry, List.foldl_cons, hrest, h.tables_applyDelta, termsFor_of_frames hfed.frame,
      termsFor_cons db lexicon change rest, Option.map_map]
    congr 1
    funext t
    exact (t.addKeys_append _ _).symm

/-- Lexicons that the same terms come to have the same keys afterwards. -/
theorem WellFormed.sameKeys_carry (h : db.WellFormed)
    (hr : ∀ change ∈ changes, db.Receives change) (hr' : ∀ change ∈ changes', db.Receives change)
    {lexicon : Nat} (hterms : (db.termsFor lexicon changes).Perm (db.termsFor lexicon changes'))
    {t u : Table} (ht : (db.carry changes).tables[lexicon]? = some t)
    (hu : (db.carry changes').tables[lexicon]? = some u) : t.SameKeys u := by
  rw [h.tables_carry hr, Option.map_eq_some_iff] at ht
  rw [h.tables_carry hr', Option.map_eq_some_iff] at hu
  obtain ⟨start, hstart, rfl⟩ := ht
  obtain ⟨start', hstart', rfl⟩ := hu
  obtain rfl := Option.some.inj (hstart.symm.trans hstart')
  exact start.sameKeys_perm hterms

end Database
end Concordance
