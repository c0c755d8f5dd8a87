import Concordance.Proofs.FiniteMaps
import Concordance.Table

/-! # Keys and ids of a table

The key maps of a table are inverse to each other and name live records only, and adding a key or
erasing a record keeps them so. A table that only gained keys still answers every old question.
-/
namespace Concordance.Table
variable {t u : Table} {key k : String} {id i : Nat}

/-- Keys and ids stand for each other, only live records have a key, and every live id has been given
out. -/
structure Paired (t : Table) : Prop where
  find?_iff : ∀ {key} {id : Nat}, t.find? key = some id ↔ t.key? id = some key
  live_of_key : ∀ {id : Nat} {key}, t.key? id = some key → t.isLive id
  lt_next : ∀ {id : Nat}, t.isLive id → id < t.next

/-- Keys and ids stand for each other, keyed tables have a key for every live record, and every
live id has been given out. -/
structure Sound (t : Table) : Prop where
  find?_iff : ∀ {key} {id : Nat}, t.find? key = some id ↔ t.key? id = some key
  live_of_key : ∀ {id : Nat} {key}, t.key? id = some key → t.isLive id
  next_pos : 0 < t.next
  pos : ∀ {id : Nat}, t.isLive id → 0 < id
  lt_next : ∀ {id : Nat}, t.isLive id → id < t.next
  keyed : t.kind.hasKey → ∀ {id : Nat}, t.isLive id → ∃ key, t.key? id = some key
  unkeyed : ¬ t.kind.hasKey → ∀ id : Nat, t.key? id = none

theorem Sound.paired (h : t.Sound) : t.Paired := ⟨h.find?_iff, h.live_of_key, h.lt_next⟩

theorem paired_empty (kind : TableKind) : (empty kind).Paired := by
  constructor <;> simp [empty, find?, key?, isLive]

theorem Sound.key?_next (h : t.Sound) : t.key? t.next = none := by
  cases hk : t.key? t.next with
  | none => rfl
  | some key => exact absurd (h.lt_next (h.live_of_key hk)) (Nat.lt_irrefl _)

theorem sound_empty (kind : TableKind) : (empty kind).Sound := by
  constructor <;> simp [empty, find?, key?, isLive]

/-! ## Adding -/

@[simp] theorem add_fst (t : Table) : t.add.1 = t.next := rfl

@[simp] theorem find?_add (t : Table) (k : String) : t.add.2.find? k = t.find? k := rfl

@[simp] theorem key?_add (t : Table) (i : Nat) : t.add.2.key? i = t.key? i := rfl

@[simp] theorem kind_add (t : Table) : t.add.2.kind = t.kind := rfl

@[simp] theorem next_add (t : Table) : t.add.2.next = t.next + 1 := rfl

theorem isLive_add (t : Table) (i : Nat) :
    t.add.2.isLive i ↔ i = t.next ∨ t.isLive i := by
  simp only [add, isLive]
  grind

theorem addKey_of_find? (h : t.find? key = some id) : t.addKey key = (id, t) := by
  simp [addKey, h]

theorem addKey_of_new (h : t.find? key = none) :
    t.addKey key = (t.next, { t.add.2 with
      idOf := t.idOf.insert key t.next, keyOf := t.keyOf.insert t.next key }) := by
  simp [addKey, h, add]

theorem find?_addKey (t : Table) (key k : String) :
    (t.addKey key).2.find? k = if k = key then some (t.addKey key).1 else t.find? k := by
  cases h : t.find? key with
  | some id => rw [addKey_of_find? h]; split <;> simp_all
  | none =>
    rw [addKey_of_new h]
    simp [find?]

theorem key?_addKey_of_new (h : t.find? key = none) (i : Nat) :
    (t.addKey key).2.key? i = if i = t.next then some key else t.key? i := by
  rw [addKey_of_new h]
  simp [key?]

theorem isLive_addKey_of_new (h : t.find? key = none) (i : Nat) :
    (t.addKey key).2.isLive i ↔ i = t.next ∨ t.isLive i := by
  rw [addKey_of_new h]
  exact isLive_add t i

@[simp] theorem kind_addKey (t : Table) (key : String) : (t.addKey key).2.kind = t.kind := by
  cases h : t.find? key with
  | some id => rw [addKey_of_find? h]
  | none => rw [addKey_of_new h]; rfl

theorem next_addKey_of_new (h : t.find? key = none) : (t.addKey key).2.next = t.next + 1 := by
  rw [addKey_of_new h]; rfl

theorem Sound.add (h : t.Sound) (hk : ¬ t.kind.hasKey) : t.add.2.Sound where
  find?_iff := h.find?_iff
  live_of_key hi := (isLive_add t _).2 (.inr (h.live_of_key hi))
  next_pos := Nat.succ_pos _
  pos hi := by
    rcases (isLive_add t _).1 hi with rfl | hi
    · exact h.next_pos
    · exact h.pos hi
  lt_next hi := by
    rcases (isLive_add t _).1 hi with rfl | hi
    · exact Nat.lt_succ_self _
    · exact Nat.lt_succ_of_lt (h.lt_next hi)
  keyed hkind := absurd hkind hk
  unkeyed := h.unkeyed

/-! ## Entering records -/

theorem isLive_insertRecord (t : Table) (id : Nat) (key : Option String) (i : Nat) :
    (t.insertRecord (id, key)).isLive i ↔ i = id ∨ t.isLive i := by
  cases key <;> simp only [insertRecord, isLive] <;> grind

theorem find?_insertRecord (t : Table) (id : Nat) (key : Option String) (k : String) :
    (t.insertRecord (id, key)).find? k = if key = some k then some id else t.find? k := by
  cases key with
  | none => rfl
  | some key => simp [insertRecord, find?, eq_comm]

@[simp] theorem next_insertRecord (t : Table) (record : RecordId × Option String) :
    (t.insertRecord record).next = t.next := by
  obtain ⟨id, key⟩ := record
  cases key <;> rfl

theorem Paired.key?_insertRecord (h : t.Paired) (hid : ¬ t.isLive id) (key : Option String)
    (i : Nat) : (t.insertRecord (id, key)).key? i = if i = id then key else t.key? i := by
  cases key with
  | some key => simp [insertRecord, key?]
  | none =>
    split
    · subst i
      cases hk : t.key? id with
      | none => exact hk
      | some k => exact absurd (h.live_of_key hk) hid
    · rfl

/-- A record under a new id, with a new key or with none. -/
theorem Paired.insertRecord (h : t.Paired) (key : Option String) (hid : ¬ t.isLive id)
    (hlt : id < t.next) (hkey : ∀ k ∈ key, t.find? k = none) :
    (t.insertRecord (id, key)).Paired := by
  have hkey? := h.key?_insertRecord hid key
  refine ⟨?_, ?_, ?_⟩
  · intro k i
    rw [find?_insertRecord, hkey?]
    by_cases hk : key = some k <;> by_cases hi : i = id
    · simp [hk, hi]
    · have hne : t.key? i ≠ some k := by simp [← h.find?_iff, hkey k hk]
      simp [hk, hi, hne, Ne.symm hi]
    · subst hi
      have hne : t.find? k ≠ some i := fun hf => hid (h.live_of_key (h.find?_iff.1 hf))
      simp [hk, hne]
    · simpa [hk, hi] using h.find?_iff
  · intro i k hi
    rw [hkey?] at hi
    rw [isLive_insertRecord]
    split at hi
    · exact .inl ‹_›
    · exact .inr (h.live_of_key hi)
  · intro i hi
    rw [next_insertRecord]
    rcases (isLive_insertRecord t id key i).1 hi with rfl | hi
    · exact hlt
    · exact h.lt_next hi

theorem Paired.withNext (h : t.Paired) {next : Nat} (hle : t.next ≤ next) :
    Paired { t with next } :=
  ⟨h.find?_iff, h.live_of_key, fun hi => Nat.lt_of_lt_of_le (h.lt_next hi) hle⟩

theorem Paired.not_isLive_next (h : t.Paired) : ¬ t.isLive t.next :=
  fun hi => Nat.lt_irrefl _ (h.lt_next hi)

theorem Paired.add (h : t.Paired) : t.add.2.Paired :=
  (h.withNext (Nat.le_succ _)).insertRecord none h.not_isLive_next (Nat.lt_succ_self _) (by simp)

theorem Paired.addKey (h : t.Paired) (key : String) : (t.addKey key).2.Paired := by
  cases hf : t.find? key with
  | some id => rw [addKey_of_find? hf]; exact h
  | none =>
    have hkey : ∀ k ∈ some key, t.find? k = none := by simpa using hf
    rw [addKey_of_new hf]
    exact (h.withNext (Nat.le_succ _)).insertRecord (some key) h.not_isLive_next
      (Nat.lt_succ_self _) hkey

theorem Sound.addKey (h : t.Sound) (hk : t.kind.hasKey) (key : String) :
    (t.addKey key).2.Sound := by
  have hpaired := h.paired.addKey key
  cases hf : t.find? key with
  | some id => rw [addKey_of_find? hf]; exact h
  | none =>
    have hlive := isLive_addKey_of_new hf
    refine ⟨hpaired.find?_iff, hpaired.live_of_key, ?_, ?_, hpaired.lt_next, ?_,
      fun hk' => absurd hk (by simpa using hk')⟩
    · rw [next_addKey_of_new hf]; exact Nat.succ_pos _
    · intro i hi
      rcases (hlive i).1 hi with rfl | hi
      · exact h.next_pos
      · exact h.pos hi
    · intro _ i hi
      rw [key?_addKey_of_new hf]
      split
      · exact ⟨key, rfl⟩
      · rcases (hlive i).1 hi with hi' | hi'
        · contradiction
        · exact h.keyed hk hi'

/-! ## Growth -/

/-- `u` is `t` with perhaps further records. -/
structure Grows (t u : Table) : Prop where
  kind : u.kind = t.kind
  next : t.next ≤ u.next
  find? : ∀ {key} {id : Nat}, t.find? key = some id → u.find? key = some id
  key? : ∀ {id : Nat} {key}, t.key? id = some key → u.key? id = some key
  live : ∀ {id : Nat}, t.isLive id → u.isLive id
  old : ∀ {id : Nat}, id < t.next → (u.isLive id ↔ t.isLive id)

theorem Grows.refl (t : Table) : t.Grows t := ⟨rfl, Nat.le_refl _, id, id, id, fun _ => Iff.rfl⟩

theorem Grows.trans {v : Table} (h : t.Grows u) (h' : u.Grows v) : t.Grows v where
  kind := h'.kind.trans h.kind
  next := Nat.le_trans h.next h'.next
  find? hk := h'.find? (h.find? hk)
  key? hk := h'.key? (h.key? hk)
  live hi := h'.live (h.live hi)
  old hi := (h'.old (Nat.lt_of_lt_of_le hi h.next)).trans (h.old hi)

theorem grows_add (t : Table) : t.Grows t.add.2 where
  kind := rfl
  next := Nat.le_succ _
  find? hk := hk
  key? hk := hk
  live hi := (isLive_add t _).2 (.inr hi)
  old hi := by
    rw [isLive_add]
    exact ⟨fun h' => h'.resolve_left (Nat.ne_of_lt hi), .inr⟩

theorem Sound.grows_addKey (h : t.Sound) (key : String) : t.Grows (t.addKey key).2 := by
  cases hf : t.find? key with
  | some id => rw [addKey_of_find? hf]; exact .refl t
  | none =>
    refine ⟨kind_addKey t key, ?_, ?_, ?_, ?_, ?_⟩
    · rw [next_addKey_of_new hf]; exact Nat.le_succ _
    · intro k i hk
      rw [find?_addKey, if_neg]
      · exact hk
      · rintro rfl; simp [hf] at hk
    · intro i k hi
      rw [key?_addKey_of_new hf, if_neg]
      · exact hi
      · rintro rfl; simp [h.key?_next] at hi
    · intro i hi
      exact (isLive_addKey_of_new hf i).2 (.inr hi)
    · intro i hi
      rw [isLive_addKey_of_new hf]
      exact ⟨fun h' => h'.resolve_left (by omega), .inr⟩

/-- A key that only the larger table has stands for an id that the smaller one does not know. -/
theorem Grows.key?_eq_none (h : t.Grows u) (ht : t.Sound) (hu : u.Sound)
    (hnot : t.find? k = none) (hk : u.find? k = some id) : t.key? id = none := by
  cases hkey : t.key? id with
  | none => rfl
  | some k' =>
    have heq : some k = some k' := (hu.find?_iff.1 hk).symm.trans (h.key? hkey)
    cases heq
    rw [ht.find?_iff.2 hkey] at hnot
    cases hnot

/-- A larger table has the same keys for the ids that were given out before. -/
theorem Grows.key?_old (h : t.Grows u) (ht : t.Sound) (hu : u.Sound) (hid : id < t.next) :
    u.key? id = t.key? id := by
  cases hkey : t.key? id with
  | some k => exact h.key? hkey
  | none =>
    cases hkey' : u.key? id with
    | none => rfl
    | some k =>
      have hlive : t.isLive id := (h.old hid).1 (hu.live_of_key hkey')
      by_cases hk : t.kind.hasKey
      · obtain ⟨k', hk'⟩ := ht.keyed hk hlive
        rw [hkey] at hk'
        cases hk'
      · have hnone := hu.unkeyed (by rwa [h.kind]) id
        rw [hkey'] at hnone
        cases hnone

/-! ## Erasing -/

theorem isLive_erase (t : Table) (id i : Nat) :
    (t.erase id).isLive i ↔ i ≠ id ∧ t.isLive i := by
  unfold erase
  split
  · simp only [isLive]
    grind
  · refine ⟨fun hi => ⟨?_, hi⟩, fun hi => hi.2⟩
    rintro rfl
    contradiction

theorem Paired.key?_erase (h : t.Paired) (id i : Nat) :
    (t.erase id).key? i = if i = id then none else t.key? i := by
  unfold erase
  split
  · simp [key?]
  · split
    · subst i
      cases hk : t.key? id with
      | none => rfl
      | some key => exact absurd (h.live_of_key hk) ‹_›
    · rfl

theorem Paired.find?_erase (h : t.Paired) (id : Nat) (k : String) :
    (t.erase id).find? k = if t.key? id = some k then none else t.find? k := by
  unfold erase
  split
  · cases hk : t.key? id with
    | none => simp [find?]
    | some key =>
      simp [find?, eq_comm]
  · split
    · exact absurd (h.live_of_key ‹_›) ‹_›
    · rfl

@[simp] theorem kind_erase (t : Table) (id : Nat) : (t.erase id).kind = t.kind := by
  unfold erase; split <;> rfl

@[simp] theorem next_erase (t : Table) (id : Nat) : (t.erase id).next = t.next := by
  unfold erase; split <;> rfl

theorem Paired.erase (h : t.Paired) (id : Nat) : (t.erase id).Paired where
  find?_iff := by
    intro k i
    rw [h.find?_erase, h.key?_erase]
    by_cases hi : i = id
    · subst i
      by_cases hk : t.key? id = some k
      · simp [hk]
      · simpa [hk] using fun hf => hk (h.find?_iff.1 hf)
    · by_cases hk : t.key? id = some k
      · have hne : t.key? i ≠ some k := by
          intro hik
          have := (h.find?_iff.2 hik).symm.trans (h.find?_iff.2 hk)
          exact hi (Option.some.inj this)
        simp [hk, hi, hne]
      · simpa [hk, hi] using h.find?_iff
  live_of_key := by
    intro i k hi
    rw [h.key?_erase] at hi
    split at hi
    · cases hi
    · exact (isLive_erase t id i).2 ⟨‹_›, h.live_of_key hi⟩
  lt_next hi := by
    rw [next_erase]
    exact h.lt_next ((isLive_erase t id _).1 hi).2

theorem Sound.key?_erase (h : t.Sound) (id i : Nat) :
    (t.erase id).key? i = if i = id then none else t.key? i := h.paired.key?_erase id i

theorem Sound.find?_erase (h : t.Sound) (id : Nat) (k : String) :
    (t.erase id).find? k = if t.key? id = some k then none else t.find? k :=
  h.paired.find?_erase id k

theorem Sound.erase (h : t.Sound) (id : Nat) : (t.erase id).Sound where
  find?_iff := (h.paired.erase id).find?_iff
  live_of_key := (h.paired.erase id).live_of_key
  next_pos := by rw [next_erase]; exact h.next_pos
  pos hi := h.pos ((isLive_erase t id _).1 hi).2
  lt_next := (h.paired.erase id).lt_next
  keyed hk i hi := by
    obtain ⟨hne, hi⟩ := (isLive_erase t id i).1 hi
    rw [h.key?_erase, if_neg hne]
    exact h.keyed (by simpa using hk) hi
  unkeyed hk i := by
    rw [h.key?_erase]
    split
    · rfl
    · exact h.unkeyed (by simpa using hk) i

end Concordance.Table
