import Concordance.Keyed

/-! # Finite maps from their entries

What a map answers after an insertion or a removal, and the one fact about enumerations: inserting
the entries of a map in any order, into any part of it, gives the map.
-/
namespace Concordance.FiniteMap
variable {κ β α : Type} [Ord κ] [Std.TransOrd κ] [Std.LawfulEqOrd κ] [DecidableEq κ]

@[simp] theorem getElem?_insert (m : Std.ExtTreeMap κ β) (k a : κ) (v : β) :
    (m.insert k v)[a]? = if a = k then some v else m[a]? := by
  rw [Std.ExtTreeMap.getElem?_insert]
  by_cases h : a = k
  · simp [h]
  · have hne : compare k a ≠ .eq := fun he => h (Std.LawfulEqCmp.eq_of_compare he).symm
    simp [h, hne]

@[simp] theorem getElem?_erase (m : Std.ExtTreeMap κ β) (k a : κ) :
    (m.erase k)[a]? = if a = k then none else m[a]? := by
  rw [Std.ExtTreeMap.getElem?_erase]
  by_cases h : a = k
  · simp [h]
  · have hne : compare k a ≠ .eq := fun he => h (Std.LawfulEqCmp.eq_of_compare he).symm
    simp [h, hne]

omit [Std.TransOrd κ] [Std.LawfulEqOrd κ] in
/-- What a map without an entry for `k` answers. -/
theorem getElem?_of_none [Std.TransOrd κ] {m : Std.ExtTreeMap κ β} {k : κ} (h : m[k]? = none)
    (a : κ) : m[a]? = if a = k then none else m[a]? := by
  split
  · rename_i heq
    rw [heq, h]
  · rfl

theorem erase_insert {m : Std.ExtTreeMap κ β} {k : κ} (h : m[k]? = none) (v : β) :
    (m.insert k v).erase k = m := by
  apply Std.ExtTreeMap.ext_getElem?
  intro a
  rw [getElem?_erase, getElem?_insert, getElem?_of_none h a]
  split <;> rfl

theorem insert_self {m : Std.ExtTreeMap κ β} {k : κ} {v : β} (h : m[k]? = some v) :
    m.insert k v = m := by
  apply Std.ExtTreeMap.ext_getElem?
  intro a
  rw [getElem?_insert]
  split
  · rename_i heq
    rw [heq, h]
  · rfl

/-- An entry that is only kept while it is not empty. -/
theorem getElem?_keep (m : Std.ExtTreeMap κ β) (isEmpty : Bool) (k a : κ) (v : β) :
    (if isEmpty then m.erase k else m.insert k v)[a]? =
      if a = k then (if isEmpty then none else some v) else m[a]? := by
  cases isEmpty <;> simp

theorem getElem?_keep_eq_some {m : Std.ExtTreeMap κ β} {isEmpty : Bool} {k a : κ} {v w : β} :
    (if isEmpty then m.erase k else m.insert k v)[a]? = some w ↔
      (a = k ∧ isEmpty = false ∧ v = w) ∨ (a ≠ k ∧ m[a]? = some w) := by
  rw [getElem?_keep]
  by_cases h : a = k <;> cases isEmpty <;> simp [h]

theorem getElem?_foldl_insert {target : Std.ExtTreeMap κ β} (key : α → κ) (val : α → β)
    (entries : List α) (hl : ∀ a ∈ entries, target[key a]? = some (val a))
    (start : Std.ExtTreeMap κ β) (k : κ) :
    (entries.foldl (fun m a => m.insert (key a) (val a)) start)[k]? =
      if k ∈ entries.map key then target[k]? else start[k]? := by
  induction entries generalizing start with
  | nil => simp
  | cons a rest ih =>
    have ha := hl a (List.mem_cons_self ..)
    rw [List.foldl_cons, ih fun b hb => hl b (List.mem_cons_of_mem a hb)]
    by_cases hr : k ∈ rest.map key
    · simp only [List.map_cons, List.mem_cons, hr, or_true, if_true]
    · by_cases hk : k = key a
      · subst hk
        simp [hr, ha]
      · simp [hr, hk]

theorem getElem?_foldl_insert_image (f : κ → β) (ks : List κ) (start : Std.ExtTreeMap κ β) (k : κ) :
    (ks.foldl (fun m k => m.insert k (f k)) start)[k]? =
      if k ∈ ks then some (f k) else start[k]? := by
  induction ks generalizing start with
  | nil => simp
  | cons a rest ih =>
    rw [List.foldl_cons, ih, getElem?_insert]
    by_cases hk : k = a <;> simp [hk]

/-- A map is what its entries make of any part of it, in whatever order they come. -/
theorem foldl_insert_eq {target start : Std.ExtTreeMap κ β} (key : α → κ) (val : α → β)
    (entries : List α) (hl : ∀ a ∈ entries, target[key a]? = some (val a))
    (hstart : ∀ {k : κ} {v}, start[k]? = some v → target[k]? = some v)
    (hcover : ∀ {k : κ} {v}, target[k]? = some v → start[k]? = some v ∨ k ∈ entries.map key) :
    entries.foldl (fun m a => m.insert (key a) (val a)) start = target := by
  apply Std.ExtTreeMap.ext_getElem?
  intro k
  rw [getElem?_foldl_insert key val entries hl start k]
  split
  · rfl
  · cases ht : target[k]? with
    | some v => exact (hcover ht).resolve_right ‹_›
    | none =>
      cases hs : start[k]? with
      | none => rfl
      | some v => rw [hstart hs] at ht; cases ht

theorem map_insert (m : Std.ExtTreeMap κ β) (f : κ → β → α) (k : κ) (v : β) :
    (m.insert k v).map f = (m.map f).insert k (f k v) := by
  apply Std.ExtTreeMap.ext_getElem?
  intro a
  rw [Std.ExtTreeMap.getElem?_map, getElem?_insert, getElem?_insert, Std.ExtTreeMap.getElem?_map]
  split
  · subst a
    rfl
  · rfl

omit [DecidableEq κ] in
theorem nodup_keys (m : Std.ExtTreeMap κ β) : (m.toList.map (·.1)).Nodup := by
  rw [List.Nodup, List.pairwise_map]
  refine m.distinct_keys_toList.imp fun hne heq => hne ?_
  rw [heq]
  exact Std.ReflCmp.compare_self

omit [Ord κ] [Std.TransOrd κ] [Std.LawfulEqOrd κ] [DecidableEq κ] in
/-- No other entry of a list without repeated keys has the key of an entry. -/
theorem eq_append_of_nodup {entries : List (κ × β)} (hnodup : (entries.map (·.1)).Nodup) {k : κ}
    {v : β} (h : (k, v) ∈ entries) : ∃ front back, entries = front ++ (k, v) :: back ∧
      (∀ e ∈ front, e.1 ≠ k) ∧ ∀ e ∈ back, e.1 ≠ k := by
  obtain ⟨front, back, hl⟩ := List.append_of_mem h
  rw [hl, List.map_append, List.map_cons, List.nodup_append, List.nodup_cons] at hnodup
  obtain ⟨-, ⟨hback, -⟩, hfront⟩ := hnodup
  refine ⟨front, back, hl, ?_, ?_⟩
  · intro e he heq
    exact hfront e.1 (List.mem_map_of_mem he) k (List.mem_cons_self ..) heq
  · intro e he heq
    exact hback (List.mem_map.2 ⟨e, he, heq⟩)

omit [DecidableEq κ] in
theorem toList_eq_append {m : Std.ExtTreeMap κ β} {k : κ} {v : β} (h : m[k]? = some v) :
    ∃ front back, m.toList = front ++ (k, v) :: back ∧ (∀ e ∈ front, e.1 ≠ k) ∧
      ∀ e ∈ back, e.1 ≠ k :=
  eq_append_of_nodup (nodup_keys m) (Std.ExtTreeMap.mem_toList_iff_getElem?_eq_some.2 h)

/-- A key has at most one entry. -/
theorem filter_toList (m : Std.ExtTreeMap κ β) (k : κ) :
    m.toList.filter (·.1 = k) = (m[k]?.map (k, ·)).toList := by
  have hnil : ∀ es : List (κ × β), (∀ e ∈ es, e.1 ≠ k) → es.filter (·.1 = k) = [] :=
    fun es hes => List.filter_eq_nil_iff.2 fun e he heq => hes e he (of_decide_eq_true heq)
  cases h : m[k]? with
  | none =>
    refine hnil m.toList fun e he heq => ?_
    rw [← heq, Std.ExtTreeMap.mem_toList_iff_getElem?_eq_some.1 he] at h
    cases h
  | some v =>
    obtain ⟨front, back, hl, hfront, hback⟩ := toList_eq_append h
    rw [hl, List.filter_append, hnil front hfront, List.filter_cons_of_pos (by simp),
      hnil back hback]
    rfl

omit [DecidableEq κ] in
/-- What only the part of one entry has is found there, in whatever order the entries come. -/
theorem filter_flatMap {m : Std.ExtTreeMap κ β} {order : List (κ × β)} (hperm : order.Perm m.toList)
    (part : κ × β → List α) (p : α → Bool) {k : κ} {v : β} (h : m[k]? = some v)
    (hpart : ∀ a ∈ part (k, v), p a = true)
    (hother : ∀ e, e.1 ≠ k → ∀ a ∈ part e, ¬ p a = true) :
    (order.flatMap part).filter p = part (k, v) := by
  have hnodup : (order.map (·.1)).Nodup := (hperm.map _).nodup_iff.2 (nodup_keys m)
  have hmem := hperm.mem_iff.2 (Std.ExtTreeMap.mem_toList_iff_getElem?_eq_some.2 h)
  obtain ⟨front, back, hl, hfront, hback⟩ := eq_append_of_nodup hnodup hmem
  have hnil : ∀ es : List (κ × β), (∀ e ∈ es, e.1 ≠ k) → (es.flatMap part).filter p = [] := by
    intro es hes
    rw [List.filter_eq_nil_iff]
    intro a ha
    obtain ⟨e, he, ha⟩ := List.mem_flatMap.1 ha
    exact hother e (hes e he) a ha
  rw [hl, List.flatMap_append, List.flatMap_cons, List.filter_append, List.filter_append,
    hnil front hfront, hnil back hback, List.filter_eq_self.2 hpart, List.nil_append,
    List.append_nil]

omit [DecidableEq κ] in
/-- What occurs only in the part of one entry occurs there as often as in all parts. -/
theorem count_flatMap_toList [BEq α] [LawfulBEq α] (m : Std.ExtTreeMap κ β)
    (part : κ × β → List α) {k : κ} {a : α} (h : ∀ e, a ∈ part e → e.1 = k) :
    (m.toList.flatMap part).count a = ((m[k]?.map fun v => part (k, v)).getD []).count a := by
  have hzero : ∀ es : List (κ × β), (∀ e ∈ es, e.1 ≠ k) → (es.flatMap part).count a = 0 := by
    intro es hes
    rw [List.count_eq_zero]
    intro ha
    obtain ⟨e, he, ha⟩ := List.mem_flatMap.1 ha
    exact hes e he (h e ha)
  cases hm : m[k]? with
  | none =>
    apply hzero
    intro e he heq
    rw [← heq, Std.ExtTreeMap.mem_toList_iff_getElem?_eq_some.1 he] at hm
    cases hm
  | some v =>
    obtain ⟨front, back, hl, hfront, hback⟩ := toList_eq_append hm
    rw [hl, List.flatMap_append, List.flatMap_cons, List.count_append, List.count_append,
      hzero front hfront, hzero back hback, Nat.zero_add, Nat.add_zero]
    rfl

/-- The entries of a map in some order, in the form that they are listed in. -/
def Listed (m : Std.ExtTreeMap κ β) (form : κ × β → α) (items : List α) : Prop :=
  ∃ order : List (κ × β), order.Perm m.toList ∧ items = order.map form

omit [Std.TransOrd κ] [Std.LawfulEqOrd κ] [DecidableEq κ] in
theorem listed_toList [Std.TransOrd κ] (m : Std.ExtTreeMap κ β) (form : κ × β → α) :
    Listed m form (m.toList.map form) := ⟨_, .rfl, rfl⟩

omit [DecidableEq κ] in
theorem Listed.mem_iff {m : Std.ExtTreeMap κ β} {form : κ × β → α} {items : List α}
    (h : Listed m form items) {a : α} :
    a ∈ items ↔ ∃ (k : κ) (v : β), m[k]? = some v ∧ a = form (k, v) := by
  obtain ⟨order, hperm, rfl⟩ := h
  simp only [List.mem_map, hperm.mem_iff]
  constructor
  · rintro ⟨⟨k, v⟩, he, rfl⟩
    exact ⟨k, v, Std.ExtTreeMap.mem_toList_iff_getElem?_eq_some.1 he, rfl⟩
  · rintro ⟨k, v, hv, rfl⟩
    exact ⟨(k, v), Std.ExtTreeMap.mem_toList_iff_getElem?_eq_some.2 hv, rfl⟩

/-- A store that takes the entries of a map one by one ends up with the map, in whatever order they
come. -/
theorem Listed.foldlM_eq {σ ε : Type} {m : Std.ExtTreeMap κ β} {form : κ × β → α} {items : List α}
    (h : Listed m form items) (put : Std.ExtTreeMap κ β → σ) (step : σ → α → Except ε σ)
    (hstep : ∀ {k : κ} {v : β}, m[k]? = some v →
      ∀ m', step (put m') (form (k, v)) = .ok (put (m'.insert k v))) :
    items.foldlM step (put ∅) = .ok (put m) := by
  obtain ⟨order, hperm, rfl⟩ := h
  have hget : ∀ e ∈ order, m[e.1]? = some e.2 := fun e he =>
    Std.ExtTreeMap.mem_toList_iff_getElem?_eq_some.1 (hperm.mem_iff.1 he)
  have hm : order.foldl (fun m e => m.insert e.1 e.2) ∅ = m := by
    refine foldl_insert_eq _ _ order hget (by simp) fun {k v} hv => .inr ?_
    exact List.mem_map.2
      ⟨(k, v), hperm.mem_iff.2 (Std.ExtTreeMap.mem_toList_iff_getElem?_eq_some.2 hv), rfl⟩
  have hfold : ∀ start, (order.map form).foldlM step (put start) =
      .ok (put (order.foldl (fun m e => m.insert e.1 e.2) start)) := by
    clear hm hperm
    induction order with
    | nil => exact fun _ => rfl
    | cons e rest ih =>
      intro start
      rw [List.map_cons, List.foldlM_cons, hstep (hget e (List.mem_cons_self ..))]
      exact ih (fun f hf => hget f (List.mem_cons_of_mem e hf)) _
  rw [hfold, hm]

end Concordance.FiniteMap
