import Concordance.Proofs.SourceTexts

/-! # Installing sources

A new list of sources retracts what its lost places yielded and inserts what its new places yield.
The places that both lists share stay, so the counts move exactly as far as the two yields differ.
-/
namespace Concordance

/-- Entries with different keys contribute the entry of one key. -/
theorem total_held {α : Type} {held : List (Nat × α)} (hnodup : (held.map (·.1)).Nodup)
    (r : Nat) (f : α → Nat) {a : α} (ha : ∀ entry ∈ held, entry.1 = r → entry.2 = a)
    (hnot : r ∉ held.map (·.1) → f a = 0) :
    total (held.map fun entry => if r = entry.1 then f entry.2 else 0) = f a := by
  induction held with
  | nil => exact (hnot (by simp)).symm
  | cons entry rest ih =>
    obtain ⟨hfresh, hrest⟩ := List.nodup_cons.1 hnodup
    rw [List.map_cons, total_cons]
    by_cases hr : r = entry.1
    · have hzero : total (rest.map fun e => if r = e.1 then f e.2 else 0) = 0 := by
        refine List.sum_eq_zero_iff_forall_eq_nat.2 fun n hn => ?_
        obtain ⟨e, he, rfl⟩ := List.mem_map.1 hn
        rw [if_neg]
        rintro rfl
        exact hfresh (List.mem_map.2 ⟨e, he, hr⟩)
      rw [if_pos hr, hzero, ha entry (List.mem_cons_self ..) hr.symm, Nat.add_zero]
    · rw [if_neg hr, Nat.zero_add]
      refine ih hrest (fun e he => ha e (List.mem_cons_of_mem _ he)) fun hmem => hnot ?_
      simpa [hr] using hmem

namespace Delta
variable {ix : Index} {t : String} {r s q : Nat}

theorem foldl_effect_of_no_new {deltas : List Delta} (h : ∀ delta ∈ deltas, delta.new = [])
    (n : Nat) : deltas.foldl (fun n delta => delta.effect ix t r s q n) n =
      n - total (deltas.map fun delta => delta.taken ix t r s q) := by
  induction deltas generalizing n with
  | nil => rfl
  | cons delta rest ih =>
    have hgiven : delta.given ix t r s q = 0 := by
      rw [given, h delta (List.mem_cons_self ..), Index.share_nil, ite_self]
    rw [List.foldl_cons, ih fun d hd => h d (List.mem_cons_of_mem _ hd), List.map_cons, total_cons,
      effect, hgiven]
    omega

theorem foldl_effect_of_no_old {deltas : List Delta} (h : ∀ delta ∈ deltas, delta.old = [])
    (n : Nat) : deltas.foldl (fun n delta => delta.effect ix t r s q n) n =
      n + total (deltas.map fun delta => delta.given ix t r s q) := by
  induction deltas generalizing n with
  | nil => rfl
  | cons delta rest ih =>
    have htaken : delta.taken ix t r s q = 0 := by
      rw [taken, h delta (List.mem_cons_self ..), Index.share_nil, ite_self]
    rw [List.foldl_cons, ih fun d hd => h d (List.mem_cons_of_mem _ hd), List.map_cons, total_cons,
      effect, htaken]
    omega

end Delta

/-! ## Places -/

theorem nodup_zipIdx {α : Type} (l : List α) (k : Nat) : (l.zipIdx k).Nodup := by
  have hsnd : ((l.zipIdx k).map Prod.snd).Nodup := by
    rw [List.zipIdx_map_snd]
    exact List.nodup_range'
  exact (List.pairwise_map.1 hsnd).imp fun hne heq => hne (congrArg Prod.snd heq)

namespace Database
variable {db db' : Database}

theorem fst_mem_of_mem_placesLost {before after : List ObjectId} {place : ObjectId × Nat}
    (h : place ∈ placesLost before after) : place.1 ∈ before := by
  rw [placesLost, List.mem_mergeSort, List.mem_filter] at h
  exact List.fst_mem_of_mem_zipIdx h.1

/-- The places of a list are those it loses and those it keeps. -/
theorem places_perm (before after : List ObjectId) :
    (before.zipIdx 1).Perm (placesLost before after ++
      (before.zipIdx 1).filter fun place => (after.zipIdx 1).contains place) := by
  have hsplit := (List.filter_append_perm
    (fun place => !(after.zipIdx 1).contains place) (before.zipIdx 1)).symm
  simp only [Bool.not_not] at hsplit
  exact hsplit.trans ((List.mergeSort_perm _ _).symm.append_right _)

theorem yield_places (ix : Index) (texts : Nat → Nat → List String)
    (before after : List ObjectId) (t : String) (r s q : Nat) :
    ix.yield texts (before.zipIdx 1) t r s q + ix.yield texts (placesLost after before) t r s q =
      ix.yield texts (after.zipIdx 1) t r s q +
        ix.yield texts (placesLost before after) t r s q := by
  have hkept : ((before.zipIdx 1).filter fun place => (after.zipIdx 1).contains place).Perm
      ((after.zipIdx 1).filter fun place => (before.zipIdx 1).contains place) := by
    refine (List.perm_ext_iff_of_nodup ((nodup_zipIdx _ _).filter _)
      ((nodup_zipIdx _ _).filter _)).2 fun place => ?_
    simp only [List.mem_filter, List.contains_iff_mem]
    exact And.comm
  rw [ix.yield_perm texts (places_perm before after),
    ix.yield_perm texts (places_perm after before), Index.yield_append, Index.yield_append,
    ix.yield_perm texts hkept]
  omega

/-! ## The deltas of a new list -/

/-- The deltas of one place in a well-formed database. -/
theorem WellFormed.placeDeltas (h : db.WellFormed) (e : HashOrder) {range : Nat}
    {place : ObjectId × Nat}
    (hs : db.checkSource range place.1 = .ok ()) :
    ∃ held, db.Enumerates range place.1 held ∧ ∀ make : RecordId → Nat → List String → Delta,
      e.placeDeltas db make place = .ok (held.map fun entry => make entry.1 place.2 entry.2) := by
  obtain ⟨held, hheld, henum⟩ := h.sourceTexts e hs
  refine ⟨held, henum, fun make => ?_⟩
  simp only [HashOrder.placeDeltas, hheld]
  rfl

theorem Enumerates.total_share {range source : Nat} {held : List (RecordId × List String)}
    (h : db.Enumerates range source held) (ix : Index) (sec : Nat) (t : String) (r s q : Nat) :
    total (held.map fun entry => if r = entry.1 then ix.share sec entry.2 t s q else 0) =
      ix.share sec (db.textsOf source r) t s q := by
  refine total_held h.nodup r (fun texts => ix.share sec texts t s q) ?_ ?_
  · rintro entry he rfl
    exact h.texts entry he
  · intro hnot
    have hnil : db.textsOf source r = [] :=
      Classical.byContradiction fun hne => hnot (h.covers r hne)
    rw [hnil, Index.share_nil]

/-- The deltas that places make, all of one kind, and what they amount to. -/
theorem WellFormed.placesDeltas (h : db.WellFormed) (e : HashOrder) {range : Nat}
    (places : List (ObjectId × Nat))
    (hs : ∀ place ∈ places, db.checkSource range place.1 = .ok ())
    (make : RecordId → Nat → List String → Delta)
    (hmake : ∀ record sec texts, (make record sec texts).record = record)
    (amount : Delta → Index → String → Nat → Nat → Nat → Nat)
    (hamount : ∀ record sec texts (ix : Index) t r s q,
      amount (make record sec texts) ix t r s q =
        if r = record then ix.share sec texts t s q else 0) :
    ∃ lists, places.mapM (e.placeDeltas db make) = .ok lists ∧
      (∀ delta ∈ lists.flatten, db.isLive range delta.record ∧ ∃ place ∈ places,
        delta = make delta.record place.2 (db.textsOf place.1 delta.record)) ∧
      ∀ (ix : Index) t r s q, total (lists.flatten.map fun delta => amount delta ix t r s q) =
        ix.yield db.textsOf places t r s q := by
  induction places with
  | nil => exact ⟨[], rfl, by simp, fun _ _ _ _ _ => rfl⟩
  | cons place rest ih =>
    obtain ⟨held, henum, hheld⟩ := h.placeDeltas e (hs place (List.mem_cons_self ..))
    obtain ⟨lists, hlists, hmem, htotal⟩ := ih fun p hp => hs p (List.mem_cons_of_mem _ hp)
    refine ⟨(held.map fun entry => make entry.1 place.2 entry.2) :: lists,
      mapM_cons_ok (hheld make) hlists, ?_, ?_⟩
    · intro delta hd
      rw [List.flatten_cons] at hd
      rcases List.mem_append.1 hd with hd | hd
      · obtain ⟨entry, he, rfl⟩ := List.mem_map.1 hd
        rw [hmake]
        refine ⟨henum.live entry he, place, List.mem_cons_self .., ?_⟩
        rw [henum.texts entry he]
      · obtain ⟨hlive, p, hp, hdelta⟩ := hmem delta hd
        exact ⟨hlive, p, List.mem_cons_of_mem _ hp, hdelta⟩
    · intro ix t r s q
      rw [List.flatten_cons, List.map_append, total_append, htotal, Index.yield_cons,
        List.map_map, ← henum.total_share ix place.2 t r s q]
      simp only [Function.comp_def, hamount]

/-- The deltas from one list of sources to another can always be found. They are for live records,
and take out what the lost places yield and put in what the new ones yield. -/
theorem WellFormed.sourceDeltas (h : db.WellFormed) (e : HashOrder) {range : Nat}
    {before after : List ObjectId}
    (hbefore : ∀ s ∈ before, db.checkSource range s = .ok ())
    (hafter : ∀ s ∈ after, db.checkSource range s = .ok ()) :
    ∃ deltas, e.sourceDeltas db before after = .ok deltas ∧
      (∀ delta ∈ deltas, db.isLive range delta.record) ∧
      ∀ (ix : Index) t r s q n, deltas.foldl (fun n delta => delta.effect ix t r s q n) n =
        n - ix.yield db.textsOf (placesLost before after) t r s q +
          ix.yield db.textsOf (placesLost after before) t r s q := by
  obtain ⟨lost, hlost, hlostMem, hlostTotal⟩ := h.placesDeltas e
    (placesLost before after) (fun place hp => hbefore place.1 (fst_mem_of_mem_placesLost hp))
    (fun record sec texts => ⟨record, sec, texts, []⟩) (fun _ _ _ => rfl)
    Delta.taken (fun _ _ _ _ _ _ _ _ => rfl)
  obtain ⟨gained, hgained, hgainedMem, hgainedTotal⟩ := h.placesDeltas e
    (placesLost after before) (fun place hp => hafter place.1 (fst_mem_of_mem_placesLost hp))
    (fun record sec texts => ⟨record, sec, [], texts⟩) (fun _ _ _ => rfl)
    Delta.given (fun _ _ _ _ _ _ _ _ => rfl)
  refine ⟨lost.flatten ++ gained.flatten, ?_, ?_, ?_⟩
  · simp only [HashOrder.sourceDeltas, hlost, hgained]
    rfl
  · intro delta hd
    rcases List.mem_append.1 hd with hd | hd
    · exact (hlostMem delta hd).1
    · exact (hgainedMem delta hd).1
  · intro ix t r s q n
    have hnew : ∀ delta ∈ lost.flatten, delta.new = [] := by
      intro delta hd
      obtain ⟨-, place, -, hdelta⟩ := hlostMem delta hd
      rw [hdelta]
    have hold : ∀ delta ∈ gained.flatten, delta.old = [] := by
      intro delta hd
      obtain ⟨-, place, -, hdelta⟩ := hgainedMem delta hd
      rw [hdelta]
    rw [List.foldl_append, Delta.foldl_effect_of_no_new hnew, Delta.foldl_effect_of_no_old hold,
      hlostTotal, hgainedTotal]

end Database
end Concordance
