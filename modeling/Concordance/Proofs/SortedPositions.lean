import Concordance.Postings

/-! # Sorted positions

What the search among positions finds if they are sorted: a position that is there, or the place
where it parts the smaller ones from the others. So positions stay sorted when one is put in, and
taking out the one that was found is taking out the first of its kind.
-/
namespace Concordance

namespace Positions
variable {ps : List Nat} {order : Nat → Ordering} {p : Nat}

theorem search_lt (ps : List Nat) (order : Nat → Ordering) {base size : Nat} (hsize : 0 < size) :
    search ps order base size < base + size := by
  fun_induction search ps order base size with
  | case1 base size hlt half mid next ih =>
    have hnext : next = base ∨ next = mid := by
      simp only [next]
      split
      · exact .inl rfl
      · exact .inr rfl
    have := ih (by omega)
    omega
  | case2 base size hle => omega

/-- The wanted order never comes back: what stands behind a position too large is too large, and
what stands before one too small is too small. -/
structure Ranked (ps : List Nat) (order : Nat → Ordering) : Prop where
  gt : ∀ {i j}, i ≤ j → j < ps.length → order (ps.getD i 0) = .gt → order (ps.getD j 0) = .gt
  lt : ∀ {i j}, i ≤ j → j < ps.length → order (ps.getD j 0) = .lt → order (ps.getD i 0) = .lt

/-- The half that is dropped is too large, or the half that is kept begins with a position that is
not. -/
theorem search_spec (h : Ranked ps order) {base size : Nat} (hsize : 0 < size)
    (hlength : base + size ≤ ps.length)
    (habove : ∀ j, base + size ≤ j → j < ps.length → order (ps.getD j 0) = .gt) :
    (∀ j, search ps order base size < j → j < ps.length → order (ps.getD j 0) = .gt) ∧
      (search ps order base size = base ∨ order (ps.getD (search ps order base size) 0) ≠ .gt) := by
  fun_induction search ps order base size with
  | case1 base size hlt half mid next ih =>
    by_cases hmid : order (ps.getD mid 0) = .gt
    · have hnext : next = base := if_pos hmid
      rw [hnext] at ih ⊢
      refine ih (by omega) (by omega) fun j hj hlen => ?_
      exact h.gt (by omega) hlen hmid
    · have hnext : next = mid := if_neg hmid
      rw [hnext] at ih ⊢
      have hrest := ih (by omega) (by omega) fun j hj hlen => habove j (by omega) hlen
      refine ⟨hrest.1, .inr ?_⟩
      rcases hrest.2 with heq | hne
      · rwa [heq]
      · exact hne
  | case2 base size hle => exact ⟨fun j hj hlen => habove j (by omega) hlen, .inl rfl⟩

theorem find_ok {i : Nat} (h : find ps order = .ok i) : ∃ q, ps[i]? = some q ∧ order q = .eq := by
  simp only [find] at h
  split at h
  · cases h
  · rename_i q hq
    split at h
    · rename_i heq
      cases h
      exact ⟨q, hq, heq⟩
    · cases h
    · cases h

theorem find_error_le {i : Nat} (h : find ps order = .error i) : i ≤ ps.length := by
  simp only [find] at h
  split at h
  · cases h
    exact Nat.zero_le _
  · rename_i q hq
    have hlt := (List.getElem?_eq_some_iff.1 hq).1
    split at h <;> cases h <;> omega

/-- Where nothing is found, everything before is too small and everything from there on is too
large. -/
theorem find_error (hranked : Ranked ps order) {i : Nat} (h : find ps order = .error i) :
    (∀ j, j < i → order (ps.getD j 0) = .lt) ∧
      ∀ j, i ≤ j → j < ps.length → order (ps.getD j 0) = .gt := by
  rcases Nat.eq_zero_or_pos ps.length with hnil | hpos
  · have := find_error_le h
    exact ⟨fun j hj => by omega, fun j _ hj => by omega⟩
  have hlt : search ps order 0 ps.length < 0 + ps.length := search_lt ps order hpos
  have hspec := search_spec hranked hpos (Nat.le_of_eq (Nat.zero_add _))
    fun j hj hlen => absurd hj (by omega)
  simp only [find] at h
  generalize search ps order 0 ps.length = base at hspec hlt h
  obtain ⟨habove, hbase⟩ := hspec
  rw [Nat.zero_add] at hlt
  have hget : ps.getD base 0 = ps[base] := by simp [hlt]
  rw [List.getElem?_eq_getElem hlt] at h
  dsimp only at h
  rw [← hget] at h
  split at h
  · cases h
  · rename_i hsmall
    cases h
    exact ⟨fun j hj => hranked.lt (by omega) hlt hsmall, fun j hj hlen => habove j (by omega) hlen⟩
  · rename_i hlarge
    cases h
    obtain rfl : i = 0 := hbase.resolve_right fun hne => hne hlarge
    exact ⟨fun j hj => by omega, fun j hj hlen => hranked.gt hj hlen hlarge⟩

theorem getD_le (hsorted : ps.Pairwise (· ≤ ·)) {i j : Nat} (hij : i ≤ j) (hj : j < ps.length) :
    ps.getD i 0 ≤ ps.getD j 0 := by
  rcases Nat.lt_or_eq_of_le hij with hlt | rfl
  · have hi : i < ps.length := by omega
    simpa [hi, hj] using List.pairwise_iff_getElem.1 hsorted i j hi hj hlt
  · exact Nat.le_refl _

theorem ranked_compare (hsorted : ps.Pairwise (· ≤ ·)) (p : Nat) : Ranked ps (compare · p) where
  gt {i j} hij hj hgt := by
    have := getD_le hsorted hij hj
    rw [Nat.compare_eq_gt] at hgt ⊢
    omega
  lt {i j} hij hj hlt := by
    have := getD_le hsorted hij hj
    rw [Nat.compare_eq_lt] at hlt ⊢
    omega

theorem ranked_below (hsorted : ps.Pairwise (· ≤ ·)) (p : Nat) :
    Ranked ps fun q => if q < p then .lt else .gt where
  gt {i j} hij hj hgt := by
    have := getD_le hsorted hij hj
    split at hgt
    · cases hgt
    · exact if_neg (by omega)
  lt {i j} hij hj hlt := by
    have := getD_le hsorted hij hj
    split at hlt
    · exact if_pos (by omega)
    · cases hlt

/-- A search for a position among sorted ones fails exactly if it is not there. -/
theorem find?_eq_none (hsorted : ps.Pairwise (· ≤ ·)) : find? ps p = none ↔ p ∉ ps := by
  rw [find?]
  cases hfind : find ps (compare · p) with
  | ok i =>
    obtain ⟨q, hq, heq⟩ := find_ok hfind
    rw [Nat.compare_eq_eq] at heq
    simp [Except.toOption, ← heq, List.mem_of_getElem? hq]
  | error i =>
    obtain ⟨hbefore, hbehind⟩ := find_error (ranked_compare hsorted p) hfind
    simp only [Except.toOption, true_iff]
    intro hmem
    obtain ⟨j, hj, rfl⟩ := List.mem_iff_getElem.1 hmem
    rcases Nat.lt_or_ge j i with hji | hij
    · have := hbefore j hji
      simp [hj] at this
    · have := hbehind j hij hj
      simp [hj] at this

theorem getElem?_of_find? {i : Nat} (h : find? ps p = some i) : ps[i]? = some p := by
  rw [find?] at h
  cases hfind : find ps (compare · p) with
  | error j => simp [hfind, Except.toOption] at h
  | ok j =>
    obtain rfl : j = i := by simpa [hfind, Except.toOption] using h
    obtain ⟨q, hq, heq⟩ := find_ok hfind
    rwa [← Nat.compare_eq_eq.1 heq]

theorem find_below_ne_ok (ps : List Nat) (p i : Nat) :
    (find ps fun q => if q < p then .lt else .gt) ≠ .ok i := by
  intro h
  obtain ⟨q, -, hq⟩ := find_ok h
  split at hq <;> cases hq

theorem rank_le (ps : List Nat) (p : Nat) : rank ps p ≤ ps.length := by
  simp only [rank]
  split
  · exact absurd ‹_› (find_below_ne_ok ps p _)
  · exact find_error_le ‹_›

/-- The rank of a position parts the smaller ones from the others. -/
theorem rank_spec (hsorted : ps.Pairwise (· ≤ ·)) (p : Nat) :
    (∀ q ∈ ps.take (rank ps p), q < p) ∧ ∀ q ∈ ps.drop (rank ps p), p ≤ q := by
  simp only [rank]
  split
  · exact absurd ‹_› (find_below_ne_ok ps p _)
  · rename_i i hfind
    obtain ⟨hbefore, hbehind⟩ := find_error (ranked_below hsorted p) hfind
    constructor
    · intro q hq
      obtain ⟨j, hj, rfl⟩ := List.mem_take_iff_getElem.1 hq
      have hji := hbefore j (by omega)
      have hlen : j < ps.length := by omega
      simpa [hlen] using hji
    · intro q hq
      obtain ⟨j, hj, rfl⟩ := List.mem_drop_iff_getElem.1 hq
      have hij := hbehind (i + j) (by omega) (by omega)
      have hlen : i + j < ps.length := by omega
      simpa [hlen] using hij

theorem insertIdx_eq {i : Nat} (h : i ≤ ps.length) :
    ps.insertIdx i p = ps.take i ++ p :: ps.drop i := by
  induction ps generalizing i with
  | nil =>
    obtain rfl : i = 0 := Nat.le_zero.1 h
    rfl
  | cons q rest ih =>
    cases i with
    | zero => rfl
    | succ i => simp [ih (Nat.le_of_succ_le_succ h)]

theorem insert_eq (ps : List Nat) (p : Nat) :
    insert ps p = ps.take (rank ps p) ++ p :: ps.drop (rank ps p) := by
  rw [insert]
  exact insertIdx_eq (rank_le ps p)

theorem perm_insert (ps : List Nat) (p : Nat) : (insert ps p).Perm (p :: ps) := by
  rw [insert_eq]
  refine List.perm_middle.trans (List.Perm.cons p ?_)
  rw [List.take_append_drop]

theorem count_insert (ps : List Nat) (p q : Nat) :
    (insert ps p).count q = ps.count q + if p = q then 1 else 0 := by
  rw [(perm_insert ps p).count_eq, List.count_cons]
  simp

theorem mem_insert {q : Nat} : q ∈ insert ps p ↔ q = p ∨ q ∈ ps := by
  rw [(perm_insert ps p).mem_iff, List.mem_cons]

theorem insert_ne_nil (ps : List Nat) (p : Nat) : insert ps p ≠ [] :=
  List.ne_nil_of_mem (mem_insert.2 (.inl rfl))

theorem pairwise_insert (h : ps.Pairwise (· ≤ ·)) : (insert ps p).Pairwise (· ≤ ·) := by
  obtain ⟨hbefore, hbehind⟩ := rank_spec h p
  have hparts := h
  rw [← List.take_append_drop (rank ps p) ps, List.pairwise_append] at hparts
  obtain ⟨htake, hdrop, -⟩ := hparts
  rw [insert_eq, List.pairwise_append]
  refine ⟨htake, List.pairwise_cons.2 ⟨hbehind, hdrop⟩, fun a ha b hb => ?_⟩
  have hap := hbefore a ha
  rcases List.mem_cons.1 hb with rfl | hb
  · exact Nat.le_of_lt hap
  · exact Nat.le_trans (Nat.le_of_lt hap) (hbehind b hb)

theorem eq_of_perm {qs : List Nat} (hps : ps.Pairwise (· ≤ ·)) (hqs : qs.Pairwise (· ≤ ·))
    (h : ps.Perm qs) : ps = qs :=
  h.eq_of_pairwise (fun _ _ _ _ hab hba => Nat.le_antisymm hab hba) hps hqs

/-- What a search has found is as good as the first such position. -/
theorem eraseIdx_eq (hsorted : ps.Pairwise (· ≤ ·)) {i : Nat} (h : find? ps p = some i) :
    ps.eraseIdx i = ps.erase p := by
  have hget := getElem?_of_find? h
  obtain ⟨hi, hp⟩ := List.getElem?_eq_some_iff.1 hget
  refine eq_of_perm (hsorted.sublist (List.eraseIdx_sublist ps i)) (hsorted.erase p) ?_
  have hleft : (p :: ps.eraseIdx i).Perm ps := by
    have hparts := List.take_append_drop i ps
    rw [List.drop_eq_getElem_cons hi, hp] at hparts
    rw [List.eraseIdx_eq_take_drop_succ]
    exact List.perm_middle.symm.trans (.of_eq hparts)
  exact (List.perm_cons p).1 (hleft.trans (List.perm_cons_erase (List.mem_of_getElem? hget)))

end Positions

end Concordance
