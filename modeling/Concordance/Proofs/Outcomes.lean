import Concordance.Database

/-! # Outcomes

How a call that may be refused is taken apart: a chain of checks passes if each of them does, and a
call that finds every fault first leaves the database alone when it is refused.
-/
namespace Concordance
variable {α β ε : Type}

theorem bind_eq_ok {x : Except ε α} {f : α → Except ε β} {b : β} :
    (x >>= f) = .ok b ↔ ∃ a, x = .ok a ∧ f a = .ok b := by
  cases x <;> simp [bind, Except.bind]

/-- A call on each item gives a list if it gives its head for the first and its tail for the rest. -/
theorem mapM_cons_eq_ok {f : α → Except ε β} {a : α} {l : List α} {bs : List β} :
    (a :: l).mapM f = .ok bs ↔ ∃ b more, f a = .ok b ∧ l.mapM f = .ok more ∧ bs = b :: more := by
  rw [List.mapM_cons, bind_eq_ok]
  constructor
  · rintro ⟨b, hb, h⟩
    obtain ⟨more, hmore, h⟩ := bind_eq_ok.1 h
    cases h
    exact ⟨b, more, hb, hmore, rfl⟩
  · rintro ⟨b, more, hb, hmore, rfl⟩
    exact ⟨b, hb, bind_eq_ok.2 ⟨more, hmore, rfl⟩⟩

theorem mapM_cons_ok {f : α → Except ε β} {a : α} {b : β} {l : List α} {bs : List β}
    (ha : f a = .ok b) (hl : l.mapM f = .ok bs) : (a :: l).mapM f = .ok (b :: bs) :=
  mapM_cons_eq_ok.2 ⟨b, bs, ha, hl, rfl⟩

theorem mapM_congr {f g : α → Except ε β} {l : List α} (h : ∀ a ∈ l, f a = g a) :
    l.mapM f = l.mapM g := by
  induction l with
  | nil => rfl
  | cons a rest ih =>
    rw [List.mapM_cons, List.mapM_cons, h a (List.mem_cons_self ..),
      ih fun b hb => h b (List.mem_cons_of_mem a hb)]

/-- A call on each item succeeds if each of them does. -/
theorem mapM_eq_ok {f : α → Except ε β} {g : α → β} {l : List α}
    (h : ∀ a ∈ l, f a = .ok (g a)) : l.mapM f = .ok (l.map g) := by
  induction l with
  | nil => rfl
  | cons a rest ih =>
    exact mapM_cons_ok (h a (List.mem_cons_self ..)) (ih fun b hb => h b (List.mem_cons_of_mem a hb))

/-- A check of each item passes if it passes for all. -/
theorem forM_eq_ok {f : α → Except ε Unit} {l : List α} :
    l.forM f = .ok () ↔ ∀ a ∈ l, f a = .ok () := by
  induction l with
  | nil => exact ⟨fun _ _ ha => absurd ha List.not_mem_nil, fun _ => rfl⟩
  | cons a rest ih =>
    change (f a >>= fun _ => rest.forM f) = .ok () ↔ _
    simp only [bind_eq_ok, ih, List.forall_mem_cons]
    exact ⟨fun ⟨_, ha, hrest⟩ => ⟨ha, hrest⟩, fun ⟨ha, hrest⟩ => ⟨(), ha, hrest⟩⟩

namespace Database
variable {db db' : Database} {call : Except Error (α × Database)}

/-- A call either succeeds or leaves the database alone. -/
theorem attempt_inv {outcome : Except Error α} (h : db.attempt call = (outcome, db')) :
    (∃ a, call = .ok (a, db') ∧ outcome = .ok a) ∨
      ∃ e, call = .error e ∧ outcome = .error e ∧ db' = db := by
  cases call with
  | ok result =>
    cases h
    exact .inl ⟨_, rfl, rfl⟩
  | error e =>
    cases h
    exact .inr ⟨e, rfl, rfl, rfl⟩

end Database
end Concordance
