import Concordance.Proofs.Reopening

/-! # Counters that stay words

Object ids and record ids are counted in words of 32 bits. After the last of them a counter would
wrap around and give out old ids again. The counters of a database are numbers without a last one,
so what they are worth is said of the runs in which every call leaves them words: there they are the
counters that wrap around.
-/
namespace Concordance

/-- As long as the counter stays a word, a record is added as if it wrapped around. -/
theorem Table.add_eq_wrap {t : Table} (h : Word.Fits t.add.2.next) :
    t.add = (t.next, { t with live := t.live.insert t.next, next := wrap (t.next + 1) }) := by
  have hnext : wrap (t.next + 1) = t.next + 1 := wrap_of_le (Nat.le_of_lt_succ h)
  rw [hnext]
  rfl

namespace Database
variable {db db' : Database}

/-- As long as the counter stays a word, an object is added as if it wrapped around. -/
theorem addObject_eq_wrap {name : Option String} {kind : ObjectKind}
    (h : Word.Fits (db.addObject name kind).nextId) : db.addObject name kind =
      { db with
        objects := db.objects.insert db.nextId ⟨db.nextId, name, kind⟩
        nextId := wrap (db.nextId + 1) } := by
  have hnext : wrap (db.nextId + 1) = db.nextId + 1 := wrap_of_le (Nat.le_of_lt_succ h)
  rw [hnext]
  rfl

/-- The next object id and the next record ids of all tables are words. -/
structure Counted (db : Database) : Prop where
  nextId : Word.Fits db.nextId
  next : ∀ {table : Nat} {t}, db.tables[table]? = some t → Word.Fits t.next

instance (db : Database) : Decidable db.Counted :=
  decidable_of_iff (Word.Fits db.nextId ∧ ∀ e ∈ db.tables.toList, Word.Fits e.2.next)
    ⟨fun h => ⟨h.1, fun ht => h.2 _ (Std.ExtTreeMap.mem_toList_iff_getElem?_eq_some.2 ht)⟩,
      fun h => ⟨h.nextId, fun _ he => h.next (Std.ExtTreeMap.mem_toList_iff_getElem?_eq_some.1 he)⟩⟩

/-- A call that opens no files but those of the database itself, and leaves all counters words. -/
def Counting (db : Database) (call : Call) : Prop := db.OwnFiles call ∧ (db.after call).Counted

/-- What a file of the database itself holds has the counters of the database. -/
theorem WellFormed.counting_reopen (h : db.WellFormed) (hcounted : db.Counted) {image : Image}
    (hfile : db.OwnFiles (.reopen image)) : db.Counting (.reopen image) := by
  obtain ⟨hsaved, hnarrow⟩ := hfile
  refine ⟨⟨hsaved, hnarrow⟩, ?_⟩
  simp only [Database.after]
  split
  · have hrest := (h.reread_of_load hnarrow hsaved ‹_›).rest
    rw [hrest]
    exact ⟨hcounted.nextId, hcounted.next⟩
  · exact hcounted

theorem Reached.counted (h : Reached Counting db) : db.Counted := by
  cases h with
  | new => decide +kernel
  | after call _ hcall => exact hcall.2

theorem Reached.ownFiles (h : Reached Counting db) : Reached OwnFiles db :=
  h.imp fun _ _ hcall => hcall.1

theorem Leads.ownFiles (h : Leads Counting db db') : Leads OwnFiles db db' :=
  h.imp fun _ _ hcall => hcall.1

theorem reached_counting_notes : Reached Counting notes := by
  refine .after _ (.after _ (.after _ (.after _ (.after _ (.after _ (.after _ (.after _ .new ?_)
    ?_) ?_) ?_) ?_) ?_) ?_) ?_
  all_goals exact ⟨trivial, by decide +kernel⟩

end Database
end Concordance
