import Concordance.Proofs.SourceLists
import Concordance.Proofs.Uses

/-! # Buffers between uses

A use rewinds each buffer before it writes to it and hands over only what it has written. So what
an earlier use left in the buffers, whole or cut off by an error, shows in nothing that a later use
answers or changes.
-/
namespace Concordance

theorem Buffer.rewind_appendValue (b : Buffer) (v : Json) :
    (b.appendValue v).2.rewind = b.rewind := by
  cases v <;> rfl

/-- The same answer, and the same session after it. -/
def Reply.Agrees {α : Type} (reply reply' : Reply α) : Prop :=
  reply.result = reply'.result ∧ reply.session = reply'.session

theorem Reply.Agrees.map {α β : Type} {reply reply' : Reply α} (h : reply.Agrees reply')
    (f : α → β) : (reply.map f).Agrees (reply'.map f) :=
  ⟨congrArg (Except.map f) h.1, h.2⟩

/-- The buffers with nothing in them. -/
def Scratch.rewound (scratch : Scratch) : Scratch :=
  ⟨scratch.value.rewind, scratch.oldValue.rewind, scratch.idQuery.rewind, scratch.textQuery.rewind⟩

namespace IndexColumn

/-- The handle with nothing in its buffers. -/
def rewound (c : IndexColumn) : IndexColumn := { c with scratch := c.scratch.map Scratch.rewound }

/-- The same handle but for the bytes and the ends of items in its buffers. -/
def Alike (c d : IndexColumn) : Prop := c.rewound = d.rewound

variable {c d d' : IndexColumn} {x y : Scratch} (s : Session)

theorem Alike.refl (c : IndexColumn) : c.Alike c := rfl

theorem Alike.symm (h : c.Alike d) : d.Alike c := Eq.symm h

theorem Alike.trans (h : c.Alike d) (h' : d.Alike d') : c.Alike d' := Eq.trans h h'

/-- Handles without buffers that are alike are the same, and others differ in their buffers only. -/
theorem Alike.cases (h : c.Alike d) : d = c ∧ c.scratch = none ∨
    ∃ x y, c.scratch = some x ∧ d = c.withScratch y ∧ y.rewound = x.rewound := by
  obtain ⟨context, id, lexicon, range, owner, scratch⟩ := c
  obtain ⟨context', id', lexicon', range', owner', scratch'⟩ := d
  simp only [Alike, rewound, mk.injEq] at h
  obtain ⟨rfl, rfl, rfl, rfl, rfl, hscratch⟩ := h
  cases scratch with
  | none =>
    rw [Option.map_none, eq_comm, Option.map_eq_none_iff] at hscratch
    exact .inl ⟨by rw [hscratch], rfl⟩
  | some x =>
    rw [Option.map_some, eq_comm, Option.map_eq_some_iff] at hscratch
    obtain ⟨y, rfl, hrewound⟩ := hscratch
    exact .inr ⟨x, y, rfl, rfl, hrewound⟩

theorem alike_withScratch (hx : c.scratch = some x) (h : y.rewound = x.rewound) :
    (c.withScratch y).Alike c := by
  simp only [Alike, rewound, withScratch, hx, Option.map_some, h]

/-! ## Filling buffers -/

theorem rewind_fill (b : Buffer) (side : Option Json) : (fill b side).2.rewind = b.rewind := by
  cases side with
  | none => rfl
  | some v =>
    have hrewind := b.rewind.rewind_appendValue v
    simp only [fill]
    split <;> rename_i heq <;> rw [heq] at hrewind <;> exact hrewind

/-- What is handed over does not depend on what the buffer held. -/
theorem fill_congr {b b' : Buffer} (h : b.rewind = b'.rewind) (side : Option Json) :
    (fill b side).1 = (fill b' side).1 := by
  cases side with
  | none => rfl
  | some v => simp only [fill, h]

theorem rewound_normalize {query : Query} {asked : EngineQuery}
    (h : normalize x query = .ok (asked, y)) : y.rewound = x.rewound := by
  cases query with
  | compiled query =>
    cases h
    rfl
  | term id =>
    cases h
    rfl
  | text bytes =>
    simp only [normalize] at h
    split at h
    · cases h
    · cases h
      rfl

/-- A query comes to the engine in the same form whatever the buffers held. -/
theorem normalize_congr (h : y.rewound = x.rewound) (query : Query) :
    (normalize y query).map Prod.fst = (normalize x query).map Prod.fst := by
  simp only [Scratch.rewound, Scratch.mk.injEq] at h
  obtain ⟨-, -, hid, htext⟩ := h
  cases query with
  | compiled query => rfl
  | term id => simp only [normalize, hid, Except.map]
  | text bytes =>
    simp only [normalize, htext]
    cases Text.ofUtf8 bytes <;> rfl

theorem parts_withScratch (hx : c.scratch = some x) (y : Scratch) :
    (c.withScratch y).parts s = (c.parts s).map fun _ => y := by
  cases hopen : s.isOpen c.context <;> simp [parts, withScratch, hx, hopen, Except.map]

/-! ## The engine calls of alike handles -/

section
variable (hx : c.scratch = some x) (h : y.rewound = x.rewound)
include hx h

theorem updateRequest_withScratch (record : RecordId) (arg : UpdateArg) :
    (c.withScratch y).updateRequest s record arg = c.updateRequest s record arg := by
  simp only [Scratch.rewound, Scratch.mk.injEq] at h
  obtain ⟨hvalue, hold, -, -⟩ := h
  simp only [updateRequest, prepare, c.parts_withScratch s hx, Bind.bind, Except.bind]
  cases arg.resolve with
  | error e => rfl
  | ok update =>
    dsimp only
    cases update.sectionNumber with
    | error e => rfl
    | ok sec =>
      cases hparts : c.parts s with
      | error e => rfl
      | ok scratch =>
        obtain rfl : x = scratch := Option.some.inj (hx.symm.trans (parts_eq_ok.1 hparts).2)
        simp only [Except.map, pure, Except.pure, fill_congr hold, fill_congr hvalue]
        rfl

theorem asked_withScratch (query : Query) : (c.withScratch y).asked s query = c.asked s query := by
  rw [asked, asked, c.parts_withScratch s hx]
  cases hparts : c.parts s with
  | error e => rfl
  | ok scratch =>
    obtain rfl : x = scratch := Option.some.inj (hx.symm.trans (parts_eq_ok.1 hparts).2)
    exact normalize_congr h query

theorem searchRequest_withScratch (query : Query) (result : ResultTable)
    (options : SearchOptions) :
    (c.withScratch y).searchRequest s query result options =
      c.searchRequest s query result options := by
  rw [searchRequest, searchRequest, asked_withScratch s hx h]
  rfl

theorem assign_withScratch (record : RecordId) (arg : UpdateArg) :
    ((c.withScratch y).assign s record arg).Agrees (c.assign s record arg) := by
  obtain ⟨_, heq⟩ := c.assign_eq s record arg
  obtain ⟨_, heq'⟩ := (c.withScratch y).assign_eq s record arg
  rw [heq, heq', updateRequest_withScratch s hx h]
  exact ⟨rfl, rfl⟩

theorem assignOptions_withScratch (record : RecordId) (options : UpdateOptions) :
    ((c.withScratch y).assignOptions s record options).Agrees
      (c.assignOptions s record options) :=
  (assign_withScratch s hx h record (.options options)).map fun _ => ()

theorem searchInto_withScratch (query : Query) (result : ResultTable) (options : SearchOptions) :
    ((c.withScratch y).searchInto s query result options).1.Agrees
        (c.searchInto s query result options).1 ∧
      ((c.withScratch y).searchInto s query result options).2 =
        (c.searchInto s query result options).2 := by
  constructor
  · obtain ⟨_, heq⟩ := c.searchInto_eq s query result options
    obtain ⟨_, heq'⟩ := (c.withScratch y).searchInto_eq s query result options
    rw [heq, heq', searchRequest_withScratch s hx h]
    exact ⟨rfl, rfl⟩
  · simp only [searchInto_snd, asked_withScratch s hx h]
    rfl

theorem search_withScratch (query : Query) (options : SearchOptions) :
    ((c.withScratch y).search s query options).Agrees (c.search s query options) := by
  unfold search
  rw [c.parts_withScratch s hx]
  cases c.parts s with
  | error e => exact ⟨rfl, rfl⟩
  | ok scratch =>
    simp only [Except.map]
    have hrange : (c.withScratch y).range = c.range := rfl
    rw [hrange]
    generalize (s.createResult c.range .all).2.settle (s.createResult c.range .all).1 = settled
    obtain ⟨answer, s'⟩ := settled
    cases answer with
    | error e => exact ⟨rfl, rfl⟩
    | ok result =>
      obtain ⟨⟨hresult, hsession⟩, htable⟩ := searchInto_withScratch s' hx h query result options
      simp only [hresult, hsession, htable]
      exact ⟨rfl, rfl⟩

omit h in
theorem sourcesRequest_withScratch (y : Scratch) (refs : List SourceRef) :
    (c.withScratch y).sourcesRequest s refs = c.sourcesRequest s refs := by
  rw [sourcesRequest, sourcesRequest, c.parts_withScratch s hx]
  cases c.parts s <;> rfl

end

/-! ## Uses -/

theorem alike_assign (c : IndexColumn) (record : RecordId) (arg : UpdateArg) :
    (c.assign s record arg).column.Alike c := by
  unfold assign
  cases hprepare : c.prepare s arg with
  | error e => exact .refl c
  | ok prepared =>
    obtain ⟨update, sec, scratch⟩ := prepared
    obtain ⟨_, -, hprepare⟩ := bind_eq_ok.1 hprepare
    obtain ⟨_, -, hprepare⟩ := bind_eq_ok.1 hprepare
    obtain ⟨_, hparts, hprepare⟩ := bind_eq_ok.1 hprepare
    cases hprepare
    have hx := (parts_eq_ok.1 hparts).2
    have hold := rewind_fill scratch.oldValue update.oldSide
    have hvalue := rewind_fill scratch.value update.newSide
    dsimp only
    split
    · exact alike_withScratch hx (by simp only [Scratch.rewound, hold])
    · split
      · exact alike_withScratch hx (by simp only [Scratch.rewound, hold, hvalue])
      · exact alike_withScratch hx (by simp only [Scratch.rewound, hold, hvalue])

theorem alike_searchInto (c : IndexColumn) (query : Query) (result : ResultTable)
    (options : SearchOptions) : (c.searchInto s query result options).1.column.Alike c := by
  unfold searchInto
  cases hquery : c.parts s >>= (normalize · query) with
  | error e => exact .refl c
  | ok asked =>
    obtain ⟨scratch, hparts, hnormalize⟩ := bind_eq_ok.1 hquery
    exact alike_withScratch (parts_eq_ok.1 hparts).2 (rewound_normalize hnormalize)

theorem alike_search (c : IndexColumn) (query : Query) (options : SearchOptions) :
    (c.search s query options).column.Alike c := by
  unfold search
  split
  · exact .refl c
  · dsimp only
    split
    · exact .refl c
    · exact c.alike_searchInto _ query _ options

end IndexColumn

namespace Use
open IndexColumn
variable {c d c' d' : IndexColumn}

/-- Until a handle is unbound it changes only in what its buffers hold. -/
theorem alike_run (c : IndexColumn) (s : Session) {use : Use} (h : use ≠ .unbind) :
    (use.run c s).column.Alike c := by
  cases use with
  | assign record arg => exact c.alike_assign s record arg
  | add | delete | update => exact c.alike_assign s _ _
  | sources | setSources => exact .refl c
  | search query options => exact c.alike_search s query options
  | searchInto query result options => exact c.alike_searchInto s query result options
  | unbind => exact absurd rfl h

/-- Handles that differ in what their buffers hold at most answer and do the same. -/
theorem run_alike (h : c.Alike d) (use : Use) (s : Session) :
    (use.run d s).Agrees (use.run c s) ∧ use.table d s = use.table c s := by
  rcases h.cases with ⟨rfl, -⟩ | ⟨x, y, hx, rfl, hy⟩
  · exact ⟨⟨rfl, rfl⟩, rfl⟩
  have hbound : (c.withScratch y).isBound = c.isBound := by
    simp only [isBound, withScratch, hx, Option.isSome_some]
  cases use with
  | assign record arg => exact ⟨(assign_withScratch s hx hy record arg).map _, rfl⟩
  | add | delete | update => exact ⟨(assignOptions_withScratch s hx hy _ _).map _, rfl⟩
  | sources =>
    have heq : (c.withScratch y).sources s = c.sources s := by
      simp only [IndexColumn.sources, hbound]
      rfl
    simp only [run, heq]
    exact ⟨⟨rfl, rfl⟩, rfl⟩
  | setSources refs =>
    simp only [run, setSources_eq, sourcesRequest_withScratch s hx]
    exact ⟨⟨rfl, rfl⟩, rfl⟩
  | search query options => exact ⟨(search_withScratch s hx hy query options).map _, rfl⟩
  | searchInto query result options =>
    obtain ⟨hagrees, htable⟩ := searchInto_withScratch s hx hy query result options
    exact ⟨hagrees.map _, congrArg some htable⟩
  | unbind =>
    have heq : (c.withScratch y).unbind s = c.unbind s := by
      simp only [IndexColumn.unbind, hbound]
      rfl
    simp only [run, heq]
    exact ⟨⟨rfl, rfl⟩, rfl⟩

theorem column_unbind (c : IndexColumn) (s : Session) :
    (c.unbind s).column = { c with scratch := none } := by
  unfold IndexColumn.unbind
  split <;> rfl

/-- Alike handles stay alike. -/
theorem column_run_alike (h : c.Alike d) (use : Use) (s : Session) :
    (use.run c s).column.Alike (use.run d s).column := by
  by_cases hunbind : use = .unbind
  · have hcolumn (c : IndexColumn) : (use.run c s).column = { c with scratch := none } := by
      rw [hunbind]
      exact column_unbind c s
    rw [hcolumn, hcolumn]
    rcases h.cases with ⟨rfl, -⟩ | ⟨x, y, -, rfl, -⟩ <;> rfl
  · exact ((alike_run c s hunbind).trans h).trans (alike_run d s hunbind).symm

end Use

namespace IndexColumn
variable {c d c' d' : IndexColumn}

/-- What uses other than unbinding make of a handle, whatever becomes of its session meanwhile. -/
inductive Used (c : IndexColumn) : IndexColumn → Prop
  | new : Used c c
  | after {d : IndexColumn} (used : Used c d) (use : Use) (s : Session) (bound : use ≠ .unbind) :
    Used c (use.run d s).column

theorem Used.alike (h : c.Used d) : d.Alike c := by
  induction h with
  | new => exact .refl c
  | after _ use s bound ih => exact (use.alike_run _ s bound).trans ih

/-- Take two handles that are the same but for what their buffers hold, and whatever uses of each,
successful or not. The next use answers the same on both, leaves the same database and the same
context, makes the same of a table to search into, and the handles are still the same but for what
their buffers hold. -/
theorem run_forgets (h : c.Alike d) (hc : c.Used c') (hd : d.Used d') (use : Use) (s : Session) :
    (use.run c' s).result = (use.run d' s).result ∧
      (use.run c' s).session = (use.run d' s).session ∧ use.table c' s = use.table d' s ∧
        (use.run c' s).column.Alike (use.run d' s).column := by
  have hafter : d'.Alike c' := (hd.alike.trans h.symm).trans hc.alike.symm
  obtain ⟨⟨hresult, hsession⟩, htable⟩ := use.run_alike hafter s
  exact ⟨hresult, hsession, htable, Use.column_run_alike hafter.symm use s⟩

/-- One handle has bytes in its buffers, and the other has failed to replace a text by a list with
an object in it, which left the text in one buffer and the start of the list in another. -/
theorem run_forgets_notes :
    let s := Session.start Database.notes
    let failed := Use.update 1 (.text "to do") (.array [.text "half", .object []]) 1
    let d := notesIndex.withScratch ⟨⟨257, false, [1, 2], [1]⟩, ⟨257, false, [3], []⟩,
      ⟨256, false, [4], []⟩, ⟨nilId, true, [5], [1]⟩⟩
    let later := Use.add 1 (.text "done") 2
    (failed.run notesIndex s).column =
        notesIndex.withScratch ⟨⟨257, false, Text.utf8 "half".toList, [4]⟩,
          ⟨257, false, Text.utf8 "to do".toList, []⟩, .empty 256 false, .empty nilId true⟩ ∧
      (later.run (failed.run notesIndex s).column s).result = (later.run d s).result ∧
      (later.run (failed.run notesIndex s).column s).session = (later.run d s).session ∧
      (later.run d s).session.database.recordId? 256 "done" = some 3 ∧
      (later.run d s).session.database.recordId? 256 "half" = none := by
  intro s failed d later
  have halike : notesIndex.Alike d := rfl
  have hused : notesIndex.Used (failed.run notesIndex s).column :=
    .after .new failed s (by simp [failed])
  obtain ⟨hresult, hsession, -, -⟩ := run_forgets halike hused .new later s
  exact ⟨by decide +kernel, hresult, hsession, by decide +kernel, by decide +kernel⟩

end IndexColumn
end Concordance
