import Concordance.Proofs.Forgetting
import Concordance.Proofs.Ids

/-! # Handles that own their index

Any number of handles on the indexes of one database, bound in any number of contexts, with events
in any order: handles come and are used, unbound and dropped, contexts are opened and closed, and
the database goes its own way besides. A handle that owns its index tries to remove it once at most,
when it is first unbound or dropped, and only while its context is open; and once a handle is
unbound it does not reach the engine any more.
-/
namespace Concordance
namespace Database

theorem Leads.trans {allowed : Database → Call → Prop} {db db' db'' : Database}
    (h : Leads allowed db db') (h' : Leads allowed db' db'') : Leads allowed db db'' := by
  induction h' with
  | refl => exact h
  | after call _ hok ih => exact .after call ih hok

theorem ownFiles_of_inPlace {db : Database} {call : Call} (h : call.InPlace) :
    db.OwnFiles call := by
  cases call with
  | reopen => exact h.elim
  | _ => trivial

end Database

/-! ## What calls make of the database -/

theorem Request.leads (request : Request) (db : Database) :
    db.Leads Database.OwnFiles (request.outcome db).2 := by
  cases request with
  | removeObject id =>
    have hleads : db.Leads Database.OwnFiles (db.after (.removeObject id)) := .after _ .refl trivial
    rwa [Database.after, HashOrder.removeObject_ascending] at hleads
  | setSourceInfo index sources => exact .after (.setSourceInfo index sources) .refl trivial
  | indexUpdate index record sec old new =>
    exact .after (.indexUpdate index record sec old new) .refl trivial
  | sourceInfo | createResult | search => exact .refl

namespace Session

theorem database_settle {α : Type} (s : Session) (answer : Except Error α) :
    (s.settle answer).2.database = s.database := by
  unfold settle check
  cases s.pending <;> rfl

theorem leads_ventured (s : Session) (asked : Except Error Request) :
    s.database.Leads Database.OwnFiles (s.ventured asked).2.database := by
  cases asked with
  | error e => exact .refl
  | ok request =>
    rw [ventured, database_settle, request.database_run]
    exact request.leads s.database

theorem database_ask {α : Type} (s : Session) (answer : Except Error α) :
    (s.ask answer).2.database = s.database := by
  cases answer with
  | ok a => rfl
  | error e => cases e <;> rfl

end Session

namespace IndexColumn
variable (c : IndexColumn) (s : Session)

theorem database_sources : (c.sources s).2.database = s.database := by
  unfold sources
  split
  · rfl
  · dsimp only
    split <;> rw [Session.database_settle, Session.sourceInfo, Session.database_ask]

theorem leads_searchInto (query : Query) (result : ResultTable) (options : SearchOptions) :
    s.database.Leads Database.OwnFiles
      (c.searchInto s query result options).1.session.database := by
  obtain ⟨_, heq⟩ := c.searchInto_eq s query result options
  rw [heq]
  exact s.leads_ventured _

theorem leads_search (query : Query) (options : SearchOptions) :
    s.database.Leads Database.OwnFiles (c.search s query options).session.database := by
  unfold search
  cases c.parts s with
  | error e => exact .refl
  | ok scratch =>
    have hsame : ((s.createResult c.range .all).2.settle
        (s.createResult c.range .all).1).2.database = s.database := by
      rw [Session.database_settle, Session.createResult, Session.database_ask]
    dsimp only
    split
    · rename_i e s' hsettled
      rw [hsettled] at hsame
      rw [← hsame]
      exact .refl
    · rename_i result s' hsettled
      rw [hsettled] at hsame
      rw [← hsame]
      exact c.leads_searchInto s' query result options

theorem leads_unbind : s.database.Leads Database.OwnFiles (c.unbind s).session.database := by
  unfold unbind
  cases c.isBound && s.isOpen c.context && c.owner with
  | false => exact .refl
  | true => exact s.leads_ventured (.ok (.removeObject c.id))

theorem leads_assignOptions (record : RecordId) (options : UpdateOptions) :
    s.database.Leads Database.OwnFiles (c.assignOptions s record options).session.database := by
  obtain ⟨_, heq⟩ := c.assignOptions_eq s record options
  rw [heq]
  exact s.leads_ventured _

end IndexColumn

theorem Use.leads (use : Use) (c : IndexColumn) (s : Session) :
    s.database.Leads Database.OwnFiles (use.run c s).session.database := by
  cases use with
  | assign record arg =>
    obtain ⟨_, heq⟩ := c.assign_eq s record arg
    simp only [run, Reply.map, heq]
    exact s.leads_ventured _
  | add | delete | update => exact c.leads_assignOptions s _ _
  | sources =>
    simp only [run, c.database_sources s]
    exact .refl
  | setSources refs =>
    simp only [run, IndexColumn.setSources_eq]
    exact s.leads_ventured _
  | search query options => exact c.leads_search s query options
  | searchInto query result options => exact c.leads_searchInto s query result options
  | unbind => exact c.leads_unbind s

/-! ## Calls that remove -/

/-- Whether the call is one to remove an object. -/
def Request.removes : Request → Bool
  | removeObject _ => true
  | _ => false

theorem Request.mem_toList {asked : Except Error Request} {request : Request} :
    request ∈ asked.toOption.toList ↔ asked = .ok request := by
  cases asked <;> simp [Except.toOption, eq_comm]

namespace IndexColumn
variable {c : IndexColumn} {s : Session} {request : Request}

theorem removes_updateRequest {record : RecordId} {arg : UpdateArg}
    (h : c.updateRequest s record arg = .ok request) : request.removes = false := by
  obtain ⟨_, -, h⟩ := bind_eq_ok.1 h
  obtain ⟨_, -, h⟩ := bind_eq_ok.1 h
  obtain ⟨_, -, h⟩ := bind_eq_ok.1 h
  cases h
  rfl

theorem removes_searchRequest {query : Query} {result : ResultTable} {options : SearchOptions}
    (h : c.searchRequest s query result options = .ok request) : request.removes = false := by
  unfold searchRequest at h
  cases hasked : c.asked s query with
  | error e =>
    rw [hasked] at h
    cases h
  | ok asked =>
    rw [hasked] at h
    cases h
    rfl

theorem removes_sourcesRequest {refs : List SourceRef}
    (h : c.sourcesRequest s refs = .ok request) : request.removes = false := by
  obtain ⟨_, -, h⟩ := bind_eq_ok.1 h
  obtain ⟨_, -, h⟩ := bind_eq_ok.1 h
  cases h
  rfl

end IndexColumn

/-- Only unbinding removes. -/
theorem Use.removes_of_mem {use : Use} {c : IndexColumn} {s : Session} {request : Request}
    (hunbind : use ≠ .unbind) (h : request ∈ use.requests c s) : request.removes = false := by
  cases use with
  | assign | add | delete | update =>
    exact IndexColumn.removes_updateRequest (Request.mem_toList.1 h)
  | sources =>
    simp only [requests] at h
    split at h
    · rw [List.mem_singleton.1 h]
      rfl
    · cases h
  | setSources refs => exact IndexColumn.removes_sourcesRequest (Request.mem_toList.1 h)
  | search query options =>
    simp only [requests] at h
    split at h
    · cases h
    · rcases List.mem_cons.1 h with rfl | h
      · rfl
      · split at h
        · exact IndexColumn.removes_searchRequest (Request.mem_toList.1 h)
        · cases h
  | searchInto => exact IndexColumn.removes_searchRequest (Request.mem_toList.1 h)
  | unbind => exact absurd rfl hunbind

theorem Use.countP_requests {use : Use} (hunbind : use ≠ .unbind) (c : IndexColumn) (s : Session) :
    (use.requests c s).countP Request.removes = 0 :=
  List.countP_eq_zero.2 fun _ h => by simp [removes_of_mem hunbind h]

/-! ## Handles that are unbound -/

namespace IndexColumn
variable {c : IndexColumn} {s : Session}

/-- The call fails before the engine is asked, because the handle is of no use any more or because
of the arguments. -/
def FailsEarly {α : Type} (result : Except Error α) : Prop :=
  result = .error .contextClosed ∨ ∃ name message, result = .error (.argument name message)

theorem FailsEarly.map {α β : Type} {result : Except Error α} (h : FailsEarly result)
    (f : α → β) : FailsEarly (result.map f) := by
  rcases h with rfl | ⟨name, message, rfl⟩
  · exact .inl rfl
  · exact .inr ⟨name, message, rfl⟩

theorem failsEarly_ventured {asked : Except Error Request} (h : FailsEarly asked) :
    FailsEarly (s.ventured asked).1 ∧ (s.ventured asked).2 = s := by
  rcases h with rfl | ⟨name, message, rfl⟩
  · exact ⟨.inl rfl, rfl⟩
  · exact ⟨.inr ⟨name, message, rfl⟩, rfl⟩

theorem resolve_eq_error {arg : UpdateArg} {e : Error} (h : arg.resolve = .error e) :
    ∃ name message, e = .argument name message := by
  cases arg with
  | options options => cases h
  | value v =>
    cases v with
    | object fields =>
      simp only [UpdateArg.resolve, UpdateArg.ofJson] at h
      split at h
      · cases h
      · cases h
        exact ⟨_, _, rfl⟩
    | _ => cases h

theorem sectionNumber_eq_error {arg : UpdateArg} {e : Error} (h : arg.sectionNumber = .error e) :
    ∃ name message, e = .argument name message := by
  cases arg with
  | value v => cases h
  | options options =>
    simp only [UpdateArg.sectionNumber, UpdateOptions.effectiveSection] at h
    split at h <;> cases h
    exact ⟨_, _, rfl⟩

section
variable (h : c.isBound = false)
include h

theorem scratch_of_unbound : c.scratch = none := by
  simpa [isBound] using h

theorem parts_of_unbound (s : Session) : c.parts s = .error .contextClosed := by
  rw [parts, scratch_of_unbound h]
  split <;> rfl

/-- The arguments of an update are looked at before the handle. -/
theorem failsEarly_updateRequest (s : Session) (record : RecordId) (arg : UpdateArg) :
    FailsEarly (c.updateRequest s record arg) := by
  rw [updateRequest, prepare, parts_of_unbound h]
  cases hresolve : arg.resolve with
  | error e =>
    obtain ⟨name, message, rfl⟩ := resolve_eq_error hresolve
    exact .inr ⟨name, message, rfl⟩
  | ok update =>
    cases hsection : update.sectionNumber with
    | error e =>
      obtain ⟨name, message, rfl⟩ := sectionNumber_eq_error hsection
      refine .inr ⟨name, message, ?_⟩
      simp only [Bind.bind, Except.bind, hsection]
    | ok sec =>
      left
      simp only [Bind.bind, Except.bind, hsection]

theorem failsEarly_searchInto (s : Session) (query : Query) (result : ResultTable)
    (options : SearchOptions) : FailsEarly (c.searchInto s query result options).1.result ∧
      (c.searchInto s query result options).1.session = s := by
  rw [searchInto, parts_of_unbound h]
  exact ⟨.inl rfl, rfl⟩

/-- No use of an unbound handle reaches the engine. -/
theorem failsEarly_run {use : Use} (hbound : use ≠ .unbind) (s : Session) :
    FailsEarly (use.run c s).result ∧ (use.run c s).session = s := by
  have hassign (record : RecordId) (options : UpdateOptions) :
      FailsEarly (c.assignOptions s record options).result ∧
        (c.assignOptions s record options).session = s := by
    obtain ⟨_, heq⟩ := c.assignOptions_eq s record options
    rw [heq]
    exact failsEarly_ventured (failsEarly_updateRequest h s record (.options options))
  cases use with
  | assign record arg =>
    obtain ⟨_, heq⟩ := c.assign_eq s record arg
    simp only [Use.run, Reply.map, heq]
    have hearly := failsEarly_ventured (s := s) (failsEarly_updateRequest h s record arg)
    exact ⟨(hearly.1.map _).map _, hearly.2⟩
  | add | delete | update => exact ⟨(hassign _ _).1.map _, (hassign _ _).2⟩
  | sources =>
    simp only [Use.run, sources, h]
    exact ⟨.inl rfl, rfl⟩
  | setSources refs =>
    simp only [Use.run, setSources, parts_of_unbound h]
    exact ⟨.inl rfl, rfl⟩
  | search query options =>
    simp only [Use.run, search, parts_of_unbound h]
    exact ⟨.inl rfl, rfl⟩
  | searchInto query result options =>
    have hearly := failsEarly_searchInto h s query result options
    exact ⟨hearly.1.map _, hearly.2⟩
  | unbind => exact absurd rfl hbound

/-- An unbound handle stays unbound. -/
theorem isBound_run (use : Use) (s : Session) : (use.run c s).column.isBound = false := by
  by_cases hunbind : use = .unbind
  · rw [hunbind]
    exact congrArg isBound (Use.column_unbind c s)
  · rcases (use.alike_run c s hunbind).symm.cases with ⟨heq, -⟩ | ⟨x, _, hx, -⟩
    · rw [heq, h]
    · rw [scratch_of_unbound h] at hx
      cases hx

end

/-- A use changes a handle only in its buffers. -/
theorem exists_scratch_run (c : IndexColumn) (use : Use) (s : Session) :
    ∃ scratch, (use.run c s).column = { c with scratch } := by
  by_cases hunbind : use = .unbind
  · rw [hunbind]
    exact ⟨none, Use.column_unbind c s⟩
  · rcases (use.alike_run c s hunbind).symm.cases with ⟨heq, -⟩ | ⟨_, y, -, heq, -⟩
    · exact ⟨c.scratch, heq⟩
    · exact ⟨some y, heq⟩

/-- A handle is bound to an index that the catalog has. -/
theorem kind_of_bind {i : ObjectId} {owner : Bool} (h : bind s i owner = .ok c) :
    c.id = i ∧ ∃ flags, s.database.kind? i = some (.index c.lexicon c.range flags) := by
  unfold bind at h
  split at h
  · cases h
  · split at h
    · cases h
    · rename_i info hinfo
      obtain ⟨id, name, kind⟩ := info
      cases kind with
      | index lexicon range flags =>
        simp only [ObjectInfo.isIndex, Bool.not_true, Bool.false_eq_true, if_false] at h
        cases hscratch : Scratch.new s lexicon range with
        | error e =>
          simp only [ObjectInfo.domain, ObjectInfo.range, hscratch] at h
          cases h
        | ok scratch =>
          simp only [ObjectInfo.domain, ObjectInfo.range, hscratch] at h
          cases h
          exact ⟨rfl, flags, Database.kind?_of_get hinfo⟩
      | _ => cases h

theorem bind_of_bindName {name : String} (h : bindName s name = .ok c) :
    ∃ i, bind s i false = .ok c := by
  unfold bindName at h
  split at h
  · exact ⟨_, h⟩
  · split at h <;> cases h

end IndexColumn

/-! ## Workspaces -/

/-- A database with the contexts that were opened on it and the handles that were bound in them. -/
structure Workspace where
  database : Database
  /-- The slot of each context, by its number; a closed context has none. -/
  contexts : List (Option (Option Error))
  /-- A dropped handle is none. -/
  handles : List (Option IndexColumn)

/-- What may happen in a workspace. Contexts and handles are told by their numbers. -/
inductive Event where
  | openContext
  | closeContext (n : Nat)
  | bind (n : Nat) (id : ObjectId) (owner : Bool)
  | bindName (n : Nat) (name : String)
  | use (k : Nat) (use : Use)
  | drop (k : Nat)
  /-- The error is taken out of the slot of a context. -/
  | check (n : Nat)
  /-- A call to the engine that no handle makes. -/
  | request (n : Nat) (request : Request)
  /-- A call on the database that no context knows of. -/
  | call (call : Call) (inPlace : call.InPlace)

/-- What an event does with a handle; dropping a handle unbinds it. -/
def Event.useOf (k : Nat) : Event → Option Use
  | use j u => if j = k then some u else none
  | drop j => if j = k then some .unbind else none
  | _ => none

/-- The handle that an event unbinds. -/
def Event.frees : Event → Option Nat
  | use k .unbind | drop k => some k
  | _ => none

namespace Workspace

def start (database : Database) : Workspace := ⟨database, [], []⟩

/-- The session of a context. -/
def session (w : Workspace) (n : Nat) : Session :=
  ⟨w.database, (w.contexts[n]?).join.map (⟨n, ·⟩), w.contexts.length⟩

def isOpen (w : Workspace) (n : Nat) : Bool := (w.contexts[n]?).join.isSome

def handle? (w : Workspace) (k : Nat) : Option IndexColumn := (w.handles[k]?).join

/-- The workspace after the session of a context has gone on. -/
def goOn (w : Workspace) (n : Nat) (s : Session) : Workspace :=
  { w with
    database := s.database
    contexts := w.contexts.set n (s.context.map Context.error) }

def setHandle (w : Workspace) (k : Nat) (c : Option IndexColumn) : Workspace :=
  { w with handles := w.handles.set k c }

def addHandle (w : Workspace) (bound : Except Error IndexColumn) : Workspace :=
  match bound with
  | .ok c => { w with handles := w.handles ++ [some c] }
  | .error _ => w

def step (w : Workspace) : Event → Workspace
  | .openContext => { w with contexts := w.contexts ++ [some none] }
  | .closeContext n => { w with contexts := w.contexts.set n none }
  | .bind n id owner => w.addHandle (IndexColumn.bind (w.session n) id owner)
  | .bindName n name => w.addHandle (IndexColumn.bindName (w.session n) name)
  | .use k use =>
    match w.handle? k with
    | some c =>
      let reply := use.run c (w.session c.context)
      (w.goOn c.context reply.session).setHandle k (some reply.column)
    | none => w
  | .drop k =>
    match w.handle? k with
    | some c => (w.goOn c.context (c.unbind (w.session c.context)).session).setHandle k none
    | none => w
  | .check n => w.goOn n (w.session n).check.2
  | .request n request => w.goOn n (request.run (w.session n)).2
  | .call call _ => { w with database := w.database.after call }

def run (w : Workspace) (events : List Event) : Workspace := events.foldl step w

/-- The engine calls that come from a handle during an event. -/
def requests (w : Workspace) (k : Nat) (e : Event) : List Request :=
  match e.useOf k, w.handle? k with
  | some use, some c => use.requests c (w.session c.context)
  | _, _ => []

/-- How often a handle tries to remove an object during the events. -/
def removals (w : Workspace) (k : Nat) : List Event → Nat
  | [] => 0
  | e :: rest => (w.requests k e).countP Request.removes + (w.step e).removals k rest

variable {w : Workspace} {k : Nat} {c : IndexColumn} {e : Event}

@[simp] theorem database_addHandle (w : Workspace) (bound : Except Error IndexColumn) :
    (w.addHandle bound).database = w.database := by
  cases bound <;> rfl

theorem isOpen_session (w : Workspace) (n : Nat) : (w.session n).isOpen n = w.isOpen n := by
  simp only [session, Session.isOpen, isOpen]
  cases (w.contexts[n]?).join <;> simp

/-- Nothing comes of a session that stays as it is. -/
theorem goOn_session (w : Workspace) (n : Nat) : w.goOn n (w.session n) = w := by
  have hslot : (w.session n).context.map Context.error = (w.contexts[n]?).join := by
    simp only [session, Option.map_map]
    exact Option.map_id'
  have hset : w.contexts.set n (w.contexts[n]?).join = w.contexts := by
    refine List.ext_getElem? fun i => ?_
    rw [List.getElem?_set]
    split
    · rename_i hi
      subst hi
      split
      · rename_i hlt
        rw [List.getElem?_eq_getElem hlt]
        rfl
      · rename_i hge
        rw [List.getElem?_eq_none (Nat.le_of_not_lt hge)]
    · rfl
  rw [goOn, hslot, hset]
  rfl

theorem lt_of_handle? (h : w.handle? k = some c) : k < w.handles.length := by
  refine Nat.lt_of_not_le fun hle => ?_
  simp [handle?, List.getElem?_eq_none hle] at h

theorem handle?_setHandle {j n : Nat} {d : IndexColumn} {s : Session} {c' : Option IndexColumn}
    (hj : w.handle? j = some d) (h : ((w.goOn n s).setHandle j c').handle? k = some c) :
    k = j ∧ c' = some c ∨ k ≠ j ∧ w.handle? k = some c := by
  by_cases hk : k = j
  · subst hk
    refine .inl ⟨rfl, ?_⟩
    simpa [setHandle, goOn, handle?, lt_of_handle? hj] using h
  · refine .inr ⟨hk, ?_⟩
    simpa [setHandle, goOn, handle?, Ne.symm hk] using h

theorem handle?_addHandle {bound : Except Error IndexColumn}
    (h : (w.addHandle bound).handle? k = some c) :
    w.handle? k = some c ∨ w.handles.length ≤ k ∧ bound = .ok c := by
  cases bound with
  | error e => exact .inl h
  | ok d =>
    simp only [addHandle, handle?, List.getElem?_append] at h
    split at h
    · exact .inl h
    · rename_i hle
      refine .inr ⟨Nat.le_of_not_lt hle, ?_⟩
      cases hk : k - w.handles.length with
      | zero =>
        rw [hk] at h
        cases h
        rfl
      | succ n =>
        rw [hk] at h
        cases h

theorem frees_use {j : Nat} {use : Use} (h : (Event.use j use).frees = some k) :
    j = k ∧ use = .unbind := by
  cases use <;> cases h
  exact ⟨rfl, rfl⟩

/-- A handle after an event and what it was before, which differ in their buffers only. It does not
get buffers again, and an event that unbinds it takes them. -/
structure ComesFrom (e : Event) (k : Nat) (d c : IndexColumn) : Prop where
  same : ∃ scratch, c = { d with scratch }
  unbound : d.isBound = false ∨ e.frees = some k → c.isBound = false

theorem ComesFrom.refl (h : e.frees ≠ some k) (c : IndexColumn) : ComesFrom e k c c :=
  ⟨⟨c.scratch, rfl⟩, fun hor => hor.resolve_right h⟩

theorem comesFrom_run (d : IndexColumn) (use : Use) (s : Session) :
    ComesFrom (.use k use) k d (use.run d s).column where
  same := d.exists_scratch_run use s
  unbound hor := by
    rcases hor with hunbound | hfrees
    · exact IndexColumn.isBound_run hunbound use s
    · obtain ⟨-, rfl⟩ := frees_use hfrees
      exact congrArg IndexColumn.isBound (Use.column_unbind d s)

/-- The handle of a number is one that was there before, or is new. -/
theorem handle?_step (h : (w.step e).handle? k = some c) :
    (∃ d, w.handle? k = some d ∧ ComesFrom e k d c) ∨
      w.handles.length ≤ k ∧ ∃ n id owner, IndexColumn.bind (w.session n) id owner = .ok c := by
  have hnone : none ≠ some k := nofun
  have hkept (hfrees : e.frees ≠ some k) (hk : w.handle? k = some c) :
      ∃ d, w.handle? k = some d ∧ ComesFrom e k d c := ⟨c, hk, .refl hfrees c⟩
  cases e with
  | openContext | closeContext | check | request | call => exact .inl (hkept hnone h)
  | bind n id owner =>
    rcases handle?_addHandle h with hold | ⟨hlen, hbound⟩
    · exact .inl (hkept hnone hold)
    · exact .inr ⟨hlen, n, id, owner, hbound⟩
  | bindName n name =>
    rcases handle?_addHandle h with hold | ⟨hlen, hbound⟩
    · exact .inl (hkept hnone hold)
    · obtain ⟨id, hbind⟩ := IndexColumn.bind_of_bindName hbound
      exact .inr ⟨hlen, n, id, false, hbind⟩
  | use j use =>
    left
    unfold step at h
    cases hj : w.handle? j with
    | none =>
      simp only [hj] at h
      refine hkept (fun hfrees => ?_) h
      rw [(frees_use hfrees).1, h] at hj
      cases hj
    | some d =>
      simp only [hj] at h
      rcases handle?_setHandle hj h with ⟨rfl, hcolumn⟩ | ⟨hne, hold⟩
      · cases hcolumn
        exact ⟨d, hj, comesFrom_run d use _⟩
      · exact hkept (fun hfrees => hne (frees_use hfrees).1.symm) hold
  | drop j =>
    left
    unfold step at h
    cases hj : w.handle? j with
    | none =>
      simp only [hj] at h
      refine hkept (fun hfrees => ?_) h
      rw [Option.some.inj hfrees, h] at hj
      cases hj
    | some d =>
      simp only [hj] at h
      rcases handle?_setHandle hj h with ⟨-, hnone⟩ | ⟨hne, hold⟩
      · cases hnone
      · exact hkept (fun hfrees => hne (Option.some.inj hfrees).symm) hold

theorem length_addHandle (w : Workspace) (bound : Except Error IndexColumn) :
    w.handles.length ≤ (w.addHandle bound).handles.length := by
  cases bound with
  | error e => exact Nat.le_refl _
  | ok c => simp [addHandle]

theorem length_step (w : Workspace) (e : Event) :
    w.handles.length ≤ (w.step e).handles.length := by
  cases e with
  | openContext | closeContext | check | request | call => exact Nat.le_refl _
  | bind | bindName => exact w.length_addHandle _
  | use j use =>
    simp only [step]
    split
    · simp [setHandle, goOn]
    · exact Nat.le_refl _
  | drop j =>
    simp only [step]
    split
    · simp [setHandle, goOn]
    · exact Nat.le_refl _

/-! ## Unbound handles in a run -/

/-- The handle was bound once and is unbound or dropped. -/
def Spent (w : Workspace) (k : Nat) : Prop :=
  k < w.handles.length ∧ ∀ c, w.handle? k = some c → c.isBound = false

theorem spent_of_frees (hfrees : e.frees = some k) (h : w.handle? k = some c) :
    (w.step e).Spent k := by
  have hlt := lt_of_handle? h
  refine ⟨Nat.lt_of_lt_of_le hlt (w.length_step e), fun c' hc' => ?_⟩
  rcases handle?_step hc' with ⟨d, -, hcomes⟩ | ⟨hle, -⟩
  · exact hcomes.unbound (.inr hfrees)
  · exact absurd hlt (Nat.not_lt.2 hle)

theorem Spent.step (h : w.Spent k) (e : Event) : (w.step e).Spent k := by
  refine ⟨Nat.lt_of_lt_of_le h.1 (w.length_step e), fun c hc => ?_⟩
  rcases handle?_step hc with ⟨d, hd, hcomes⟩ | ⟨hle, -⟩
  · exact hcomes.unbound (.inl (h.2 d hd))
  · exact absurd h.1 (Nat.not_lt.2 hle)

theorem Spent.run (h : w.Spent k) (events : List Event) : (w.run events).Spent k := by
  induction events generalizing w with
  | nil => exact h
  | cons e rest ih => exact ih (h.step e)

theorem useOf_eq_unbind : e.useOf k = some .unbind ↔ e.frees = some k := by
  cases e with
  | use j use => cases use <;> simp [Event.useOf, Event.frees]
  | drop j => simp [Event.useOf, Event.frees]
  | _ => simp [Event.useOf, Event.frees]

/-- Only a bound handle tries to remove anything, and only when it is unbound. -/
theorem countP_requests_eq_zero (h : ∀ c, w.handle? k = some c → e.frees = some k →
    c.isBound = false) : (w.requests k e).countP Request.removes = 0 := by
  unfold requests
  split
  · rename_i use c huse hc
    by_cases hunbind : use = .unbind
    · subst hunbind
      simp [Use.requests, h c hc (useOf_eq_unbind.1 huse)]
    · exact Use.countP_requests hunbind _ _
  · rfl

theorem countP_requests_le (w : Workspace) (k : Nat) (e : Event) :
    (w.requests k e).countP Request.removes ≤ 1 := by
  unfold requests
  split
  · rename_i use c _ _
    by_cases hunbind : use = .unbind
    · subst hunbind
      refine Nat.le_trans List.countP_le_length ?_
      simp only [Use.requests]
      split
      · exact Nat.le_refl 1
      · exact Nat.zero_le 1
    · rw [Use.countP_requests hunbind]
      exact Nat.zero_le 1
  · exact Nat.zero_le 1

theorem Spent.removals (h : w.Spent k) (events : List Event) : w.removals k events = 0 := by
  induction events generalizing w with
  | nil => rfl
  | cons e rest ih =>
    rw [Workspace.removals, countP_requests_eq_zero fun c hc _ => h.2 c hc, ih (h.step e)]

/-- An attempt to remove an object is the last. -/
theorem removals_le_one (w : Workspace) (k : Nat) (events : List Event) :
    w.removals k events ≤ 1 := by
  induction events generalizing w with
  | nil => exact Nat.zero_le 1
  | cons e rest ih =>
    rw [removals]
    by_cases hfree : ∃ c, w.handle? k = some c ∧ e.frees = some k
    · obtain ⟨c, hc, hfrees⟩ := hfree
      rw [(spent_of_frees hfrees hc).removals rest]
      exact w.countP_requests_le k e
    · rw [countP_requests_eq_zero fun c hc hfrees => absurd ⟨c, hc, hfrees⟩ hfree, Nat.zero_add]
      exact ih (w.step e)

/-! ## What handles stand for -/

theorem leads_step (w : Workspace) (e : Event) :
    w.database.Leads Database.OwnFiles (w.step e).database := by
  cases e with
  | openContext | closeContext => exact .refl
  | bind | bindName =>
    rw [step, database_addHandle]
    exact .refl
  | use k use =>
    simp only [step]
    split
    · rename_i c _
      exact use.leads c (w.session c.context)
    · exact .refl
  | drop k =>
    simp only [step]
    split
    · rename_i c _
      exact c.leads_unbind (w.session c.context)
    · exact .refl
  | check n =>
    simp only [step, goOn, Session.check]
    split <;> exact .refl
  | request n request =>
    simp only [step, goOn, request.database_run]
    exact request.leads w.database
  | call call inPlace =>
    simp only [step]
    exact .after call .refl (Database.ownFiles_of_inPlace inPlace)

/-- What has the id of the handle is the index that the handle was bound to, or it is nothing. -/
def Stands (db : Database) (c : IndexColumn) : Prop :=
  c.id < db.nextId ∧
    (db.kind? c.id = none ∨ ∃ flags, db.kind? c.id = some (.index c.lexicon c.range flags))

theorem Stands.later {db db' : Database} {spared : Nat → Nat → Prop} (h : Stands db c)
    (hlater : Database.Later spared db db') : Stands db' c := by
  refine ⟨Nat.lt_of_lt_of_le h.1 hlater.nextId, ?_⟩
  rcases hlater.object h.1 with heq | hnone
  · simpa only [Database.kind?, heq] using h.2
  · exact .inl (by simp [Database.kind?, hnone])

theorem stands_of_bind {n : Nat} {id : ObjectId} {owner : Bool}
    (hwf : w.database.WellFormed) (h : IndexColumn.bind (w.session n) id owner = .ok c) :
    Stands w.database c := by
  obtain ⟨rfl, flags, hkind⟩ := IndexColumn.kind_of_bind h
  exact ⟨hwf.catalogued.lt_of_kind hkind, .inr ⟨flags, hkind⟩⟩

/-- The database has been reached by a run, and all handles stand for their indexes. -/
structure Sound (w : Workspace) : Prop where
  reached : Database.Reached Database.OwnFiles w.database
  stands : ∀ {k : Nat} {c}, w.handle? k = some c → Stands w.database c

theorem Sound.step (h : w.Sound) (e : Event) : (w.step e).Sound where
  reached := h.reached.leads (w.leads_step e)
  stands {k c} hc := by
    have hlater := h.reached.later_of_leads (w.leads_step e)
    rcases handle?_step hc with ⟨d, hd, hcomes⟩ | ⟨-, n, id, owner, hbind⟩
    · obtain ⟨scratch, rfl⟩ := hcomes.same
      have hstands : Stands w.database d := h.stands hd
      exact hstands.later hlater
    · exact (stands_of_bind h.reached.wellFormed_of_ownFiles hbind).later hlater

theorem Sound.run (h : w.Sound) (events : List Event) : (w.run events).Sound := by
  induction events generalizing w with
  | nil => exact h
  | cons e rest ih => exact ih (h.step e)

theorem sound_start {db : Database} (h : Database.Reached Database.OwnFiles db) :
    (start db).Sound := ⟨h, fun hc => by cases hc⟩

/-! ## Unbinding -/

/-- Removing an object that is not there changes nothing. -/
theorem removeObject_of_none {db : Database} {id : ObjectId} (h : db.kind? id = none) :
    (db.removeObject id).2 = db := by
  have hnone : db.object? id = none := Option.map_eq_none_iff.1 h
  simp only [Database.removeObject, Database.doomed, hnone]

/-- Whoever unbinds a handle leaves the session of its context as unbinding does. -/
theorem step_of_frees (hfrees : e.frees = some k) (h : w.handle? k = some c) :
    ∃ c', w.step e =
      (w.goOn c.context (c.unbind (w.session c.context)).session).setHandle k c' := by
  cases e with
  | use j use =>
    obtain ⟨rfl, rfl⟩ := frees_use hfrees
    refine ⟨some (c.unbind (w.session c.context)).column, ?_⟩
    simp only [step, h]
    rfl
  | drop j =>
    obtain rfl := Option.some.inj hfrees
    exact ⟨none, by simp only [step, h]⟩
  | _ => cases hfrees

theorem spares_of_frees (hfrees : e.frees = some k) (hc : w.handle? k = some c)
    (hnot : ¬ (c.owner ∧ c.isBound ∧ w.isOpen c.context)) :
    (w.step e).database = w.database ∧ (w.step e).contexts = w.contexts := by
  obtain ⟨c', heq⟩ := step_of_frees hfrees hc
  have hsame : (c.unbind (w.session c.context)).session = w.session c.context := by
    unfold IndexColumn.unbind
    rw [isOpen_session, if_neg]
    simp only [Bool.and_eq_true]
    rintro ⟨⟨hbound, hopen⟩, howner⟩
    exact hnot ⟨howner, hbound, hopen⟩
  rw [heq, hsame, goOn_session]
  exact ⟨rfl, rfl⟩

theorem unbind_of_owner (howner : c.owner) (hbound : c.isBound) (hopen : w.isOpen c.context) :
    c.unbind (w.session c.context) =
      ⟨((w.session c.context).ventured (.ok (.removeObject c.id))).1, { c with scratch := none },
        ((w.session c.context).ventured (.ok (.removeObject c.id))).2⟩ := by
  unfold IndexColumn.unbind
  rw [isOpen_session, hbound, hopen, howner]
  rfl

theorem database_of_owner (hfrees : e.frees = some k) (hc : w.handle? k = some c)
    (howner : c.owner) (hbound : c.isBound) (hopen : w.isOpen c.context) :
    (w.step e).database = (w.database.removeObject c.id).2 := by
  obtain ⟨c', heq⟩ := step_of_frees hfrees hc
  have hdatabase : ((w.session c.context).ventured (.ok (.removeObject c.id))).2.database =
      (w.database.removeObject c.id).2 := by
    rw [Session.ventured, Session.database_settle, Request.database_run]
    rfl
  rw [heq, unbind_of_owner howner hbound hopen]
  exact hdatabase

/-- What unbinding and dropping come to in a workspace. -/
structure Unbinds (w : Workspace) : Prop where
  /-- While a handle that owns its index is bound and its context is open, unbinding or dropping it
  does what removing the index does, and settles the context. -/
  removes : ∀ {e : Event} {k : Nat} {c}, e.frees = some k → w.handle? k = some c →
    c.owner → c.isBound → w.isOpen c.context →
      let removed := (w.session c.context).removeObject c.id
      let settled := removed.2.settle removed.1
      (w.step e).database = (w.database.removeObject c.id).2 ∧
        (w.step e).contexts = w.contexts.set c.context (settled.2.context.map Context.error) ∧
        (c.unbind (w.session c.context)).result = settled.1
  /-- In any other case it only takes the buffers of the handle. -/
  spares : ∀ {e : Event} {k : Nat} {c}, e.frees = some k → w.handle? k = some c →
    ¬ (c.owner ∧ c.isBound ∧ w.isOpen c.context) →
      (w.step e).database = w.database ∧ (w.step e).contexts = w.contexts
  /-- The database is another afterwards only if the index is still there. -/
  live : ∀ {e : Event} {k : Nat} {c}, e.frees = some k → w.handle? k = some c →
    (w.step e).database ≠ w.database → c.owner ∧ c.isBound ∧ w.isOpen c.context ∧
      ∃ flags, w.database.kind? c.id = some (.index c.lexicon c.range flags)
  /-- Ever after, no use of the handle reaches the engine. -/
  idle : ∀ {e : Event} {k : Nat} {c} {later : List Event}, e.frees = some k →
    (w.handle? k).isSome → ((w.step e).run later).handle? k = some c →
      ∀ use : Use, use ≠ .unbind → ∀ s, (use.run c s).session = s ∧
        ((use.run c s).result = .error .contextClosed ∨
          ∃ name message, (use.run c s).result = .error (.argument name message))

theorem Sound.unbinds (h : w.Sound) : w.Unbinds where
  removes {e k c} hfrees hc howner hbound hopen := by
    obtain ⟨c', heq⟩ := step_of_frees hfrees hc
    refine ⟨database_of_owner hfrees hc howner hbound hopen, ?_, ?_⟩
    · rw [heq, unbind_of_owner howner hbound hopen]
      rfl
    · rw [unbind_of_owner howner hbound hopen]
      rfl
  spares := spares_of_frees
  live {e k c} hfrees hc hchanged := by
    by_cases hall : c.owner ∧ c.isBound ∧ w.isOpen c.context
    · obtain ⟨howner, hbound, hopen⟩ := hall
      refine ⟨howner, hbound, hopen, (h.stands hc).2.resolve_left fun hnone => hchanged ?_⟩
      rw [database_of_owner hfrees hc howner hbound hopen, removeObject_of_none hnone]
    · exact absurd (spares_of_frees hfrees hc hall).1 hchanged
  idle {e k c later} hfrees hsome hc use hbound s := by
    obtain ⟨d, hd⟩ := Option.isSome_iff_exists.1 hsome
    have hspent := (spent_of_frees hfrees hd).run later
    obtain ⟨hearly, hsession⟩ := IndexColumn.failsEarly_run (hspent.2 c hc) hbound s
    exact ⟨hsession, hearly⟩

/-- Take a database that a run has reached, and let contexts be opened and closed on it, handles be
bound, used, unbound and dropped, and anything else be called on the database, in whatever order. At
any time unbinding or dropping a handle changes the database only if the handle owns its index, is
bound, its context is open and the index is still there; then it does what removing the index does.
No handle tries that twice, and no use of an unbound handle reaches the engine. -/
theorem unbinds_once {db : Database} (h : Database.Reached Database.OwnFiles db)
    (events : List Event) :
    ((start db).run events).Unbinds ∧ ∀ k, (start db).removals k events ≤ 1 :=
  ⟨((sound_start h).run events).unbinds, fun k => removals_le_one _ k events⟩

/-- Two owners of one index and another handle on it. The other one goes without a trace, the first
owner takes the index away, and the second finds it gone. -/
theorem unbinds_once_notes :
    let events : List Event :=
      [.openContext, .bind 0 260 true, .bind 0 260 true, .bind 0 260 false, .drop 2]
    let w := (start Database.notes).run events
    let removed := w.step (.use 0 .unbind)
    w.handle? 2 = none ∧ (w.database.object? 260).isSome ∧
      removed.database = (w.database.removeObject 260).2 ∧ removed.database.object? 260 = none ∧
      (removed.step (.drop 1)).database = removed.database ∧
      (start Database.notes).removals 0 (events ++ [.use 0 .unbind, .use 0 .unbind, .drop 0]) = 1 ∧
      (start Database.notes).removals 1 (events ++ [.use 0 .unbind, .drop 1]) = 1 := by
  intro events w removed
  have hreached := Database.reached_ownFiles_notes
  let owner : IndexColumn := { IndexColumn.notesIndex with owner := true }
  have hfirst : w.handle? 0 = some owner := by decide +kernel
  have hsecond : removed.handle? 1 = some owner := by decide +kernel
  have hopen : w.isOpen 0 := by decide +kernel
  have hgone : removed.database.object? 260 = none := by decide +kernel
  obtain ⟨hw, -⟩ := unbinds_once hreached events
  obtain ⟨hremoved, -⟩ := unbinds_once hreached (events ++ [.use 0 .unbind])
  refine ⟨by decide +kernel, by decide +kernel, (hw.removes rfl hfirst rfl rfl hopen).1, hgone, ?_,
    by decide +kernel, by decide +kernel⟩
  by_contra hchanged
  obtain ⟨-, -, -, flags, hkind⟩ := hremoved.live rfl hsecond hchanged
  have hnone : removed.database.kind? 260 = none := Option.map_eq_none_iff.2 hgone
  cases hnone.symm.trans hkind

end Workspace
end Concordance
