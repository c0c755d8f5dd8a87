import Concordance.Proofs.Refusals
import Concordance.Proofs.SourceLists
import Concordance.Proofs.Uses

/-! # Reported errors

The engine has errors of its own kind only, and reports exactly those that it answers: faults that
are found further down and would be of another kind are turned into engine errors, or cannot occur
in a database that a run has reached. So a use of a handle finds the error of its own engine call
in the slot, if any, and takes it out again.
-/
namespace Concordance
variable {α β : Type}

/-! ## Errors of the engine -/

/-- The call has engine errors only. -/
def EngineOnly (answer : Except Error α) : Prop :=
  ∀ e, answer = .error e → ∃ code message, e = .engine code message

theorem engineOnly_ok (a : α) : EngineOnly (.ok a) := fun _ h => by cases h

theorem engineOnly_engine (code : ErrorCode) (message : String) :
    EngineOnly (.error (.engine code message) : Except Error α) := by
  intro e h
  cases h
  exact ⟨code, message, rfl⟩

theorem EngineOnly.bind {x : Except Error α} {f : α → Except Error β} (hx : EngineOnly x)
    (hf : ∀ a, x = .ok a → EngineOnly (f a)) : EngineOnly (x >>= f) := by
  cases x with
  | ok a => exact hf a rfl
  | error fault =>
    intro e h
    cases h
    exact hx fault rfl

theorem EngineOnly.map {x : Except Error α} (hx : EngineOnly x) (f : α → β) :
    EngineOnly (x.map f) := by
  cases x with
  | ok a => exact engineOnly_ok _
  | error fault =>
    intro e h
    cases h
    exact hx fault rfl

theorem EngineOnly.forM {f : α → Except Error Unit} {l : List α} (h : ∀ a ∈ l, EngineOnly (f a)) :
    EngineOnly (l.forM f) := by
  induction l with
  | nil => exact engineOnly_ok ()
  | cons a rest ih =>
    obtain ⟨ha, hrest⟩ := List.forall_mem_cons.1 h
    exact ha.bind fun _ _ => ih hrest

/-- A check that is made before the rest of a call. -/
theorem EngineOnly.guard {p : Prop} [Decidable p] (code : ErrorCode) (message : String)
    {rest : Except Error α} (h : EngineOnly rest) :
    EngineOnly (if p then .error (.engine code message) else rest) := by
  split
  · exact engineOnly_engine code message
  · exact h

theorem EngineOnly.attempt {db : Database} {call : Except Error (α × Database)}
    (h : EngineOnly call) : EngineOnly (db.attempt call).1 := by
  cases call with
  | ok result => exact engineOnly_ok _
  | error fault =>
    intro e he
    cases he
    exact h fault rfl

namespace Database
variable {db : Database}

theorem engineOnly_index (db : Database) (i : ObjectId) : EngineOnly (db.index i) := by
  unfold Database.index
  split
  · exact engineOnly_ok _
  · exact engineOnly_engine _ _

theorem engineOnly_checkSource (db : Database) (range source : ObjectId) :
    EngineOnly (db.checkSource range source) := by
  unfold checkSource
  split
  · exact engineOnly_engine _ _
  · split
    · split
      · exact engineOnly_ok _
      · exact engineOnly_engine _ _
    · split
      · exact engineOnly_ok _
      · exact engineOnly_engine _ _
    · exact engineOnly_engine _ _

theorem engineOnly_doomed (db : Database) (id : ObjectId) : EngineOnly (db.doomed id) := by
  unfold doomed
  split
  · exact engineOnly_engine _ _
  · split
    · exact engineOnly_engine _ _
    · split
      · exact engineOnly_engine _ _
      · exact engineOnly_ok _
    · exact engineOnly_ok _

theorem engineOnly_sideTexts (side : Option Buffer) : EngineOnly (sideTexts side) := by
  unfold sideTexts
  split
  · exact engineOnly_ok _
  · split
    · exact engineOnly_ok _
    · exact engineOnly_engine _ _

theorem engineOnly_matchBuffer (db : Database) (ix : Index) (b : Buffer) (mode : SearchMode) :
    EngineOnly (db.matchBuffer ix b mode) := by
  unfold matchBuffer
  split
  · split
    · exact engineOnly_ok _
    · exact engineOnly_engine _ _
  · split
    · split
      · exact engineOnly_ok _
      · exact engineOnly_engine _ _
    · exact engineOnly_engine _ _

/-- Values that are stored have texts, so only the index and the new sources can be at fault. -/
theorem WellFormed.engineOnly_installSources (h : db.WellFormed) (i : ObjectId)
    (sources : List ObjectId) : EngineOnly (db.installSources i sources) := by
  refine (db.engineOnly_index i).bind fun ix hix => ?_
  refine (EngineOnly.forM fun s _ => db.engineOnly_checkSource ix.range s).bind fun _ hcheck => ?_
  obtain ⟨deltas, hdeltas, -⟩ :=
    h.sourceDeltas .ascending (h.catalogued.source (index_eq_ok.1 hix)) (forM_eq_ok.1 hcheck)
  change EngineOnly (HashOrder.ascending.sourceDeltas db ix.sources sources >>= _)
  rw [hdeltas]
  exact engineOnly_ok _

theorem WellFormed.engineOnly_removeObject (h : db.WellFormed) (id : ObjectId) :
    EngineOnly (db.removeObject id).1 := by
  intro e he
  unfold Database.removeObject at he
  cases hgone : db.doomed id with
  | error fault =>
    rw [hgone] at he
    cases he
    exact db.engineOnly_doomed id _ hgone
  | ok gone =>
    have hbereft : ∀ i ∈ db.bereft gone, ∃ ix, db.indexes[i]? = some ix :=
      fun _ hi => index_of_mem_bereft hi
    obtain ⟨db₁, hdetach, -⟩ := h.detach .ascending gone hbereft
    rw [HashOrder.detach_ascending] at hdetach
    simp only [hgone, hdetach] at he
    cases he

theorem WellFormed.engineOnly_setSourceInfo (h : db.WellFormed) (i : ObjectId) (sources : Buffer) :
    EngineOnly (db.setSourceInfo i sources).1 := by
  refine .attempt ?_
  cases sources.ids with
  | error e => exact engineOnly_engine _ _
  | ok ids => exact (h.engineOnly_installSources i ids).bind fun _ _ => engineOnly_ok _

theorem engineOnly_indexUpdate (db : Database) (i : ObjectId) (record : RecordId) (sec : Nat)
    (old new : Option Buffer) : EngineOnly (db.indexUpdate i record sec old new).1 := by
  refine .attempt (.guard _ _ ?_)
  refine (engineOnly_sideTexts old).bind fun _ _ => (engineOnly_sideTexts new).bind fun _ _ => ?_
  exact (db.engineOnly_index i).bind fun ix _ => .guard _ _ (engineOnly_ok _)

theorem engineOnly_search (db : Database) (i : ObjectId) (query : EngineQuery)
    (result : ResultTable) (operator : SelectOperator) (mode : SearchMode) :
    EngineOnly (db.search i query result operator mode) := by
  refine (db.engineOnly_index i).bind fun ix _ => .guard _ _ ?_
  cases query with
  | buffer b => exact (db.engineOnly_matchBuffer ix b mode).bind fun _ _ => engineOnly_ok _
  | compiled query => exact engineOnly_ok _

theorem engineOnly_createResult (db : Database) (keyTable : ObjectId) (flags : ResultFlags) :
    EngineOnly (db.createResult keyTable flags) := by
  unfold createResult
  split
  · exact engineOnly_ok _
  · exact engineOnly_engine _ _

theorem engineOnly_sourceIds (db : Database) (i : ObjectId) : EngineOnly (db.sourceIds i) :=
  (db.engineOnly_index i).bind fun _ _ => engineOnly_ok _

end Database

/-! ## Engine calls -/

namespace Request
variable {db : Database} {s : Session}

theorem engineOnly_outcome (h : db.WellFormed) (request : Request) :
    EngineOnly (request.outcome db).1 := by
  cases request with
  | removeObject id => exact h.engineOnly_removeObject id
  | sourceInfo index out => exact (db.engineOnly_sourceIds index).map _
  | setSourceInfo index sources => exact h.engineOnly_setSourceInfo index sources
  | indexUpdate index record sec old new => exact db.engineOnly_indexUpdate index record sec old new
  | createResult keyTable flags => exact (db.engineOnly_createResult keyTable flags).map _
  | search index query result operator mode =>
    exact (db.engineOnly_search index query result operator mode).map _

/-- A call that fails leaves the database alone. -/
theorem snd_outcome_of_error (h : db.WellFormed) (request : Request) {e : Error}
    (he : (request.outcome db).1 = .error e) : (request.outcome db).2 = db := by
  cases request with
  | removeObject id =>
    have hcall : HashOrder.ascending.removeObject db id = (.error e, (db.removeObject id).2) := by
      rw [HashOrder.removeObject_ascending]
      exact Prod.ext he rfl
    exact Database.unchanged_of_cases (h.removeObject_cases hcall) rfl
  | setSourceInfo | indexUpdate =>
    exact Database.snd_of_attempt_error (Database.errorOf_eq_some.2 he)
  | sourceInfo | createResult | search => rfl

/-- A call succeeds and leaves the context alone, or fails in the engine and leaves its error in the
slot and the database alone. -/
theorem run_cases (h : s.database.WellFormed) (request : Request) :
    request.run s = (.ok (), { s with database := (request.outcome s.database).2 }) ∨
      ∃ code message, request.run s =
        (.error (.engine code message), s.setError (.engine code message)) := by
  rw [run_eq_call]
  cases hcall : request.outcome s.database with
  | mk answer db =>
    cases answer with
    | ok => exact .inl rfl
    | error e =>
      have hanswer : (request.outcome s.database).1 = .error e := congrArg Prod.fst hcall
      obtain ⟨code, message, rfl⟩ := request.engineOnly_outcome h e hanswer
      have hkept := request.snd_outcome_of_error h hanswer
      rw [hcall] at hkept
      cases hkept
      exact .inr ⟨code, message, rfl⟩

end Request

namespace Session
variable {s : Session}

theorem pending_setError (hopen : s.context.isSome) (e : Error) :
    (s.setError e).pending = some e := by
  obtain ⟨context, hcontext⟩ := Option.isSome_iff_exists.1 hopen
  simp [setError, withError, pending, hcontext]

/-- On an empty slot a use answers just what its engine call comes to, and leaves the slot empty. -/
theorem ventured_of_clean (h : s.database.WellFormed) (hclean : s.pending = none)
    (request : Request) : s.ventured (.ok request) =
      ((request.outcome s.database).1, { s with database := (request.outcome s.database).2 }) := by
  rw [ventured, request.run_eq_call]
  exact settle_call hclean fun e he => request.snd_outcome_of_error h he

/-- What comes of a use on an empty slot, for the engine calls that it makes: the slot is empty
again and the context is as it was, and if a call fails the use fails with the error of the call. -/
def Tidies (s : Session) (calls : List Request) (result : Except Error α) (s' : Session) : Prop :=
  s' = { s with database := (Request.runAll s calls).2.database } ∧
    ∀ e, (Request.runAll s calls).1 = .error e → result = .error e

theorem Tidies.map {calls : List Request} {result : Except Error α} {s' : Session}
    (h : s.Tidies calls result s') (f : α → β) : s.Tidies calls (result.map f) s' := by
  refine ⟨h.1, fun e he => ?_⟩
  rw [h.2 e he]
  rfl

theorem tidies_nil (s : Session) (result : Except Error α) : s.Tidies [] result s :=
  ⟨rfl, fun _ he => by cases he⟩

/-- A call that leaves nothing behind is as good as not made. -/
theorem Tidies.cons {request : Request} {rest : List Request} {result : Except Error α}
    {s' : Session} (hrun : request.run s = (.ok (), s)) (h : s.Tidies rest result s') :
    s.Tidies (request :: rest) result s' := by
  simpa only [Tidies, Request.runAll, hrun] using h

theorem tidies_outcome (s : Session) (request : Request) :
    s.Tidies [request] (request.outcome s.database).1
      { s with database := (request.outcome s.database).2 } := by
  rw [Tidies, Request.runAll_singleton, request.database_run, request.fst_run]
  exact ⟨rfl, fun _ he => he⟩

/-- A question that the engine refuses makes the use fail. -/
theorem tidies_refused {request : Request} {e : Error}
    (h : request.outcome s.database = (.error e, s.database)) :
    s.Tidies [request] (.error e : Except Error α) s := by
  have htidies := s.tidies_outcome request
  rw [h] at htidies
  obtain ⟨hsession, hfails⟩ := htidies
  refine ⟨hsession, fun f hf => ?_⟩
  rw [Except.error.inj (hfails f hf)]

theorem tidies_ventured (h : s.database.WellFormed) (hclean : s.pending = none)
    (asked : Except Error Request) :
    s.Tidies asked.toOption.toList (s.ventured asked).1 (s.ventured asked).2 := by
  cases asked with
  | error e => exact s.tidies_nil _
  | ok request =>
    rw [ventured_of_clean h hclean]
    exact s.tidies_outcome request

/-- A question that the engine answers leaves an empty slot empty. -/
theorem settle_ask (hclean : s.pending = none) (answer : Except Error α) :
    (s.ask answer).2.settle (s.ask answer).1 = (answer, s) :=
  settle_call hclean fun _ _ => rfl

end Session

/-! ## Uses -/

namespace IndexColumn
variable {s : Session} (h : s.database.WellFormed) (hclean : s.pending = none)
include hclean

theorem tidies_sources (c : IndexColumn) :
    s.Tidies (Use.sources.requests c s) (c.sources s).1 (c.sources s).2 := by
  unfold sources Use.requests
  rw [← Bool.not_and]
  cases c.isBound && s.isOpen c.context with
  | false => exact s.tidies_nil _
  | true =>
    simp only [Session.sourceInfo, Session.settle_ask hclean]
    cases hids : s.database.sourceIds c.id with
    | error e =>
      refine Session.tidies_refused ?_
      rw [Request.outcome, hids]
      rfl
    | ok ids =>
      refine Session.Tidies.cons ?_ (s.tidies_nil _)
      rw [Request.run_eq_call, Request.outcome, hids]
      rfl

include h

theorem tidies_searchInto (c : IndexColumn) (query : Query) (result : ResultTable)
    (options : SearchOptions) : s.Tidies (c.searchRequest s query result options).toOption.toList
      (c.searchInto s query result options).1.result
      (c.searchInto s query result options).1.session := by
  obtain ⟨_, heq⟩ := c.searchInto_eq s query result options
  rw [heq]
  exact Session.tidies_ventured h hclean _

theorem tidies_search (c : IndexColumn) (query : Query) (options : SearchOptions) :
    s.Tidies ((Use.search query options).requests c s) (c.search s query options).result
      (c.search s query options).session := by
  unfold search Use.requests
  cases c.parts s with
  | error e => exact s.tidies_nil _
  | ok scratch =>
    simp only [Session.createResult, Session.settle_ask hclean, Session.settle_of_clean hclean]
    cases hcreate : s.database.createResult c.range .all with
    | error e =>
      refine Session.tidies_refused ?_
      rw [Request.outcome, hcreate]
      rfl
    | ok result =>
      refine Session.Tidies.cons ?_ ((c.tidies_searchInto h hclean query result options).map _)
      rw [Request.run_eq_call, Request.outcome, hcreate]
      rfl

theorem tidies_unbind (c : IndexColumn) :
    s.Tidies (Use.unbind.requests c s) (c.unbind s).result (c.unbind s).session := by
  unfold unbind Use.requests
  cases c.isBound && s.isOpen c.context && c.owner with
  | false => exact s.tidies_nil _
  | true => exact Session.tidies_ventured h hclean (.ok (.removeObject c.id))

theorem tidies_assignOptions (c : IndexColumn) (record : RecordId) (options : UpdateOptions) :
    s.Tidies (c.updateRequest s record (.options options)).toOption.toList
      (c.assignOptions s record options).result (c.assignOptions s record options).session := by
  obtain ⟨_, heq⟩ := c.assignOptions_eq s record options
  rw [heq]
  exact Session.tidies_ventured h hclean _

theorem tidies_use (c : IndexColumn) (use : Use) :
    s.Tidies (use.requests c s) (use.run c s).result (use.run c s).session := by
  cases use with
  | assign record arg =>
    obtain ⟨_, heq⟩ := c.assign_eq s record arg
    simp only [Use.run, Reply.map, heq]
    exact ((Session.tidies_ventured h hclean _).map _).map _
  | add | delete | update => exact (c.tidies_assignOptions h hclean _ _).map _
  | sources => exact (c.tidies_sources hclean).map _
  | setSources refs =>
    simp only [Use.run, setSources_eq]
    exact (Session.tidies_ventured h hclean _).map _
  | search query options => exact (c.tidies_search h hclean query options).map _
  | searchInto query result options =>
    exact (c.tidies_searchInto h hclean query result options).map _
  | unbind => exact (c.tidies_unbind h hclean).map _

end IndexColumn

/-- In every state that a run reaches and whatever is in the slot of the open context, an engine
call that fails has an engine error and leaves just this error in the slot, and one that succeeds
leaves the slot as it is. So a use of any handle that finds the slot empty leaves it empty, leaves
the database that its engine calls make, and fails with the error of the engine call that fails. -/
theorem errors_reported {s : Session} (hreached : Database.Reached Database.OwnFiles s.database) :
    (s.context.isSome → ∀ request : Request,
      (∀ e, (request.run s).1 = .error e → (request.run s).2.pending = some e ∧
        ∃ code message, e = .engine code message) ∧
      ((request.run s).1 = .ok () → (request.run s).2.pending = s.pending)) ∧
    (s.pending = none → ∀ (c : IndexColumn) (use : Use),
      (use.run c s).session.pending = none ∧
      (use.run c s).session =
        { s with database := (Request.runAll s (use.requests c s)).2.database } ∧
      ∀ e, (Request.runAll s (use.requests c s)).1 = .error e →
        (use.run c s).result = .error e) := by
  have hwf := hreached.wellFormed_of_ownFiles
  constructor
  · intro hopen request
    rcases request.run_cases hwf with hrun | ⟨code, message, hrun⟩
    · rw [hrun]
      exact ⟨fun e he => (by cases he), fun _ => rfl⟩
    · rw [hrun]
      refine ⟨fun e he => ?_, fun hok => (by cases hok)⟩
      cases he
      exact ⟨Session.pending_setError hopen _, code, message, rfl⟩
  · intro hclean c use
    obtain ⟨hsession, herror⟩ := c.tidies_use hwf hclean use
    rw [hsession]
    exact ⟨hclean, rfl, fun e he => herror e he⟩

/-- An index cannot be a source of its own. An error of another kind that was in the slot gives way
to the engine's, and a handle takes it out of the slot again. -/
theorem errors_reported_notes :
    let stale := (Session.start Database.notes).setError (.argument "query" "not UTF-8")
    let s := Session.start Database.notes
    let request := Request.setSourceInfo 260 ((Buffer.empty nilId false).setIds [260])
    let use := Use.setSources [.byId 260]
    let refused := Error.engine .invalidArgument "source #260 is not a column of table #257"
    (request.run stale).1 = .error refused ∧ (request.run stale).2.pending = some refused ∧
      (Request.runAll s (use.requests IndexColumn.notesIndex s)).1 = .error refused ∧
      (use.run IndexColumn.notesIndex s).result = .error refused ∧
      (use.run IndexColumn.notesIndex s).session.pending = none := by
  intro stale s request use refused
  have hfails : (request.run stale).1 = .error refused := by decide +kernel
  have hasked : (Request.runAll s (use.requests IndexColumn.notesIndex s)).1 = .error refused := by
    decide +kernel
  obtain ⟨hreports, -⟩ := errors_reported (s := stale) Database.reached_ownFiles_notes
  obtain ⟨-, huses⟩ := errors_reported (s := s) Database.reached_ownFiles_notes
  obtain ⟨hempty, -, herror⟩ := huses rfl IndexColumn.notesIndex use
  exact ⟨hfails, ((hreports rfl request).1 _ hfails).1, hasked, herror _ hasked, hempty⟩

end Concordance
