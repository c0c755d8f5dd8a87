import Concordance.IndexColumn

/-! # Indexed assignment

Updates through a handle: the sides that are present go through the handle's buffers to the engine,
in one call.
-/
namespace Concordance.IndexColumn

/-- Fills a buffer with one side of an update. An absent side leaves the buffer alone. -/
def fill (b : Buffer) : Option Json → Except Error (Option Buffer) × Buffer
  | none => (.ok none, b)
  | some v =>
    match b.rewind.appendValue v with
    | (.ok (), b) => (.ok (some b), b)
    | (.error e, b) => (.error e, b)

/-- An update ready to be carried out: its argument, its section and the buffers. -/
def prepare (c : IndexColumn) (s : Session) (arg : UpdateArg) :
    Except Error (UpdateArg × Nat × Scratch) := do
  let update ← arg.resolve
  let sec ← update.sectionNumber
  return (update, sec, ← c.parts s)

/-- Applies one delta to a record and hands the argument back. -/
def assign (c : IndexColumn) (s : Session) (record : RecordId) (arg : UpdateArg) :
    Reply UpdateArg :=
  match c.prepare s arg with
  | .error e => ⟨.error e, c, s⟩
  | .ok (update, sec, scratch) =>
    let (old, buffer) := fill scratch.oldValue update.oldSide
    let scratch := { scratch with oldValue := buffer }
    match old with
    | .error e => ⟨.error e, c.withScratch scratch, s⟩
    | .ok old =>
      let (new, buffer) := fill scratch.value update.newSide
      let scratch := { scratch with value := buffer }
      match new with
      | .error e => ⟨.error e, c.withScratch scratch, s⟩
      | .ok new =>
        let (answer, s) := s.indexUpdate c.id record sec old new
        let (answer, s) := s.settle answer
        ⟨answer.map fun () => arg, c.withScratch scratch, s⟩

def assignOptions (c : IndexColumn) (s : Session) (record : RecordId) (options : UpdateOptions) :
    Reply Unit :=
  let reply := c.assign s record (.options options)
  ⟨reply.result.map fun _ => (), reply.column, reply.session⟩

def add (c : IndexColumn) (s : Session) (record : RecordId) (v : Json) (sec : Nat) : Reply Unit :=
  c.assignOptions s record ⟨some sec, none, some v⟩

def delete (c : IndexColumn) (s : Session) (record : RecordId) (v : Json) (sec : Nat) :
    Reply Unit := c.assignOptions s record ⟨some sec, some v, none⟩

def update (c : IndexColumn) (s : Session) (record : RecordId) (old new : Json) (sec : Nat) :
    Reply Unit := c.assignOptions s record ⟨some sec, some old, some new⟩

end Concordance.IndexColumn
