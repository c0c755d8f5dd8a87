/-! # Errors

What a call may answer instead of a result. An engine error carries a status code beside its
message; resolution and argument errors are found before the engine is asked.
-/
namespace Concordance

inductive ErrorCode where
  | invalidArgument | noSuchObject | invalidOperation | keyTooLong | corruptData
  deriving DecidableEq, Repr

def ErrorCode.name : ErrorCode → String
  | invalidArgument => "InvalidArgument"
  | noSuchObject => "NoSuchObject"
  | invalidOperation => "InvalidOperation"
  | keyTooLong => "KeyTooLong"
  | corruptData => "CorruptData"

def ErrorCode.ofName? (name : String) : Option ErrorCode :=
  [invalidArgument, noSuchObject, invalidOperation, keyTooLong, corruptData].find? (·.name = name)

inductive Error where
  | setup (message : String)
  | resolution (reference message : String)
  | engine (code : ErrorCode) (message : String)
  | argument (name message : String)
  | contextClosed
  | io (message : String)
  | serialization (message : String)
  | snapshot (message : String)
  deriving DecidableEq, Repr

namespace Error

def kind : Error → String
  | setup _ => "Setup"
  | resolution .. => "Resolution"
  | engine .. => "Engine"
  | argument .. => "Argument"
  | contextClosed => "ContextClosed"
  | io _ => "Io"
  | serialization _ => "Serialization"
  | snapshot _ => "Snapshot"

def message : Error → String
  | setup message => s!"setup failed: {message}"
  | resolution reference message => s!"cannot resolve {reference}: {message}"
  | engine code message => s!"engine error ({code.name}): {message}"
  | argument name message => s!"invalid argument {name}: {message}"
  | contextClosed => "context has been closed"
  | io message => s!"IO error: {message}"
  | serialization message => s!"Serialization error: {message}"
  | snapshot message => s!"snapshot error: {message}"

def code? : Error → Option ErrorCode
  | engine code _ => some code
  | _ => none

/-- The caller's arguments were at fault, and the engine was not asked. -/
def isCallerError : Error → Bool
  | resolution .. | argument .. => true
  | _ => false

end Error

end Concordance
