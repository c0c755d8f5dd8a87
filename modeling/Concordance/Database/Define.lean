import Concordance.Database.Sources
import Concordance.Text.Quoted

/-! # Defining tables and columns

Columns are named after their table, and only named tables have columns. Names are unique.
-/
namespace Concordance.Database

def checkNewName (db : Database) (name : String) : Except Error Unit :=
  if name.isEmpty then .error (.argument "name" "names cannot be empty")
  else if db.names.contains name then .error (.argument "name" s!"{name} already exists")
  else .ok ()

/-- The full name of a column of a table. -/
def columnName (db : Database) (table : ObjectId) (name : String) : Except Error String :=
  if name.isEmpty || name.toList.contains '.' then
    .error (.argument "name" ("invalid column name: " ++ Text.quoted name))
  else
    match db.object? table with
    | some info =>
      if info.isTable then
        match info.name with
        | some tableName => .ok s!"{tableName}.{name}"
        | none => .error (.argument "table" "anonymous tables cannot have columns")
      else .error (.argument "table" s!"#{table} is not a table")
    | none => .error (.argument "table" s!"#{table} is not a table")

/-- Enters an object under the next id. The counter of ids goes on past the largest word. -/
def addObject (db : Database) (name : Option String) (kind : ObjectKind) : Database :=
  { db with
    objects := db.objects.insert db.nextId ⟨db.nextId, name, kind⟩
    nextId := db.nextId + 1 }

def claimName (db : Database) (name : String) (id : ObjectId) : Database :=
  { db with names := db.names.insert name id }

/-- Makes a table. Without a name it is only reached by its id. -/
def createTable (db : Database) (name : Option String) (config : TableConfig) :
    Outcome ObjectId := db.attempt do
  config.validate
  if let some name := name then db.checkNewName name
  let id := db.nextId
  let made := db.addObject name (.table config.kind config.keyType config.tokenizer)
  let made := { made with tables := made.tables.insert id (.empty config.kind) }
  return (id, match name with
    | some name => made.claimName name id
    | none => made)

/-- Makes a value column. -/
def defineColumn (db : Database) (table : ObjectId) (name : String) (valueType : DataType) :
    Outcome ObjectId := db.attempt do
  let fullName ← db.columnName table name
  db.checkNewName fullName
  let id := db.nextId
  let made := db.addObject (some fullName) (.column table valueType)
  return (id, { made with columns := made.columns.insert id ∅ }.claimName fullName id)

/-- The source that a name stands for. -/
def resolveName (db : Database) (name : String) : Except Error ObjectId :=
  match db.names[name]? with
  | some id => .ok id
  | none => .error (.resolution name "no such object")

/-- The tokenizer of a table that can be a lexicon: one with text keys. -/
def lexiconTokenizer (db : Database) (lexicon : ObjectId) : Except Error Tokenizer :=
  let refuse : Except Error Tokenizer :=
    .error (.argument "lexicon" "lexicons must be tables with text keys")
  match db.object? lexicon with
  | some info =>
    match info.kind with
    | .table kind (some keyType) tokenizer =>
      if kind.hasKey && keyType.isText then .ok tokenizer else refuse
    | _ => refuse
  | none => refuse

/-- An index to be made: its full name, its sources and the tokenizer of its lexicon. -/
structure IndexPlan where
  fullName : String
  sources : List ObjectId
  tokenizer : Tokenizer

def planIndex (db : Database) (lexicon : ObjectId) (name : String) (range : ObjectId)
    (config : IndexConfig) : Except Error IndexPlan := do
  let fullName ← db.columnName lexicon name
  db.checkNewName fullName
  let sources ← config.sources.mapM db.resolveName
  let tokenizer ← db.lexiconTokenizer lexicon
  if !db.tables.contains range then
    .error (.argument "range" s!"#{range} is not a table")
  return ⟨fullName, sources, tokenizer⟩

/-- Makes an index over the records of `range`. If its sources are refused there is no index, but
its id has been used. -/
def defineIndex (db : Database) (lexicon : ObjectId) (name : String) (range : ObjectId)
    (config : IndexConfig) : Outcome ObjectId :=
  match db.planIndex lexicon name range config with
  | .error e => (.error e, db)
  | .ok plan =>
    let id := db.nextId
    let made := db.addObject (some plan.fullName) (.index lexicon range config.flags)
    let ix : Index := ⟨lexicon, range, config.flags, plan.tokenizer, [], .empty⟩
    let made := { made with indexes := made.indexes.insert id ix }
    match made.installSources id plan.sources with
    | .ok fed => (.ok id, fed.claimName plan.fullName id)
    | .error e =>
      (.error e, { made with objects := made.objects.erase id, indexes := made.indexes.erase id })

end Concordance.Database
