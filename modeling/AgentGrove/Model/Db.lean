import AgentGrove.Model.AppStore
import AgentGrove.Model.Attachments
import AgentGrove.Model.Worktrees
import AgentGrove.Wire.Value

namespace AgentGrove.Db

open Worktrees (showInt)

inductive DbError where
  | connection (e : Text)
  | invalidIdentifier (e : Text)
  | badRequest (e : Text)
deriving DecidableEq

def DbError.message : DbError → Text
  | .connection e => "postgres connection failed: ".toList ++ e
  | .invalidIdentifier e => "invalid identifier: ".toList ++ e
  | .badRequest e => "bad request: ".toList ++ e

def DbError.status : DbError → Nat
  | .invalidIdentifier _ | .badRequest _ => 400
  | .connection _ => 502

structure RowsParams where
  connection : Text
  limit : Int := 50
  offset : Int := 0
  filterCol : Option Text
  filterOp : Option Text
  filterVal : Option Text
deriving DecidableEq

def validateIdentifier : Text → Except DbError Unit
  | [] => .error (.invalidIdentifier "empty identifier".toList)
  | first :: chars =>
    if !(first.isAlpha || first == '_') then
      .error (.invalidIdentifier ("'".toList ++ first :: chars ++ "'".toList))
    else if !chars.all (fun c => c.isAlphanum || c == '_' || c == '$') then
      .error (.invalidIdentifier ("'".toList ++ first :: chars ++ "'".toList))
    else .ok ()

/-- A name before the first dot is the schema. -/
def splitTable (table : Text) : Except DbError (Text × Text) :=
  if table = [] then .error (.invalidIdentifier "empty table name".toList)
  else if table.contains '.' then do
    let schema := table.takeWhile (· ≠ '.')
    let name := (table.dropWhile (· ≠ '.')).tail
    validateIdentifier schema
    validateIdentifier name
    return (schema, name)
  else do
    validateIdentifier table
    return ("public".toList, table)

def quoteQualified (schema name : Text) : Text :=
  '"' :: (schema ++ "\".\"".toList ++ name ++ ['"'])

def normalizeOp (toLowercase : Text → Text) (op : Text) : Text :=
  let op := toLowercase (trim op)
  if op = "=".toList then "=".toList
  else if op = "!=".toList then "!=".toList
  else if op = "<>".toList then "!=".toList
  else if op = "<".toList then "<".toList
  else if op = ">".toList then ">".toList
  else if op = "<=".toList then "<=".toList
  else if op = ">=".toList then ">=".toList
  else if op = "like".toList then "LIKE".toList
  else if op = "ilike".toList then "ILIKE".toList
  else "=".toList

/-- There is a column that is not blank. -/
def RowsParams.hasFilter (params : RowsParams) : Bool := params.filterCol.any (fun s => trim s ≠ [])

def RowsParams.column (params : RowsParams) : Text := trim (params.filterCol.getD [])

def RowsParams.op (toLowercase : Text → Text) (params : RowsParams) : Text :=
  normalizeOp toLowercase (params.filterOp.getD "=".toList)

def RowsParams.val (params : RowsParams) : Text := params.filterVal.getD []

/-- The condition of a filter, without its column. -/
def condition (op val : Text) : Text :=
  if eqIgnoreAsciiCase (trim val) "null".toList && eqIgnoreAsciiCase op "=".toList then "IS NULL".toList
  else if eqIgnoreAsciiCase (trim val) "not null".toList && eqIgnoreAsciiCase op "=".toList then
    "IS NOT NULL".toList
  else op ++ " $1".toList

def limits (params : RowsParams) : Text :=
  " LIMIT ".toList ++ showInt params.limit ++ " OFFSET ".toList ++ showInt params.offset ++ ") t".toList

def selectFrom (quotedTable : Text) : Text :=
  "SELECT to_jsonb(t) AS row FROM (SELECT * FROM ".toList ++ quotedTable

def buildFilteredQuery (toLowercase : Text → Text) (quotedTable : Text) (params : RowsParams) :
    Except DbError Text :=
  if params.limit < 1 ∨ 1000 < params.limit then
    .error (.badRequest "limit must be between 1 and 1000".toList)
  else if params.offset < 0 then .error (.badRequest "offset must be >= 0".toList)
  else if params.hasFilter then do
    validateIdentifier params.column
    return selectFrom quotedTable ++ " WHERE \"".toList ++ params.column ++ "\" ".toList ++
      condition (params.op toLowercase) params.val ++ limits params
  else return selectFrom quotedTable ++ limits params

/-- The text and the parameters with which the server is queried. -/
def rows (toLowercase : Text → Text) (connected : Except DbError Unit) (table : Text) (params : RowsParams) :
    Except DbError (Text × List Text) := do
  let (schema, name) ← splitTable table
  connected
  let sql ← buildFilteredQuery toLowercase (quoteQualified schema name) params
  return (sql, if params.hasFilter then [params.val] else [])

end AgentGrove.Db

namespace AgentGrove.DbPane

open App (truthy)
open Attachments (jsTrim)

/-- What the browser's parser makes of the address of a server. -/
structure Urls where
  dbDefaultDbName : Text → Text
  dbUrlFor : Text → Text → Text

structure DbConnection where
  id : Text
  name : Text
  url : Text

structure DbColumn where
  name : Text
  dataType : Text

structure DbQueryResponse where
  columns : List Text
  rows : List (List Wire.Value)
  affectedRows : Option Nat := none

/-- What a request asked for; no signal holds it, but the pane is judged by it. -/
structure Source where
  url : Text
  table : Option Text := none
deriving DecidableEq

/-- A signal is empty, or holds what a request has fetched. -/
inductive Shown (α : Type) where
  | empty
  | fetched (source : Source) (value : α)

structure RowsQuery where
  limit : Nat
  offset : Nat
  filterCol : Text
  filterOp : Text
  filterVal : Text

/-- A call that waits for an answer, with what it holds on to. -/
inductive Pending where
  | databases (url : Text)
  | tables (url : Text)
  | tableData (url table : Text) (query : RowsQuery)
  | sql (url q : Text)
  | columns (token : Nat) (url : Text) (chunk rest : List Text) (acc : List (Text × List Text))

structure Toast where
  title : Text
  message : Text

structure State where
  dbConnections : List DbConnection
  activeConnId : Option Text := none
  remembered : Option Text := none
  dbTables : Shown (List Text) := .empty
  dbColumnCache : List (Text × List Text) := []
  dbDatabases : Shown (List Text) := .empty
  dbActiveDb : Text := []
  dbExpandedDbs : List Text := []
  dbTablesByDb : List (Text × List Text) := []
  dbTableFilter : Text := []
  dbSelectedTable : Option Text := none
  dbColumns : Shown (List DbColumn) := .empty
  dbRows : Shown DbQueryResponse := .empty
  dbSql : Text := []
  dbLoading : Bool := false
  dbFilterCol : Text := []
  dbFilterOp : Text := "=".toList
  dbFilterVal : Text := []
  dbOffset : Nat := 0
  prefetchToken : Nat := 0
  toasts : List Toast := []
  pending : List Pending := []

def DB_PAGE_LIMIT : Nat := 50

def CHUNK : Nat := 8

namespace State

def activeConn (s : State) : Option DbConnection := s.dbConnections.find? (fun c => some c.id = s.activeConnId)

/-- Where the active connection reaches a database. -/
def urlFor (u : Urls) (db : Text) (s : State) : Option Text :=
  s.activeConn.map fun conn => if db = [] then conn.url else u.dbUrlFor conn.url db

def activeDbUrl (u : Urls) (s : State) : Option Text := s.urlFor u s.dbActiveDb

def send (p : Pending) (s : State) : State := { s with pending := s.pending ++ [p] }

def expand (db : Text) (s : State) : State := { s with dbExpandedDbs := s.dbExpandedDbs.insert db }

def pushToast (title message : Text) (s : State) : State := { s with toasts := s.toasts ++ [⟨title, message⟩] }

def loadDatabases (s : State) : State :=
  match s.activeConn with
  | none => s
  | some conn => s.send (.databases conn.url)

def loadDbTables (u : Urls) (s : State) : State :=
  match truthy (s.activeDbUrl u) with
  | none => s
  | some url => { s with dbLoading := true }.send (.tables url)

def connectDb (u : Urls) (conn : DbConnection) (s : State) : State :=
  loadDatabases <|
    if s.activeConnId = some conn.id then s
    else
      { s with
        activeConnId := some conn.id
        remembered := some conn.id
        dbSelectedTable := none
        dbRows := .empty
        dbColumns := .empty
        dbOffset := 0
        dbTableFilter := []
        dbTables := .empty
        dbColumnCache := []
        dbDatabases := .empty
        dbTablesByDb := []
        dbExpandedDbs := []
        dbActiveDb := u.dbDefaultDbName conn.url }

def disconnectDb (s : State) : State :=
  { s with
    activeConnId := none
    remembered := none
    dbTables := .empty
    dbColumnCache := []
    dbDatabases := .empty
    dbTablesByDb := []
    dbExpandedDbs := []
    dbActiveDb := []
    dbSelectedTable := none
    dbRows := .empty
    dbColumns := .empty }

def selectDb (u : Urls) (db : Text) (s : State) : State :=
  if db = [] ∨ db = s.dbActiveDb then s.expand db
  else
    loadDbTables u
      { ({ s with dbActiveDb := db }.expand db) with
        dbSelectedTable := none
        dbRows := .empty
        dbColumns := .empty }

def loadDbTableData (u : Urls) (table : Text) (resetOffset : Bool) (s : State) : State :=
  match truthy (s.activeDbUrl u) with
  | none => s
  | some url =>
    let offset := if resetOffset then 0 else s.dbOffset
    { s with dbOffset := offset, dbLoading := true }.send
      (.tableData url table ⟨DB_PAGE_LIMIT, offset, s.dbFilterCol, s.dbFilterOp, s.dbFilterVal⟩)

def runDbSql (u : Urls) (s : State) : State :=
  match truthy (s.activeDbUrl u), jsTrim s.dbSql with
  | none, _ => s
  | some _, [] => s
  | some url, q => { s with dbLoading := true, dbSelectedTable := none }.send (.sql url q)

/-- What is typed into the pane. -/
def input (sql filterCol filterOp filterVal : Text) (s : State) : State :=
  { s with dbSql := sql, dbFilterCol := filterCol, dbFilterOp := filterOp, dbFilterVal := filterVal }

section Answers

/-- The active database stays if the server has it. -/
def pickDb (active : Text) (dbs : List Text) : Text := if active ≠ [] ∧ active ∈ dbs then active else dbs.headD []

def gotDatabases (u : Urls) (url : Text) (r : Except Text (List Text)) (s : State) : State :=
  match r with
  | .error _ => loadDbTables u s
  | .ok dbs =>
    let active := pickDb s.dbActiveDb dbs
    let s := { s with dbDatabases := .fetched { url } dbs, dbActiveDb := active }
    if active = [] then s else loadDbTables u { s with dbExpandedDbs := [active] }

/-- The next tables are described, eight at a time. -/
def describe (token : Nat) (url : Text) (tables : List Text) (acc : List (Text × List Text)) (s : State) : State :=
  match tables with
  | [] => s
  | _ => s.send (.columns token url (tables.take CHUNK) (tables.drop CHUNK) acc)

def prefetchColumns (url : Text) (tables : List Text) (s : State) : State :=
  { s with prefetchToken := s.prefetchToken + 1 }.describe (s.prefetchToken + 1) url tables []

def gotTables (url : Text) (r : Except Text (List Text)) (s : State) : State :=
  match r with
  | .ok list =>
    let byDb := if s.dbActiveDb = [] then s.dbTablesByDb
      else Assoc.upsert s.dbActiveDb list (fun _ => list) s.dbTablesByDb
    { ({ s with
          dbTables := .fetched { url } list
          dbTablesByDb := byDb
          dbColumnCache := [] }.prefetchColumns url list) with
        dbLoading := false }
  | .error e =>
    let name := if s.dbActiveDb = [] then "database".toList else s.dbActiveDb
    { ({ s with dbTables := .empty }.pushToast ("Cannot load tables for ".toList ++ name) e) with dbLoading := false }

def gotTableData (url table : Text) (r : Except Text (List DbColumn × DbQueryResponse)) (s : State) : State :=
  match r with
  | .ok (cols, data) =>
    { s with
      dbColumns := .fetched { url, table := some table } cols
      dbRows := .fetched { url, table := some table } data
      dbSelectedTable := some table
      dbLoading := false }
  | .error e => { (s.pushToast "DB error".toList e) with dbLoading := false }

def gotRows (url : Text) (r : Except Text DbQueryResponse) (s : State) : State :=
  match r with
  | .ok data => { s with dbRows := .fetched { url } data, dbLoading := false }
  | .error e => { (s.pushToast "DB error".toList e) with dbLoading := false }

/-- Tables that could not be described are left out; the cache is left alone when a newer list has come. -/
def gotColumns (token : Nat) (url : Text) (chunk rest : List Text) (acc : List (Text × List Text))
    (described : List (Option (List DbColumn))) (s : State) : State :=
  let acc := (chunk.zip described).foldl
    (fun acc d => match d.2 with
      | some cols => Assoc.upsert d.1 (cols.map DbColumn.name) (fun _ => cols.map DbColumn.name) acc
      | none => acc) acc
  if token = s.prefetchToken then { s with dbColumnCache := acc }.describe token url rest acc else s

end Answers

end State

inductive Reply where
  | databases (r : Except Text (List Text))
  | tables (r : Except Text (List Text))
  | tableData (r : Except Text (List DbColumn × DbQueryResponse))
  | sql (r : Except Text DbQueryResponse)
  | columns (described : List (Option (List DbColumn)))

inductive Event where
  | connectDb (conn : DbConnection)
  | disconnectDb
  | selectDb (db : Text)
  | loadDbTables
  | loadDbTableData (table : Text) (resetOffset : Bool)
  | runDbSql
  | input (sql filterCol filterOp filterVal : Text)
  | answer (i : Nat) (r : Reply)

/-- The answer to one of the calls, in any order; a reply of another kind is no answer to it. -/
def answer (u : Urls) (i : Nat) (r : Reply) (s : State) : State :=
  let rest := { s with pending := s.pending.eraseIdx i }
  match s.pending[i]?, r with
  | some (.databases url), .databases r => rest.gotDatabases u url r
  | some (.tables url), .tables r => rest.gotTables url r
  | some (.tableData url table _), .tableData r => rest.gotTableData url table r
  | some (.sql url _), .sql r => rest.gotRows url r
  | some (.columns token url chunk more acc), .columns r => rest.gotColumns token url chunk more acc r
  | _, _ => s

def exec (u : Urls) (s : State) : Event → State
  | .connectDb conn => s.connectDb u conn
  | .disconnectDb => s.disconnectDb
  | .selectDb db => s.selectDb u db
  | .loadDbTables => s.loadDbTables u
  | .loadDbTableData table resetOffset => s.loadDbTableData u table resetOffset
  | .runDbSql => s.runDbSql u
  | .input sql col op val => s.input sql col op val
  | .answer i r => answer u i r s

end AgentGrove.DbPane
