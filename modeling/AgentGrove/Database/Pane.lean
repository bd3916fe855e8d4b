import AgentGrove.Model.Db
import AgentGrove.Proofs.Basic

namespace AgentGrove.DbPane

/-- What is shown, if anything is, was asked for in a certain way. -/
def Shown.From {α : Type} (p : Source → Prop) : Shown α → Prop
  | .empty => True
  | .fetched source _ => p source

theorem Shown.eq_empty {α : Type} {p : Source → Prop} {shown : Shown α} (h : shown.From p) (hnone : ∀ src, ¬ p src) :
    shown = .empty := by
  cases shown with
  | empty => rfl
  | fetched src value => exact (hnone src h).elim

theorem Shown.From.imp {α : Type} {p q : Source → Prop} {shown : Shown α} (h : shown.From p)
    (hpq : ∀ src, p src → q src) : shown.From q := by
  cases shown with
  | empty => trivial
  | fetched src value => exact hpq src h

/-- What is shown comes from the active connection and its active database; the columns stand beside the rows while
a table is selected, and are of that table as the rows are. -/
structure Consistent (u : Urls) (s : State) : Prop where
  databases : s.dbDatabases.From fun src => s.activeConn.map DbConnection.url = some src.url
  tables : s.dbTables.From fun src => s.activeDbUrl u = some src.url
  columns : s.dbColumns.From fun src => s.activeDbUrl u = some src.url
  rows : s.dbRows.From fun src => s.activeDbUrl u = some src.url
  together : ∀ table, s.dbSelectedTable = some table →
    s.dbColumns.From (fun src => src.table = some table) ∧ s.dbRows.From (fun src => src.table = some table)

variable {u : Urls} {s : State} {url : Text}

/-- Nothing is shown where no connection is active. -/
theorem Consistent.disconnected (h : Consistent u s) (hconn : s.activeConn = none) :
    s.dbDatabases = .empty ∧ s.dbTables = .empty ∧ s.dbColumns = .empty ∧ s.dbRows = .empty := by
  have hurl : s.activeDbUrl u = none := by rw [State.activeDbUrl, State.urlFor, hconn, Option.map_none]
  refine ⟨Shown.eq_empty h.databases ?_, Shown.eq_empty h.tables ?_, Shown.eq_empty h.columns ?_,
    Shown.eq_empty h.rows ?_⟩
  · simp [hconn]
  all_goals simp [hurl]

theorem consistent_fresh (conns : List DbConnection) : Consistent u { dbConnections := conns } where
  databases := trivial
  tables := trivial
  columns := trivial
  rows := trivial
  together := fun _ h => by cases h

section Calls

/-- What the pane shows, and what it is judged by. -/
def State.shown (s : State) :=
  ((s.dbConnections, s.activeConnId, s.dbActiveDb), (s.dbDatabases, s.dbTables, s.dbColumns, s.dbRows),
    s.dbSelectedTable)

theorem consistent_congr {s' : State} (h : s'.shown = s.shown) : Consistent u s' ↔ Consistent u s := by
  simp only [State.shown, Prod.mk.injEq] at h
  obtain ⟨⟨hconns, hid, hdb⟩, ⟨hdatabases, htables, hcolumns, hrows⟩, htable⟩ := h
  have hconn : s'.activeConn = s.activeConn := by rw [State.activeConn, State.activeConn, hconns, hid]
  have hurl : s'.activeDbUrl u = s.activeDbUrl u := by simp only [State.activeDbUrl, State.urlFor, hconn, hdb]
  constructor
  · rintro ⟨h1, h2, h3, h4, h5⟩
    rw [hdatabases, hconn] at h1
    rw [htables, hurl] at h2
    rw [hcolumns, hurl] at h3
    rw [hrows, hurl] at h4
    rw [htable, hcolumns, hrows] at h5
    exact ⟨h1, h2, h3, h4, h5⟩
  · rintro ⟨h1, h2, h3, h4, h5⟩
    rw [← hdatabases, ← hconn] at h1
    rw [← htables, ← hurl] at h2
    rw [← hcolumns, ← hurl] at h3
    rw [← hrows, ← hurl] at h4
    rw [← htable, ← hcolumns, ← hrows] at h5
    exact ⟨h1, h2, h3, h4, h5⟩

theorem Consistent.same (hs : Consistent u s) {s' : State} (h : s'.shown = s.shown) : Consistent u s' :=
  (consistent_congr h).mpr hs

theorem shown_loadDatabases : s.loadDatabases.shown = s.shown := by
  unfold State.loadDatabases
  split <;> rfl

theorem shown_loadDbTables : (s.loadDbTables u).shown = s.shown := by
  unfold State.loadDbTables
  split <;> rfl

theorem shown_describe {token : Nat} {tables : List Text} {acc : List (Text × List Text)} :
    (s.describe token url tables acc).shown = s.shown := by
  unfold State.describe
  split <;> rfl

theorem connectDb_consistent (hs : Consistent u s) (conn : DbConnection) : Consistent u (s.connectDb u conn) := by
  unfold State.connectDb
  rw [consistent_congr shown_loadDatabases]
  split
  · exact hs
  · exact ⟨trivial, trivial, trivial, trivial, fun _ h => by cases h⟩

theorem disconnectDb_consistent : Consistent u s.disconnectDb :=
  ⟨trivial, trivial, trivial, trivial, fun _ h => by cases h⟩

/-- The tables of the last database are shown until the answer for the next one. -/
theorem selectDb_iff (hs : Consistent u s) (db : Text) : Consistent u (s.selectDb u db) ↔
    db = [] ∨ db = s.dbActiveDb ∨ s.dbTables.From fun src => s.urlFor u db = some src.url := by
  unfold State.selectDb
  split
  · rename_i h
    refine iff_of_true (hs.same rfl) ?_
    rcases h with h | h
    · exact Or.inl h
    · exact Or.inr (Or.inl h)
  · rename_i h
    rw [consistent_congr shown_loadDbTables]
    rw [not_or] at h
    constructor
    · exact fun h' => Or.inr (Or.inr h'.tables)
    · rintro (hc | hc | htables)
      · exact (h.1 hc).elim
      · exact (h.2 hc).elim
      · exact ⟨hs.databases, htables, trivial, trivial, fun _ h => by cases h⟩

theorem loadDbTableData_consistent (hs : Consistent u s) (table : Text) (resetOffset : Bool) :
    Consistent u (s.loadDbTableData u table resetOffset) := by
  unfold State.loadDbTableData
  split
  · exact hs
  · exact hs.same rfl

theorem runDbSql_consistent (hs : Consistent u s) : Consistent u (s.runDbSql u) := by
  unfold State.runDbSql
  split
  · exact hs
  · exact hs
  · exact ⟨hs.1, hs.2, hs.3, hs.4, fun _ h => by cases h⟩

end Calls

section Answers

/-- The url of the active connection, and of the database that is active after the list has come. -/
structure StillListed (u : Urls) (url : Text) (dbs : List Text) (s : State) : Prop where
  conn : s.activeConn.map DbConnection.url = some url
  tables : s.dbTables.From fun src => s.urlFor u (State.pickDb s.dbActiveDb dbs) = some src.url
  columns : s.dbColumns.From fun src => s.urlFor u (State.pickDb s.dbActiveDb dbs) = some src.url
  rows : s.dbRows.From fun src => s.urlFor u (State.pickDb s.dbActiveDb dbs) = some src.url

theorem gotDatabases_iff (hs : Consistent u s) (r : Except Text (List Text)) :
    Consistent u (s.gotDatabases u url r) ↔ ∀ dbs, r = .ok dbs → StillListed u url dbs s := by
  cases r with
  | error e => exact iff_of_true (hs.same shown_loadDbTables) (fun _ h => by cases h)
  | ok dbs =>
    have hset : Consistent u (s.gotDatabases u url (.ok dbs)) ↔ Consistent u
        { s with dbDatabases := .fetched { url } dbs, dbActiveDb := State.pickDb s.dbActiveDb dbs } := by
      refine consistent_congr ?_
      unfold State.gotDatabases
      dsimp only
      split
      · rfl
      · exact shown_loadDbTables
    rw [hset]
    simp only [Except.ok.injEq, forall_eq']
    constructor
    · exact fun h => ⟨h.databases, h.tables, h.columns, h.rows⟩
    · exact fun h => ⟨h.conn, h.tables, h.columns, h.rows, hs.together⟩

theorem gotTables_iff (hs : Consistent u s) (r : Except Text (List Text)) :
    Consistent u (s.gotTables url r) ↔ ∀ list, r = .ok list → s.activeDbUrl u = some url := by
  cases r with
  | error e =>
    exact iff_of_true ⟨hs.databases, trivial, hs.columns, hs.rows, hs.together⟩ (fun _ h => by cases h)
  | ok list =>
    have hset : (s.gotTables url (.ok list)).shown = State.shown { s with dbTables := .fetched { url } list } := by
      have hdescribe := @shown_describe
      simp only [State.shown] at hdescribe ⊢
      exact hdescribe
    rw [consistent_congr hset]
    simp only [Except.ok.injEq, forall_eq']
    exact ⟨fun h => h.tables, fun h => ⟨hs.databases, h, hs.columns, hs.rows, hs.together⟩⟩

theorem gotTableData_iff (hs : Consistent u s) (table : Text) (r : Except Text (List DbColumn × DbQueryResponse)) :
    Consistent u (s.gotTableData url table r) ↔ ∀ data, r = .ok data → s.activeDbUrl u = some url := by
  cases r with
  | error e => exact iff_of_true (hs.same rfl) (fun _ h => by cases h)
  | ok data =>
    simp only [Except.ok.injEq, forall_eq']
    constructor
    · exact fun h => h.rows
    · intro h
      refine ⟨hs.databases, hs.tables, h, h, fun t ht => ?_⟩
      cases ht
      exact ⟨rfl, rfl⟩

theorem gotRows_iff (hs : Consistent u s) (r : Except Text DbQueryResponse) : Consistent u (s.gotRows url r) ↔
    ∀ data, r = .ok data → s.activeDbUrl u = some url ∧ s.dbSelectedTable = none := by
  cases r with
  | error e => exact iff_of_true (hs.same rfl) (fun _ h => by cases h)
  | ok data =>
    simp only [Except.ok.injEq, forall_eq']
    constructor
    · intro h
      refine ⟨h.rows, ?_⟩
      cases hsel : s.dbSelectedTable with
      | none => rfl
      | some table => cases (h.together table hsel).2
    · rintro ⟨hurl, hsel⟩
      refine ⟨hs.databases, hs.tables, hs.columns, hurl, fun t ht => ?_⟩
      cases hsel.symm.trans ht

theorem shown_gotColumns {token : Nat} {chunk rest : List Text} {acc : List (Text × List Text)}
    {described : List (Option (List DbColumn))} :
    (s.gotColumns token url chunk rest acc described).shown = s.shown := by
  unfold State.gotColumns
  dsimp only
  split
  · exact shown_describe
  · rfl

/-- An answer is still of use: it is for the connection and the database that are active, and for the table. -/
def FineAnswer (u : Urls) (s : State) : Pending → Reply → Prop
  | .databases url, .databases r => ∀ dbs, r = .ok dbs → StillListed u url dbs s
  | .tables url, .tables r => ∀ list, r = .ok list → s.activeDbUrl u = some url
  | .tableData url _ _, .tableData r => ∀ data, r = .ok data → s.activeDbUrl u = some url
  | .sql url _, .sql r => ∀ data, r = .ok data → s.activeDbUrl u = some url ∧ s.dbSelectedTable = none
  | _, _ => True

end Answers

theorem answer_iff (hs : Consistent u s) (i : Nat) (r : Reply) :
    Consistent u (answer u i r s) ↔ ∀ p, s.pending[i]? = some p → FineAnswer u s p r := by
  have hrest : Consistent u { s with pending := s.pending.eraseIdx i } := hs.same rfl
  unfold answer
  cases hp : s.pending[i]? with
  | none => simp [hs]
  | some p =>
    simp only [Option.some.injEq, forall_eq']
    cases p with
    | databases url =>
      cases r with
      | databases r =>
        refine (gotDatabases_iff hrest r).trans (forall₂_congr fun dbs _ => ?_)
        exact ⟨fun h => ⟨h.1, h.2, h.3, h.4⟩, fun h => ⟨h.1, h.2, h.3, h.4⟩⟩
      | _ => exact iff_of_true hs trivial
    | tables url =>
      cases r with
      | tables r => exact gotTables_iff hrest r
      | _ => exact iff_of_true hs trivial
    | tableData url table query =>
      cases r with
      | tableData r => exact gotTableData_iff hrest table r
      | _ => exact iff_of_true hs trivial
    | sql url q =>
      cases r with
      | sql r => exact gotRows_iff hrest r
      | _ => exact iff_of_true hs trivial
    | columns token url chunk rest acc =>
      cases r with
      | columns described => exact iff_of_true (hrest.same shown_gotColumns) trivial
      | _ => exact iff_of_true hs trivial

/-- An event keeps to the connection and the database that are active. -/
def Fine (u : Urls) (s : State) : Event → Prop
  | .selectDb db => db = [] ∨ db = s.dbActiveDb ∨ s.dbTables.From fun src => s.urlFor u db = some src.url
  | .answer i r => ∀ p, s.pending[i]? = some p → FineAnswer u s p r
  | _ => True

theorem exec_consistent_iff (u : Urls) (s : State) (e : Event) (hs : Consistent u s) :
    Consistent u (exec u s e) ↔ Fine u s e := by
  cases e with
  | connectDb conn => exact iff_of_true (connectDb_consistent hs conn) trivial
  | disconnectDb => exact iff_of_true disconnectDb_consistent trivial
  | selectDb db => exact selectDb_iff hs db
  | loadDbTables => exact iff_of_true (hs.same shown_loadDbTables) trivial
  | loadDbTableData table resetOffset => exact iff_of_true (loadDbTableData_consistent hs table resetOffset) trivial
  | runDbSql => exact iff_of_true (runDbSql_consistent hs) trivial
  | input sql col op val => exact iff_of_true (hs.same rfl) trivial
  | answer i r => exact answer_iff hs i r

/-- The pane shows one connection throughout a run exactly if no database is selected beside the tables of another,
and no answer is taken that has been overtaken; and then it shows nothing while no connection is active. -/
theorem pane_shows_one_iff (u : Urls) (conns : List DbConnection) (events : List Event) :
    ((∀ done, done <+: events → Consistent u (done.foldl (exec u) { dbConnections := conns })) ↔
      ∀ done e, done ++ [e] <+: events → Fine u (done.foldl (exec u) { dbConnections := conns }) e) ∧
    ∀ s, Consistent u s → s.activeConn = none →
      s.dbDatabases = .empty ∧ s.dbTables = .empty ∧ s.dbColumns = .empty ∧ s.dbRows = .empty :=
  ⟨Runs.throughout_iff (exec_consistent_iff u) (consistent_fresh conns) events, fun _ h hconn => h.disconnected hconn⟩

/-- The addresses of a server whose databases are named behind its last slash. -/
def slashed : Urls where
  dbDefaultDbName := fun url => (url.splitOn '/').getLast?.getD []
  dbUrlFor := fun url db => url.rdropWhile (· ≠ '/') ++ db

def localDb : DbConnection := ⟨"c".toList, "Local".toList, "postgres://h/a".toList⟩

def start : State := { dbConnections := [localDb] }

/-- One table of the first of two databases is listed. -/
def listed : List Event :=
  [.connectDb localDb, .answer 0 (.databases (.ok ["a".toList, "b".toList])), .answer 0 (.tables (.ok ["t".toList]))]

/-- The table is opened, and a query is run before its rows have come. -/
def queried : List Event :=
  listed ++ [.loadDbTableData "t".toList true, .input "select 1".toList [] [] [], .runDbSql,
    .answer 1 (.tableData (.ok ([], ⟨[], [], none⟩))), .answer 1 (.sql (.ok ⟨[], [], none⟩))]

/-- The tables of the last database stay when the next one is selected; an answer that has been overtaken by a
disconnection is shown; the rows of a query are shown as those of a table. -/
theorem overtaken_answers_shown :
    ¬ Consistent slashed ((listed ++ [Event.selectDb "b".toList]).foldl (exec slashed) start) ∧
    ¬ Consistent slashed
      ([Event.connectDb localDb, .disconnectDb, .answer 0 (.databases (.ok ["a".toList]))].foldl (exec slashed) start) ∧
    ¬ Consistent slashed (queried.foldl (exec slashed) start) := by
  refine ⟨fun h => ?_, fun h => ?_, fun h => ?_⟩
  · have hurl : some "postgres://h/b".toList = some "postgres://h/a".toList := h.tables
    exact absurd hurl (by decide)
  · have hurl : none = some "postgres://h/a".toList := h.databases
    exact absurd hurl (by decide)
  · have htable : none = some "t".toList := (h.together "t".toList rfl).2
    exact absurd htable (by decide)

end AgentGrove.DbPane
