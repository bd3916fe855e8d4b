import AgentGrove.Model.Records
import AgentGrove.Wire.Digits
import AgentGrove.Wire.Tables
import AgentGrove.Wire.Utf8

namespace AgentGrove.Backups

open Assoc (Table)
open Utf8 (Bytes)

/-- The file of the database and its companions. -/
inductive Part where
  | main
  | wal
  | shm
deriving DecidableEq

def parts : List Part := [.main, .wal, .shm]

abbrev Files := Part → Option Bytes

/-- What stands in the directory of the backups: a directory, with the copies in it and when it was last written to, or
a file. -/
inductive Entry where
  | dir (files : Files) (modified : Nat)
  | file

structure Disk where
  live : Files
  backups : Option (Table Text Entry)

/-- What `chrono::Utc::now` says, in fields. -/
structure Stamp where
  year : Nat
  month : Nat
  day : Nat
  hour : Nat
  minute : Nat
  second : Nat
  bounds : year < 10000 ∧ month < 100 ∧ day < 100 ∧ hour < 100 ∧ minute < 100 ∧ second < 100

structure Clock where
  stamp : Stamp
  secs : Nat

def Stamp.fields (s : Stamp) : List Nat := [s.year, s.month, s.day, s.hour, s.minute, s.second]

/-- `%Y%m%d-%H%M%S`. -/
def stampLayout : List (Nat × Text) := [(4, []), (2, []), (2, ['-']), (2, []), (2, []), (2, [])]

def Stamp.print (s : Stamp) : Text := Digits.printAll stampLayout s.fields

/-- How one copy comes out. -/
inductive Copying where
  | done
  | torn (written : Nat)
  | notOpened
deriving DecidableEq

/-- What the calls of one snapshot come to. -/
structure Calls where
  createBackups : Bool := true
  createDest : Bool := true
  copy : Part → Copying := fun _ => .done
  readDir : Bool := true
  removeDir : Text → Bool := fun _ => true

section Snapshots

def copyPart (copying : Copying) (p : Part) (src dst : Files) : Files :=
  match src p with
  | none => dst
  | some bytes =>
    match copying with
    | .done => Function.update dst p (some bytes)
    | .torn n => Function.update dst p (some (bytes.take n))
    | .notOpened => dst

def copyParts (copy : Part → Copying) (src dst : Files) : Files :=
  parts.foldl (fun dst p => copyPart (copy p) p src dst) dst

def Entry.isDir : Entry → Bool
  | .dir .. => true
  | .file => false

/-- `remove_dir_all` takes no file away. -/
def removeDirAll (w : Calls) (t : Table Text Entry) (name : Text) : Table Text Entry :=
  if w.removeDir name && (t.get name).any Entry.isDir then t.delete name else t

def backupNames (t : Table Text Entry) : List Text :=
  ((t.rows.map Prod.fst).filter fun n => "db-".toList.isPrefixOf n).mergeSort fun m n => decide (m ≤ n)

def pruneFrom (w : Calls) (keep : Nat) : List Text → Table Text Entry → Table Text Entry
  | [], t => t
  | victim :: entries, t =>
    if keep < (victim :: entries).length then pruneFrom w keep entries (removeDirAll w t victim) else t

def pruneOldBackups (w : Calls) (keep : Nat) (t : Table Text Entry) : Table Text Entry :=
  if w.readDir then pruneFrom w keep (backupNames t) t else t

def maxDbBackups : Nat := 10

def createDirAll (secs : Nat) (name : Text) (t : Table Text Entry) : Option (Table Text Entry) :=
  match t.get name with
  | none => some (t.upsert name (.dir (fun _ => none) secs) id)
  | some (.dir ..) => some t
  | some .file => none

def Entry.onFiles (f : Files → Files) : Entry → Entry
  | .dir files modified => .dir (f files) modified
  | .file => .file

/-- Copies are written into a directory. -/
def fill (f : Files → Files) (name : Text) (t : Table Text Entry) : Table Text Entry :=
  match t.get name with
  | some e => t.upsert name e fun _ => e.onFiles f
  | none => t

/-- What both kinds of snapshot do once they have a name. -/
def snapshotInto (secs : Nat) (w : Calls) (name : Text) (d : Disk) : Disk × Option Text :=
  if (d.live .main).isNone then (d, none)
  else if !w.createBackups then (d, none)
  else
    let t := d.backups.getD Table.empty
    match if w.createDest then createDirAll secs name t else none with
    | none => ({ d with backups := some t }, none)
    | some made =>
      let filled := fill (copyParts w.copy d.live) name made
      ({ d with backups := some (pruneOldBackups w maxDbBackups filled) }, some name)

def safeTag (tag : Text) : Text := tag.filter fun c => c.isAlphanum || c = '-' || c = '_'

def snapshotName (stamp : Stamp) (tag : Text) : Text :=
  "db-".toList ++ (stamp.print ++ if tag.isEmpty then [] else '-' :: tag)

def snapshotDbToBackups (now : Clock) (w : Calls) (d : Disk) : Disk × Option Text :=
  snapshotInto now.secs w (snapshotName now.stamp []) d

def snapshotDbToBackupsTagged (now : Clock) (w : Calls) (tag : Text) (d : Disk) : Disk × Option Text :=
  snapshotInto now.secs w (snapshotName now.stamp (safeTag tag)) d

def latestSnapshotPath (d : Disk) : Option Text := d.backups.bind fun t => (backupNames t).getLast?

end Snapshots

section Migrations

/-- What `sqlx` says of a migration that fails. -/
inductive SqlxError where
  | versionMismatch (detail : Text)
  | dirty (detail : Text)
  | versionMissing (detail : Text)
  | other (detail : Text)

inductive MigrationError where
  | checksumMismatch (detail : Text) (snapshotHint : Option Text)
  | missingMigration (detail : Text) (snapshotHint : Option Text)
  | sqlx (detail : Text)

def classifyMigrateError (e : SqlxError) (d : Disk) : MigrationError :=
  let hint := latestSnapshotPath d
  match e with
  | .versionMismatch detail => .checksumMismatch detail hint
  | .dirty detail => .checksumMismatch detail hint
  | .versionMissing detail => .missingMigration detail hint
  | .other detail =>
    let msg := toAsciiLowercase detail
    if containsText msg "checksum".toList || containsText msg "dirty".toList then .checksumMismatch detail hint
    else if containsText msg "missing".toList || containsText msg "version".toList then .missingMigration detail hint
    else .sqlx detail

/-- What `sqlx` does with the files of the database. -/
structure Sqlx where
  connect : Files → Files
  applied : Files → Option (List Int)
  run : Files → Files × Option SqlxError

def hasPendingMigrations (embedded : List Int) (db : Sqlx) (live : Files) : Bool :=
  embedded.any fun version => !((db.applied live).getD []).contains version

/-- The migrator, after a snapshot that was taken or not. -/
def migrate (db : Sqlx) (d : Disk) (taken : Bool) : Disk × Except MigrationError Bool :=
  let migrated := { d with live := (db.run d.live).1 }
  match (db.run d.live).2 with
  | none => (migrated, .ok taken)
  | some e => (migrated, .error (classifyMigrateError e migrated))

def runMigrationsSafely (embedded : List Int) (db : Sqlx) (now : Clock) (w : Calls) (d : Disk) :
    Disk × Except MigrationError Bool :=
  if hasPendingMigrations embedded db d.live then
    let (d, path) := snapshotDbToBackupsTagged now w "pre-migrate".toList d
    migrate db d path.isSome
  else migrate db d false

/-- The start of the server, up to its migrations. -/
def boot (embedded : List Int) (db : Sqlx) (first second : Clock) (w w' : Calls) (d : Disk) :
    Disk × Except MigrationError Bool :=
  let d := (snapshotDbToBackups first w d).1
  runMigrationsSafely embedded db second w' { d with live := db.connect d.live }

end Migrations

section Panel

/-- What stands behind the first of a character. -/
def after (c : Char) (t : Text) : Option Text :=
  if c ∈ t then some ((t.dropWhile (· ≠ c)).drop 1) else none

def parseTag (name : Text) : Option Text :=
  if "db-".toList.isPrefixOf name then (after '-' (name.drop 3)).bind (after '-') else none

structure BackupSummary where
  name : Text
  sizeBytes : Nat
  createdAtSecs : Nat
  tag : Option Text
deriving DecidableEq

def dirSize (files : Files) : Nat := (parts.map fun p => ((files p).map List.length).getD 0).sum

def summary (e : Text × Entry) : Option BackupSummary :=
  match e.2 with
  | .dir files modified =>
    if "db-".toList.isPrefixOf e.1 then some ⟨e.1, dirSize files, modified, parseTag e.1⟩ else none
  | .file => none

def list (d : Disk) : List BackupSummary :=
  ((d.backups.map Table.rows).getD []).filterMap summary |>.mergeSort fun a b => decide (b.createdAtSecs ≤ a.createdAtSecs)

/-- A failed request. -/
structure Failure where
  status : Nat
  message : Text
deriving DecidableEq

def create (now : Clock) (w : Calls) (d : Disk) : Disk × Except Failure Text :=
  match snapshotDbToBackupsTagged now w "manual".toList d with
  | (d, some name) => (d, .ok name)
  | (d, none) => (d, .error ⟨500, "snapshot returned None (DB missing?)".toList⟩)

/-- The copies in a directory of that name. -/
def snapshotFiles (d : Disk) (name : Text) : Option Files :=
  match d.backups.bind fun t => t.get name with
  | some (.dir files _) => some files
  | _ => none

structure RestoreInstructions where
  snapshot : Text
  shellCommand : Text
deriving DecidableEq

def restore (d : Disk) (name : Text) : Except Failure RestoreInstructions :=
  match snapshotFiles d name with
  | none => .error ⟨404, "no snapshot named ".toList ++ name⟩
  | some files =>
    if (files .main).isNone then .error ⟨409, name ++ " is missing agentgrove.sqlite (corrupt?)".toList⟩
    else .ok ⟨name, "just restore-db ".toList ++ name⟩

end Panel

section Script

/-- What `db-restore.sh` does once it is confirmed, one command at a time. -/
inductive Step where
  | mkdir
  | save (p : Part)
  | remove (p : Part)
  | put (p : Part)
deriving DecidableEq

def steps : List Step := .mkdir :: (parts.map .save ++ (parts.map .remove ++ parts.map .put))

/-- A copy into the directory of a snapshot. -/
def saveInto (copying : Copying) (p : Part) (pre : Text) (d : Disk) : Disk :=
  { d with backups := d.backups.map (fill (copyPart copying p d.live) pre) }

def Step.exec (copying : Copying) (secs : Nat) (pre name : Text) (d : Disk) : Step → Disk
  | .mkdir => { d with backups := d.backups.map fun t => (createDirAll secs pre t).getD t }
  | .save p => saveInto copying p pre d
  | .remove p => { d with live := Function.update d.live p none }
  | .put p => { d with live := copyPart copying p ((snapshotFiles d name).getD fun _ => none) d.live }

/-- Where the script stops: behind so many commands, and in the next one if that is a copy that breaks off. -/
structure Stop where
  done : Nat
  torn : Option Nat

def runSteps (secs : Nat) (pre name : Text) (stop : Option Stop) (d : Disk) : Disk :=
  match stop with
  | none => steps.foldl (Step.exec .done secs pre name) d
  | some s =>
    let d := (steps.take s.done).foldl (Step.exec .done secs pre name) d
    match s.torn, steps[s.done]? with
    | some n, some (.save p) => Step.exec (.torn n) secs pre name d (.save p)
    | some n, some (.put p) => Step.exec (.torn n) secs pre name d (.put p)
    | _, _ => d

/-- `alive` is what `curl` finds at the port of the server. -/
def restoreDb (d : Disk) (snapshot : Option Text) (alive : Bool) (confirm : Text) (now : Clock) (stop : Option Stop) :
    Disk × Bool :=
  match snapshot with
  | none => (d, false)
  | some name =>
    let pre := snapshotName now.stamp "pre-restore".toList
    if ((snapshotFiles d name).bind fun files => files .main).isNone || alive || confirm ≠ name then (d, false)
    else if (d.backups.bind fun t => t.get pre).any fun e => !e.isDir then (d, false)
    else (runSteps now.secs pre name stop d, stop.isNone)

end Script

end AgentGrove.Backups
