import AgentGrove.Model.Records
import AgentGrove.Model.Worktrees
import AgentGrove.Wire.Utf8

namespace AgentGrove.Git

open Utf8 (Bytes fromUtf8Lossy)

/-- One changed entry as reported by git. -/
structure StatusEntry where
  path : Text
  origPath : Option Text
  x : Char
  y : Char
deriving DecidableEq

/-- Where the field that starts here ends: at the next NUL or with the buffer. An index behind the
buffer panics. -/
def fieldEnd (buf : Bytes) (start : Nat) : Option Nat :=
  if start ≤ buf.length then
    match (buf.drop start).findIdx? (· == 0) with
    | some p => some (start + p)
    | none => some buf.length
  else none

/-- `&buf[start..end]`, with the same panics. -/
def slice (buf : Bytes) (start stop : Nat) : Option Bytes :=
  if start ≤ stop ∧ stop ≤ buf.length then some ((buf.drop start).take (stop - start)) else none

/-- The text of the field that starts here, and its end. -/
def field (buf : Bytes) (start : Nat) : Option (Text × Nat) := do
  let stop ← fieldEnd buf start
  let bytes ← slice buf start stop
  return (fromUtf8Lossy bytes, stop)

/-- A rename or copy, in the index or in the working tree, has a second field. -/
def renames (x y : Char) : Bool := x == 'R' || x == 'C' || y == 'R' || y == 'C'

/-- The record at an index, and the index behind it. -/
def record (buf : Bytes) (i : Nat) : Option (StatusEntry × Nat) := do
  let x ← buf[i]?.map Char.ofUInt8
  let y ← buf[i + 1]?.map Char.ofUInt8
  let (path, stop) ← field buf (i + 3)
  if renames x y then
    if stop + 1 < buf.length then
      let (orig, origStop) ← field buf (stop + 1)
      return (⟨path, some orig, x, y⟩, origStop + 1)
    else return (⟨path, none, x, y⟩, stop + 1)
  else return (⟨path, none, x, y⟩, stop + 1)

/-- The loop, for so many turns. It has no result if it panics, or is not through by then. -/
def records : Nat → Bytes → Nat → Option (List StatusEntry)
  | 0, buf, i => if i < buf.length then none else some []
  | turns + 1, buf, i =>
    if i < buf.length then
      if i + 3 > buf.length then some []
      else do
        let (e, next) ← record buf i
        let es ← records turns buf next
        return e :: es
    else some []

def parsePorcelainV1Z (buf : Bytes) : Option (List StatusEntry) := records buf.length buf 0

end AgentGrove.Git

namespace AgentGrove.Git

open Worktrees (GitError)

/-- Files by their paths, which are relative to the root of the working tree. -/
abbrev Tree (C : Type) := List (Text × C)

inductive Staged (C : Type) where
  | blob (content : C)
  | unmerged (stages : List C)
deriving DecidableEq

/-- What a file has in it is its mode and its bytes. A repository may have no commit yet. -/
structure WorkTree (C : Type) where
  head : Option (Tree C)
  index : Tree (Staged C)
  work : Tree C
  emptyDirs : List Text

/-- What `metadata` tells of a path. -/
inductive Stat where
  | file
  | dir
  | other
  | notFound
  | error (e : Text)

/-- What the code finds outside of it: how git reads a pathspec, which paths `clean` leaves alone (ignored ones,
and those of a repository of their own), and what `metadata` tells of a file, following links. -/
structure Outside (C : Type) where
  selects : Text → Text → Bool
  spared : Text → Bool
  stat : Text → C → Stat

/-- Whether each command runs. -/
structure Calls where
  lsFiles : Except GitError Unit := .ok ()
  restore : Except GitError Unit := .ok ()
  clean : Except GitError Unit := .ok ()
  removeFile : Except GitError Unit := .ok ()

/-- A path in a directory, whose name may end in a slash. -/
def below (dir path : Text) : Bool :=
  if dir.getLast? = some '/' then dir.isPrefixOf path else (dir ++ ['/']).isPrefixOf path

section Commands

variable {C : Type} (o : Outside C) (t : WorkTree C) (spec : Text)

def WorkTree.committed : Tree C := t.head.getD []

def WorkTree.known (path : Text) : Bool := (t.committed.lookup path).isSome || (t.index.lookup path).isSome

def WorkTree.untracked (path : Text) : Bool :=
  (t.work.lookup path).isSome && (t.index.lookup path).isNone && !o.spared path

/-- `git ls-files --error-unmatch -- <spec>`. -/
def lsFiles : Bool := t.index.any (fun e => o.selects spec e.1)

/-- A file cannot be written where a directory is, nor in a directory where a file is. -/
def inTheWay (path : Text) : Bool :=
  t.committed.any (fun e => o.selects spec e.1 && (below e.1 path || below path e.1))

/-- `git restore --source=HEAD --staged --worktree -- <spec>`: the paths that it knows in HEAD or in the index are
in both as HEAD has them, and what stands in their way is gone. -/
def restored : WorkTree C :=
  let source := t.committed.filter (fun e => o.selects spec e.1)
  { t with
    index := source.map (fun e => (e.1, .blob e.2)) ++
      t.index.filter (fun e => !o.selects spec e.1 && !inTheWay o t spec e.1)
    work := source ++
      t.work.filter (fun e => !(o.selects spec e.1 && t.known e.1) && !inTheWay o t spec e.1) }

/-- There must be a commit, and no unmerged path that it does not have. -/
def restorable : Bool :=
  t.head.isSome && t.index.all (fun e =>
    match e.2 with
    | .blob _ => true
    | .unmerged _ => !o.selects spec e.1 || (t.committed.lookup e.1).isSome)

/-- `git clean -fd -- <spec>`. -/
def cleaned : WorkTree C :=
  { t with work := t.work.filter (fun e => !(o.selects spec e.1 && t.untracked o e.1)) }

/-- `metadata`, of a path as git lists it. -/
def metadata (path : Text) : Stat :=
  match t.work.lookup path with
  | some content => o.stat path content
  | none => if t.work.any (fun e => below path e.1) || t.emptyDirs.contains path then .dir else .notFound

def removeFile (path : Text) : WorkTree C := { t with work := t.work.filter (fun e => e.1 ≠ path) }

end Commands

inductive DiscardOutcome where
  | restored
  | deletedUntracked
  | noop
deriving DecidableEq

/-- The segments between slashes of either kind. -/
def segments (path : Text) : List Text := path.splitOnP (fun c => c == '/' || c == '\\')

/-- Why a path is refused. -/
def refusal (relPath : Text) : Option GitError :=
  if relPath = [] then some (.nonZero (-1) "rel_path must not be empty".toList)
  else if relPath.head? = some '/' ∨ relPath.head? = some '\\' then
    some (.nonZero (-1) "rel_path must be repo-relative, not absolute".toList)
  else if (segments relPath).contains ['.', '.'] then
    some (.nonZero (-1) "rel_path must not contain '..'".toList)
  else none

/-- The result of a command that may not run, and then changes nothing. -/
def command {S α : Type} (run : Except GitError Unit) (s : S) (result : Except GitError α × S) :
    Except GitError α × S :=
  match run with
  | .ok () => result
  | .error e => (.error e, s)

/-- Git tells what is wrong, and changes nothing. -/
def gitRestore {C : Type} (o : Outside C) (t : WorkTree C) (spec : Text) : Except GitError Unit × WorkTree C :=
  if restorable o t spec then (.ok (), restored o t spec) else (.error (.nonZero 1 []), t)

def discardPath {C : Type} (o : Outside C) (w : Calls) (t : WorkTree C) (relPath : Text) :
    Except GitError DiscardOutcome × WorkTree C :=
  match refusal relPath with
  | some e => (.error e, t)
  | none =>
    let tracked := w.lsFiles.isOk && lsFiles o t relPath
    if tracked then
      let (done, t) := command w.restore t (gitRestore o t relPath)
      (done.map (fun _ => .restored), t)
    else
      match metadata o t relPath with
      | .file => command w.removeFile t (.ok .deletedUntracked, removeFile t relPath)
      | .dir => command w.clean t (.ok .deletedUntracked, cleaned o t relPath)
      | .other | .notFound => (.ok .noop, t)
      | .error e => (.error (.io e), t)

end AgentGrove.Git
