import AgentGrove.Model.Records
import AgentGrove.Wire.Paths
import AgentGrove.Wire.Utf8
import Mathlib.Logic.Function.Basic

namespace AgentGrove.Notes

open Posix
open Utf8 (Bytes)

structure Scratchpad where
  projectId : Text
  body : Text
  updatedAt : Nat
deriving DecidableEq

/-- What `serde_json` does with a scratchpad. -/
structure PadCodec where
  toVecPretty : Scratchpad → Bytes
  fromSlice : Bytes → Except Text Scratchpad

/-- The directory of the state, by its names from the root. -/
structure StateDir where
  path : AbsPath
  proper : ∀ c ∈ path, Proper c

abbrev Failure := Nat × Text

def scratchpads (dir : StateDir) : AbsPath := dir.path ++ ["scratchpads".toList]

/-- The components of the path of a scratchpad. An absolute name leaves the directory out. -/
def padPath (dir : StateDir) (projectId : Text) : List Name :=
  let name := projectId ++ ".json".toList
  if name.head? = some '/' then name.splitOn '/' else scratchpads dir ++ name.splitOn '/'

def Error.message : Error → Text
  | .notFound => "No such file or directory (os error 2)".toList
  | .notADirectory => "Not a directory (os error 20)".toList
  | .isADirectory => "Is a directory (os error 21)".toList
  | .invalidInput => "file name contained an unexpected NUL byte".toList
  | .other e => e

/-- The read may fail otherwise than on a file that is not there. -/
def readOne (codec : PadCodec) (dir : StateDir) (projectId : Text) (now : Nat) (fault : Option Text)
    (t : FileTree Bytes) : Except Failure Scratchpad :=
  match fault.elim (t.read (padPath dir projectId)) (fun e => .error (.other e)) with
  | .ok bytes =>
    match codec.fromSlice bytes with
    | .ok pad => .ok pad
    | .error e => .error (500, "corrupt notes file: ".toList ++ e)
  | .error .notFound => .ok ⟨projectId, [], now⟩
  | .error e => .error (500, "read notes failed: ".toList ++ Error.message e)

/-- How far a write gets, by itself: it fails while directories are made, when the file is opened, or when the
file has been emptied and some bytes are written. -/
inductive Writing where
  | done
  | noDirs (e : Text) (made : Nat)
  | notOpened (e : Text)
  | torn (e : Text) (written : Nat)

def writeOne (codec : PadCodec) (dir : StateDir) (pad : Scratchpad) (w : Writing) (t : FileTree Bytes) :
    FileTree Bytes × Except Error Unit :=
  let p := padPath dir pad.projectId
  let json := codec.toVecPretty pad
  match w with
  | .noDirs e made => ((t.createDirAll (p.dropLast.take made)).1, .error (.other e))
  | .done | .notOpened _ | .torn _ _ =>
    match t.createDirAll p.dropLast with
    | (t, .error e) => (t, .error e)
    | (t, .ok ()) =>
      match w with
      | .notOpened e | .noDirs e _ => (t, .error (.other e))
      | .torn e written =>
        match t.write p (json.dropLast.take written) with
        | .ok t => (t, .error (.other e))
        | .error e => (t, .error e)
      | .done =>
        match t.write p json with
        | .ok t => (t, .ok ())
        | .error e => (t, .error e)

/-- What is published on the `sync` topic. -/
structure SyncFrame where
  kind : Text
  projectId : Text
  updatedAt : Nat

structure Store where
  disk : FileTree Bytes
  published : List SyncFrame

def get (codec : PadCodec) (dir : StateDir) (s : Store) (projectId : Text) (now : Nat) (fault : Option Text) :
    Except Failure Scratchpad :=
  readOne codec dir projectId now fault s.disk

def put (codec : PadCodec) (dir : StateDir) (s : Store) (projectId body : Text) (now : Nat) (w : Writing) :
    Store × Except Failure Scratchpad :=
  let pad : Scratchpad := ⟨projectId, body, now⟩
  match writeOne codec dir pad w s.disk with
  | (disk, .error e) => ({ s with disk }, .error (500, Error.message e))
  | (disk, .ok ()) =>
    (⟨disk, s.published ++ [⟨"scratchpad_updated".toList, pad.projectId, pad.updatedAt⟩]⟩, .ok pad)

end AgentGrove.Notes
