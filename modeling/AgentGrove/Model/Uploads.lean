import AgentGrove.Model.Records
import AgentGrove.Wire.Utf8
import AgentGrove.Wire.Value
import Mathlib.Algebra.Group.Nat.Defs
import Mathlib.Data.List.Perm.Basic

namespace AgentGrove.Uploads

open Utf8 (Bytes encode fromUtf8)
open Wire (Value)

/-- Directories, and files with their content, by their paths. -/
structure Disk where
  dirs : List Text
  files : List (Text × Bytes)

/-- `Path::join`: an absolute name replaces the directory. -/
def join (dir name : Text) : Text := if name.head? = some '/' then name else dir ++ '/' :: name

/-- The name of a file that is in a directory, and not in one below it. -/
def childOf (dir path : Text) : Option Text :=
  if (dir ++ ['/']).isPrefixOf path then
    let name := path.drop (dir.length + 1)
    if name.contains '/' then none else some name
  else none

def entryOf (dir : Text) (f : Text × Bytes) : Option (Text × Bytes) := (childOf dir f.1).map (·, f.2)

namespace Disk

def createDir (d : Disk) (dir : Text) : Disk := { d with dirs := dir :: d.dirs }

def write (d : Disk) (path : Text) (bytes : Bytes) : Disk :=
  { d with files := (path, bytes) :: d.files.filter (fun f => f.1 ≠ path) }

def removeDirAll (d : Disk) (dir : Text) : Disk where
  dirs := d.dirs.filter (fun other => other ≠ dir && !(dir ++ ['/']).isPrefixOf other)
  files := d.files.filter (fun f => !(dir ++ ['/']).isPrefixOf f.1)

/-- The files in a directory, in no order to rely on. -/
def readDir (d : Disk) (dir : Text) : Option (List (Text × Bytes)) :=
  if d.dirs.contains dir then some (d.files.filterMap (entryOf dir)) else none

end Disk

/-- `char::is_alphanumeric`, which is told beyond ASCII. -/
def isAlphanumeric (beyond : Char → Bool) (c : Char) : Bool :=
  if c.toNat < 128 then c.isAlphanum else beyond c

/-- `Path::file_name`: the last component, if it is a name. -/
def fileName (path : Text) : Option Text :=
  (((path.splitOn '/').filter (fun c => c ≠ [] ∧ c ≠ ['.'])).getLast?).filter (fun c => c ≠ ['.', '.'])

/-- Other characters become `_`, one for each run of them. -/
def collapse (beyond : Char → Bool) : Bool → Text → Text
  | _, [] => []
  | prevUnderscore, c :: cs =>
    if isAlphanumeric beyond c || c == '.' || c == '-' || c == '_' then c :: collapse beyond false cs
    else if prevUnderscore then collapse beyond true cs
    else '_' :: collapse beyond true cs

def trimmable (c : Char) : Bool := c == '_' || c == '.'

def sanitizeFilename (beyond : Char → Bool) (raw : Text) : Text :=
  let out := collapse beyond false ((fileName raw).getD raw)
  let trimmed := (out.dropWhile trimmable).rdropWhile trimmable
  if trimmed = [] then "upload.bin".toList else trimmed

def hexDigits (u : Uuid) : Text := (List.range 32).map (fun i => Nat.digitChar (u / 16 ^ (31 - i) % 16))

/-- `Uuid::to_string`. -/
def hyphenated (u : Uuid) : Text :=
  (hexDigits u).take 8 ++ '-' :: ((hexDigits u).drop 8).take 4 ++ '-' :: ((hexDigits u).drop 12).take 4 ++
    '-' :: ((hexDigits u).drop 16).take 4 ++ '-' :: (hexDigits u).drop 20

def isSafeId (id : Text) : Bool :=
  !id.isEmpty && decide (id.length < 64) && id.all (fun c => c.isAlphanum || c == '-')

def maxUploadBytes : Nat := 25 * 1024 * 1024

structure UploadDto where
  id : Text
  filename : Text
  contentType : Text
  size : Nat
  path : Text
deriving DecidableEq

/-- A multipart part, the id that is made for it, and what becomes of the calls that store it. -/
structure Part where
  name : Option Text
  fileName : Option Text
  contentType : Option Text
  bytes : Except Text Bytes
  id : Uuid
  mkdir : Except Text Unit := .ok ()
  write : Except Text Unit := .ok ()
  writeMeta : Except Text Unit := .ok ()
  removed : Bool := true

def Part.original (p : Part) : Text := p.fileName.getD "upload".toList

def Part.declared (p : Part) : Text := p.contentType.getD "application/octet-stream".toList

abbrev Failure := Nat × Text

inductive Stored where
  | skipped
  | failed (e : Failure)
  | stored (dto : UploadDto)

def metaName : Text := "meta.json".toList

def metadata (contentType filename : Text) (size : Nat) : Value :=
  .object [("content_type".toList, .string contentType), ("filename".toList, .string filename),
    ("size".toList, .number ⟨showNat size, some size, showNat size ++ ".0".toList⟩)]

/-- Whether the directory goes is not looked at. -/
def Disk.cleanUp (d : Disk) (p : Part) (dir : Text) : Disk := if p.removed then d.removeDirAll dir else d

/-- One turn of the loop. -/
def createPart (beyond : Char → Bool) (root : Text) (d : Disk) (p : Part) : Stored × Disk :=
  if p.name ≠ some "file".toList then (.skipped, d)
  else
    let safeName := sanitizeFilename beyond p.original
    let id := hyphenated p.id
    let dir := join root id
    match p.mkdir with
    | .error e => (.failed (500, "failed to create upload dir: ".toList ++ e), d)
    | .ok () =>
      let d := d.createDir dir
      let path := join dir safeName
      match p.bytes with
      | .error e => (.failed (400, "failed to read upload: ".toList ++ e), d)
      | .ok bytes =>
        if maxUploadBytes < bytes.length then
          (.failed (413, "upload exceeds limit: ".toList ++ showNat bytes.length ++ " > ".toList ++
            showNat maxUploadBytes ++ " bytes".toList), d.cleanUp p dir)
        else
          match p.write with
          | .error e => (.failed (500, "failed to write upload: ".toList ++ e), d.cleanUp p dir)
          | .ok () =>
            let d := d.write path bytes
            match p.writeMeta with
            | .error e => (.failed (500, "failed to write upload metadata: ".toList ++ e), d.cleanUp p dir)
            | .ok () =>
              (.stored ⟨id, safeName, p.declared, bytes.length, path⟩,
                d.write (join dir metaName) (encode (metadata p.declared safeName bytes.length).print))

/-- The loop, until a part fails. -/
def createParts (beyond : Char → Bool) (root : Text) (d : Disk) (out : List UploadDto) :
    List Part → Except Failure (List UploadDto) × Disk
  | [] =>
    if out = [] then (.error (400, "no `file` parts found in multipart body".toList), d) else (.ok out, d)
  | p :: parts =>
    match createPart beyond root d p with
    | (.skipped, d) => createParts beyond root d out parts
    | (.failed e, d) => (.error e, d)
    | (.stored dto, d) => createParts beyond root d (out ++ [dto]) parts

def create (beyond : Char → Bool) (root : Text) (rootDir : Except Text Unit) (d : Disk) (parts : List Part) :
    Except Failure (List UploadDto) × Disk :=
  match rootDir with
  | .error e => (.error (500, "failed to create uploads dir: ".toList ++ e), d)
  | .ok () => createParts beyond root (d.createDir root) [] parts

/-- The order in which a directory is read. -/
structure Order where
  list : List (Text × Bytes) → List (Text × Bytes)
  perm : ∀ entries, (list entries).Perm entries

structure RawFile where
  contentType : Text
  crossOriginResourcePolicy : Text := "cross-origin".toList
  bytes : Bytes
deriving DecidableEq

/-- The last file that is neither the metadata nor hidden, and the content type of the first metadata. -/
def scan (parse : Text → Option Value) (found : Option (Text × Bytes)) (storedType : Option Text) :
    List (Text × Bytes) → Option (Text × Bytes) × Option Text
  | [] => (found, storedType)
  | (name, bytes) :: entries =>
    if name = metaName then
      let read := (fromUtf8 bytes).bind fun text => (parse text).bind fun v =>
        (v.get "content_type".toList).bind Value.asStr
      scan parse found (storedType.or read) entries
    else if name.head? = some '.' then scan parse found storedType entries
    else scan parse (some (name, bytes)) storedType entries

/-- `parse` is `serde_json::from_str`, and `guess` the type that goes with a path. -/
def raw (parse : Text → Option Value) (guess : Text → Text) (order : Order) (root : Text) (d : Disk) (id : Text) :
    Except Failure RawFile :=
  if !isSafeId id then .error (400, "invalid id".toList)
  else
    match d.readDir (join root id) with
    | none => .error (404, "upload not found".toList)
    | some entries =>
      match scan parse none none (order.list entries) with
      | (none, _) => .error (404, "upload empty".toList)
      | (some (name, bytes), storedType) =>
        .ok { contentType := storedType.getD (guess (join (join root id) name)), bytes }

example : sanitizeFilename (fun _ => false) "../../etc/pass wd".toList = "pass_wd".toList := by decide

end AgentGrove.Uploads
