import AgentGrove.Model.ChatVerbs
import AgentGrove.Model.Uploads
import AgentGrove.Wire.Search

namespace AgentGrove.Attachments

open Search (breakOn)
open Uploads (UploadDto)
open Web (jsSpace)

def jsTrimEnd (t : Text) : Text := t.rdropWhile jsSpace

def jsTrim (t : Text) : Text := jsTrimEnd (t.dropWhile jsSpace)

def attachmentMarker : Text := "Attached files (absolute paths, read with your Read tool):".toList

def line (u : UploadDto) : Text :=
  "- ".toList ++ u.path ++ (if u.contentType = [] then [] else " (".toList ++ u.contentType ++ ")".toList)

/-- The body that `send` makes of the input and the uploads, if there is any of the two. -/
def send (input : Text) (uploads : List UploadDto) : Option Text :=
  let body := jsTrim input
  if body = [] ∧ uploads = [] then none
  else if uploads = [] then some body
  else
    some (body ++ (if body = [] then [] else "\n\n".toList) ++ attachmentMarker ++ '\n' ::
      joinLines ['\n'] (uploads.map line))

structure ParsedAttachment where
  path : Text
  mime : Option Text
deriving DecidableEq

structure SplitResult where
  body : Text
  attachments : List ParsedAttachment
  rawSuffix : Option Text
deriving DecidableEq

/-- The characters that `.` does not match. -/
def lineTerminator (c : Char) : Bool := [10, 13, 0x2028, 0x2029].contains c.toNat

/-- ` \(([^)]+)\)$`, from the start of a text. -/
def lastGroup : Text → Option Text
  | ' ' :: '(' :: t => if t.getLast? = some ')' ∧ t.dropLast ≠ [] ∧ ')' ∉ t.dropLast then some t.dropLast else none
  | _ => none

/-- `/^(.*) \(([^)]+)\)$/`, which takes the longest path that it can. -/
def mimeMatch : Text → Option (Text × Text)
  | [] => none
  | c :: cs =>
    match if lineTerminator c then none else mimeMatch cs with
    | some (path, mime) => some (c :: path, mime)
    | none => (lastGroup (c :: cs)).map (fun mime => ([], mime))

def parseLine (l : Text) : Option ParsedAttachment :=
  let trimmed := jsTrim l
  if "- ".toList.isPrefixOf trimmed then
    let rest := trimmed.drop 2
    match mimeMatch rest with
    | some (path, mime) => some ⟨path, if mime = [] then none else some mime⟩
    | none => some ⟨rest, none⟩
  else none

def splitBodyAndAttachments (raw : Text) : SplitResult :=
  match breakOn attachmentMarker raw with
  | none => ⟨raw, [], none⟩
  | some (before, rawSuffix) =>
    ⟨jsTrimEnd before, ((rawSuffix.drop attachmentMarker.length).splitOn '\n').filterMap parseLine, some rawSuffix⟩

/-- What a card sends to be stored when its edit is committed, if anything changed. -/
def commitEdit (raw draft : Text) : Option Text :=
  let split := splitBodyAndAttachments raw
  if draft = split.body then none
  else
    match split.rawSuffix with
    | some suffix => some (draft ++ "\n\n".toList ++ suffix)
    | none => some draft

/-- `update_item`, which does not store a body without text. -/
def updateItem (stored body : Text) : Text := if (trim body).isEmpty then stored else body

/-- The body that is stored after an edit. -/
def storedAfter (raw draft : Text) : Text :=
  match commitEdit raw draft with
  | some body => updateItem raw body
  | none => raw

end AgentGrove.Attachments
