import AgentGrove.Model.Records
import Mathlib.Logic.Function.Basic

namespace AgentGrove.Editor

abbrev Path := Text

/-- What comes behind a flush once it is back. -/
inductive Then where
  | nothing
  | load (p : Path)
  | clear
deriving DecidableEq

/-- A call of `writeFile`: whether the server has carried it out, and whether the pane waits for the answer. -/
structure WriteCall where
  path : Path
  content : Text
  next : Then
  served : Option Bool := none
  waiting : Bool := true

/-- A call of `readFile`, with what the server has found. -/
structure ReadCall where
  path : Path
  served : Option (Option Text) := none
  waiting : Bool := true

structure Pane where
  mounted : Bool
  selected : Option Path
  openPath : Option Path
  bufferPath : Option Path
  doc : Text
  editable : Bool
  dirty : Bool
  saveTimer : Bool
  loading : Bool
  /-- Whether the effect depends on `dirty`, as it does from a run that has read it to the next run. -/
  tracked : Bool
  writes : List WriteCall
  reads : List ReadCall

def Pane.mount (selected : Option Path) : Pane where
  mounted := true
  selected
  openPath := none
  bufferPath := none
  doc := []
  editable := false
  dirty := false
  saveTimer := false
  loading := false
  tracked := false
  writes := []
  reads := []

def isPdf (p : Path) : Bool := ".pdf".toList.isSuffixOf (toAsciiLowercase p)

/-- A text as the document of the view gives it back: its lines end with line feeds alone. -/
def lineFeeds : Text → Text
  | [] => []
  | '\r' :: '\n' :: t => '\n' :: lineFeeds t
  | c :: t => (if c = '\r' then '\n' else c) :: lineFeeds t

namespace Pane

def flush (next : Then) (s : Pane) : Pane :=
  match s.bufferPath with
  | none => s
  | some p => if s.dirty then { s with writes := s.writes ++ [⟨p, s.doc, next, none, true⟩] } else s

def scheduleFlush (s : Pane) : Pane := { s with saveTimer := true }

def readFile (p : Path) (s : Pane) : Pane := { s with reads := s.reads ++ [⟨p, none, true⟩] }

/-- The buffer is emptied and belongs to no file. -/
def closeBuffer (s : Pane) : Pane := { s with bufferPath := none, doc := [], editable := false, loading := false }

/-- `loadPath`, run by the effect. A path that is open then does not make the effect do anything more. -/
def loadPath (p : Path) (s : Pane) : Pane :=
  if s.dirty && s.bufferPath.isSome && s.bufferPath ≠ some p then { s.flush (.load p) with tracked := true }
  else if isPdf p then { s.closeBuffer with openPath := some p, dirty := false, tracked := false }
  else { s.readFile p with tracked := true }

/-- What the effect does when nothing is selected any more. -/
def clearSelection (s : Pane) : Pane :=
  if s.dirty && s.bufferPath.isSome then { s.flush .clear with tracked := true }
  else { s.closeBuffer with openPath := none, dirty := false, tracked := false }

/-- The selected path, where it is one. -/
def chosen (s : Pane) : Option Path := s.selected.filter (!·.isEmpty)

def effect (s : Pane) : Pane :=
  if !s.mounted then s
  else if s.chosen = s.openPath then { s with tracked := false }
  else
    match s.chosen with
    | some p => s.loadPath p
    | none => s.clearSelection

def setSelected (p : Option Path) (s : Pane) : Pane :=
  if s.selected = p then s else effect { s with selected := p }

def setOpenPath (p : Option Path) (s : Pane) : Pane :=
  if s.openPath = p then s else effect { s with openPath := p }

def setDirty (b : Bool) (s : Pane) : Pane :=
  if s.dirty = b then s else if s.tracked then effect { s with dirty := b } else { s with dirty := b }

/-- The listener takes what changes the document for an edit, unless it is a file that is loaded. -/
def docChanged (content : Text) (s : Pane) : Pane :=
  let changed := { s with doc := lineFeeds content }
  if s.loading || !s.mounted then changed else (setDirty true changed).scheduleFlush

def dispatch (content : Text) (s : Pane) : Pane :=
  if s.doc.isEmpty && content.isEmpty then s else s.docChanged content

/-- A buffer takes the place of the one that is open. -/
def openBuffer (opened bufferPath : Option Path) (content : Text) (s : Pane) : Pane :=
  let s := setOpenPath opened { s with loading := true }
  let s := dispatch content { s with bufferPath }
  setDirty false { s with loading := false, editable := bufferPath.isSome }

/-- What is left of `loadPath` or of the effect behind its flush. -/
def resume (next : Then) (s : Pane) : Pane :=
  match next with
  | .nothing => s
  | .load p => if isPdf p then s.openBuffer (some p) none [] else s.readFile p
  | .clear => s.openBuffer none none []

end Pane

/-- The pane, and the files on disk. -/
structure World where
  pane : Pane
  disk : Path → Option Text

inductive Event where
  | select (p : Option Path)
  | edit (content : Text)
  | timer
  | save
  | blur
  | unmount
  | serveWrite (i : Nat) (ok : Bool)
  | answerWrite (i : Nat) (lost : Bool)
  | serveRead (i : Nat) (ok : Bool)
  | answerRead (i : Nat) (lost : Bool)
  | outside (p : Path) (content : Option Text)

def World.onPane (f : Pane → Pane) (w : World) : World := { w with pane := f w.pane }

/-- A flush comes back. -/
def Pane.flushed (c : WriteCall) (ok : Bool) (s : Pane) : Pane :=
  (if ok then s.setDirty false else s).resume c.next

/-- The file that was asked for comes, or an error that only shows. -/
def Pane.loaded (c : ReadCall) (found : Option Text) (s : Pane) : Pane :=
  match found with
  | some content => s.openBuffer (some c.path) (some c.path) content
  | none => s

/-- One step of the pane, of the server or of another program; `none` where it is not possible. -/
def World.step (w : World) : Event → Option World
  | .select p => some (w.onPane (Pane.setSelected p))
  | .edit content =>
    if w.pane.mounted && w.pane.editable then some (w.onPane (Pane.docChanged content)) else none
  | .timer => if w.pane.saveTimer then some (w.onPane fun s => Pane.flush .nothing { s with saveTimer := false }) else none
  | .save => if w.pane.mounted then some (w.onPane (Pane.flush .nothing)) else none
  | .blur => if w.pane.mounted then some (w.onPane (Pane.flush .nothing)) else none
  | .unmount =>
    if w.pane.mounted then
      some (w.onPane fun s => { Pane.flush .nothing { s with saveTimer := false } with mounted := false })
    else none
  | .serveWrite i ok =>
    match w.pane.writes[i]? with
    | some c =>
      if c.served.isNone then
        some
          { pane := { w.pane with writes := w.pane.writes.set i { c with served := some ok } }
            disk := if ok then Function.update w.disk c.path (some c.content) else w.disk }
      else none
    | none => none
  | .answerWrite i lost =>
    match w.pane.writes[i]? with
    | some c =>
      if c.waiting && (lost || c.served.isSome) then
        some (w.onPane fun s =>
          Pane.flushed c (!lost && c.served = some true) { s with writes := s.writes.set i { c with waiting := false } })
      else none
    | none => none
  | .serveRead i ok =>
    match w.pane.reads[i]? with
    | some c =>
      if c.served.isNone then
        some (w.onPane fun s => { s with reads := s.reads.set i { c with served := some (if ok then w.disk c.path else none) } })
      else none
    | none => none
  | .answerRead i lost =>
    match w.pane.reads[i]? with
    | some c =>
      if c.waiting && (lost || c.served.isSome) then
        some (w.onPane fun s =>
          Pane.loaded c (if lost then none else c.served.getD none) { s with reads := s.reads.set i { c with waiting := false } })
      else none
    | none => none
  | .outside p content => some { w with disk := Function.update w.disk p content }

end AgentGrove.Editor
