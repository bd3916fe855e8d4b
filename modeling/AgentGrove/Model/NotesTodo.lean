import AgentGrove.Model.Records

namespace AgentGrove.NotesTodo

abbrev Attrs := List (Text × Text)

/-- A node with those that follow it among its siblings. An element may have an identity. -/
inductive Dom (ρ : Type) where
  | nil
  | text (content : Text) (next : Dom ρ)
  | element (ref : ρ) (tag : Text) (attrs : Attrs) (children next : Dom ρ)
deriving DecidableEq

/-- What markup says of a tree. The markup of parsed nodes parses back to them. -/
abbrev Html := Dom Unit

/-- Elements that a loop holds on to have numbers. -/
abbrev Live := Dom (Option Nat)

namespace Dom

variable {ρ : Type}

/-- `innerHTML`, as it is read. -/
def markup : Dom ρ → Html
  | nil => nil
  | text content next => text content next.markup
  | element _ tag attrs children next => element () tag attrs children.markup next.markup

/-- `innerHTML`, as it is assigned: elements that nothing holds on to yet. -/
def parse : Html → Live
  | nil => nil
  | text content next => text content (parse next)
  | element _ tag attrs children next => element none tag attrs (parse children) (parse next)

/-- A parsed tree whose elements are told apart, numbered in document order. -/
def number : Nat → Html → Live × Nat
  | n, nil => (nil, n)
  | n, text content next =>
    let (next, n) := number n next
    (text content next, n)
  | n, element _ tag attrs children next =>
    let (children, m) := number (n + 1) children
    let (next, m) := number m next
    (element (some n) tag attrs children next, m)

end Dom

open Dom

def isListTag (tag : Text) : Bool := tag == "ul".toList || tag == "ol".toList

def getAttribute (attrs : Attrs) (name : Text) : Option Text := attrs.lookup name

def isTaskList (attrs : Attrs) : Bool := getAttribute attrs "data-type".toList == some "taskList".toList

def taskListAttrs : Attrs := [("data-type".toList, "taskList".toList)]

def taskItemAttrs : Attrs := [("data-type".toList, "taskItem".toList), ("data-checked".toList, "false".toList)]

/-- `querySelectorAll("ul, ol")`. -/
def queryLists : Live → List Nat
  | nil => []
  | text _ next => queryLists next
  | element ref tag _ children next =>
    (if isListTag tag then ref.toList else []) ++ (queryLists children ++ queryLists next)

/-- The items that are made of a list's children. -/
def makeItems : Live → Live
  | nil => nil
  | text _ next => makeItems next
  | element _ tag _ children next =>
    if tag = "li".toList then element none "li".toList taskItemAttrs (parse children.markup) (makeItems next)
    else makeItems next

/-- One turn of the loop: the list is replaced where it stands, unless it is a task list. One that is no longer in the tree
changes nothing there. -/
def convertListElement (ref : Nat) : Live → Live
  | nil => nil
  | text content next => text content (convertListElement ref next)
  | element r tag attrs children next =>
    if r = some ref then
      if isTaskList attrs then element r tag attrs children next
      else element none "ul".toList taskListAttrs (makeItems children) next
    else element r tag attrs (convertListElement ref children) (convertListElement ref next)

def listsToTaskLists (html : Html) : Html :=
  let root := (number 0 html).1
  ((queryLists root).foldl (fun root list => convertListElement list root) root).markup

end AgentGrove.NotesTodo
