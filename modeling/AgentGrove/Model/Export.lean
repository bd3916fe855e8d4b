import AgentGrove.Model.Attachments

namespace AgentGrove.Export

open Attachments (jsTrim)
open Web (listPrompts)

/-- The seq of the oldest prompt, where there is one. -/
def oldestSeq (prompts : List PromptRecord) : Nat := (prompts.head?.map PromptRecord.seq).getD 0

/-- A page has only prompts before the oldest one. -/
theorem page_before {c : ChatRecord} {before limit : Nat} {p : PromptRecord} (h : p ∈ (listPrompts c before limit).1) :
    p.seq < before := by
  simp only [listPrompts, List.mem_map] at h
  obtain ⟨q, hq, rfl⟩ := h
  simpa [Web.windowEvents] using (List.mem_filter.mp (List.mem_of_mem_drop hq)).2

/-- The size of a page that is asked for. -/
def pageLimit : Nat := 200

/-- The loop of `fetchAllPrompts`. The `k`-th request finds the chat as `served k`, or fails and ends the export. -/
def fetchOlder (served : Nat → Option ChatRecord) (k : Nat) : List PromptRecord → Option (List PromptRecord)
  | [] => some []
  | oldest :: newer =>
    match served k with
    | none => none
    | some c =>
      if (listPrompts c oldest.seq pageLimit).1 = [] then some (oldest :: newer)
      else if (listPrompts c oldest.seq pageLimit).2 then
        some ((listPrompts c oldest.seq pageLimit).1 ++ oldest :: newer)
      else fetchOlder served (k + 1) ((listPrompts c oldest.seq pageLimit).1 ++ oldest :: newer)
termination_by prompts => oldestSeq prompts
decreasing_by
  rename_i hpage _
  obtain ⟨p, page, hp⟩ := List.exists_cons_of_ne_nil hpage
  have hbefore : p.seq < oldest.seq := page_before (hp ▸ List.mem_cons_self)
  rw [hp]
  exact hbefore

def fetchAllPrompts (served : Nat → Option ChatRecord) : Option (List PromptRecord) :=
  match served 0 with
  | none => none
  | some c =>
    let view := windowChat c
    if view.chat.prompts.length ≥ view.promptsTotal then some view.chat.prompts
    else fetchOlder served 1 view.chat.prompts

/-- The text that is shown so far, and the tokens behind it. -/
structure Transcript where
  out : List Text
  buffer : Text

def Transcript.flush (t : Transcript) : Transcript :=
  { out := if jsTrim t.buffer = [] then t.out else t.out ++ [jsTrim t.buffer], buffer := [] }

def Transcript.push (t : Transcript) (line : Text) : Transcript := { t.flush with out := t.flush.out ++ [line] }

def Transcript.event (t : Transcript) : AgentEvent → Transcript
  | .token text => { t with buffer := t.buffer ++ text }
  | .toolCall name _ _ => t.push ("> **Tool call:** `".toList ++ name ++ ['`'])
  | .toolResult name _ _ => t.push ("> **Tool result:** `".toList ++ name ++ ['`'])
  | .error message => t.push ("> ⚠️ **Error:** ".toList ++ message)
  | .thinking _ | .sessionStart _ | .done _ _ | .truncated _ => t

def renderEvents (events : List AgentEvent) : Text :=
  ['\n', '\n'].intercalate (events.foldl Transcript.event ⟨[], []⟩).flush.out

/-- The lines of one prompt. -/
def promptLines (p : PromptRecord) : List Text :=
  let reply := renderEvents p.events
  ["## You".toList, [], jsTrim p.content, []] ++ (if reply = [] then [] else ["## Assistant".toList, [], reply, []])

def toMarkdown (title : Text) (prompts : List PromptRecord) : Text :=
  ['\n'].intercalate
    (["# ".toList ++ (if title = [] then "Chat".toList else title), []] ++ prompts.flatMap promptLines)

/-- `[a-z0-9]`. -/
def slugChar (c : Char) : Bool := c.isLower || c.isDigit

/-- Each run of other characters becomes a hyphen. -/
def hyphens : Text → Text
  | [] => []
  | c :: t => if slugChar c then c :: hyphens t else if (t.head?.any fun d => !slugChar d) then hyphens t else '-' :: hyphens t

/-- The name of the file, where `toLowerCase` gives the title in lower case. -/
def slugify (toLowerCase : Text → Text) (title : Text) : Text :=
  let trimmed := ((hyphens (toLowerCase title)).dropWhile (· = '-')).rdropWhile (· = '-')
  if trimmed.take 60 = [] then "chat".toList else trimmed.take 60

/-- The download: its name and its text. -/
def exportChat (toLowerCase : Text → Text) (served : Nat → Option ChatRecord) (title : Text) : Option (Text × Text) :=
  (fetchAllPrompts served).map fun prompts => (slugify toLowerCase title ++ ".md".toList, toMarkdown title prompts)

end AgentGrove.Export
