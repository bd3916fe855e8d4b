import AgentGrove.Model.Turn
import AgentGrove.Wire.Value

namespace AgentGrove.Agents

open Wire

/-- `v.get(key).and_then(|x| x.as_str())`. -/
def text (key : String) (v : Value) : Option Text := (v.get key.toList).bind Value.asStr

def textAt (path : List String) (v : Value) : Option Text :=
  (v.pointer (path.map String.toList)).bind Value.asStr

/-- The text under a key, if there is some. -/
def nonEmpty (t : Option Text) : Option Text := t.filter (fun t => !t.isEmpty)

/-- A value as the events carry it. -/
def clone (v : Option Value) (otherwise : Value) : Json := (v.getD otherwise).print

/-- `&text[n..]`, with the offset in bytes. Off a boundary of characters there is no slice. -/
def sliceFrom : Text → Nat → Option Text
  | t, 0 => some t
  | [], _ + 1 => none
  | c :: t, n + 1 => if c.utf8Size ≤ n + 1 then sliceFrom t (n + 1 - c.utf8Size) else none

/-- A slice after a prefix is what follows it. -/
theorem sliceFrom_append (t u : Text) : sliceFrom (t ++ u) (byteLen t) = some u := by
  induction t with
  | nil => cases u <;> rfl
  | cons c t ih =>
    have hlen : byteLen (c :: t) = c.utf8Size + byteLen t := by simp [byteLen]
    have hpos : 0 < c.utf8Size := c.utf8Size_pos
    obtain ⟨n, hn⟩ : ∃ n, byteLen (c :: t) = n + 1 := ⟨byteLen (c :: t) - 1, by omega⟩
    rw [hn, List.cons_append, sliceFrom, if_pos (by omega), show n + 1 - c.utf8Size = byteLen t by omega]
    exact ih

namespace Claude

def translateSystem (v : Value) : List AgentEvent :=
  if text "subtype" v = some "init".toList then
    match text "session_id" v with
    | some sid => [.sessionStart sid]
    | none => []
  else []

def translateStreamEvent (v : Value) : List AgentEvent :=
  match v.get "event".toList with
  | none => []
  | some inner =>
    if text "type" inner = some "content_block_delta".toList then
      match inner.get "delta".toList with
      | none => []
      | some delta =>
        let kind := (text "type" delta).getD []
        if kind = "text_delta".toList then
          match nonEmpty (text "text" delta) with
          | some t => [.token t]
          | none => []
        else if kind = "thinking_delta".toList then
          match nonEmpty (text "thinking" delta) with
          | some t => [.thinking t]
          | none => []
        else []
    else []

/-- The blocks of a message. -/
def content (v : Value) : List Value :=
  ((v.pointer ["message".toList, "content".toList]).bind Value.asArray).getD []

def translateBlock (block : Value) : List AgentEvent :=
  if text "type" block = some "tool_use".toList then
    [.toolCall ((text "name" block).getD []) (clone (block.get "input".toList) .null) (text "id" block)]
  else if text "type" block = some "thinking".toList then
    match nonEmpty (text "thinking" block) with
    | some t => [.thinking t]
    | none => []
  else []

def translateAssistant (v : Value) : List AgentEvent := (content v).flatMap translateBlock

def translateToolResult (block : Value) : List AgentEvent :=
  if text "type" block = some "tool_result".toList then
    [.toolResult [] (clone (block.get "content".toList) .null) (text "tool_use_id" block)]
  else []

def translateUser (v : Value) : List AgentEvent := (content v).flatMap translateToolResult

def isError (v : Value) : Bool := (v.get "is_error".toList).bind Value.asBool == some true

def translateResult (v : Value) : List AgentEvent :=
  if isError v then
    [.error (((text "error" v).or (text "result" v)).getD "claude reported an error".toList)]
  else [.done (text "result" v) ((v.get "total_cost_usd".toList).bind Value.asF64)]

def translate (v : Value) : List AgentEvent :=
  match text "type" v with
  | none => []
  | some kind =>
    if kind = "system".toList then translateSystem v
    else if kind = "stream_event".toList then translateStreamEvent v
    else if kind = "assistant".toList then translateAssistant v
    else if kind = "user".toList then translateUser v
    else if kind = "result".toList then translateResult v
    else []

end Claude

/-- The names of the tools that have been called, by the ids of their calls. -/
abbrev ToolNames := Text → Option Text

namespace Codex

def optionalNumber : Option Int → Value
  | some n => .number { printed := (toString n).toList, asI64 := some n, asF64 := (toString n).toList }
  | none => .null

/-- The `item` of an item's envelope. Messages and reasoning arrive whole, at the end. -/
def translateItem (envelope : Text) (item : Option Value) (names : ToolNames) :
    List AgentEvent × ToolNames :=
  match item with
  | none => ([], names)
  | some item =>
    let kind := (text "type" item).getD []
    if kind = "agent_message".toList ∧ envelope = "item.completed".toList then
      match nonEmpty (text "text" item) with
      | some t => ([.token t], names)
      | none => ([], names)
    else if kind = "reasoning".toList ∧ envelope = "item.completed".toList then
      match nonEmpty (text "text" item) with
      | some t => ([.thinking t], names)
      | none => ([], names)
    else if kind = "command_execution".toList then
      let id := text "id" item
      let command := (text "command" item).getD []
      if envelope = "item.started".toList then
        ([.toolCall "shell".toList (Value.print (.object [("command".toList, .string command)])) id],
          match id with
          | some i => Function.update names i (some "shell".toList)
          | none => names)
      else
        let output := (text "aggregated_output" item).getD []
        let exit := (item.get "exit_code".toList).bind Value.asI64
        ([.toolResult "shell".toList (Value.print (.object
            [("exit_code".toList, optionalNumber exit), ("output".toList, .string output)])) id], names)
    else if kind = "error".toList then
      match text "message" item with
      | some m => ([.error m], names)
      | none => ([], names)
    else ([], names)

def translate (v : Value) (names : ToolNames) : List AgentEvent × ToolNames :=
  match text "type" v with
  | none => ([], names)
  | some ty =>
    if ty = "thread.started".toList then
      match text "thread_id" v with
      | some id => ([.sessionStart id], names)
      | none => ([], names)
    else if ty = "item.started".toList ∨ ty = "item.completed".toList then
      translateItem ty (v.get "item".toList) names
    else if ty = "turn.completed".toList then ([.done none none], names)
    else if ty = "turn.failed".toList then
      ([.error ((textAt ["error", "message"] v).getD "codex turn failed".toList)], names)
    else if ty = "error".toList then
      ([.error ((text "message" v).getD "codex error".toList)], names)
    else ([], names)

end Codex

namespace Opencode

/-- The session that has been announced, and the last text of each part. -/
structure State where
  sessionAnnounced : Option Text
  lastTextPerPart : Text → Option Text

def State.start : State := ⟨none, fun _ => none⟩

/-- What the text `full` of a part adds to its text before. -/
def delta (prev full : Text) : Text :=
  if prev <+: full then (sliceFrom full (byteLen prev)).getD [] else full

/-- A part and its text, if the line has them. -/
def textPart (v : Value) : Option (Text × Text) := do
  let part ← v.get "part".toList
  let partId ← text "id" part
  let full ← text "text" part
  return (partId, full)

def translateText (v : Value) (s : State) : List AgentEvent × State :=
  match textPart v with
  | none => ([], s)
  | some (partId, full) =>
    let d := delta ((s.lastTextPerPart partId).getD []) full
    (if d.isEmpty then [] else [.token d],
      { s with lastTextPerPart := Function.update s.lastTextPerPart partId (some full) })

def toolId (part : Value) : Option Text := (text "callID" part).or (text "id" part)

def toolStatus (part : Value) : Text := ((part.get "state".toList).bind (text "status")).getD []

def translateTool (v : Value) : List AgentEvent :=
  match v.get "part".toList with
  | none => []
  | some part =>
    let name := (text "tool" part).getD []
    let state := part.get "state".toList
    if toolStatus part = "completed".toList ∨ toolStatus part = "error".toList then
      [.toolResult name (clone (state.bind (Value.get "output".toList)) .null) (toolId part)]
    else [.toolCall name (clone (state.bind (Value.get "input".toList)) .null) (toolId part)]

def translate (v : Value) (s : State) : List AgentEvent × State :=
  match text "type" v with
  | none => ([], s)
  | some kind =>
    if kind = "step_start".toList then
      match text "sessionID" v with
      | none => ([], s)
      | some sid =>
        if s.sessionAnnounced = some sid then ([], s)
        else ([.sessionStart sid], { s with sessionAnnounced := some sid })
    else if kind = "text".toList then translateText v s
    else if kind = "reasoning".toList then
      match nonEmpty (textAt ["part", "text"] v) with
      | some t => ([.thinking t], s)
      | none => ([], s)
    else if kind = "tool".toList ∨ kind = "tool_use".toList then (translateTool v, s)
    else if kind = "error".toList then
      ([.error ((((textAt ["error", "data", "message"] v).or (textAt ["error", "message"] v)).or
        (text "message" v)).getD "opencode reported an error".toList)], s)
    else ([], s)

end Opencode

namespace Kimi

variable (parse : Text → Option Value)

def translatePart (part : Value) : List AgentEvent :=
  if text "type" part = some "text".toList then
    match nonEmpty (text "text" part) with
    | some t => [.token t]
    | none => []
  else if text "type" part = some "think".toList then
    match nonEmpty (text "think" part) with
    | some t => [.thinking t]
    | none => []
  else []

/-- The arguments of a call come as a text, which is parsed if it can be. -/
def arguments (call : Value) : Value :=
  match call.pointer ["function".toList, "arguments".toList] with
  | some (.string s) => (parse s).getD (.string s)
  | some other => other
  | none => .null

def callName (call : Value) : Text := (textAt ["function", "name"] call).getD []

def translateCall (call : Value) : AgentEvent :=
  .toolCall (callName call) (arguments parse call).print (text "id" call)

def learn (names : ToolNames) (call : Value) : ToolNames :=
  match text "id" call with
  | some id => Function.update names id (some (callName call))
  | none => names

def items (key : String) (v : Value) : List Value := ((v.get key.toList).bind Value.asArray).getD []

def translate (v : Value) (names : ToolNames) : List AgentEvent × ToolNames :=
  match text "role" v with
  | none => ([], names)
  | some role =>
    if role = "assistant".toList then
      ((items "content" v).flatMap translatePart ++ (items "tool_calls" v).map (translateCall parse),
        (items "tool_calls" v).foldl learn names)
    else if role = "tool".toList then
      let id := text "tool_call_id" v
      let texts := (items "content" v).filterMap (text "text")
      ([.toolResult ((id.bind names).getD []) (Value.print (.string (joinLines ['\n'] texts))) id], names)
    else ([], names)

end Kimi

namespace Kiro

def translateSessionUpdate (update : Option Value) : List AgentEvent :=
  match update with
  | none => []
  | some update =>
    let kind := (text "sessionUpdate" update).getD []
    if kind = "agent_message_chunk".toList then
      match nonEmpty (textAt ["content", "text"] update) with
      | some t => [.token t]
      | none => []
    else if kind = "agent_thought_chunk".toList then
      match nonEmpty (textAt ["content", "text"] update) with
      | some t => [.thinking t]
      | none => []
    else if kind = "tool_call".toList then
      [.toolCall (((text "kind" update).or (text "title" update)).getD "tool".toList)
        (clone (update.get "rawInput".toList) (.object [])) (text "toolCallId" update)]
    else if kind = "tool_call_update".toList then
      if (text "status" update).getD [] = "completed".toList then
        [.toolResult ((text "kind" update).getD "tool".toList)
          (clone (update.get "rawOutput".toList) (.object [])) (text "toolCallId" update)]
      else []
    else []

/-- Only the first line with a session id announces the session. -/
def translate (v : Value) (announced : Bool) : List AgentEvent × Bool :=
  match text "type" v with
  | none => ([], announced)
  | some ty =>
    if ty = "metadata".toList then
      if announced then ([], announced)
      else
        match textAt ["data", "sessionId"] v with
        | some id => ([.sessionStart id], true)
        | none => ([], announced)
    else if ty = "sessionUpdate".toList then
      (translateSessionUpdate (v.pointer ["data".toList, "update".toList]), announced)
    else if ty = "runFinished".toList then
      ([.done (nonEmpty (textAt ["data", "finalText"] v)) none], announced)
    else if ty = "runError".toList then
      ([.error ((textAt ["data", "message"] v).getD "kiro-cli run error".toList)], announced)
    else ([], announced)

end Kiro

end AgentGrove.Agents
