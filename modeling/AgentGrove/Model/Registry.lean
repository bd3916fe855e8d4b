import AgentGrove.Model.Records
import Mathlib.Data.List.AList
import Mathlib.Data.List.Rotate

namespace AgentGrove

/-- The in-memory cache of live chats. -/
structure ChatRegistry where
  byId : AList (fun _ : Uuid => ChatRecord)
  byProject : AList (fun _ : Uuid => List Uuid)

namespace ChatRegistry

def empty : ChatRegistry := ⟨∅, ∅⟩

def get (reg : ChatRegistry) (id : Uuid) : Option ChatRecord := reg.byId.lookup id

/-- Change the cached record under an id, if there is one (`by_id.get_mut`). -/
def chatMut (reg : ChatRegistry) (chatId : Uuid) (f : ChatRecord → ChatRecord) : ChatRegistry :=
  match reg.get chatId with
  | none => reg
  | some chat => { reg with byId := reg.byId.insert chatId (f chat) }

def projectIds (reg : ChatRegistry) (projectId : Uuid) : List Uuid :=
  (reg.byProject.lookup projectId).getD []

/-- `by_project.entry(project_id).or_default().push(id)`. -/
def pushProject (reg : ChatRegistry) (projectId id : Uuid) : ChatRegistry :=
  { reg with byProject := reg.byProject.insert projectId (reg.projectIds projectId ++ [id]) }

def listForProject (reg : ChatRegistry) (projectId : Uuid) (worktreeId : Option Uuid) :
    List ChatRecord :=
  ((reg.projectIds projectId).filterMap reg.get).filter (fun c =>
    match worktreeId with
    | some w => c.worktreeId == some w
    | none => true)

def addPrompt (reg : ChatRegistry) (id : Uuid) (now : Nat) (chatId : Uuid) (content : Text) :
    Option (PromptRecord × ChatRegistry) :=
  match reg.get chatId with
  | none => none
  | some chat =>
    let record : PromptRecord :=
      { id := id, seq := chat.prompts.length + 1, content := content, events := [],
        touchedPaths := [], createdAt := now }
    some (record, reg.chatMut chatId (fun c => { c with prompts := c.prompts ++ [record] }))

def maxEventsPerPrompt : Nat := 4096

def slotsWithSentinel : Nat := maxEventsPerPrompt + 1

/-- Push one event onto a prompt's bounded log: past the cap the oldest real
event gives way and a leading `truncated` sentinel counts what was dropped. -/
def pushEvent (events : List AgentEvent) (ev : AgentEvent) : List AgentEvent :=
  match events with
  | .truncated dropped :: rest =>
    if slotsWithSentinel ≤ events.length then
      .truncated (dropped + 1) :: rest.tail ++ [ev]
    else events ++ [ev]
  | _ :: rest =>
    if maxEventsPerPrompt ≤ events.length then .truncated 1 :: rest ++ [ev] else events ++ [ev]
  | [] => [ev]

/-- Change the first prompt with this id. -/
def updatePrompt (prompts : List PromptRecord) (promptId : Uuid)
    (f : PromptRecord → PromptRecord) : List PromptRecord :=
  match prompts with
  | [] => []
  | p :: ps => if p.id = promptId then f p :: ps else p :: updatePrompt ps promptId f

def appendEvent (reg : ChatRegistry) (chatId promptId : Uuid) (ev : AgentEvent) : ChatRegistry :=
  reg.chatMut chatId (fun c =>
    { c with prompts := updatePrompt c.prompts promptId (fun p =>
        { p with events := pushEvent p.events ev }) })

def resetPrompt (p : PromptRecord) : PromptRecord := { p with events := [], touchedPaths := [] }

def retryPrompt (reg : ChatRegistry) (chatId : Uuid) : Option (PromptRecord × ChatRegistry) :=
  match reg.get chatId with
  | none => none
  | some chat =>
    match chat.prompts.getLast? with
    | none => none
    | some p =>
      some (resetPrompt p, reg.chatMut chatId (fun c =>
        { c with prompts := c.prompts.dropLast ++ [resetPrompt p] }))

def ingestChat (reg : ChatRegistry) (record : ChatRecord) : ChatRegistry :=
  let reg' := reg.pushProject record.projectId record.id
  { reg' with byId := reg'.byId.insert record.id record }

/-- `fork`'s copy, before the store issues the id the chat will keep. -/
def fork (reg : ChatRegistry) (newId : Uuid) (now : Nat) (sourceId : Uuid) (upToSeq : Nat) :
    Option (ChatRecord × ChatRegistry) :=
  match reg.get sourceId with
  | none => none
  | some source =>
    let forked := source.prompts.filter (fun p => p.seq ≤ upToSeq)
    if forked.isEmpty then none
    else
      let record : ChatRecord :=
        { id := newId, projectId := source.projectId, worktreeId := source.worktreeId
          title := "Fork of ".toList ++ source.title ++ " (from #".toList ++ showNat upToSeq ++
            ")".toList
          provider := source.provider, model := source.model, createdAt := now
          prompts := forked, sessionId := none, effort := source.effort }
      some (record, reg.ingestChat record)

def truncateFromSeq (reg : ChatRegistry) (chatId : Uuid) (fromSeq : Nat) :
    Option (List Uuid × ChatRegistry) :=
  match reg.get chatId with
  | none => none
  | some chat =>
    some ((chat.prompts.filter (fun p => fromSeq ≤ p.seq)).map PromptRecord.id,
      reg.chatMut chatId (fun c => { c with prompts := c.prompts.filter (fun p => p.seq < fromSeq) }))

/-- Append a prompt that the store has issued; says whether the chat is cached. -/
def ingestPrompt (reg : ChatRegistry) (chatId : Uuid) (prompt : PromptRecord) :
    Bool × ChatRegistry :=
  ((reg.get chatId).isSome,
    reg.chatMut chatId (fun c => { c with prompts := c.prompts ++ [prompt] }))

def evict (reg : ChatRegistry) (chatId : Uuid) : ChatRegistry :=
  match reg.get chatId with
  | none => reg
  | some record =>
    let byProject :=
      match reg.byProject.lookup record.projectId with
      | none => reg.byProject
      | some ids => reg.byProject.insert record.projectId (ids.filter (fun i => i != chatId))
    { byId := reg.byId.erase chatId, byProject := byProject }

/-- The chat in which a prompt is looked up when only its id is known. The
source walks a `HashMap`, so any entry may come first: `start` picks it. -/
def findPrompt (reg : ChatRegistry) (start : Nat) (promptId : Uuid) : Option PromptRecord :=
  (reg.byId.entries.rotate start).findSome? (fun e => e.2.prompts.find? (fun p => p.id == promptId))

@[simp] theorem get_empty (id : Uuid) : empty.get id = none := rfl

theorem lookup_insert {β : Type} (m : AList (fun _ : Uuid => β)) (c d : Uuid) (b : β) :
    (m.insert c b).lookup d = if d = c then some b else m.lookup d := by
  by_cases h : d = c
  · subst h
    simp
  · simp [h]

@[simp] theorem get_chatMut (reg : ChatRegistry) (c d : Uuid) (f : ChatRecord → ChatRecord) :
    (reg.chatMut c f).get d = if d = c then (reg.get c).map f else reg.get d := by
  unfold chatMut
  cases h : reg.get c with
  | none =>
    by_cases hd : d = c
    · simp [hd, h]
    · simp [hd]
  | some chat => simp only [get, lookup_insert, Option.map_some]

@[simp] theorem byProject_chatMut (reg : ChatRegistry) (c : Uuid) (f : ChatRecord → ChatRecord) :
    (reg.chatMut c f).byProject = reg.byProject := by
  unfold chatMut
  split <;> rfl

@[simp] theorem get_ingestChat (reg : ChatRegistry) (record : ChatRecord) (d : Uuid) :
    (reg.ingestChat record).get d = if d = record.id then some record else reg.get d := by
  simp only [ingestChat, pushProject, get, lookup_insert]

@[simp] theorem get_evict (reg : ChatRegistry) (c d : Uuid) :
    (reg.evict c).get d = if d = c then none else reg.get d := by
  unfold evict
  cases h : reg.get c with
  | none =>
    by_cases hd : d = c
    · simp [hd, h]
    · simp [hd]
  | some chat =>
    by_cases hd : d = c
    · subst hd
      simp [get]
    · simp [hd, get]

theorem mem_entries (reg : ChatRegistry) (e : Sigma (fun _ : Uuid => ChatRecord)) :
    e ∈ reg.byId.entries ↔ reg.get e.1 = some e.2 :=
  AList.mem_lookup_iff.symm

/-- A prompt found by its id alone is one of some cached chat. -/
theorem findPrompt_some {reg : ChatRegistry} {start : Nat} {id : Uuid} {p : PromptRecord}
    (h : reg.findPrompt start id = some p) :
    ∃ d chat, reg.get d = some chat ∧ chat.prompts.find? (fun q => q.id = id) = some p := by
  obtain ⟨e, he, hp⟩ := List.exists_of_findSome?_eq_some h
  exact ⟨e.1, e.2, (mem_entries reg e).mp (List.mem_rotate.mp he), hp⟩

theorem findPrompt_isSome {reg : ChatRegistry} {id d : Uuid} {chat : ChatRecord}
    {p : PromptRecord} (hd : reg.get d = some chat)
    (hp : chat.prompts.find? (fun q => q.id = id) = some p) (start : Nat) :
    (reg.findPrompt start id).isSome := by
  rw [findPrompt, List.findSome?_isSome_iff]
  refine ⟨⟨d, chat⟩, List.mem_rotate.mpr ((mem_entries reg ⟨d, chat⟩).mpr hd), ?_⟩
  rw [Option.isSome_iff_exists]
  exact ⟨p, hp⟩

end ChatRegistry

end AgentGrove
