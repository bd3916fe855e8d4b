import AgentGrove.Model.Turn
import AgentGrove.Proofs.Steps

namespace AgentGrove

/-- What an update may change of a chat. -/
structure Fields where
  title : Text
  model : Text
  effort : Option Text
  sessionId : Option Text
deriving DecidableEq

def ChatRecord.fields (c : ChatRecord) : Fields := ⟨c.title, c.model, c.effort, c.sessionId⟩

def ChatRow.fields (r : ChatRow) : Fields := ⟨r.title, r.model, r.effort, r.sessionId⟩

namespace ChatRepo.Patch

/-- Whether a patch gives the chat another model. -/
def changes (p : Patch) (f : Fields) : Bool := p.model.any (fun m => f.model != m)

/-- What one update on its own is meant to do: a new model drops the session. -/
def apply (p : Patch) (f : Fields) : Fields where
  title := p.title.getD f.title
  model := p.model.getD f.model
  effort := p.effort.getD f.effort
  sessionId := p.sessionId.getD (if p.changes f then none else f.sessionId)

/-- What the `UPDATE` does. -/
def put (p : Patch) (f : Fields) : Fields where
  title := p.title.getD f.title
  model := p.model.getD f.model
  effort := p.effort.getD f.effort
  sessionId := p.sessionId.getD f.sessionId

/-- The patch that is written once it is decided whether the model changes. -/
def decided (p : Patch) (modelChanges : Bool) : Patch :=
  if modelChanges && p.sessionId.isNone then { p with sessionId := some none } else p

end ChatRepo.Patch

/-- What updates may write independently of each other. -/
inductive Part where
  | title
  | effort
  | agent
deriving DecidableEq

def Part.Agrees : Part → Fields → Fields → Prop
  | .title, f, g => f.title = g.title
  | .effort, f, g => f.effort = g.effort
  | .agent, f, g => f.model = g.model ∧ f.sessionId = g.sessionId

def ChatRepo.Patch.touches (p : ChatRepo.Patch) : Part → Bool
  | .title => p.title.isSome
  | .effort => p.effort.isSome
  | .agent => p.model.isSome || p.sessionId.isSome

section

variable {k : Part} {f g h : Fields} {p : ChatRepo.Patch} {b : Bool}

theorem Part.Agrees.refl (k : Part) (f : Fields) : k.Agrees f f := by
  cases k with
  | agent => exact ⟨rfl, rfl⟩
  | _ => rfl

theorem Part.Agrees.symm (hfg : k.Agrees f g) : k.Agrees g f := by
  cases k with
  | agent => exact ⟨hfg.1.symm, hfg.2.symm⟩
  | _ => exact Eq.symm hfg

theorem Part.Agrees.trans (hfg : k.Agrees f g) (hgh : k.Agrees g h) : k.Agrees f h := by
  cases k with
  | agent => exact ⟨hfg.1.trans hgh.1, hfg.2.trans hgh.2⟩
  | _ => exact Eq.trans hfg hgh

theorem Fields.ext_parts (hall : ∀ k : Part, k.Agrees f g) : f = g := by
  obtain ⟨title, model, effort, sessionId⟩ := f
  obtain ⟨hm, hs⟩ := hall .agent
  have ht : title = g.title := hall .title
  have he : effort = g.effort := hall .effort
  simp_all

theorem ChatRepo.Patch.changes_congr (hm : f.model = g.model) : p.changes f = p.changes g := by
  unfold changes
  rw [hm]

/-- An update acts on each part by itself. -/
theorem Part.Agrees.apply (p : ChatRepo.Patch) (hfg : k.Agrees f g) :
    k.Agrees (p.apply f) (p.apply g) := by
  cases k with
  | title => exact congrArg p.title.getD hfg
  | effort => exact congrArg p.effort.getD hfg
  | agent =>
    refine ⟨congrArg p.model.getD hfg.1, ?_⟩
    have hc : p.changes f = p.changes g := ChatRepo.Patch.changes_congr hfg.1
    simp only [ChatRepo.Patch.apply, hc, hfg.2]

theorem apply_untouched (ht : p.touches k = false) (f : Fields) : k.Agrees (p.apply f) f := by
  cases k with
  | title =>
    have hn : p.title = none := by simpa [ChatRepo.Patch.touches] using ht
    simp [Part.Agrees, ChatRepo.Patch.apply, hn]
  | effort =>
    have hn : p.effort = none := by simpa [ChatRepo.Patch.touches] using ht
    simp [Part.Agrees, ChatRepo.Patch.apply, hn]
  | agent =>
    have hn : p.model = none ∧ p.sessionId = none := by simpa [ChatRepo.Patch.touches] using ht
    simp [Part.Agrees, ChatRepo.Patch.apply, ChatRepo.Patch.changes, hn]

/-- With the right decision the `UPDATE` does what the update means. -/
theorem put_decided (hb : b = p.changes f) : (p.decided b).put f = p.apply f := by
  subst hb
  unfold ChatRepo.Patch.decided ChatRepo.Patch.put ChatRepo.Patch.apply
  cases hs : p.sessionId with
  | some sid => simp [hs]
  | none => cases p.changes f <;> simp [hs]

/-- And so does the write to the cache. -/
theorem applyPatch_decided {chat : ChatRecord} (hb : b = p.changes chat.fields) :
    (applyPatch (p.decided b) chat).fields = p.apply chat.fields := by
  subst hb
  obtain ⟨title, model, effort, sessionId⟩ := p
  have hm : chat.fields.model = chat.model := rfl
  cases model with
  | none =>
    cases title <;> cases effort <;> cases sessionId <;>
      simp [applyPatch, ChatRepo.Patch.decided, ChatRepo.Patch.apply, ChatRepo.Patch.changes,
        ChatRecord.fields]
  | some m =>
    by_cases hc : chat.model = m
    · cases title <;> cases effort <;> cases sessionId <;>
        simp [applyPatch, ChatRepo.Patch.decided, ChatRepo.Patch.apply, ChatRepo.Patch.changes,
          ChatRecord.fields, hc]
    · cases title <;> cases effort <;> cases sessionId <;>
        simp [applyPatch, ChatRepo.Patch.decided, ChatRepo.Patch.apply, ChatRepo.Patch.changes,
          ChatRecord.fields, hc]

theorem patchRow_fields (p : ChatRepo.Patch) (now : Nat) (row : ChatRow) :
    (ChatRepo.patchRow p now row).fields = p.put row.fields := rfl

theorem none_of_empty (hp : p.isEmpty = true) :
    ((p.title = none ∧ p.model = none) ∧ p.effort = none) ∧ p.sessionId = none := by
  simpa [ChatRepo.Patch.isEmpty] using hp

/-- An update that names no field does nothing. -/
theorem apply_empty (hp : p.isEmpty = true) (f : Fields) : p.apply f = f := by
  simp [ChatRepo.Patch.apply, ChatRepo.Patch.changes, none_of_empty hp]

theorem touches_of_empty (hp : p.isEmpty = true) (k : Part) : p.touches k = false := by
  cases k <;> simp [ChatRepo.Patch.touches, none_of_empty hp]

theorem touches_of_model (h : p.model.isSome = true) : p.touches .agent = true := by
  simp [ChatRepo.Patch.touches, h]

theorem changes_of_no_model (h : p.model.isSome = false) (f : Fields) : p.changes f = false := by
  have hn : p.model = none := by simpa using h
  simp [ChatRepo.Patch.changes, hn]

end

open Coop

/-- A call of `persist_chat_update` and how far it has come. -/
inductive UpdateStage where
  /-- About to compare its model with the cached one. -/
  | comparing
  | decided (modelChanges : Bool)
  /-- The row is written, or there was nothing to write. -/
  | written (modelChanges : Bool)
  | reloaded (modelChanges : Bool)
  | over
  /-- Ended with an error. -/
  | broken
deriving DecidableEq

structure Updater where
  patch : ChatRepo.Patch
  stage : UpdateStage

def UpdateStage.call : UpdateStage → Option Call
  | .comparing => some .modelChanges
  | .decided _ => some .updateChat
  | .written _ => some .reloadRow
  | .reloaded _ => some .cacheChat
  | .over | .broken => none

/-- Between a call's write to the store and its write to the cache. -/
def UpdateStage.midway : UpdateStage → Option Bool
  | .written b | .reloaded b => some b
  | _ => none

/-- The row has what the call writes to it. -/
def UpdateStage.past : UpdateStage → Bool
  | .written _ | .reloaded _ | .over => true
  | _ => false

/-- Where a call stands once it has decided. -/
def afterDecision (p : ChatRepo.Patch) (b : Bool) : UpdateStage :=
  if (p.decided b).isEmpty then .written b else .decided b

def firstStage (p : ChatRepo.Patch) : UpdateStage :=
  if p.model.isSome then .comparing else afterDecision p false

def updateSite (c : Uuid) (call : Call) : Site := ⟨.patch, c, call⟩

/-- The steps of one call on a chat. -/
inductive Updates (c : Uuid) : Option (Site × Choice) → Updater → AppState → Updater → AppState →
    Prop where
  | compare {w : Choice} {p : ChatRepo.Patch} {s : AppState} {b : Bool}
      (hb : ∀ chat, s.chats.get c = some chat → b = p.changes chat.fields)
      (hm : p.model.isSome = true) :
      Updates c (some (updateSite c .modelChanges, w)) ⟨p, .comparing⟩ s ⟨p, .decided b⟩ s
  | write {w : Choice} {p : ChatRepo.Patch} {s : AppState} {b : Bool} (hw : w.fail = false) :
      Updates c (some (updateSite c .updateChat, w)) ⟨p, .decided b⟩ s ⟨p, .written b⟩
        { s with store := { s.store with
          chats := ChatRepo.updateRow c (ChatRepo.patchRow (p.decided b) w.now) s.store.chats } }
  | reload {w : Choice} {p : ChatRepo.Patch} {s : AppState} {b : Bool} :
      Updates c (some (updateSite c .reloadRow, w)) ⟨p, .written b⟩ s ⟨p, .reloaded b⟩ s
  | cache {w : Choice} {p : ChatRepo.Patch} {s : AppState} {b : Bool} :
      Updates c (some (updateSite c .cacheChat, w)) ⟨p, .reloaded b⟩ s ⟨p, .over⟩
        { s with chats := s.chats.chatMut c (applyPatch (p.decided b)) }
  | fail {x : Site} {w : Choice} {p : ChatRepo.Patch} {st : UpdateStage} {s : AppState}
      (hw : w.fail = true) : Updates c (some (x, w)) ⟨p, st⟩ s ⟨p, .broken⟩ s
  | missing {x : Site} {w : Choice} {p : ChatRepo.Patch} {st : UpdateStage} {s s' : AppState}
      (hn : ¬ Stored s c) : Updates c (some (x, w)) ⟨p, st⟩ s ⟨p, .broken⟩ s'

/-- Concurrent updates of one chat. -/
def updating (c : Uuid) : Protocol Site Tag Choice AppState Updater where
  rest _ x r := x = r.stage.call.map (updateSite c)
  sees _ _ := True
  move := Updates c
  fork _ _ _ _ := False

section

variable {c : Uuid} {p : ChatRepo.Patch} {b : Bool}

theorem decided_of_model (h : p.model.isSome = true) (b : Bool) :
    afterDecision p b = .decided b := by
  obtain ⟨m, hm⟩ := Option.isSome_iff_exists.mp h
  unfold afterDecision
  rw [if_neg]
  unfold ChatRepo.Patch.decided
  split <;> simp [ChatRepo.Patch.isEmpty, hm]

theorem changesModel_updates :
    (updating c).Follows (.handler c) (changesModel .patch c (fun call => call) p)
      ⟨p, firstStage p⟩ (fun b r => r = ⟨p, afterDecision p b⟩) := by
  unfold changesModel firstStage
  cases hm : p.model with
  | none => rfl
  | some m =>
    dsimp only [Option.isSome_some]
    apply access_follows rfl
    intro w s _
    have hsome : p.model.isSome = true := by rw [hm]; rfl
    refine ⟨_, .compare (fun chat hc => ?_) hsome, (by rw [decided_of_model hsome])⟩
    simp only [hc, ChatRepo.Patch.changes, hm, Option.any_some]
    rfl

theorem updateChatRow_updates :
    (updating c).Follows (.handler c) (updateChatRow .patch c (fun call => call) (p.decided b))
      ⟨p, afterDecision p b⟩ (fun a r =>
        a = .ok () ∧ r = ⟨p, .written b⟩ ∨ (∃ e, a = .error e) ∧ r = ⟨p, .broken⟩) := by
  unfold updateChatRow afterDecision
  split
  · exact .inl ⟨rfl, rfl⟩
  · apply storeCall_follows rfl
    · intro w s _ hw
      exact ⟨_, .fail hw, .inr ⟨⟨_, rfl⟩, rfl⟩⟩
    · intro w s _ hw
      by_cases hs : Stored s c
      · exact ⟨_, .write hw, .inl ⟨if_pos hs, rfl⟩⟩
      · exact ⟨_, .missing hs, .inr ⟨⟨_, if_neg hs⟩, rfl⟩⟩

theorem persistChatUpdate_updates :
    (updating c).Follows (.handler c) (persistChatUpdate .patch c (fun call => call) p)
      ⟨p, firstStage p⟩ (fun _ r => r.stage.call = none) := by
  apply Protocol.follows_then changesModel_updates
  rintro b _ rfl
  apply Protocol.follows_split (A := fun a => a = .ok ()) (B := fun a => ∃ e, a = .error e)
    updateChatRow_updates
  swap
  · rintro _ ⟨e, rfl⟩
    rfl
  rintro _ rfl
  apply Protocol.follows_split (A := fun a => ∃ row, a = .ok row) (B := fun a => ∃ e, a = .error e)
    (m := ⟨p, .reloaded b⟩) (n := ⟨p, .broken⟩)
  · apply storeCall_follows rfl
    · intro w s _ hw
      exact ⟨_, .fail hw, .inr ⟨⟨_, rfl⟩, rfl⟩⟩
    · intro w s _ _
      dsimp only
      cases hget : ChatRepo.get s.store.chats c with
      | some row => exact ⟨_, .reload, .inl ⟨⟨_, rfl⟩, rfl⟩⟩
      | none => exact ⟨_, .missing (by simp [Stored, hget]), .inr ⟨⟨_, rfl⟩, rfl⟩⟩
  swap
  · rintro _ ⟨e, rfl⟩
    rfl
  rintro _ ⟨row, rfl⟩
  apply access_follows rfl
  intro w s _
  exact ⟨_, .cache, rfl⟩

/-- A call on its own, as a task. -/
def updateEntry (c : Uuid) (p : ChatRepo.Patch) : Task :=
  ⟨.handler c, do
    let _ ← persistChatUpdate .patch c (fun call => call) p⟩

theorem updateEntry_follows : (updating c).Follows (updateEntry c p).tag (updateEntry c p).prog
    ⟨p, firstStage p⟩ (fun _ r => (updating c).rest (updateEntry c p).tag none r) := by
  apply Protocol.follows_then persistChatUpdate_updates
  intro _ r hr
  show none = r.stage.call.map (updateSite c)
  rw [hr]
  rfl

end

end AgentGrove
