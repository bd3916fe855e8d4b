import AgentGrove.Prompts.Walk

namespace AgentGrove

open Coop

/-- A cached chat or a chat row has this session beside this model. -/
inductive Has (s : AppState) (model sid : Text) : Prop where
  | cached {c : Uuid} {chat : ChatRecord} (hc : s.chats.get c = some chat)
      (hm : chat.model = model) (hs : chat.sessionId = some sid)
  | stored {row : ChatRow} (hr : row ∈ s.store.chats) (hm : row.model = model)
      (hs : row.sessionId = some sid)

/-- No session came to stand beside a model, and no turn was started. -/
structure Mute (s s' : AppState) : Prop where
  has : ∀ model sid, Has s' model sid → Has s model sid
  calls : s'.calls = s.calls

/-- What a task has to do with sessions: the chat it works for, the model of the turn
it started last, and pairs of a model and a session that it may bring together. -/
structure Voice where
  chat : Uuid
  model : Option Text
  known : List (Text × Text)
deriving DecidableEq

/-- The `UPDATE` of a patch, and its cached half. -/
def rowPatched (c : Uuid) (patch : ChatRepo.Patch) (now : Nat) (s : AppState) : AppState :=
  { s with store := { s.store with
      chats := ChatRepo.updateRow c (ChatRepo.patchRow patch now) s.store.chats } }

def cachePatched (c : Uuid) (patch : ChatRepo.Patch) (s : AppState) : AppState :=
  { s with chats := s.chats.chatMut c (applyPatch patch) }

/-- The patch of `clear_provider_session`, and the one of a captured session. -/
def sessionPatch (session : Option Text) : ChatRepo.Patch :=
  { title := none, model := none, effort := none, sessionId := some session }

/-- What an action does to the voice of its task. -/
inductive Says : Option (Site × Choice) → Voice → AppState → Voice → AppState → Prop where
  | mute {e : Option (Site × Choice)} {r : Voice} {s s' : AppState} (h : Mute s s') :
      Says e r s r s'
  | learn {x : Site} {w : Choice} {r : Voice} {s : AppState} {pairs : List (Text × Text)}
      (h : ∀ pair ∈ pairs, Has s pair.1 pair.2) :
      Says (some (x, w)) r s { r with known := pairs ++ r.known } s
  | hear {x : Site} {w : Choice} {r : Voice} {s : AppState} {model sid : Text}
      (hx : x.call = .turn .recv) (hw : w.recv = .event (.sessionStart sid))
      (hm : r.model = some model) :
      Says (some (x, w)) r s { r with known := (model, sid) :: r.known } s
  | call {r : Voice} {s : AppState} {call : ProviderCall}
      (h : ∀ sid, call.resumeSessionId = some sid → (call.model, sid) ∈ r.known) :
      Says none r s { r with model := some call.model } { s with calls := s.calls ++ [call] }
  | captureRow {x : Site} {w : Choice} {r : Voice} {s : AppState} {model sid : Text} {now : Nat}
      (hx : x.call = .turn .session) (hf : x.fn ≠ .forkChat) (hm : r.model = some model)
      (hk : (model, sid) ∈ r.known) :
      Says (some (x, w)) r s r (rowPatched r.chat (sessionPatch (some sid)) now s)
  | captureCache {x : Site} {w : Choice} {r : Voice} {s : AppState} {model sid : Text}
      (hx : x.call = .turn .session) (hf : x.fn ≠ .forkChat) (hm : r.model = some model)
      (hk : (model, sid) ∈ r.known) :
      Says (some (x, w)) r s r (cachePatched r.chat (sessionPatch (some sid)) s)
  | update {x : Site} {w : Choice} {r : Voice} {s : AppState} {patch : ChatRepo.Patch} {now : Nat}
      (hf : x.fn = .patch) (hx : x.call = .updateChat) :
      Says (some (x, w)) r s r (rowPatched r.chat patch now s)
  | restore {x : Site} {w : Choice} {r : Voice} {s s' : AppState}
      (h : ∀ model sid, Has s' model sid → Has s model sid ∨ (model, sid) ∈ r.known)
      (hc : s'.calls = s.calls) : Says (some (x, w)) r s r s'

/-- The protocol of sessions. A task that is spawned has started no turn yet. -/
def voices : Protocol Site Tag Choice AppState Voice where
  rest _ x r := ∀ y ∈ x, y.fn = .forkChat ∨ y.chat = r.chat
  sees _ _ := True
  move := Says
  fork r _ rc r' := r' = r ∧ rc = ⟨r.chat, none, r.known⟩

section Mute

variable {s s' : AppState} {c : Uuid}

theorem Mute.refl (s : AppState) : Mute s s := ⟨fun _ _ => id, rfl⟩

/-- The cache may change as long as its sessions and models do not. -/
theorem Mute.cache (hrows : s'.store.chats = s.store.chats) (hcalls : s'.calls = s.calls)
    (h : ∀ d chat sid, s'.chats.get d = some chat → chat.sessionId = some sid →
      Has s chat.model sid) : Mute s s' := by
  refine ⟨fun model sid hhas => ?_, hcalls⟩
  cases hhas with
  | cached hc hm hs => exact hm ▸ h _ _ _ hc hs
  | stored hr hm hs => exact .stored (hrows ▸ hr) hm hs

theorem Mute.rows (hchats : s'.chats = s.chats) (hcalls : s'.calls = s.calls)
    (h : ∀ row ∈ s'.store.chats, ∀ sid, row.sessionId = some sid → Has s row.model sid) :
    Mute s s' := by
  refine ⟨fun model sid hhas => ?_, hcalls⟩
  cases hhas with
  | cached hc hm hs => exact .cached (hchats ▸ hc) hm hs
  | stored hr hm hs => exact hm ▸ h _ hr _ hs

theorem Mute.still (hchats : s'.chats = s.chats) (hrows : s'.store.chats = s.store.chats)
    (hcalls : s'.calls = s.calls) : Mute s s' :=
  .cache hrows hcalls fun _ _ _ hc hs => .cached (hchats ▸ hc) rfl hs

theorem Routes.mute (h : Routes s s') : Mute s s' := .still h.chats h.rows h.calls

theorem Mute.chatMut {f : ChatRecord → ChatRecord} (hchats : s'.chats = s.chats.chatMut c f)
    (hrows : s'.store.chats = s.store.chats) (hcalls : s'.calls = s.calls)
    (hf : ∀ chat sid, (f chat).sessionId = some sid →
      chat.sessionId = some sid ∧ (f chat).model = chat.model) : Mute s s' := by
  refine .cache hrows hcalls fun d chat sid hd hs => ?_
  rw [hchats, ChatRegistry.get_chatMut] at hd
  split at hd
  · obtain ⟨old, hold, rfl⟩ := Option.map_eq_some_iff.mp hd
    obtain ⟨hsid, hm⟩ := hf old sid hs
    exact .cached hold hm.symm hsid
  · exact .cached hd rfl hs

theorem Mute.updateRow {f : ChatRow → ChatRow} (hchats : s'.chats = s.chats)
    (hrows : s'.store.chats = ChatRepo.updateRow c f s.store.chats) (hcalls : s'.calls = s.calls)
    (hf : ∀ row sid, (f row).sessionId = some sid →
      row.sessionId = some sid ∧ (f row).model = row.model) : Mute s s' := by
  refine .rows hchats hcalls fun row hrow sid hs => ?_
  rw [hrows] at hrow
  obtain ⟨old, hold, rfl⟩ := List.mem_map.mp hrow
  split at hs
  · obtain ⟨hsid, hm⟩ := hf old sid hs
    rw [if_pos ‹_›, hm]
    exact .stored hold rfl hsid
  · rw [if_neg ‹_›]
    exact .stored hold rfl hs

/-- A cached record never keeps its session beside a new model. -/
theorem applyPatch_session {patch : ChatRepo.Patch} {chat : ChatRecord} {sid : Text}
    (hp : patch.sessionId = none ∨ patch.sessionId = some none)
    (h : (applyPatch patch chat).sessionId = some sid) :
    chat.sessionId = some sid ∧ (applyPatch patch chat).model = chat.model := by
  obtain ⟨title, model, effort, session⟩ := patch
  rcases hp with rfl | rfl
  · cases model with
    | none => cases title <;> cases effort <;> exact ⟨h, rfl⟩
    | some m =>
      by_cases hne : chat.model = m
      · cases title <;> cases effort <;> simp_all [applyPatch]
      · cases title <;> cases effort <;> simp [applyPatch, hne] at h
  · cases h

theorem Mute.cachePatched (s : AppState) {patch : ChatRepo.Patch}
    (hp : patch.sessionId = none ∨ patch.sessionId = some none) :
    Mute s (cachePatched c patch s) :=
  .chatMut rfl rfl rfl fun _ _ => applyPatch_session hp

/-- Clearing the session of a row. -/
theorem Mute.rowCleared (s : AppState) (now : Nat) :
    Mute s (rowPatched c (sessionPatch none) now s) :=
  .updateRow rfl rfl rfl fun _ _ hs => by simp [ChatRepo.patchRow, sessionPatch] at hs

end Mute

end AgentGrove
