import AgentGrove.Sessions.Voices

namespace AgentGrove

open Coop

/-- Where a task for a chat rests. -/
def HeardAt (c : Uuid) (x : Site) : Prop := x.fn = .forkChat ∨ x.chat = c

/-- Code that brings no session beside a model. -/
abbrev Hums {α : Type} (c : Uuid) (p : Async α) : Prop := p.Within (HeardAt c) (fun _ => Mute)

section Humming

variable {α β ε : Type} {t : Tag} {r : Voice} {fn : Fn} {c : Uuid} {call : Call} {p : Async α}

theorem hums_follows (hp : Hums c p) (hr : r.chat = c) : voices.Follows t p r (fun _ x => x = r) := by
  apply Protocol.follows_within hp
  · intro x hx y hy
    cases hy
    exact hr ▸ hx
  · exact fun x w s s' _ _ h => .mute h
  · exact fun s s' _ h => .mute h
  · exact fun _ => rfl

theorem hums_then (hp : Hums c p) (hr : r.chat = c) {f : α → Async β} {Q : β → Voice → Prop}
    (hf : ∀ a, voices.Follows t (f a) r Q) : voices.Follows t (p.bind f) r Q :=
  Protocol.follows_to (hums_follows hp hr) hf

theorem rests (hr : r.chat = c) : voices.rest t (some ⟨fn, c, call⟩) r := by
  intro y hy
  cases hy
  exact .inr hr.symm

theorem humAccess {act : Choice → AppState → AppState × β} (ha : ∀ w s, Mute s (act w s).1) :
    Hums c (access fn c call act) :=
  access_within (.inr rfl) ha

theorem humStore {err : ε} {act : Choice → AppState → AppState × Except ε β}
    (ha : ∀ w s, Mute s (act w s).1) : Hums c (storeCall fn c call err act) :=
  storeCall_within (.inr rfl) (fun _ s => .refl s) ha

theorem humNow {act : AppState → AppState × β} (ha : ∀ s, Mute s (act s).1) : Hums c (atOnce act) :=
  atOnce_within ha

theorem publishOn_hums (topic : Topic) (frame : Frame) : Hums c (publishOn topic frame) :=
  humNow fun _ => .still rfl rfl rfl

theorem Mute.appendEvent (s : AppState) (promptId : Uuid) (ev : AgentEvent) :
    Mute s { s with chats := s.chats.appendEvent c promptId ev } := by
  unfold ChatRegistry.appendEvent
  exact .chatMut rfl rfl rfl fun _ _ hs => ⟨hs, rfl⟩

theorem streamHums (fn : Fn) (c : Uuid) :
    StreamFrame (HeardAt c) (fun _ => Mute) (fun _ => True) (fun _ => True) fn c where
  sites _ _ := .inr rfl
  same _ s := .refl s
  publish _ _ := .still rfl rfl rfl
  tokens _ _ _ _ _ := .still rfl rfl rfl
  append _ _ s promptId ev _ := .appendEvent s promptId ev
  events _ _ _ _ _ _ := .still rfl rfl rfl

theorem retryPrompt_hums : Hums c (access fn c .retryPrompt (fun _ s =>
    match s.chats.retryPrompt c with
    | some (p, reg) => ({ s with chats := reg }, some p)
    | none => (s, none))) := by
  apply humAccess
  intro w s
  unfold ChatRegistry.retryPrompt
  cases s.chats.get c with
  | none => exact .refl s
  | some chat =>
    dsimp only
    cases chat.prompts.getLast? with
    | none => exact .refl s
    | some last => exact .chatMut rfl rfl rfl fun _ _ hs => ⟨hs, rfl⟩

theorem storeAddPrompt_hums {d : Uuid} {S : Site → Prop} (hs : ∀ call, S ⟨fn, d, call⟩) (content : Text) :
    (storeAddPrompt fn d content).Within S (fun _ => Mute) := by
  apply Prog.Within.bind (storeCall_within (hs _) (fun _ s => .refl s) fun _ s => .refl s)
  intro row
  cases row with
  | error e => trivial
  | ok row =>
  apply Prog.Within.bind (storeCall_within (hs _) (fun _ s => .refl s) fun _ s => .refl s)
  intro seq
  cases seq with
  | error e => trivial
  | ok seq =>
  apply Prog.Within.bind
  · apply storeCall_within (hs _) (fun _ s => .refl s)
    intro w s
    dsimp only
    split
    · exact .still rfl rfl rfl
    · exact .refl s
  intro stored
  cases stored with
  | error e => trivial
  | ok stored =>
  apply Prog.Within.bind
  · apply storeCall_within (hs _) (fun _ s => .refl s)
    exact fun w s => .updateRow rfl rfl rfl fun _ _ hs => ⟨hs, rfl⟩
  intro touched
  cases touched <;> trivial

theorem persistAddPrompt_hums (content : Text) : Hums c (persistAddPrompt fn c content) := by
  apply (storeAddPrompt_hums (fun _ => .inr rfl) content).bind
  intro stored
  cases stored with
  | error e => trivial
  | ok row =>
    apply Prog.Within.bind
    · exact humAccess fun _ _ => .chatMut rfl rfl rfl fun _ _ hs => ⟨hs, rfl⟩
    · exact fun _ => trivial

end Humming

section Speaking

variable {t : Tag} {r : Voice} {fn : Fn} {c : Uuid}

/-- The two patches that `persist_chat_update` may make of one change. -/
def FormOf (change patch : ChatRepo.Patch) : Prop :=
  patch = change ∨ change.sessionId = none ∧ patch = { change with sessionId := some none }

/-- A change of a chat keeps the role if both its halves are moves of the protocol. -/
theorem persistChatUpdate_voiced (hr : r.chat = c) (label : Call → Call) (change : ChatRepo.Patch)
    (hrow : ∀ patch w s, FormOf change patch →
      Says (some (⟨fn, c, label .updateChat⟩, w)) r s r (rowPatched c patch w.now s))
    (hcache : ∀ patch w s, FormOf change patch →
      Says (some (⟨fn, c, label .cacheChat⟩, w)) r s r (cachePatched c patch s)) :
    voices.Follows t (persistChatUpdate fn c label change) r (fun _ x => x = r) := by
  have hchanges : Hums c (changesModel fn c label change) := by
    unfold changesModel
    split
    · trivial
    · exact humAccess fun _ s => .refl s
  apply hums_then hchanges hr
  intro changes
  obtain ⟨patch, he, hform⟩ : ∃ patch, (if changes && change.sessionId.isNone then
      { change with sessionId := some none } else change) = patch ∧ FormOf change patch := by
    refine ⟨_, rfl, ?_⟩
    split
    · rename_i h
      simp only [Bool.and_eq_true, Option.isNone_iff_eq_none] at h
      exact .inr ⟨h.2, rfl⟩
    · exact .inl rfl
  dsimp only
  rw [he]
  apply Protocol.follows_to (m := r)
  · unfold updateChatRow
    split
    · rfl
    · apply storeCall_follows (rests hr)
      · exact fun w s _ _ => ⟨r, .mute (.refl s), rfl⟩
      · exact fun w s _ _ => ⟨r, hrow patch w s hform, rfl⟩
  intro updated
  cases updated with
  | error e => rfl
  | ok _ =>
  apply hums_then (humStore fun _ s => .refl s) hr
  intro row
  cases row with
  | error e => rfl
  | ok _ =>
    apply access_follows (rests hr)
    exact fun w s _ => ⟨r, hcache patch w s hform, rfl⟩

theorem clearProviderSession_voiced (hr : r.chat = c) :
    voices.Follows t (clearProviderSession fn c) r (fun _ x => x = r) := by
  have hform : ∀ patch, FormOf (sessionPatch none) patch → patch = sessionPatch none := by
    intro patch h
    rcases h with h | ⟨h, -⟩
    · exact h
    · cases h
  apply Protocol.follows_to
  · apply persistChatUpdate_voiced hr
    · intro patch w s h
      exact hform patch h ▸ .mute (.rowCleared s w.now)
    · intro patch w s h
      exact hform patch h ▸ .mute (.cachePatched s (.inr rfl))
  · exact fun _ => rfl

theorem patch_voiced {change : ChatRepo.Patch} (hs : change.sessionId = none) (hr : r.chat = c) :
    voices.Follows t (persistChatUpdate .patch c (fun call => call) change) r (fun _ x => x = r) := by
  apply persistChatUpdate_voiced hr
  · intro patch w s _
    exact hr ▸ .update rfl rfl
  · intro patch w s h
    rcases h with rfl | ⟨-, rfl⟩
    · exact .mute (.cachePatched s (.inl hs))
    · exact .mute (.cachePatched s (.inr rfl))

/-- A session that the turn's provider has announced is kept. -/
theorem captureSession_voiced (hr : r.chat = c) (hf : fn ≠ .forkChat) {model : Text}
    (hm : r.model = some model) (ev : AgentEvent)
    (hk : ∀ sid, ev = .sessionStart sid → (model, sid) ∈ r.known) :
    voices.Follows t (captureSession fn c ev) r (fun _ x => x = r) := by
  cases ev with
  | sessionStart sid =>
    have hform : ∀ patch, FormOf (sessionPatch (some sid)) patch → patch = sessionPatch (some sid) := by
      intro patch h
      rcases h with h | ⟨h, -⟩
      · exact h
      · cases h
    apply Protocol.follows_to
    · apply persistChatUpdate_voiced hr (fun _ => .turn .session)
      · intro patch w s h
        rw [hform patch h, ← hr]
        exact .captureRow rfl hf hm (hk sid rfl)
      · intro patch w s h
        rw [hform patch h, ← hr]
        exact .captureCache rfl hf hm (hk sid rfl)
    · exact fun _ => rfl
  | _ => rfl

/-- One event of the stream. What the role knows only grows. -/
theorem streamRound_voiced (hr : r.chat = c) (hf : fn ≠ .forkChat) {model : Text}
    (hm : r.model = some model) (promptId : Uuid) (provider : Text) (st : Stream) :
    voices.Follows t (streamRound fn c promptId provider st) r
      (fun _ x => x.chat = c ∧ x.model = some model) := by
  have hother : ∀ (ev : AgentEvent) (x : Voice), x.chat = c → x.model = some model →
      (∀ sid, ev = .sessionStart sid → (model, sid) ∈ x.known) →
      voices.Follows t ((otherEvent fn c promptId provider st ev).bind fun st => (.ret (.inl st) :
        Async (Stream ⊕ Stream))) x (fun _ x => x.chat = c ∧ x.model = some model) := by
    intro ev x hx hmx hk
    apply Protocol.follows_to (m := x)
    · apply hums_then ((streamHums fn c).flushToken trivial _) hx
      intro _
      apply hums_then ((streamHums fn c).flushThinking trivial _) hx
      intro _
      apply Protocol.follows_to (captureSession_voiced hx hf hmx ev hk)
      intro _
      exact hums_then ((streamHums fn c).emit trivial _ _) hx fun _ => rfl
    · exact fun _ => ⟨hx, hmx⟩
  have hdone : r.chat = c ∧ r.model = some model := ⟨hr, hm⟩
  apply Protocol.follows_then (M := fun received x => x.chat = c ∧ x.model = some model ∧
    (∀ sid, received = .event (.sessionStart sid) → (model, sid) ∈ x.known))
  · apply access_follows (rests hr)
    intro w s _
    by_cases hw : ∃ sid, w.recv = .event (.sessionStart sid)
    · obtain ⟨sid, hw⟩ := hw
      refine ⟨_, .hear rfl hw hm, hr, hm, fun sid' he => ?_⟩
      rw [hw] at he
      cases he
      simp
    · exact ⟨r, .mute (.refl s), hr, hm, fun sid he => absurd ⟨sid, he⟩ hw⟩
  rintro received x ⟨hx, hmx, hk⟩
  have hdone : x.chat = c ∧ x.model = some model := ⟨hx, hmx⟩
  cases received with
  | timeout =>
    apply hums_then ((streamHums fn c).flushToken trivial _) hx
    intro _
    exact hums_then ((streamHums fn c).flushThinking trivial _) hx fun _ => hdone
  | closed => exact hdone
  | event ev =>
    cases ev with
    | token text =>
      apply hums_then ((streamHums fn c).flushThinking trivial _) hx
      intro _
      dsimp only
      split
      · exact hums_then ((streamHums fn c).flushToken trivial _) hx fun _ => hdone
      · exact hdone
    | thinking text =>
      apply hums_then ((streamHums fn c).flushToken trivial _) hx
      intro _
      dsimp only
      split
      · exact hums_then ((streamHums fn c).flushThinking trivial _) hx fun _ => hdone
      · exact hdone
    | sessionStart sid => exact hother _ x hx hmx fun sid' he => by cases he; exact hk sid rfl
    | _ => exact hother _ x hx hmx (by simp)

/-- A turn resumes a session only if the role knows it to be its model's. -/
theorem dispatchViaProvider_voiced (hr : r.chat = c) (hf : fn ≠ .forkChat) {prompt : PromptRecord}
    (provider text model : Text) (session effort : Option Text) (cwd : Text)
    (hk : ∀ sid, session = some sid → (model, sid) ∈ r.known) :
    voices.Follows t (dispatchViaProvider fn c prompt provider text model session effort cwd) r
      (fun _ x => x.chat = c) := by
  apply hums_then ((streamHums fn c).read rfl) hr
  intro auto
  apply hums_then (humAccess fun _ s => .still rfl rfl rfl) hr
  intro token
  apply Protocol.follows_to (m := { r with model := some model })
  · exact atOnce_follows fun s _ => ⟨_, .call hk, rfl⟩
  intro _
  apply Protocol.follows_then (M := fun _ x => x.chat = c)
  · refine ⟨fun _ x => x.chat = c ∧ x.model = some model, ⟨hr, rfl⟩, ?_⟩
    rintro st x ⟨hx, hm⟩
    refine ⟨rests hx, fun w s _ => ⟨x, .mute (.refl s), ?_⟩⟩
    apply Protocol.follows_mono (streamRound_voiced hx hf hm prompt.id provider st)
    intro next y hy
    cases next with
    | inl st => exact hy
    | inr st => exact hy.1
  intro st x hx
  apply hums_then ((streamHums fn c).flushToken trivial _) hx
  intro _
  apply hums_then ((streamHums fn c).flushThinking trivial _) hx
  intro _
  apply hums_then (humNow fun s => .refl s) hx
  intro wasCancelled
  apply hums_then ((streamHums fn c).join token) hx
  intro joined
  apply hums_then ((streamHums fn c).conclude trivial _) hx
  intro _
  apply hums_then (humAccess fun _ s => .still rfl rfl rfl) hx
  intro _
  exact hums_then ((streamHums fn c).persistPromptEvents trivial rfl rfl) hx fun _ => hx

end Speaking

section Records

variable {t : Tag} {r : Voice} {c : Uuid}

/-- A new row has no session. -/
theorem Mute.created {s s' : AppState} {row : ChatRow} (hchats : s'.chats = s.chats)
    (hrows : s'.store.chats = s.store.chats ++ [row]) (hcalls : s'.calls = s.calls)
    (h : row.sessionId = none) : Mute s s' := by
  refine .rows hchats hcalls fun row' hrow sid hsid => ?_
  rw [hrows] at hrow
  rcases List.mem_append.mp hrow with hrow | hrow
  · exact .stored hrow rfl hsid
  · rw [List.mem_singleton.mp hrow, h] at hsid
    cases hsid

/-- A record without a session. -/
theorem Mute.ingest (s : AppState) {record : ChatRecord} (h : record.sessionId = none) :
    Mute s { s with chats := s.chats.ingestChat record } := by
  refine .cache rfl rfl fun d chat sid hd hs => ?_
  rw [ChatRegistry.get_ingestChat] at hd
  split at hd
  · cases hd
    rw [h] at hs
    cases hs
  · exact .cached hd rfl hs

theorem persistCreateChat_voiced (hr : r.chat = c) (worktreeId : Option Uuid)
    (title provider model : Text) (effort : Option Text) :
    voices.Follows t (persistCreateChat c worktreeId title provider model effort) r
      (fun _ x => x.chat = c) := by
  unfold persistCreateChat
  split
  · exact hr
  apply Protocol.follows_then (M := fun created x => x = r ∧ ∀ row, created = .ok row → row.sessionId = none)
  · unfold storeCreate
    split
    · exact ⟨rfl, by simp⟩
    · apply storeCall_follows (rests hr)
      · exact fun w s _ _ => ⟨r, .mute (.refl s), rfl, by simp⟩
      · intro w s _ _
        refine ⟨r, .mute (.created rfl rfl rfl rfl), rfl, ?_⟩
        rintro _ ⟨⟩
        rfl
  rintro created _ ⟨rfl, hnone⟩
  cases created with
  | error e => exact hr
  | ok row =>
    apply Protocol.follows_to
    · apply access_follows (rests hr)
      exact fun w s _ => ⟨_, .mute (.ingest s (hnone row rfl)), rfl⟩
    · exact fun _ => hums_then (publishOn_hums _ _) hr fun _ => hr

theorem deleteChat_hums : Hums c (deleteChat c) := by
  apply Prog.Within.bind
  · apply humStore
    refine fun w s => .updateRow rfl rfl rfl fun row sid hs => ?_
    split at hs
    · exact ⟨hs, by rw [if_pos ‹_›]⟩
    · exact ⟨hs, by rw [if_neg ‹_›]⟩
  intro gone
  cases gone with
  | error e => trivial
  | ok _ =>
    apply Prog.Within.bind
    · apply humAccess
      intro w s
      refine .cache rfl rfl fun d chat sid hd hs => ?_
      rw [ChatRegistry.get_evict] at hd
      split at hd
      · cases hd
      · exact .cached hd rfl hs
    · exact fun _ => trivial

theorem deletePrompts_hums (ids : List Uuid) : Hums c (deletePrompts c ids) := by
  induction ids with
  | nil => trivial
  | cons id ids ih => exact Prog.Within.bind (humStore fun _ s => .still rfl rfl rfl) fun _ => ih

theorem truncateChat_hums (seq : Nat) : Hums c (truncateChat c seq) := by
  apply Prog.Within.bind
  · apply humAccess
    intro w s
    unfold ChatRegistry.truncateFromSeq
    cases s.chats.get c with
    | none => exact .refl s
    | some chat => exact .chatMut rfl rfl rfl fun _ _ hs => ⟨hs, rfl⟩
  intro removed
  cases removed with
  | none => trivial
  | some gone =>
    apply (deletePrompts_hums gone).bind
    intro _
    exact (publishOn_hums _ _).bind fun _ => trivial

theorem revertPrompt_hums (promptId : Uuid) : Hums c (revertPrompt c promptId) := by
  apply Prog.Within.bind
  · apply humAccess
    intro w s
    split
    · exact .refl s
    · unfold ChatRegistry.addPrompt
      cases s.chats.get c with
      | none => exact .refl s
      | some chat => exact .chatMut rfl rfl rfl fun _ _ hs => ⟨hs, rfl⟩
  · intro found
    cases found <;> trivial

/-- A restored chat is cached with the session its row was read with. -/
theorem restoreChat_voiced (hr : r.chat = c) :
    voices.Follows t (restoreChat c) r (fun _ x => x.chat = c) := by
  apply hums_then (humStore fun _ s => .updateRow (f := fun row => { row with deletedAt := none })
    rfl rfl rfl fun _ _ hs => ⟨hs, rfl⟩) hr
  intro back
  split
  · exact hr
  · exact hr
  apply Protocol.follows_then (M := fun found x => x.chat = c ∧ ∀ row, found = .ok row → ∀ sid,
    row.sessionId = some sid → (row.model, sid) ∈ x.known)
  · apply storeCall_follows (rests hr)
    · exact fun w s _ _ => ⟨r, .mute (.refl s), hr, by simp⟩
    · intro w s _ _
      cases hget : ChatRepo.get s.store.chats c with
      | none => exact ⟨r, .mute (.refl s), hr, by simp⟩
      | some row =>
        refine ⟨{ r with known := (row.sessionId.toList.map fun sid => (row.model, sid)) ++ r.known },
          .learn ?_, hr, ?_⟩
        · intro pair hpair
          obtain ⟨sid, hsid, rfl⟩ := List.mem_map.mp hpair
          exact .stored (List.mem_of_find?_eq_some hget) rfl (Option.mem_toList.mp hsid)
        · intro row' he sid hsid
          cases he
          simp [hsid]
  rintro found x ⟨hx, hk⟩
  cases found with
  | error e => exact hx
  | ok row =>
  apply Protocol.follows_to (m := x)
  · apply access_follows (rests hx)
    intro w s _
    refine ⟨x, .restore (fun model sid hhas => ?_) rfl, rfl⟩
    cases hhas with
    | cached hc hm hs =>
      rw [ChatRegistry.get_ingestChat] at hc
      split at hc
      · cases hc
        exact .inr (hm ▸ hk row rfl sid hs)
      · exact .inl (.cached hc hm hs)
    | stored hrow hm hs => exact .inl (.stored hrow hm hs)
  · exact fun _ => hx

theorem rekey_mute (s : AppState) (tempId storeId : Uuid) :
    Mute s { s with chats := rekey tempId storeId s.chats } := by
  refine .cache rfl rfl fun d chat sid hd hs => ?_
  cases h : s.chats.get tempId with
  | none => exact .cached (by simpa [rekey, h] using hd) rfl hs
  | some record =>
    rw [get_rekey h] at hd
    split at hd
    · cases hd
      exact .cached h rfl hs
    · split at hd
      · cases hd
      · exact .cached hd rfl hs

theorem copyPrompts_hums (d : Uuid) (prompts : List PromptRecord) : Hums c (copyPrompts c d prompts) := by
  induction prompts with
  | nil => trivial
  | cons p ps ih =>
    apply Prog.Within.bind (storeAddPrompt_hums (fun _ => .inl rfl) p.content)
    intro stored
    cases stored with
    | error e => exact ih
    | ok row =>
      have hcopy : Hums c (copyEvents c p (.ok row)) :=
        Prog.Within.bind (humStore fun _ _ => .still rfl rfl rfl) fun _ => trivial
      exact hcopy.bind fun _ => ih

/-- A fork is cached and stored without a session. -/
theorem forkChat_hums (seq : Nat) : Hums c (forkChat c seq) := by
  apply Prog.Within.bind
  · apply humAccess
    intro w s
    unfold ChatRegistry.fork
    cases s.chats.get c with
    | none => exact .refl s
    | some source =>
      dsimp only
      by_cases he : (source.prompts.filter (fun p => p.seq ≤ seq)).isEmpty = true
      · rw [if_pos he]
        exact .refl s
      · rw [if_neg he]
        refine .cache rfl rfl fun d chat sid hd hs => ?_
        rw [ChatRegistry.get_ingestChat] at hd
        split at hd
        · cases hd
          cases hs
        · exact .cached hd rfl hs
  intro found
  cases found with
  | none => trivial
  | some forked =>
  apply Prog.Within.bind
  · unfold storeCreate
    split
    · trivial
    · exact humStore fun _ s => .created rfl rfl rfl rfl
  intro created
  cases created with
  | error e => trivial
  | ok row =>
  apply Prog.Within.bind (humAccess fun _ s => rekey_mute s _ _)
  intro _
  apply (copyPrompts_hums _ _).bind
  intro _
  exact (publishOn_hums _ _).bind fun _ => trivial

end Records

/-- Every handler and task keeps to the protocol. -/
def voiceCourse : Course voices where
  ease c r := r.chat = c
  minds _ _ := True
  knows model sid r := (model, sid) ∈ r.known
  start c := ⟨c, none, []⟩
  started _ := rfl
  rest := by
    intro t c r x hr _ hc _ y hy
    cases hy
    exact .inr (hc.trans hr.symm)
  finish := by
    intro t c r _ y hy
    cases hy
  route _ _ _ _ _ h := .mute h.mute
  now _ _ h := .mute h.mute
  spawn tag hr := ⟨_, ⟨rfl, rfl⟩, hr, fun _ => id, fun _ _ => id⟩
  clone := by
    intro t c r fn call hr _ _
    apply getChat_follows (rests hr)
    intro w s _
    cases hget : s.chats.get c with
    | none => exact ⟨r, .mute (.refl s), hr, fun _ => id, by simp⟩
    | some chat =>
      refine ⟨{ r with known := (chat.sessionId.toList.map fun sid => (chat.model, sid)) ++ r.known },
        .learn ?_, hr, fun _ => id, ?_⟩
      · intro pair hpair
        obtain ⟨sid, hsid, rfl⟩ := List.mem_map.mp hpair
        exact .cached hget rfl (Option.mem_toList.mp hsid)
      · intro _ he sid hsid
        cases he
        simp [hsid]
  add := by
    intro t c r fn content hr _
    apply Protocol.follows_mono (hums_follows (persistAddPrompt_hums content) hr)
    rintro _ _ rfl
    exact ⟨hr, fun _ _ => trivial, fun _ _ => id⟩
  turn fn provider text model session effort cwd hr hf _ hk :=
    dispatchViaProvider_voiced hr hf provider text model session effort cwd hk
  echo := by
    intro t c r prompt fn text hr _ _
    apply Protocol.follows_mono (hums_follows ((streamHums fn c).dispatchEcho trivial trivial text) hr)
    exact fun _ _ hx => hx ▸ hr
  forget := by
    intro t c r fn hr _
    exact Protocol.follows_mono (clearProviderSession_voiced hr) fun _ _ hx => hx ▸ hr
  retry := by
    intro t c r fn hr _
    apply Protocol.follows_mono (hums_follows retryPrompt_hums hr)
    exact fun _ _ hx => ⟨hx ▸ hr, fun _ _ => trivial⟩
  save := by
    intro t c r id fn hr _ _
    apply Protocol.follows_mono (hums_follows ((streamHums fn c).persistPromptEvents trivial rfl rfl) hr)
    exact fun _ _ hx => ⟨hx ▸ hr, trivial⟩
  paths := by
    intro t c r id hr _
    apply Protocol.follows_mono (hums_follows (humStore fun _ _ => .still rfl rfl rfl) hr)
    exact fun _ _ hx => ⟨hx ▸ hr, trivial⟩
  tail := by
    intro t c r hr
    apply Protocol.follows_mono (hums_follows (humStore fun _ s => .refl s) hr)
    exact fun _ _ hx => ⟨hx ▸ hr, fun _ _ => trivial⟩
  mend := by
    intro t c r id events hr _
    apply Protocol.follows_mono (hums_follows (humStore fun _ _ => .still rfl rfl rfl) hr)
    exact fun _ _ hx => hx ▸ hr
  tell := by
    intro t c r id ev hr
    apply Protocol.follows_mono (hums_follows (humAccess fun _ s => .appendEvent s id ev) hr)
    exact fun _ _ hx => hx ▸ hr
  patch := by
    intro t c r change hs hr
    exact Protocol.follows_mono (patch_voiced hs hr) fun _ _ hx => hx ▸ hr
  create worktreeId title provider model effort hr :=
    persistCreateChat_voiced hr worktreeId title provider model effort
  delete := by
    intro t c r hr
    exact Protocol.follows_mono (hums_follows deleteChat_hums hr) fun _ _ hx => hx ▸ hr
  restore := restoreChat_voiced
  fork := by
    intro t c seq
    have hr : (⟨c, none, []⟩ : Voice).chat = c := rfl
    apply Protocol.follows_mono (hums_follows (forkChat_hums seq) hr)
    rintro _ _ rfl
    refine ⟨?_, fun s s' _ h => .mute h.mute⟩
    rintro y ⟨⟩
  truncate := by
    intro t c r seq hr
    exact Protocol.follows_mono (hums_follows (truncateChat_hums seq) hr) fun _ _ hx => hx ▸ hr
  revert := by
    intro t c r promptId hr
    exact Protocol.follows_mono (hums_follows (revertPrompt_hums promptId) hr) fun _ _ hx => hx ▸ hr

end AgentGrove
