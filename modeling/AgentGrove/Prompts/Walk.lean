import AgentGrove.Prompts.Errands

namespace AgentGrove

open Coop

/-- What code on an errand does, action by action. -/
def Tending (c : Uuid) (ids : List Uuid) : Option (Site × Choice) → AppState → AppState → Prop
  | none, s, s' => Untouched s s'
  | some _, s, s' => Tends c ids s s'

/-- Where such code rests. -/
def TendsAt (c : Uuid) (x : Site) : Prop :=
  x.chat = c ∧ x.call.issues = false ∧ x.fn ≠ .forkChat

section Errands

variable {α β ε : Type} {t : Tag} {r : Errand} {fn : Fn} {c : Uuid} {ids : List Uuid} {call : Call}

theorem TendsAt.rests {x : Site} (h : TendsAt c x) (ids : List Uuid) :
    (Errand.tending c ids).RestsAt x :=
  ⟨h.1, h.2.1, fun hf => absurd hf h.2.2⟩

theorem tendsAt (hf : fn ≠ .forkChat) (hc : call.issues = false) : TendsAt c ⟨fn, c, call⟩ :=
  ⟨rfl, hc, hf⟩

theorem issues_of_calm (hc : call.calm = true) : call.issues = false := by
  cases call <;> first | rfl | cases hc

theorem issues_of_routes (hc : call.routes = true) : call.issues = false := by
  cases call <;> first | rfl | cases hc

theorem within_follows {p : Async α} (hp : p.Within (TendsAt c) (Tending c ids)) :
    errands.Follows t p (.tending c ids) (fun _ x => x = .tending c ids) := by
  apply Protocol.follows_within hp
  · exact fun x hx => hx.rests ids
  · exact fun x w s s' _ _ h => .tend h
  · exact fun s s' _ h => .now h
  · exact fun _ => rfl

/-- A turn only writes the row of its prompt. -/
theorem turnFrame (hf : fn ≠ .forkChat) :
    TurnFrame (TendsAt c) (Tending c ids) (fun _ => True) (· ∈ ids) fn c where
  sites _ hc := tendsAt hf (issues_of_calm hc)
  same e s := by
    cases e with
    | none => exact .refl s
    | some e => exact .refl s
  publish s _ := ⟨rfl, rfl, Nat.le_refl _⟩
  call s _ := ⟨rfl, rfl, Nat.le_refl _⟩
  tokens _ _ s _ _ := Untouched.tends ⟨rfl, rfl, Nat.le_refl _⟩
  append _ _ s _ _ _ := .appendEvent s _ _
  row _ _ s _ := Untouched.tends ⟨rfl, rfl, Nat.le_refl _⟩
  cache _ _ s _ := .applyPatch s _
  events _ _ s _ _ hid := .updatePrompt s hid _ fun _ => rfl

theorem storeTend {err : ε} {act : Choice → AppState → AppState × Except ε β}
    (hf : fn ≠ .forkChat) (hc : call.issues = false) (ha : ∀ w s, Tends c ids s (act w s).1) :
    errands.Follows t (storeCall fn c call err act) (.tending c ids)
      (fun _ x => x = .tending c ids) :=
  within_follows (storeCall_within (tendsAt hf hc) (fun _ s => Tends.refl s) ha)

theorem accessTend {act : Choice → AppState → AppState × β} (hf : fn ≠ .forkChat)
    (hc : call.issues = false) (ha : ∀ w s, Tends c ids s (act w s).1) :
    errands.Follows t (access fn c call act) (.tending c ids) (fun _ x => x = .tending c ids) :=
  within_follows (access_within (tendsAt hf hc) ha)

theorem publishTend (topic : Topic) (frame : Frame) :
    errands.Follows t (publishOn topic frame) (.tending c ids) (fun _ x => x = .tending c ids) :=
  within_follows (atOnce_within fun _ => ⟨rfl, rfl, Nat.le_refl _⟩)

theorem storeAddPrompt_tends (hf : fn ≠ .forkChat) (content : Text) :
    errands.Follows t (storeAddPrompt fn c content) (.tending c ids) (fun a x =>
      (∃ row, a = .ok row ∧ x = .fresh c row.id row.seq) ∨
        (∃ e, a = .error e) ∧ ∃ ids, x = .tending c ids) := by
  apply Protocol.follows_to (storeTend hf rfl fun _ s => Tends.refl s)
  intro row
  cases row with
  | error e => exact .inr ⟨⟨e, rfl⟩, ids, rfl⟩
  | ok row =>
  apply Protocol.follows_then (M := fun a x =>
    (∃ n, a = .ok n ∧ x = .numbered c n) ∨ (∃ e, a = .error e) ∧ x = .tending c ids)
  · apply storeCall_follows ((tendsAt hf rfl).rests ids)
    · intro w s _ _
      exact ⟨_, .tend (.refl s), .inr ⟨⟨_, rfl⟩, rfl⟩⟩
    · intro w s _ hw
      exact ⟨_, .number rfl hw, .inl ⟨_, rfl, rfl⟩⟩
  rintro _ x (⟨n, rfl, rfl⟩ | ⟨⟨e, rfl⟩, rfl⟩)
  swap
  · exact .inr ⟨⟨e, rfl⟩, ids, rfl⟩
  apply Protocol.follows_then (M := fun a x => (∃ row : PromptRow, a = .ok row ∧ x = .fresh c row.id row.seq) ∨
    (∃ e, a = .error e) ∧ x = .tending c [])
  · apply storeCall_follows (show (Errand.numbered c n).RestsAt ⟨fn, c, .insertPrompt⟩ from
      ⟨rfl, rfl, hf⟩)
    · intro w s _ _
      exact ⟨_, .refuse, .inr ⟨⟨_, rfl⟩, rfl⟩⟩
    · intro w s _ _
      dsimp only
      split
      · rename_i hacc
        exact ⟨_, .insert rfl rfl rfl hacc, .inl ⟨_, rfl, rfl⟩⟩
      · exact ⟨_, .refuse, .inr ⟨⟨_, rfl⟩, rfl⟩⟩
  rintro _ x (⟨stored, rfl, rfl⟩ | ⟨⟨e, rfl⟩, rfl⟩)
  swap
  · exact .inr ⟨⟨e, rfl⟩, [], rfl⟩
  apply Protocol.follows_then (M := fun a x => a = .ok () ∧ x = .fresh c stored.id stored.seq ∨
    (∃ e, a = .error e) ∧ x = .tending c [])
  · apply storeCall_follows (show (Errand.fresh c stored.id stored.seq).RestsAt ⟨fn, c, .touchChat⟩
      from ⟨rfl, .inl rfl, hf⟩)
    · intro w s _ _
      exact ⟨_, .lose, .inr ⟨⟨_, rfl⟩, rfl⟩⟩
    · intro w s _ _
      exact ⟨_, .touch ⟨rfl, rfl, Nat.le_refl _⟩, .inl ⟨rfl, rfl⟩⟩
  rintro _ x (⟨rfl, rfl⟩ | ⟨⟨e, rfl⟩, rfl⟩)
  · exact .inl ⟨stored, rfl, rfl⟩
  · exact .inr ⟨⟨e, rfl⟩, [], rfl⟩

theorem persistAddPrompt_tends (hf : fn ≠ .forkChat) (content : Text) :
    errands.Follows t (persistAddPrompt fn c content) (.tending c ids) (fun a x =>
      ∃ ids, x = .tending c ids ∧ ∀ p, a = .ok (some p) → p.id ∈ ids) := by
  apply Protocol.follows_then (storeAddPrompt_tends hf content)
  rintro _ x (⟨row, rfl, rfl⟩ | ⟨⟨e, rfl⟩, ids, rfl⟩)
  swap
  · exact ⟨ids, rfl, by simp⟩
  apply Protocol.follows_to (m := .tending c [row.id])
  · apply access_follows (show (Errand.fresh c row.id row.seq).RestsAt ⟨fn, c, .ingestPrompt⟩ from
      ⟨rfl, .inr rfl, hf⟩)
    intro w s _
    exact ⟨_, .ingest rfl rfl, rfl⟩
  intro ok
  refine ⟨_, rfl, fun p hp => ?_⟩
  cases ok with
  | false => simp at hp
  | true =>
    simp only [↓reduceIte, Except.ok.injEq, Option.some.injEq] at hp
    simp [← hp]

theorem retryPrompt_tends (hf : fn ≠ .forkChat) :
    errands.Follows t (access fn c .retryPrompt (fun _ s =>
      match s.chats.retryPrompt c with
      | some (p, reg) => ({ s with chats := reg }, some p)
      | none => (s, none))) (.tending c ids) (fun found x =>
        ∃ ids, x = .tending c ids ∧ ∀ p, found = some p → p.id ∈ ids) := by
  apply access_follows ((tendsAt hf rfl).rests ids)
  intro w s _
  cases h : s.chats.retryPrompt c with
  | none => exact ⟨_, .tend (.refl s), ids, rfl, by simp⟩
  | some out =>
    obtain ⟨p, reg⟩ := out
    dsimp only
    unfold ChatRegistry.retryPrompt at h
    split at h
    · cases h
    rename_i chat hget
    split at h
    · cases h
    rename_i last hlast
    cases h
    have htail : (timeline s c).getLast? = some last := by
      simp [timeline, cachedPrompts, hget, hlast]
    refine ⟨_, .take rfl htail (?_ : Tends c [] s _), [last.id], rfl, ?_⟩
    · refine ⟨⟨id, by simp, fun r => ⟨rfl, fun _ => rfl⟩⟩, fun d hd => ?_, ?_, Nat.le_refl _⟩
      · rw [cachedPrompts_chatMut, if_neg hd]
      · unfold timeline
        rw [cachedPrompts_chatMut, if_pos rfl]
        simp only [cachedPrompts, hget, Option.map_some, Option.getD_some, List.map_append,
          List.map_cons, List.map_nil]
        conv_rhs => rw [← List.dropLast_append_getLast? last hlast]
        rw [List.map_append]
        rfl
    · simp [ChatRegistry.resetPrompt]

theorem deletePrompts_tends (gone : List Uuid) (hg : ∀ id ∈ gone, id ∈ ids) :
    errands.Follows t (deletePrompts c gone) (.tending c ids) (fun _ x => x = .tending c ids) := by
  induction gone with
  | nil => rfl
  | cons id gone ih =>
    apply Protocol.follows_to (m := .tending c ids)
    · apply storeCall_follows ((tendsAt (by simp) rfl).rests ids)
      · exact fun w s _ _ => ⟨_, .tend (.refl s), rfl⟩
      · exact fun w s _ _ => ⟨_, .remove (hg id (by simp)), rfl⟩
    · intro _
      exact ih fun i hi => hg i (by simp [hi])

theorem truncateChat_tends (seq : Nat) :
    errands.Follows t (truncateChat c seq) (.tending c ids) (fun _ x => ∃ ids, x = .tending c ids) := by
  apply Protocol.follows_then (M := fun found x => (found = none ∧ x = .tending c ids) ∨
    ∃ gone, found = some gone ∧ x = .tending c gone)
  · apply access_follows ((tendsAt (by simp) rfl).rests ids)
    intro w s _
    cases h : s.chats.truncateFromSeq c seq with
    | none => exact ⟨_, .tend (.refl s), .inl ⟨rfl, rfl⟩⟩
    | some out => exact ⟨_, .cut rfl h, .inr ⟨_, rfl, rfl⟩⟩
  rintro _ x (⟨rfl, rfl⟩ | ⟨gone, rfl, rfl⟩)
  · exact ⟨ids, rfl⟩
  · apply Protocol.follows_to (deletePrompts_tends gone fun _ hi => hi)
    intro _
    exact Protocol.follows_to (publishTend _ _) fun _ => ⟨gone, rfl⟩

theorem revertPrompt_tends (promptId : Uuid) :
    errands.Follows t (revertPrompt c promptId) (.tending c ids)
      (fun _ x => ∃ ids, x = .tending c ids) := by
  apply Protocol.follows_to (m := .tending c ids)
  · apply access_follows ((tendsAt (by simp) rfl).rests ids)
    intro w s _
    split
    · exact ⟨_, .tend (.refl s), rfl⟩
    · rename_i target _
      cases h : s.chats.addPrompt s.nextId w.now c (revertBody target) with
      | none => exact ⟨_, .tend (.refl s), rfl⟩
      | some out => exact ⟨_, .revert rfl h, rfl⟩
  · intro found
    cases found <;> exact ⟨ids, rfl⟩

theorem storeCreate_tends (hf : fn ≠ .forkChat) (projectId : Uuid) (worktreeId : Option Uuid)
    (title provider model : Text) (effort : Option Text) :
    errands.Follows t (storeCreate fn c projectId worktreeId title provider model effort)
      (.tending c ids) (fun _ x => x = .tending c ids) := by
  unfold storeCreate
  split
  · rfl
  · exact storeTend hf rfl fun _ s => Untouched.tends ⟨rfl, rfl, Nat.le_succ _⟩

theorem persistCreateChat_tends (worktreeId : Option Uuid) (title provider model : Text)
    (effort : Option Text) :
    errands.Follows t (persistCreateChat c worktreeId title provider model effort) (.tending c ids)
      (fun _ x => ∃ ids, x = .tending c ids) := by
  unfold persistCreateChat
  split
  · exact ⟨ids, rfl⟩
  apply Protocol.follows_to (storeCreate_tends (by simp) _ _ _ _ _ _)
  intro created
  cases created with
  | error e => exact ⟨ids, rfl⟩
  | ok row =>
  apply Protocol.follows_to (m := .tending c ids)
  · apply access_follows ((tendsAt (by simp) rfl).rests ids)
    intro w s _
    refine ⟨_, .blank (d := row.id) (.inr rfl) rfl ?_ ?_ (Nat.le_refl _), rfl⟩
    · intro e he
      simp [cachedPrompts, recordOfRow, he]
    · simp [timeline, cachedPrompts, recordOfRow]
  · intro _
    exact Protocol.follows_to (publishTend _ _) fun _ => ⟨ids, rfl⟩

theorem deleteChat_tends :
    errands.Follows t (deleteChat c) (.tending c ids) (fun _ x => ∃ ids, x = .tending c ids) := by
  apply Protocol.follows_to (storeTend (by simp) rfl fun _ s => Untouched.tends ⟨rfl, rfl, Nat.le_refl _⟩)
  intro gone
  cases gone with
  | error e => exact ⟨ids, rfl⟩
  | ok _ =>
  apply Protocol.follows_to (m := .tending c ids)
  · apply access_follows ((tendsAt (by simp) rfl).rests ids)
    intro w s _
    refine ⟨_, .blank (d := c) (.inl rfl) rfl ?_ ?_ (Nat.le_refl _), rfl⟩
    · intro e he
      simp [cachedPrompts, he]
    · simp [timeline, cachedPrompts]
  · exact fun _ => ⟨ids, rfl⟩

theorem restoreChat_tends :
    errands.Follows t (restoreChat c) (.tending c ids) (fun _ x => ∃ ids, x = .tending c ids) := by
  apply Protocol.follows_to (storeTend (by simp) rfl fun _ s => Untouched.tends ⟨rfl, rfl, Nat.le_refl _⟩)
  intro back
  split
  · exact ⟨ids, rfl⟩
  · exact ⟨ids, rfl⟩
  apply Protocol.follows_then (M := fun found x => (∀ row, found = .ok row → row.id = c) ∧ x = .tending c ids)
  · apply storeCall_follows ((tendsAt (by simp) rfl).rests ids)
    · exact fun w s _ _ => ⟨_, .tend (.refl s), by simp, rfl⟩
    · intro w s _ _
      refine ⟨_, .tend (.refl s), ?_, rfl⟩
      intro row hrow
      cases hget : ChatRepo.get s.store.chats c with
      | none => simp [hget] at hrow
      | some found =>
        simp only [hget, Except.ok.injEq] at hrow
        subst hrow
        simpa using List.find?_some hget
  rintro found x ⟨hrow, rfl⟩
  cases found with
  | error e => exact ⟨ids, rfl⟩
  | ok row =>
  apply Protocol.follows_to (m := .tending c ids)
  · apply access_follows ((tendsAt (by simp) rfl).rests ids)
    intro w s _
    have hid := hrow row rfl
    refine ⟨_, .blank (d := c) (.inl rfl) rfl ?_ ?_ (Nat.le_refl _), rfl⟩
    · intro e he
      simp [cachedPrompts, recordOfRow, hid, he]
    · simp [timeline, cachedPrompts, recordOfRow, hid]
  · exact fun _ => ⟨ids, rfl⟩

end Errands

section Copying

variable {t : Tag} {c d : Uuid} {call : Call}

/-- Code of a fork once it has its copy. -/
abbrev Copying {α : Type} (p : Async α) : Prop :=
  p.Within (fun x => x.fn = .forkChat) (fun e s s' =>
    match e with
    | none => Untouched s s'
    | some _ => Copies s s')

theorem copying_follows {α : Type} {p : Async α} (hp : Copying p) :
    errands.Follows t p .forking (fun _ x => x = .forking) := by
  apply Protocol.follows_within hp
  · exact fun x hx => hx
  · exact fun x w s s' _ _ h => .copy h
  · exact fun s s' _ h => .now h
  · exact fun _ => rfl

theorem storeFork {β ε : Type} {err : ε} {act : Choice → AppState → AppState × Except ε β}
    (ha : ∀ w s, Copies s (act w s).1) : Copying (storeCall .forkChat d call err act) :=
  storeCall_within rfl (fun _ s => (Untouched.refl s).copies) ha

theorem storeAddPrompt_copying (content : Text) : Copying (storeAddPrompt .forkChat d content) := by
  apply Prog.Within.bind (storeFork fun _ s => (Untouched.refl s).copies)
  intro row
  cases row with
  | error e => trivial
  | ok row =>
  apply Prog.Within.bind (storeFork fun _ s => (Untouched.refl s).copies)
  intro seq
  cases seq with
  | error e => trivial
  | ok seq =>
  apply Prog.Within.bind
  · apply storeFork
    intro w s
    dsimp only
    split
    · rename_i hacc
      exact ⟨fun e p hp => ⟨e, p, hp, rfl⟩, .inr ⟨_, rfl, rfl, rfl, hacc⟩⟩
    · exact (Untouched.refl s).copies
  intro stored
  cases stored with
  | error e => trivial
  | ok stored =>
  apply Prog.Within.bind (storeFork fun _ s => Untouched.copies ⟨rfl, rfl, Nat.le_refl _⟩)
  intro touched
  cases touched <;> trivial

theorem copyEvents_copying (p : PromptRecord) (stored : Except ChatError PromptRow) :
    Copying (copyEvents c p stored) := by
  cases stored with
  | error e => trivial
  | ok row =>
    apply Prog.Within.bind (storeFork ?_)
    · intro _
      trivial
    intro w s
    have htends : Tends c [row.id] s { s with store := { s.store with
        prompts := ChatRepo.updatePrompt row.id (fun r => { r with events := p.events })
          s.store.prompts } } :=
      .updatePrompt s (by simp) _ fun _ => rfl
    obtain ⟨f, hf, hkey⟩ := htends.rows
    exact ⟨fun e q hq => ⟨e, q, hq, rfl⟩, .inl ⟨⟨f, hf, fun r => (hkey r).1⟩, Nat.le_refl _⟩⟩

theorem copyPrompts_copying (prompts : List PromptRecord) : Copying (copyPrompts c d prompts) := by
  induction prompts with
  | nil => trivial
  | cons p ps ih =>
    apply (storeAddPrompt_copying p.content).bind
    intro stored
    exact (copyEvents_copying p stored).bind fun _ => ih

theorem get_rekey {reg : ChatRegistry} {tempId storeId : Uuid} {record : ChatRecord}
    (h : reg.get tempId = some record) (d : Uuid) :
    (rekey tempId storeId reg).get d = if d = storeId then some { record with id := storeId }
      else if d = tempId then none else reg.get d := by
  unfold rekey
  rw [h]
  unfold ChatRegistry.get
  rw [ChatRegistry.lookup_insert]
  by_cases hd : d = storeId
  · simp [hd]
  · by_cases ht : d = tempId
    · subst ht
      simp [hd]
    · simp [hd, ht]

theorem rekey_copies (s : AppState) (tempId storeId : Uuid) :
    Copies s { s with chats := rekey tempId storeId s.chats } := by
  refine ⟨?_, .inl ⟨⟨id, by simp, fun _ => rfl⟩, Nat.le_refl _⟩⟩
  intro d p hp
  cases h : s.chats.get tempId with
  | none =>
    refine ⟨d, p, ?_, rfl⟩
    simpa [timeline, cachedPrompts, rekey, h] using hp
  | some record =>
    simp only [timeline, cachedPrompts, get_rekey h] at hp
    split at hp
    · refine ⟨tempId, p, ?_, rfl⟩
      simpa [timeline, cachedPrompts, h] using hp
    · split at hp
      · simp at hp
      · exact ⟨d, p, hp, rfl⟩

theorem forkChat_follows (seq : Nat) :
    errands.Follows t (forkChat c seq) (.tending c [])
      (fun _ x => x = .tending c [] ∨ x = .forking) := by
  apply Protocol.follows_then (M := fun found x => (found = none ∧ x = .tending c []) ∨ x = .forking)
  · apply access_follows (show (Errand.tending c []).RestsAt ⟨.forkChat, c, .forkCache⟩ from
      ⟨rfl, rfl, fun _ => rfl⟩)
    intro w s _
    cases h : s.chats.fork s.nextId w.now c seq with
    | none => exact ⟨_, .tend (.refl s), .inl ⟨rfl, rfl⟩⟩
    | some out => exact ⟨_, .fork rfl rfl h, .inr rfl⟩
  rintro found x (⟨rfl, rfl⟩ | rfl)
  · exact .inl rfl
  cases found with
  | none => exact .inr rfl
  | some forked =>
  refine Protocol.follows_mono (copying_follows ?_) fun _ _ => .inr
  apply Prog.Within.bind
  · unfold storeCreate
    split
    · trivial
    · exact storeFork fun _ s => Untouched.copies ⟨rfl, rfl, Nat.le_succ _⟩
  intro created
  cases created with
  | error e => trivial
  | ok row =>
  have hrekey : Copying (access .forkChat c .rekey (fun _ s =>
      ({ s with chats := rekey forked.id row.id s.chats }, ()))) :=
    access_within rfl fun _ s => rekey_copies s _ _
  apply hrekey.bind
  intro _
  apply (copyPrompts_copying _).bind
  intro _
  exact Prog.Within.bind (atOnce_within fun _ => ⟨rfl, rfl, Nat.le_refl _⟩) fun _ => trivial

end Copying

/-- Every handler and task keeps to the protocol. -/
def promptCourse : Course errands where
  ease c r := ∃ ids, r = .tending c ids
  minds id r := ∃ c ids, r = .tending c ids ∧ id ∈ ids
  knows _ _ _ := True
  start c := .tending c []
  started _ := ⟨[], rfl⟩
  rest := by
    rintro t c _ x ⟨ids, rfl⟩ hf hc hx
    exact ⟨hc, issues_of_routes hx, fun h => absurd h hf⟩
  finish := by
    rintro t c _ ⟨ids, rfl⟩
    exact .inl ⟨c, ids, rfl⟩
  route := by
    rintro c _ x w s s' ⟨ids, rfl⟩ _ _ _ _ h
    exact .tend h.untouched.tends
  now _ _ h := .now h.untouched
  spawn := by
    rintro c r tag hr
    exact ⟨r, ⟨rfl, rfl, c, hr⟩, hr, fun _ => id, fun _ _ => id⟩
  clone := by
    rintro t c _ fn call ⟨ids, rfl⟩ hf hc
    apply Protocol.follows_mono (accessTend hf (issues_of_routes hc) fun _ s => Tends.refl s)
    rintro _ _ rfl
    exact ⟨⟨ids, rfl⟩, fun _ => id, fun _ _ _ _ => trivial⟩
  add := by
    rintro t c _ fn content ⟨ids, rfl⟩ hf
    apply Protocol.follows_mono (persistAddPrompt_tends hf content)
    rintro a _ ⟨ids, rfl, hp⟩
    exact ⟨⟨ids, rfl⟩, fun p ha => ⟨c, ids, rfl, hp p ha⟩, fun _ _ => id⟩
  turn := by
    rintro t c _ prompt fn _ _ _ _ _ _ ⟨ids, rfl⟩ hf ⟨_, _, ⟨⟩, hid⟩ _
    have hturn : ∀ provider text model session effort cwd,
        (dispatchViaProvider fn c prompt provider text model session effort cwd).Within
          (TendsAt c) (Tending c ids) :=
      (turnFrame hf).dispatchViaProvider trivial hid
    exact Protocol.follows_mono (within_follows (hturn _ _ _ _ _ _)) fun _ _ hx => ⟨ids, hx⟩
  echo := by
    rintro t c _ prompt fn _ ⟨ids, rfl⟩ hf ⟨_, _, ⟨⟩, hid⟩
    have hecho : ∀ text, (dispatchEcho fn c prompt text).Within (TendsAt c) (Tending c ids) :=
      (turnFrame hf).dispatchEcho trivial hid
    exact Protocol.follows_mono (within_follows (hecho _)) fun _ _ hx => ⟨ids, hx⟩
  forget := by
    rintro t c _ fn ⟨ids, rfl⟩ hf
    exact Protocol.follows_mono (within_follows (turnFrame hf).session.clearProviderSession)
      fun _ _ hx => ⟨ids, hx⟩
  retry := by
    rintro t c _ fn ⟨ids, rfl⟩ hf
    apply Protocol.follows_mono (retryPrompt_tends hf)
    rintro found _ ⟨ids, rfl, hp⟩
    exact ⟨⟨ids, rfl⟩, fun p ha => ⟨c, ids, rfl, hp p ha⟩⟩
  save := by
    rintro t c _ id fn ⟨ids, rfl⟩ hf ⟨_, _, ⟨⟩, hid⟩
    apply Protocol.follows_mono (within_follows ((turnFrame hf).persistPromptEvents hid rfl rfl))
    rintro _ _ rfl
    exact ⟨⟨ids, rfl⟩, c, ids, rfl, hid⟩
  paths := by
    rintro t c _ id ⟨ids, rfl⟩ ⟨_, _, ⟨⟩, hid⟩
    apply Protocol.follows_mono (storeTend (by simp) rfl fun _ s =>
      .updatePrompt s hid (fun p => { p with touchedPaths := [] }) fun _ => rfl)
    rintro _ _ rfl
    exact ⟨⟨ids, rfl⟩, c, ids, rfl, hid⟩
  tail := by
    rintro t c _ ⟨ids, rfl⟩
    apply storeCall_follows ((tendsAt (by simp) rfl).rests ids)
    · exact fun w s _ _ => ⟨_, .tend (.refl s), ⟨ids, rfl⟩, by simp [stuckTail]⟩
    · intro w s _ _
      cases h : (ChatRepo.listPrompts s.store.prompts c).getLast? with
      | none =>
        refine ⟨_, .tend (.refl s), ⟨ids, rfl⟩, ?_⟩
        simp [stuckTail, h]
      | some row =>
        have hm : row ∈ s.store.prompts ∧ row.chatId = c := by
          simpa [ChatRepo.listPrompts, List.mem_insertionSort] using List.mem_of_getLast? h
        refine ⟨_, .tail hm.1 hm.2, ⟨_, rfl⟩, ?_⟩
        intro tail ht
        simp only [stuckTail, h, Option.filter_eq_some_iff, Option.some.injEq] at ht
        exact ⟨c, [row.id], rfl, by simp [ht.1]⟩
  mend := by
    rintro t c _ id events ⟨ids, rfl⟩ ⟨_, _, ⟨⟩, hid⟩
    exact Protocol.follows_mono (storeTend (by simp) rfl fun _ s =>
      .updatePrompt s hid (fun p => { p with events := events }) fun _ => rfl) fun _ _ hx => ⟨ids, hx⟩
  tell := by
    rintro t c _ id ev ⟨ids, rfl⟩
    exact Protocol.follows_mono (accessTend (by simp) rfl fun _ s => .appendEvent s _ _)
      fun _ _ hx => ⟨ids, hx⟩
  patch := by
    rintro t c _ change _ ⟨ids, rfl⟩
    exact Protocol.follows_mono (within_follows
      ((turnFrame (by simp)).session.persistChatUpdate (fun _ h => h) change)) fun _ _ hx => ⟨ids, hx⟩
  create := by
    rintro t c _ worktreeId title provider model effort ⟨ids, rfl⟩
    exact persistCreateChat_tends _ _ _ _ _
  delete := by
    rintro t c _ ⟨ids, rfl⟩
    exact deleteChat_tends
  restore := by
    rintro t c _ ⟨ids, rfl⟩
    exact restoreChat_tends
  fork := by
    intro t c seq
    apply Protocol.follows_mono (forkChat_follows seq)
    rintro _ x hx
    refine ⟨hx.imp_left fun hx => ⟨c, [], hx⟩, ?_⟩
    exact fun s s' _ h => .now h.untouched
  truncate := by
    rintro t c _ seq ⟨ids, rfl⟩
    exact truncateChat_tends seq
  revert := by
    rintro t c _ promptId ⟨ids, rfl⟩
    exact revertPrompt_tends promptId

end AgentGrove
