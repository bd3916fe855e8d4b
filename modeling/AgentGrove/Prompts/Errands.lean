import AgentGrove.Proofs.Course

namespace AgentGrove

open Coop

/-- The prompts of a chat as the cache has them, if it has the chat. -/
def cachedPrompts (s : AppState) (c : Uuid) : Option (List PromptRecord) :=
  (s.chats.get c).map ChatRecord.prompts

def timeline (s : AppState) (c : Uuid) : List PromptRecord := (cachedPrompts s c).getD []

/-- The prompts of a chat as the store has them. -/
def storedPrompts (s : AppState) (c : Uuid) : List PromptRow :=
  s.store.prompts.filter (fun r => r.chatId = c)

def PromptRecord.mark (p : PromptRecord) : Uuid × Nat := (p.id, p.seq)

/-- What a task does that works for one chat and holds some prompt ids: at most the
rows with these ids change, the cache keeps which prompts there are, and no other
chat's cached prompts change. -/
structure Tends (c : Uuid) (ids : List Uuid) (s s' : AppState) : Prop where
  rows : ∃ f : PromptRow → PromptRow, s'.store.prompts = s.store.prompts.map f ∧
    ∀ r, (f r).key = r.key ∧ (r.id ∉ ids → f r = r)
  others : ∀ d, d ≠ c → cachedPrompts s' d = cachedPrompts s d
  marks : (timeline s' c).map PromptRecord.mark = (timeline s c).map PromptRecord.mark
  nextId : s.nextId ≤ s'.nextId

/-- No prompt changed. -/
structure Untouched (s s' : AppState) : Prop where
  chats : s'.chats = s.chats
  prompts : s'.store.prompts = s.store.prompts
  nextId : s.nextId ≤ s'.nextId

/-- What copying a chat does: it moves cached prompts about and stores at most one
prompt of its own at a time. -/
structure Copies (s s' : AppState) : Prop where
  ids : ∀ d, ∀ p ∈ timeline s' d, ∃ e, ∃ q ∈ timeline s e, q.id = p.id
  rows : (∃ f : PromptRow → PromptRow, s'.store.prompts = s.store.prompts.map f ∧
      ∀ r, (f r).key = r.key) ∧ s.nextId ≤ s'.nextId ∨
    ∃ row : PromptRow, row.id = s.nextId ∧ s'.store.prompts = s.store.prompts ++ [row] ∧
      s'.nextId = s.nextId + 1 ∧ ChatRepo.accepts s.store.chats s.store.prompts row = true

/-- What a task has to do with prompts. -/
inductive Errand where
  /-- Works for a chat and may write the rows with these ids. -/
  | tending (c : Uuid) (ids : List Uuid)
  /-- Has read the next seq of its chat. -/
  | numbered (c : Uuid) (seq : Nat)
  /-- Has stored a prompt that is not in the cache yet. -/
  | fresh (c id : Uuid) (seq : Nat)
  /-- Copies a chat. -/
  | forking
deriving DecidableEq

/-- The awaits with a prompt under way from the store to the cache. -/
def Call.issues : Call → Bool
  | .insertPrompt | .touchChat | .ingestPrompt => true
  | _ => false

/-- Where a task on this errand may rest. -/
def Errand.RestsAt (x : Site) : Errand → Prop
  | tending c _ => x.chat = c ∧ x.call.issues = false ∧ (x.fn = .forkChat → x.call = .forkCache)
  | numbered c _ => x.chat = c ∧ x.call = .insertPrompt ∧ x.fn ≠ .forkChat
  | fresh c _ _ => x.chat = c ∧ (x.call = .touchChat ∨ x.call = .ingestPrompt) ∧ x.fn ≠ .forkChat
  | forking => x.fn = .forkChat

/-- What an action does to the errand of its task. -/
inductive Does : Option (Site × Choice) → Errand → AppState → Errand → AppState → Prop where
  | now {r : Errand} {s s' : AppState} (h : Untouched s s') : Does none r s r s'
  | tend {x : Site} {w : Choice} {c : Uuid} {ids : List Uuid} {s s' : AppState}
      (h : Tends c ids s s') : Does (some (x, w)) (.tending c ids) s (.tending c ids) s'
  | number {x : Site} {w : Choice} {c : Uuid} {ids : List Uuid} {s : AppState}
      (hx : x.call = .maxSeq) (hw : w.fail = false) : Does (some (x, w)) (.tending c ids) s
        (.numbered c (ChatRepo.nextSeq s.store.prompts c)) s
  | refuse {x : Site} {w : Choice} {c : Uuid} {n : Nat} {s : AppState} :
      Does (some (x, w)) (.numbered c n) s (.tending c []) s
  | insert {x : Site} {w : Choice} {c : Uuid} {n : Nat} {s : AppState} {row : PromptRow}
      (hid : row.id = s.nextId) (hc : row.chatId = c) (hn : row.seq = n)
      (ha : ChatRepo.accepts s.store.chats s.store.prompts row = true) :
      Does (some (x, w)) (.numbered c n) s (.fresh c s.nextId n)
        { s with store := { s.store with prompts := s.store.prompts ++ [row] }
                 nextId := s.nextId + 1 }
  | touch {x : Site} {w : Choice} {c id : Uuid} {n : Nat} {s s' : AppState}
      (h : Untouched s s') : Does (some (x, w)) (.fresh c id n) s (.fresh c id n) s'
  | lose {x : Site} {w : Choice} {c id : Uuid} {n : Nat} {s : AppState} :
      Does (some (x, w)) (.fresh c id n) s (.tending c []) s
  | ingest {x : Site} {w : Choice} {c id : Uuid} {n : Nat} {s : AppState} {p : PromptRecord}
      (hid : p.id = id) (hn : p.seq = n) : Does (some (x, w)) (.fresh c id n) s (.tending c [id])
        { s with chats := (s.chats.ingestPrompt c p).2 }
  | take {x : Site} {w : Choice} {c : Uuid} {ids : List Uuid} {s s' : AppState} {p : PromptRecord}
      (hx : x.call = .retryPrompt) (hp : (timeline s c).getLast? = some p)
      (h : Tends c [] s s') : Does (some (x, w)) (.tending c ids) s (.tending c [p.id]) s'
  | cut {x : Site} {w : Choice} {c : Uuid} {ids gone : List Uuid} {seq : Nat} {s : AppState}
      {reg : ChatRegistry} (hx : x.call = .truncateCache)
      (h : s.chats.truncateFromSeq c seq = some (gone, reg)) :
      Does (some (x, w)) (.tending c ids) s (.tending c gone) { s with chats := reg }
  | tail {x : Site} {w : Choice} {c : Uuid} {ids : List Uuid} {s : AppState} {row : PromptRow}
      (hr : row ∈ s.store.prompts) (hc : row.chatId = c) :
      Does (some (x, w)) (.tending c ids) s (.tending c [row.id]) s
  | remove {x : Site} {w : Choice} {c id : Uuid} {ids : List Uuid} {s : AppState} (hi : id ∈ ids) :
      Does (some (x, w)) (.tending c ids) s (.tending c ids)
        { s with store := { s.store with prompts := ChatRepo.deletePrompt id s.store.prompts } }
  | revert {x : Site} {w : Choice} {c : Uuid} {ids : List Uuid} {s : AppState} {now : Nat}
      {content : Text} {p : PromptRecord} {reg : ChatRegistry} (hx : x.call = .revert)
      (h : s.chats.addPrompt s.nextId now c content = some (p, reg)) :
      Does (some (x, w)) (.tending c ids) s (.tending c ids)
        { s with chats := reg, nextId := s.nextId + 1 }
  | blank {x : Site} {w : Choice} {c d : Uuid} {ids : List Uuid} {s s' : AppState}
      (hd : d = c ∨ x.fn = .createChat) (hrows : s'.store.prompts = s.store.prompts)
      (hothers : ∀ e, e ≠ d → cachedPrompts s' e = cachedPrompts s e) (hempty : timeline s' d = [])
      (hn : s.nextId ≤ s'.nextId) : Does (some (x, w)) (.tending c ids) s (.tending c ids) s'
  | fork {x : Site} {w : Choice} {c : Uuid} {ids : List Uuid} {s : AppState} {now seq : Nat}
      {chat : ChatRecord} {reg : ChatRegistry} (hf : x.fn = .forkChat) (hx : x.call = .forkCache)
      (h : s.chats.fork s.nextId now c seq = some (chat, reg)) :
      Does (some (x, w)) (.tending c ids) s .forking { s with chats := reg, nextId := s.nextId + 1 }
  | copy {x : Site} {w : Choice} {s s' : AppState} (h : Copies s s') :
      Does (some (x, w)) .forking s .forking s'

/-- The protocol of prompts. A task that is spawned goes on its parent's errand. -/
def errands : Protocol Site Tag Choice AppState Errand where
  rest _ x r := match x with
    | some x => r.RestsAt x
    | none => (∃ c ids, r = .tending c ids) ∨ r = .forking
  sees _ _ := True
  move := Does
  fork r _ rc r' := r' = r ∧ rc = r ∧ ∃ c ids, r = .tending c ids

section Tends

variable {c : Uuid} {ids : List Uuid} {s s' : AppState}

theorem Untouched.refl (s : AppState) : Untouched s s := ⟨rfl, rfl, Nat.le_refl _⟩

theorem Routes.untouched (h : Routes s s') : Untouched s s' := ⟨h.chats, h.prompts, h.nextId⟩

theorem Untouched.tends (h : Untouched s s') : Tends c ids s s' := by
  refine ⟨⟨id, ?_, fun r => ⟨rfl, fun _ => rfl⟩⟩, fun d _ => ?_, ?_, h.nextId⟩
  · simp [h.prompts]
  · simp [cachedPrompts, h.chats]
  · simp [timeline, cachedPrompts, h.chats]

theorem Untouched.copies (h : Untouched s s') : Copies s s' := by
  refine ⟨fun d p hp => ⟨d, p, ?_, rfl⟩, .inl ⟨⟨id, ?_, fun _ => rfl⟩, h.nextId⟩⟩
  · simpa [timeline, cachedPrompts, h.chats] using hp
  · simp [h.prompts]

theorem Tends.refl (s : AppState) : Tends c ids s s := (Untouched.refl s).tends

theorem Tends.mono {ids' : List Uuid} (h : Tends c ids s s') (hi : ∀ id ∈ ids, id ∈ ids') :
    Tends c ids' s s' := by
  obtain ⟨⟨f, hf, hkey⟩, others, marks, nextId⟩ := h
  refine ⟨⟨f, hf, fun r => ⟨(hkey r).1, fun hn => (hkey r).2 ?_⟩⟩, others, marks, nextId⟩
  exact fun hm => hn (hi _ hm)

theorem cachedPrompts_chatMut (s : AppState) (c d : Uuid) (f : ChatRecord → ChatRecord) :
    cachedPrompts { s with chats := s.chats.chatMut c f } d =
      if d = c then (s.chats.get c).map (fun chat => (f chat).prompts) else cachedPrompts s d := by
  unfold cachedPrompts
  dsimp only
  rw [ChatRegistry.get_chatMut]
  by_cases h : d = c
  · rw [if_pos h, if_pos h, Option.map_map]
    rfl
  · rw [if_neg h, if_neg h]

/-- Changing a cached chat in place. -/
theorem Tends.chatMut (s : AppState) (f : ChatRecord → ChatRecord)
    (hf : ∀ chat, (f chat).prompts.map PromptRecord.mark = chat.prompts.map PromptRecord.mark) :
    Tends c ids s { s with chats := s.chats.chatMut c f } := by
  refine ⟨⟨id, by simp, fun r => ⟨rfl, fun _ => rfl⟩⟩, fun d hd => ?_, ?_, Nat.le_refl _⟩
  · rw [cachedPrompts_chatMut, if_neg hd]
  · unfold timeline
    rw [cachedPrompts_chatMut, if_pos rfl]
    unfold cachedPrompts
    cases s.chats.get c with
    | none => rfl
    | some chat => exact hf chat

theorem Tends.updatePrompt (s : AppState) {id : Uuid} (hid : id ∈ ids) (f : PromptRow → PromptRow)
    (hf : ∀ r, (f r).key = r.key) : Tends c ids s { s with store := { s.store with
      prompts := ChatRepo.updatePrompt id f s.store.prompts } } := by
  refine ⟨⟨fun r => if r.id = id then f r else r, rfl, fun r => ⟨?_, fun hn => ?_⟩⟩,
    fun _ _ => rfl, rfl, Nat.le_refl _⟩
  · dsimp only
    split
    · exact hf r
    · rfl
  · dsimp only
    rw [if_neg]
    intro he
    exact hn (he ▸ hid)

theorem marks_updatePrompt (prompts : List PromptRecord) (id : Uuid)
    (f : PromptRecord → PromptRecord) (hf : ∀ p, (f p).mark = p.mark) :
    (ChatRegistry.updatePrompt prompts id f).map PromptRecord.mark =
      prompts.map PromptRecord.mark := by
  induction prompts with
  | nil => rfl
  | cons p ps ih =>
    simp only [ChatRegistry.updatePrompt]
    split
    · simp only [List.map_cons, hf]
    · simp only [List.map_cons, ih]

theorem Tends.appendEvent (s : AppState) (id : Uuid) (ev : AgentEvent) :
    Tends c ids s { s with chats := s.chats.appendEvent c id ev } :=
  .chatMut s _ fun _ => marks_updatePrompt _ _ _ fun _ => rfl

theorem Tends.applyPatch (s : AppState) (patch : ChatRepo.Patch) :
    Tends c ids s { s with chats := s.chats.chatMut c (applyPatch patch) } :=
  .chatMut s _ fun chat => by rw [prompts_applyPatch]

end Tends

/-- What becomes of the prompt rows in one action. -/
inductive Rewrites (s s' : AppState) : Prop where
  | map (f : PromptRow → PromptRow) (hf : s'.store.prompts = s.store.prompts.map f)
      (hkey : ∀ r, (f r).key = r.key) (hn : s.nextId ≤ s'.nextId)
  | append (row : PromptRow) (hid : row.id = s.nextId)
      (ha : ChatRepo.accepts s.store.chats s.store.prompts row = true)
      (hp : s'.store.prompts = s.store.prompts ++ [row]) (hn : s'.nextId = s.nextId + 1)
  | remove (id : Uuid) (hp : s'.store.prompts = ChatRepo.deletePrompt id s.store.prompts)
      (hn : s.nextId ≤ s'.nextId)

/-- No id is used twice for a row, and none that is still to be issued is in use. -/
structure Keyed (s : AppState) : Prop where
  rows : (s.store.prompts.map PromptRow.id).Nodup
  stored : ∀ row ∈ s.store.prompts, row.id < s.nextId
  cached : ∀ c, ∀ p ∈ timeline s c, p.id < s.nextId

/-- The prompt ids a task has in hand, with the chat it works for. -/
def Errand.Holds (c id : Uuid) : Errand → Prop
  | tending d ids => d = c ∧ id ∈ ids
  | fresh d i _ => d = c ∧ i = id
  | _ => False

section Does

variable {e : Option (Site × Choice)} {r r' : Errand} {s s' : AppState} {c : Uuid} {ids : List Uuid}

theorem Untouched.rewrites (h : Untouched s s') : Rewrites s s' :=
  .map id (by simp [h.prompts]) (fun _ => rfl) h.nextId

theorem Tends.rewrites (h : Tends c ids s s') : Rewrites s s' := by
  obtain ⟨f, hf, hkey⟩ := h.rows
  exact .map f hf (fun r => (hkey r).1) h.nextId

theorem Does.rewrites (h : Does e r s r' s') : Rewrites s s' := by
  cases h with
  | now h => exact h.rewrites
  | tend h => exact h.rewrites
  | touch h => exact h.rewrites
  | take _ _ h => exact h.rewrites
  | insert hid _ _ ha => exact .append _ hid ha rfl rfl
  | remove _ => exact .remove _ rfl (Nat.le_refl _)
  | blank _ hrows _ _ hn => exact .map id (by simp [hrows]) (fun _ => rfl) hn
  | copy h =>
    rcases h.rows with ⟨⟨f, hf, hkey⟩, hn⟩ | ⟨row, hid, hp, hn, ha⟩
    · exact .map f hf hkey hn
    · exact .append row hid ha hp hn
  | revert _ _ => exact .map id (by simp) (fun _ => rfl) (Nat.le_succ _)
  | fork _ _ _ => exact .map id (by simp) (fun _ => rfl) (Nat.le_succ _)
  | _ => exact .map id (by simp) (fun _ => rfl) (Nat.le_refl _)

theorem Rewrites.nextId (h : Rewrites s s') : s.nextId ≤ s'.nextId := by
  cases h with
  | map _ _ _ hn => exact hn
  | append _ _ _ _ hn =>
    rw [hn]
    exact Nat.le_succ _
  | remove _ _ hn => exact hn

theorem id_of_key {a b : PromptRow} (h : a.key = b.key) : a.id = b.id := congrArg Prod.fst h

theorem chatId_of_key {a b : PromptRow} (h : a.key = b.key) : a.chatId = b.chatId :=
  congrArg (fun k => k.2.1) h

theorem seq_of_key {a b : PromptRow} (h : a.key = b.key) : a.seq = b.seq :=
  congrArg (fun k => k.2.2.1) h

/-- What a rewritten table holds was there before, but for a row with a new id. -/
theorem Rewrites.row (h : Rewrites s s') {row : PromptRow} (hr : row ∈ s'.store.prompts) :
    (∃ old ∈ s.store.prompts, old.key = row.key) ∨ row.id = s.nextId ∧ s'.nextId = s.nextId + 1 := by
  cases h with
  | map f hf hkey hn =>
    rw [hf] at hr
    obtain ⟨old, hold, rfl⟩ := List.mem_map.mp hr
    exact .inl ⟨old, hold, (hkey old).symm⟩
  | append new hid _ hp hn =>
    rw [hp, List.mem_append, List.mem_singleton] at hr
    rcases hr with hr | rfl
    · exact .inl ⟨row, hr, rfl⟩
    · exact .inr ⟨hid, hn⟩
  | remove id hp hn =>
    rw [hp] at hr
    exact .inl ⟨row, (List.mem_filter.mp hr).1, rfl⟩

theorem Rewrites.rows (h : Rewrites s s') (hs : (s.store.prompts.map PromptRow.id).Nodup) :
    (s'.store.prompts.map PromptRow.id).Nodup := by
  cases h with
  | map f hf hkey hn =>
    have he : s'.store.prompts.map PromptRow.id = s.store.prompts.map PromptRow.id := by
      rw [hf, List.map_map]
      exact List.map_congr_left fun r _ => id_of_key (hkey r)
    rwa [he]
  | append row _ ha hp hn =>
    rw [hp, List.map_append, List.map_singleton, List.nodup_append]
    refine ⟨hs, by simp, ?_⟩
    intro a ha' b hb he
    obtain ⟨old, hold, rfl⟩ := List.mem_map.mp ha'
    simp only [List.mem_singleton] at hb
    simp only [ChatRepo.accepts, Bool.and_eq_true, List.all_eq_true, decide_eq_true_eq] at ha
    exact (ha.2 old hold).1 (he.trans hb)
  | remove id hp hn =>
    rw [hp]
    exact hs.sublist (List.filter_sublist.map _)

/-- What one action leaves cached of a chat: marks it had before, or one new mark. -/
theorem Does.cached (h : Does e r s r' s') {d : Uuid} {p : PromptRecord} (hp : p ∈ timeline s' d) :
    (∃ b, ∃ q ∈ timeline s b, q.id = p.id) ∨ (∃ n, r = .fresh d p.id n) ∨
      p.id = s.nextId ∧ s'.nextId = s.nextId + 1 := by
  have hsame : ∀ s₁, timeline s₁ d = timeline s d → p ∈ timeline s₁ d →
      ∃ b, ∃ q ∈ timeline s b, q.id = p.id := by
    intro s₁ he hp
    exact ⟨d, p, he ▸ hp, rfl⟩
  have htends : ∀ {c ids}, Tends c ids s s' → ∃ b, ∃ q ∈ timeline s b, q.id = p.id := by
    intro c ids h
    by_cases hd : d = c
    · subst hd
      have hm : p.mark ∈ (timeline s d).map PromptRecord.mark := by
        rw [← h.marks]
        exact List.mem_map.mpr ⟨p, hp, rfl⟩
      obtain ⟨q, hq, he⟩ := List.mem_map.mp hm
      exact ⟨d, q, hq, congrArg Prod.fst he⟩
    · refine hsame s' ?_ hp
      simp only [timeline, h.others d hd]
  cases h with
  | now h => exact .inl (hsame s' (by simp [timeline, cachedPrompts, h.chats]) hp)
  | touch h => exact .inl (hsame s' (by simp [timeline, cachedPrompts, h.chats]) hp)
  | tend h => exact .inl (htends h)
  | take _ _ h => exact .inl (htends h)
  | number _ _ => exact .inl ⟨d, p, hp, rfl⟩
  | refuse => exact .inl ⟨d, p, hp, rfl⟩
  | lose => exact .inl ⟨d, p, hp, rfl⟩
  | tail _ _ => exact .inl ⟨d, p, hp, rfl⟩
  | insert => exact .inl ⟨d, p, hp, rfl⟩
  | remove _ => exact .inl ⟨d, p, hp, rfl⟩
  | copy h => exact .inl (h.ids d p hp)
  | @ingest _ _ c id n _ q hid hn =>
    simp only [timeline, cachedPrompts, ChatRegistry.ingestPrompt, ChatRegistry.get_chatMut] at hp
    split at hp
    · rename_i hd
      subst hd
      cases hget : s.chats.get d with
      | none => simp [hget] at hp
      | some chat =>
        simp only [hget, Option.map_some, Option.getD_some, List.mem_append,
          List.mem_singleton] at hp
        rcases hp with hp | rfl
        · exact .inl ⟨d, p, by simpa [timeline, cachedPrompts, hget] using hp, rfl⟩
        · exact .inr (.inl ⟨n, by rw [hid]⟩)
    · exact .inl ⟨d, p, hp, rfl⟩
  | @cut _ _ c ids gone seq _ reg _ h =>
    unfold ChatRegistry.truncateFromSeq at h
    split at h
    · cases h
    rename_i chat hget
    cases h
    simp only [timeline, cachedPrompts, ChatRegistry.get_chatMut] at hp
    split at hp
    · simp only [hget, Option.map_some, Option.getD_some] at hp
      exact .inl ⟨c, p, by simpa [timeline, cachedPrompts, hget] using (List.mem_filter.mp hp).1, rfl⟩
    · exact .inl ⟨d, p, hp, rfl⟩
  | @revert _ _ c ids _ now content q reg _ h =>
    unfold ChatRegistry.addPrompt at h
    split at h
    · cases h
    rename_i chat hget
    cases h
    simp only [timeline, cachedPrompts, ChatRegistry.get_chatMut] at hp
    split at hp
    · simp only [hget, Option.map_some, Option.getD_some, List.mem_append,
        List.mem_singleton] at hp
      rcases hp with hp | rfl
      · exact .inl ⟨c, p, by simpa [timeline, cachedPrompts, hget] using hp, rfl⟩
      · exact .inr (.inr ⟨rfl, rfl⟩)
    · exact .inl ⟨d, p, hp, rfl⟩
  | @blank _ _ c b _ _ _ _ _ hothers hempty _ =>
    by_cases hd : d = b
    · rw [hd, hempty] at hp
      cases hp
    · exact .inl (hsame s' (by simp only [timeline, hothers d hd]) hp)
  | @fork _ _ c ids _ now seq chat reg _ _ h =>
    unfold ChatRegistry.fork at h
    split at h
    · cases h
    rename_i source hget
    dsimp only at h
    split at h
    · cases h
    cases h
    simp only [timeline, cachedPrompts, ChatRegistry.get_ingestChat] at hp
    split at hp
    · simp only [Option.map_some, Option.getD_some] at hp
      exact .inl ⟨c, p, by simpa [timeline, cachedPrompts, hget] using (List.mem_filter.mp hp).1, rfl⟩
    · exact .inl ⟨d, p, hp, rfl⟩

theorem Keyed.does (hs : Keyed s) (h : Does e r s r' s')
    (hr : ∀ c id, r.Holds c id → id < s.nextId) : Keyed s' := by
  have hn := h.rewrites.nextId
  refine ⟨h.rewrites.rows hs.rows, fun row hrow => ?_, fun d p hp => ?_⟩
  · rcases h.rewrites.row hrow with ⟨old, hold, he⟩ | ⟨hid, hn⟩
    · rw [← id_of_key he]
      exact Nat.lt_of_lt_of_le (hs.stored old hold) hn
    · rw [hid, hn]
      exact Nat.lt_succ_self _
  · rcases h.cached hp with ⟨b, q, hq, he⟩ | ⟨n, rfl⟩ | ⟨hid, hn⟩
    · rw [← he]
      exact Nat.lt_of_lt_of_le (hs.cached b q hq) hn
    · exact Nat.lt_of_lt_of_le (hr d p.id ⟨rfl, rfl⟩) hn
    · rw [hid, hn]
      exact Nat.lt_succ_self _

end Does

section Startup

/-- A restart caches a chat as its row and its stored prompts say. -/
theorem hydrate_row {store : Store} {c : Uuid} {chat : ChatRecord}
    (h : (hydrateFromStore store).get c = some chat) :
    ∃ row ∈ store.chats, row.id = c ∧ chat = recordOfRow row
      ((ChatRepo.listPrompts store.prompts row.id).map promptOfRow) := by
  suffices hfold : ∀ (rows : List ChatRow) (reg : ChatRegistry), (∀ row ∈ rows, row ∈ store.chats) →
      (∀ chat, reg.get c = some chat → ∃ row ∈ store.chats, row.id = c ∧ chat = recordOfRow row
        ((ChatRepo.listPrompts store.prompts row.id).map promptOfRow)) →
      ∀ chat, (rows.foldl (fun reg row => reg.ingestChat (recordOfRow row
        ((ChatRepo.listPrompts store.prompts row.id).map promptOfRow))) reg).get c = some chat →
        ∃ row ∈ store.chats, row.id = c ∧ chat = recordOfRow row
          ((ChatRepo.listPrompts store.prompts row.id).map promptOfRow) by
    refine hfold _ ChatRegistry.empty (fun row hrow => ?_) (by simp) chat h
    exact (List.mem_filter.mp ((List.mem_insertionSort _).mp hrow)).1
  intro rows
  induction rows with
  | nil => exact fun reg _ hreg => hreg
  | cons row rows ih =>
    intro reg hmem hreg
    apply ih _ fun r hr => hmem r (List.mem_cons_of_mem _ hr)
    intro chat hget
    rw [ChatRegistry.get_ingestChat] at hget
    split at hget
    · rename_i hc
      cases hget
      exact ⟨row, hmem row (by simp), hc.symm, rfl⟩
    · exact hreg chat hget

/-- A restart caches the stored prompts of the chats it caches. -/
theorem hydrate_prompts {store : Store} {c : Uuid} {chat : ChatRecord}
    (h : (hydrateFromStore store).get c = some chat) :
    chat.prompts = (ChatRepo.listPrompts store.prompts c).map promptOfRow := by
  obtain ⟨row, -, rfl, rfl⟩ := hydrate_row h
  rfl

theorem timeline_startup (now : Nat) (s : AppState) (c : Uuid) :
    timeline (startup now s) c = [] ∨
      timeline (startup now s) c = (ChatRepo.listPrompts s.store.prompts c).map promptOfRow := by
  unfold timeline cachedPrompts
  cases h : (startup now s).chats.get c with
  | none => exact .inl rfl
  | some chat => exact .inr (hydrate_prompts h)

theorem mem_startup {now : Nat} {s : AppState} {c : Uuid} {p : PromptRecord}
    (hp : p ∈ timeline (startup now s) c) :
    ∃ row ∈ s.store.prompts, row.chatId = c ∧ promptOfRow row = p := by
  rcases timeline_startup now s c with h | h
  · rw [h] at hp
    cases hp
  · rw [h] at hp
    obtain ⟨row, hrow, he⟩ := List.mem_map.mp hp
    simp only [ChatRepo.listPrompts, List.mem_insertionSort, List.mem_filter,
      decide_eq_true_eq] at hrow
    exact ⟨row, hrow.1, hrow.2, he⟩

theorem Keyed.startup {s : AppState} (now : Nat)
    (hrows : (s.store.prompts.map PromptRow.id).Nodup)
    (hstored : ∀ row ∈ s.store.prompts, row.id < s.nextId) : Keyed (startup now s) := by
  refine ⟨hrows, hstored, fun c p hp => ?_⟩
  obtain ⟨row, hrow, -, he⟩ := mem_startup hp
  rw [← he]
  exact hstored row hrow

end Startup

end AgentGrove
