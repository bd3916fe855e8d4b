import AgentGrove.Proofs.TurnFrame

namespace AgentGrove

open Coop

abbrev Task := Thread Site Tag Choice AppState

/-- A dispatch or drain task of a chat that has not ended. -/
def Live (t : Task) (c : Uuid) : Prop :=
  (t.tag = .dispatch c ∨ t.tag = .drain c) ∧ t.finished = false

instance (t : Task) (c : Uuid) : Decidable (Live t c) := inferInstanceAs (Decidable (_ ∧ _))

theorem finished_of_site {t : Task} {x : Site} (h : t.site = some x) : t.finished = false := by
  obtain ⟨tag, prog⟩ := t
  cases prog with
  | ret a => cases h
  | _ => rfl

theorem site_of_unfinished {t : Task} (hr : t.prog.Resting) (h : t.finished = false) :
    ∃ x, t.site = some x := by
  obtain ⟨tag, prog⟩ := t
  cases prog with
  | ret a => cases h
  | await site act next => exact ⟨site, rfl⟩
  | loop site b body next => exact ⟨site, rfl⟩
  | sync act next => exact hr.elim
  | spawn tag child next => exact hr.elim

section Primitives

variable {ρ α β ε : Type} {P : Protocol Site Tag Choice AppState ρ} {t : Tag} {r : ρ}
  {fn : Fn} {chat : Uuid} {call : Call}

theorem access_follows {act : Choice → AppState → AppState × β} {Q : β → ρ → Prop}
    (hr : P.rest t (some ⟨fn, chat, call⟩) r)
    (h : ∀ w s, P.sees r s → ∃ r', P.move (some (⟨fn, chat, call⟩, w)) r s r' (act w s).1 ∧
      Q (act w s).2 r') :
    P.Follows t (access fn chat call act) r Q := by
  refine ⟨hr, fun w s s' b hs ha => ?_⟩
  have he : act w s = (s', b) := Option.some.inj ha
  have hw := h w s hs
  rwa [he] at hw

theorem storeCall_follows {err : ε} {act : Choice → AppState → AppState × Except ε β}
    {Q : Except ε β → ρ → Prop} (hr : P.rest t (some ⟨fn, chat, call⟩) r)
    (hfail : ∀ w s, P.sees r s → w.fail = true →
      ∃ r', P.move (some (⟨fn, chat, call⟩, w)) r s r' s ∧ Q (.error err) r')
    (h : ∀ w s, P.sees r s → w.fail = false →
      ∃ r', P.move (some (⟨fn, chat, call⟩, w)) r s r' (act w s).1 ∧ Q (act w s).2 r') :
    P.Follows t (storeCall fn chat call err act) r Q := by
  refine access_follows hr fun w s hs => ?_
  cases hw : w.fail with
  | true =>
    simp only [↓reduceIte]
    exact hfail w s hs hw
  | false =>
    simp only [Bool.false_eq_true, ↓reduceIte]
    exact h w s hs hw

theorem atOnce_follows {act : AppState → AppState × β} {Q : β → ρ → Prop}
    (h : ∀ s, P.sees r s → ∃ r', P.move none r s r' (act s).1 ∧ Q (act s).2 r') :
    P.Follows t (atOnce act) r Q :=
  h

theorem getChat_follows {Q : Option ChatRecord → ρ → Prop}
    (hr : P.rest t (some ⟨fn, chat, call⟩) r)
    (h : ∀ w s, P.sees r s → ∃ r', P.move (some (⟨fn, chat, call⟩, w)) r s r' s ∧
      Q (s.chats.get chat) r') :
    P.Follows t (getChat fn chat call) r Q :=
  access_follows hr h

theorem spawn_follows {tag : Tag} {child : Async Unit} {rc r' : ρ} {Q : Unit → ρ → Prop}
    (hf : P.fork r tag rc r') (hr : child.Resting)
    (hc : P.Follows tag child rc (fun _ x => P.rest tag none x)) (hq : Q () r') :
    P.Follows t (.spawn tag child (.ret ())) r Q :=
  ⟨rc, r', hf, hr, hc, hq⟩

/-- A loop that comes back to its head in the role it left it in. -/
theorem loop_follows {site : Site} {b : α} {body : α → Async (α ⊕ β)} {Q : β → ρ → Prop}
    (hr : P.rest t (some site) r) (hm : ∀ w s, P.move (some (site, w)) r s r s)
    (hb : ∀ b, P.Follows t (body b) r (fun x r' =>
      match x with
      | .inl _ => r' = r
      | .inr c => Q c r')) : P.Follows t (.loop site b body .ret) r Q := by
  refine ⟨fun _ x => x = r, rfl, ?_⟩
  rintro b _ rfl
  exact ⟨hr, fun w s _ => ⟨_, hm w s, hb b⟩⟩

end Primitives

section Tables

variable {c : Uuid}

theorem get_updateRow {f : ChatRow → ChatRow} (hf : ∀ r, (f r).id = r.id) (rows : List ChatRow)
    (d : Uuid) : ChatRepo.get (ChatRepo.updateRow c f rows) d =
      if d = c then (ChatRepo.get rows c).map f else ChatRepo.get rows d := by
  unfold ChatRepo.get ChatRepo.updateRow
  induction rows with
  | nil => simp
  | cons r rows ih =>
    by_cases hd : d = c
    · subst hd
      simp only [↓reduceIte] at ih ⊢
      by_cases h : r.id = d
      · simp [h, hf]
      · simp [h, ih]
    · rw [if_neg hd] at ih ⊢
      by_cases h : r.id = c
      · simp [h, hf, ih, Ne.symm hd]
      · by_cases h' : r.id = d
        · simp [h', hd]
        · simp [h, h', ih]

theorem seq_lt_nextSeq {prompts : List PromptRow} {q : PromptRow} (hq : q ∈ prompts)
    (hc : q.chatId = c) : q.seq < ChatRepo.nextSeq prompts c := by
  suffices h : ∀ l : List PromptRow, q ∈ l →
      q.seq ≤ l.foldr (fun p n => max p.seq n) 0 by
    have hle := h (prompts.filter (fun p => p.chatId = c)) (List.mem_filter.mpr ⟨hq, by simpa using hc⟩)
    unfold ChatRepo.nextSeq
    omega
  intro l hl
  induction l with
  | nil => cases hl
  | cons p l ih =>
    simp only [List.foldr_cons]
    rcases List.mem_cons.mp hl with rfl | hl
    · omega
    · have := ih hl
      omega

theorem nextSeq_fresh {prompts : List PromptRow} {q : PromptRow} (hq : q ∈ prompts)
    (hc : q.chatId = c) : q.seq ≠ ChatRepo.nextSeq prompts c :=
  Nat.ne_of_lt (seq_lt_nextSeq hq hc)

theorem not_accepts {s : AppState} {row : PromptRow}
    (h : ¬ ChatRepo.accepts s.store.chats s.store.prompts row = true) :
    ¬ Stored s row.chatId ∨ ∃ r ∈ s.store.prompts,
      r.id = row.id ∨ r.chatId = row.chatId ∧ r.seq = row.seq := by
  by_cases hs : Stored s row.chatId
  · refine .inr ?_
    by_contra hn
    push Not at hn
    refine h ?_
    simp only [ChatRepo.accepts, Bool.and_eq_true, List.any_eq_true, List.all_eq_true,
      decide_eq_true_eq]
    obtain ⟨row', hrow', hid⟩ := List.mem_map.mp ((stored_iff s _).mp hs)
    exact ⟨⟨row', hrow', hid⟩, fun p hp => ⟨(hn p hp).1, fun he => (hn p hp).2 he.1 he.2⟩⟩
  · exact .inl hs

theorem prompts_applyPatch (patch : ChatRepo.Patch) (chat : ChatRecord) :
    (applyPatch patch chat).prompts = chat.prompts := by
  unfold applyPatch
  cases patch.title <;> cases patch.model <;> cases patch.effort <;> cases patch.sessionId <;>
    dsimp only <;> split <;> rfl

theorem ingest_quiet (s : AppState) (c : Uuid) (p : PromptRecord) :
    Quiet s { s with chats := (s.chats.ingestPrompt c p).2 } :=
  .chatMut s c _

theorem headPending_mem {items : List QueueItemRow} {i : QueueItemRow}
    (h : QueueRepo.headPending items c = some i) :
    i ∈ items ∧ i.chatId = c ∧ QueueRepo.isPending i = true := by
  have hm := List.mem_of_head? h
  rw [List.mem_insertionSort, List.mem_filter] at hm
  have hp : i.chatId = c ∧ QueueRepo.isPending i = true := by simpa using hm.2
  exact ⟨hm.1, hp.1, hp.2⟩

theorem not_running {i : QueueItemRow} (h : QueueRepo.isPending i = true) :
    QueueRepo.isRunning i = false := by
  have hs : i.status = .pending := by simpa [QueueRepo.isPending] using h
  simp [QueueRepo.isRunning, hs]

theorem dispatchTask_resting (chat : ChatRecord) (prompt : PromptRecord) (body : Text) :
    (dispatchTask c chat prompt body).Resting := by
  unfold dispatchTask resolveCwd worktreePath
  cases chat.worktreeId <;> trivial

end Tables

end AgentGrove
