import AgentGrove.Draining.Spawns
import AgentGrove.Turns.Context

namespace AgentGrove

open Coop

/-- The ids of a chat's cached prompts. -/
def idsOf (c : Uuid) (s : AppState) : List Uuid :=
  ((s.chats.get c).map (fun chat => chat.prompts.map PromptRecord.id)).getD []

/-- The ways in which a message is dispatched directly. -/
inductive Path where
  | sendMessage (content : Text)
  | addPrompt (content : Text)
  | runNext
  | dispatchItem (item : Uuid)
  | retryChat

def Path.request (c : Uuid) : Path → Request
  | .sendMessage content => .sendMessage c content
  | .addPrompt content => .addPrompt c content
  | .runNext => .runNext c
  | .dispatchItem item => .dispatchItem c item
  | .retryChat => .retryChat c

/-- The action takes a copy of the chat. -/
def Clones (c : Uuid) (chat : ChatRecord) (call : Call) (a : TurnAction) : Prop :=
  stopsAt call a = true ∧ a.before.chats.get c = some chat

/-- The action puts the prompt at the end of the cached chat. -/
def Ingests (c : Uuid) (prompt : PromptRecord) (a : TurnAction) : Prop :=
  stopsAt .ingestPrompt a = true ∧ Cached a.before c ∧
    a.after = { a.before with chats := (a.before.chats.ingestPrompt c prompt).2 }

/-- The action clears the prompt at the end of the cached chat. -/
def Rewinds (c : Uuid) (prompt : PromptRecord) (a : TurnAction) : Prop :=
  stopsAt .retryPrompt a = true ∧ ∃ reg, a.before.chats.retryPrompt c = some (prompt, reg) ∧
    a.after = { a.before with chats := reg }

/-- How a message came to its turn: the chat was cloned and then the prompt put at its end,
or, for a retry, the prompt at its end cleared and the chat cloned then. -/
def Handed (path : Path) (c : Uuid) (chat : ChatRecord) (prompt : PromptRecord)
    (as : List TurnAction) (clone put : TurnAction) : Prop :=
  match path with
  | .retryChat => [put, clone].Sublist as ∧ Rewinds c prompt put ∧ Clones c chat .reloadChat clone
  | _ => [clone, put].Sublist as ∧ Clones c chat .cloneChat clone ∧ Ingests c prompt put

/-- The prompts that the chat holds before the message. -/
def pastOf (path : Path) (c : Uuid) (put : TurnAction) : List Uuid :=
  match path with
  | .retryChat => (idsOf c put.before).dropLast
  | _ => idsOf c put.before

section Paths

variable {E : AppState → AppState → Prop} {s s' : AppState} {as : List TurnAction} {fn : Fn}
  {c : Uuid} {path : Path} {child : Async Unit} {content : Text} {α : Type}

/-- A dispatch task that is spawned here is that of a message handed over so. -/
def HandsOver (path : Path) (c : Uuid) (as : List TurnAction) (child : Async Unit) : Prop :=
  ∃ chat prompt clone put, child = dispatchTask c chat prompt prompt.content ∧
    Handed path c chat prompt as clone put

theorem storeAddPrompt_content {row : PromptRow}
    (h : (storeAddPrompt fn c content).Traces E s as (.ret (.ok row)) s') : row.content = content := by
  obtain ⟨chat, as₁, as₂, s₁, rfl, -, h⟩ := h.of_bind_ret
  cases chat with
  | error e =>
    obtain ⟨-, he⟩ := h.of_ret
    cases he
  | ok chat =>
  obtain ⟨seq, as₃, as₄, s₂, rfl, -, h⟩ := h.of_bind_ret
  cases seq with
  | error e =>
    obtain ⟨-, he⟩ := h.of_ret
    cases he
  | ok seq =>
  obtain ⟨stored, as₅, as₆, s₃, rfl, hinsert, h⟩ := h.of_bind_ret
  cases stored with
  | error e =>
    obtain ⟨-, he⟩ := h.of_ret
    cases he
  | ok stored =>
  obtain ⟨touched, as₇, as₈, s₄, rfl, -, h⟩ := h.of_bind_ret
  cases touched with
  | error e =>
    obtain ⟨-, he⟩ := h.of_ret
    cases he
  | ok _ =>
    obtain ⟨-, he⟩ := h.of_ret
    cases he
    obtain ⟨w, s₅, -, hrow⟩ := access_returns hinsert
    split at hrow
    · cases hrow
    · dsimp only at hrow
      split at hrow
      · cases hrow
        rfl
      · cases hrow

theorem persistAddPrompt_ingests {prompt : PromptRecord}
    (h : (persistAddPrompt fn c content).Traces E s as (.ret (.ok (some prompt))) s') :
    prompt.content = content ∧ ∃ put ∈ as, Ingests c prompt put := by
  obtain ⟨stored, as₁, as₂, s₁, rfl, hstore, h⟩ := h.of_bind_ret
  cases stored with
  | error e =>
    obtain ⟨-, he⟩ := h.of_ret
    cases he
  | ok row =>
    obtain ⟨ok, as₃, as₄, s₂, rfl, hput, h⟩ := h.of_bind_ret
    obtain ⟨w, s₃, rfl, rfl⟩ := access_returns hput
    obtain ⟨rfl, he⟩ := h.of_ret
    dsimp only at he
    split at he
    · next hok =>
      cases he
      refine ⟨storeAddPrompt_content hstore, _, List.mem_append_right _ (List.mem_append_left _ (List.mem_singleton_self _)),
        rfl, hok, rfl⟩
    · cases he

/-- What is left after a spawn of the dispatch task. -/
theorem spawnDispatchTask_child {chat : ChatRecord} {prompt : PromptRecord} {body : Text}
    {f : Unit → Async α} {next : Async α}
    (h : ((spawnDispatchTask c chat prompt body).bind f).Traces E s as
      (.spawn (.dispatch c) child next) s') (hf : (f ()).Spawns (fun _ _ => False)) :
    child = dispatchTask c chat prompt body := by
  cases h with
  | rest => rfl
  | others hp => exact hp.elim
  | spawn h => exact (h.spawns hf).1.elim

/-- What a handler does first does not change how the message is handed over. -/
theorem HandsOver.later (front : List TurnAction) (h : HandsOver path c as child) :
    HandsOver path c (front ++ as) child := by
  obtain ⟨chat, prompt, clone, put, hchild, hhanded⟩ := h
  refine ⟨chat, prompt, clone, put, hchild, ?_⟩
  cases path <;> exact ⟨hhanded.1.trans (List.sublist_append_right _ _), hhanded.2⟩

/-- The chat is cloned and then the message appended. -/
theorem appended_hands {chat : ChatRecord} {prompt : PromptRecord} {clone : TurnAction}
    {rest : List TurnAction} (hpath : path ≠ .retryChat) (hclone : Clones c chat .cloneChat clone)
    (hput : (persistAddPrompt fn c content).Traces E s as (.ret (.ok (some prompt))) s')
    (hchild : child = dispatchTask c chat prompt content) :
    HandsOver path c ([clone] ++ (as ++ rest)) child := by
  obtain ⟨rfl, put, hmem, hp⟩ := persistAddPrompt_ingests hput
  have hrest : [put].Sublist (as ++ rest) := List.singleton_sublist.mpr (List.mem_append_left _ hmem)
  have horder : [clone, put].Sublist ([clone] ++ (as ++ rest)) := (List.Sublist.refl [clone]).append hrest
  refine ⟨chat, prompt, clone, put, hchild, ?_⟩
  cases path with
  | retryChat => exact absurd rfl hpath
  | _ => exact ⟨horder, hclone, hp⟩

/-- A drain that is spawned is no dispatch. -/
theorem spawnDrainTask_child {f : Unit → Async α} {next : Async α}
    (h : ((spawnDrainTask c).bind f).Traces E s as (.spawn (.dispatch c) child next) s')
    (hf : (f ()).Spawns (fun _ _ => False)) : False := by
  cases h with
  | others hp => exact hp.elim
  | spawn h => exact h.no_spawn hf

theorem needKick_spawns {K : Tag → Async Unit → Prop} (isBusy : Bool) :
    (needKick c isBusy).Spawns K := by
  unfold needKick
  split
  · trivial
  · exact isAuto_spawns

theorem sendMessage_hands {next : Async (Except Failure SendMessageResponse)}
    (h : (sendMessage c content).Traces E s as (.spawn (.dispatch c) child next) s') :
    HandsOver (.sendMessage content) c as child := by
  obtain ⟨_, as₁, as₂, s₁, rfl, -, h⟩ := h.behind lockRouting_spawns
  apply HandsOver.later
  obtain ⟨known, as₃, as₄, s₂, rfl, -, h⟩ := h.behind access_spawns
  apply HandsOver.later
  cases known with
  | none => exact (h.no_spawn (leave_spawns _)).elim
  | some _ =>
  obtain ⟨isBusy, as₅, as₆, s₃, rfl, -, h⟩ := h.behind atOnce_spawns
  apply HandsOver.later
  obtain ⟨queue, as₇, as₈, s₄, rfl, -, h⟩ := h.behind readState_spawns
  apply HandsOver.later
  split at h
  · -- The message is queued: at most a drain is spawned.
    obtain ⟨queued, as₉, as₁₀, s₅, rfl, -, h⟩ := h.behind (enqueueItem_spawns _)
    cases queued with
    | error e => exact (h.no_spawn (leave_spawns _)).elim
    | ok item =>
    obtain ⟨kick, as₁₁, as₁₂, s₆, rfl, -, h⟩ := h.behind (needKick_spawns _)
    cases kick with
    | false => exact (h.no_spawn (leave_spawns _)).elim
    | true =>
      obtain ⟨_, as₁₃, as₁₄, s₇, rfl, -, h⟩ := h.behind atOnce_spawns
      obtain ⟨_, as₁₅, as₁₆, s₈, rfl, -, h⟩ := h.behind atOnce_spawns
      exact (spawnDrainTask_child h trivial).elim
  · obtain ⟨_, as₉, as₁₀, s₅, rfl, -, h⟩ := h.behind atOnce_spawns
    apply HandsOver.later
    obtain ⟨found, as₁₁, as₁₂, s₆, rfl, hclone, h⟩ := h.behind access_spawns
    obtain ⟨w, s₇, rfl, rfl⟩ := access_returns hclone
    cases hchat : s₇.chats.get c with
    | none =>
      simp only [hchat] at h
      exact (h.no_spawn (leave_spawns _)).elim
    | some chat =>
      simp only [hchat] at h
      obtain ⟨stored, as₁₃, as₁₄, s₈, rfl, hput, h⟩ := h.behind (persistAddPrompt_spawns _)
      split at h
      · exact (h.no_spawn (leave_spawns _)).elim
      · exact (h.no_spawn (leave_spawns _)).elim
      · obtain ⟨_, as₁₅, as₁₆, s₉, rfl, -, h⟩ := h.behind atOnce_spawns
        exact appended_hands (by simp) ⟨rfl, hchat⟩ hput (spawnDispatchTask_child h trivial)

theorem addPrompt_hands {next : Async (Except Failure PromptRecord)}
    (h : (addPrompt c content).Traces E s as (.spawn (.dispatch c) child next) s') :
    HandsOver (.addPrompt content) c as child := by
  obtain ⟨_, as₁, as₂, s₁, rfl, -, h⟩ := h.behind lockRouting_spawns
  apply HandsOver.later
  obtain ⟨found, as₃, as₄, s₂, rfl, hclone, h⟩ := h.behind access_spawns
  obtain ⟨w, s₃, rfl, rfl⟩ := access_returns hclone
  cases hchat : s₃.chats.get c with
  | none =>
    simp only [hchat] at h
    exact (h.no_spawn (leave_spawns _)).elim
  | some chat =>
    simp only [hchat] at h
    obtain ⟨stored, as₅, as₆, s₄, rfl, hput, h⟩ := h.behind (persistAddPrompt_spawns _)
    split at h
    · exact (h.no_spawn (leave_spawns _)).elim
    · exact (h.no_spawn (leave_spawns _)).elim
    · obtain ⟨_, as₇, as₈, s₅, rfl, -, h⟩ := h.behind atOnce_spawns
      obtain ⟨_, as₉, as₁₀, s₆, rfl, -, h⟩ := h.behind atOnce_spawns
      exact appended_hands (by simp) ⟨rfl, hchat⟩ hput (spawnDispatchTask_child h trivial)

/-- The two verbs that dispatch a queued message. -/
theorem popAndDispatch_hands {pop : Async (Except QueueError (Option QueueItem))}
    {next : Async (Except Failure QueueItem)} (hpath : path ≠ .retryChat)
    (hpop : pop.Spawns (fun _ _ => False))
    (h : (popAndDispatch fn c pop).Traces E s as (.spawn (.dispatch c) child next) s') :
    HandsOver path c as child := by
  obtain ⟨_, as₁, as₂, s₁, rfl, -, h⟩ := h.behind lockRouting_spawns
  apply HandsOver.later
  obtain ⟨busy, as₃, as₄, s₂, rfl, -, h⟩ := h.behind atOnce_spawns
  apply HandsOver.later
  cases busy with
  | true => exact (h.no_spawn (leave_spawns _)).elim
  | false =>
  obtain ⟨popped, as₅, as₆, s₃, rfl, -, h⟩ := h.behind hpop
  apply HandsOver.later
  split at h
  · exact (h.no_spawn (leave_spawns _)).elim
  · exact (h.no_spawn (leave_spawns _)).elim
  next item =>
  obtain ⟨found, as₇, as₈, s₄, rfl, hclone, h⟩ := h.behind access_spawns
  obtain ⟨w, s₅, rfl, rfl⟩ := access_returns hclone
  cases hchat : s₅.chats.get c with
  | none =>
    simp only [hchat] at h
    exact (h.no_spawn (leave_spawns _)).elim
  | some chat =>
    simp only [hchat] at h
    obtain ⟨stored, as₉, as₁₀, s₆, rfl, hput, h⟩ := h.behind (persistAddPrompt_spawns _)
    split at h
    · obtain ⟨_, as₁₁, as₁₂, s₇, rfl, -, h⟩ := h.behind atOnce_spawns
      obtain ⟨_, as₁₃, as₁₄, s₈, rfl, -, h⟩ := h.behind atOnce_spawns
      obtain ⟨_, as₁₅, as₁₆, s₉, rfl, -, h⟩ := h.behind storeCall_spawns
      obtain ⟨_, as₁₇, as₁₈, s₁₀, rfl, -, h⟩ := h.behind atOnce_spawns
      exact appended_hands hpath ⟨rfl, hchat⟩ hput (spawnDispatchTask_child h trivial)
    · exact (h.no_spawn (leave_spawns _)).elim

theorem retryChat_hands {next : Async (Except Failure PromptRecord)}
    (h : (retryChat c).Traces E s as (.spawn (.dispatch c) child next) s') :
    HandsOver .retryChat c as child := by
  obtain ⟨_, as₁, as₂, s₁, rfl, -, h⟩ := h.behind lockRouting_spawns
  apply HandsOver.later
  obtain ⟨known, as₃, as₄, s₂, rfl, -, h⟩ := h.behind access_spawns
  apply HandsOver.later
  cases known with
  | none => exact (h.no_spawn (leave_spawns _)).elim
  | some known =>
  dsimp only at h
  split at h
  · exact (h.no_spawn (leave_spawns _)).elim
  obtain ⟨busy, as₅, as₆, s₃, rfl, -, h⟩ := h.behind atOnce_spawns
  apply HandsOver.later
  cases busy with
  | true => exact (h.no_spawn (leave_spawns _)).elim
  | false =>
  obtain ⟨found, as₇, as₈, s₄, rfl, hput, h⟩ := h.behind access_spawns
  obtain ⟨w, s₅, rfl, rfl⟩ := access_returns hput
  cases hlast : s₅.chats.retryPrompt c with
  | none =>
    simp only [hlast] at h
    exact (h.no_spawn (leave_spawns _)).elim
  | some out =>
    simp only [hlast] at h
    obtain ⟨_, as₉, as₁₀, s₆, rfl, -, h⟩ := h.behind (persistPromptEvents_calm _ rfl rfl).spawns
    obtain ⟨_, as₁₁, as₁₂, s₇, rfl, -, h⟩ := h.behind storeCall_spawns
    obtain ⟨found, as₁₃, as₁₄, s₈, rfl, hclone, h⟩ := h.behind access_spawns
    obtain ⟨w', s₉, rfl, rfl⟩ := access_returns hclone
    cases hchat : s₉.chats.get c with
    | none =>
      simp only [hchat] at h
      exact (h.no_spawn (leave_spawns _)).elim
    | some chat =>
      simp only [hchat] at h
      obtain ⟨_, as₁₅, as₁₆, s₁₀, rfl, -, h⟩ := h.behind atOnce_spawns
      obtain ⟨_, as₁₇, as₁₈, s₁₁, rfl, -, h⟩ := h.behind atOnce_spawns
      have hchild := spawnDispatchTask_child h trivial
      refine ⟨chat, out.1, ⟨some (⟨.retryChat, c, .reloadChat⟩, w'), s₉, s₉⟩,
        ⟨some (⟨.retryChat, c, .retryPrompt⟩, w), s₅, { s₅ with chats := out.2 }⟩, hchild, ?_,
        ⟨rfl, out.2, hlast, rfl⟩, ⟨rfl, hchat⟩⟩
      refine (List.Sublist.refl [_]).append (List.singleton_sublist.mpr ?_)
      exact List.mem_append_right _ (List.mem_append_right _ (List.mem_append_left _
        (List.mem_singleton_self _)))

/-- Whatever way a message takes, it is handed over as that way says. -/
theorem handle_hands {next : Async Unit}
    (h : (handle (path.request c)).Traces E s as (.spawn (.dispatch c) child next) s') :
    HandsOver path c as child := by
  have hrespond : ∀ {β : Type} {request : Request} {render : β → Response}
      {handler : Async (Except Failure β)},
      (respond request render handler).Traces E s as (.spawn (.dispatch c) child next) s' →
        ∃ next', handler.Traces E s as (.spawn (.dispatch c) child next') s' := by
    intro β request render handler h
    rcases h.of_bind_spawn with h | ⟨out, as₁, as₂, s₁, -, -, h⟩
    · exact h
    · cases out <;> exact (h.no_spawn atOnce_spawns).elim
  cases path with
  | sendMessage content =>
    obtain ⟨next', h⟩ := hrespond h
    exact sendMessage_hands h
  | addPrompt content =>
    obtain ⟨next', h⟩ := hrespond h
    exact addPrompt_hands h
  | runNext =>
    obtain ⟨next', h⟩ := hrespond h
    exact popAndDispatch_hands (by simp) storeCall_spawns h
  | dispatchItem item =>
    obtain ⟨next', h⟩ := hrespond h
    exact popAndDispatch_hands (by simp) storeCall_spawns h
  | retryChat =>
    obtain ⟨next', h⟩ := hrespond h
    exact retryChat_hands h

end Paths

/-- A message handed over by whatever path, to a turn of whatever course, is told with exactly
the prompts before it: in just those cases where the chat was cloned while it held these. -/
theorem context_is_past {path : Path} {c : Uuid} {child next : Async Unit}
    {E : AppState → AppState → Prop} {s s' : AppState} {as : List TurnAction}
    (h : (handle (path.request c)).Traces E s as (.spawn (.dispatch c) child next) s') :
    ∃ chat prompt clone put, child = dispatchTask c chat prompt prompt.content ∧
      Handed path c chat prompt as clone put ∧
      (isCompactCommand prompt.content = false →
        (TellsPast c chat prompt prompt.content (pastOf path c put) ↔
          idsOf c clone.before = pastOf path c put)) := by
  obtain ⟨chat, prompt, clone, put, hchild, hhanded⟩ := handle_hands h
  refine ⟨chat, prompt, clone, put, hchild, hhanded, fun hcompact => ?_⟩
  have hclone : clone.before.chats.get c = some chat := by
    cases path with
    | retryChat => exact hhanded.2.2.2
    | _ => exact hhanded.2.1.2
  have hids : idsOf c clone.before = chat.prompts.map PromptRecord.id := by
    rw [idsOf, hclone]
    rfl
  rw [tellsPast_iff hcompact, hids]

/-- A second message for an idle chat. -/
def secondMessage : Async Unit := handle (.sendMessage 1 ['b'])

theorem context_is_past_second : ∃ as child next s',
    secondMessage.Traces (fun _ _ => True) (serve oneMessage 10 [['p']]) as
      (.spawn (.dispatch 1) child next) s' ∧
      ∃ chat prompt clone put, child = dispatchTask 1 chat prompt prompt.content ∧
        Handed (.sendMessage ['b']) 1 chat prompt as clone put ∧
        (isCompactCommand prompt.content = false →
          (TellsPast 1 chat prompt prompt.content (pastOf (.sendMessage ['b']) 1 put) ↔
            idsOf 1 clone.before = pastOf (.sendMessage ['b']) 1 put)) := by
  have hrun : ((secondMessage.alone (List.replicate 9 {}) (serve oneMessage 10 [['p']])).bind
      (fun mid => mid.2.1.resume {} mid.2.2)).map (fun out => out.2.2.map Prod.fst) =
        some [.dispatch 1] := by decide
  obtain ⟨child, as, next, s', ht, -⟩ :=
    Prog.alone_child (fun _ _ => True) hrun (List.mem_singleton_self _)
  exact ⟨as, child, next, s', ht, @context_is_past (.sendMessage ['b']) 1 _ _ _ _ _ _ ht⟩

/-- A retry that nobody interferes with tells the message as the last of what was before it. -/
theorem retry_tells_message_twice : ¬ ∀ (path : Path) (c : Uuid) (child next : Async Unit)
    (s s' : AppState) (as : List TurnAction), (handle (path.request c)).Traces (fun _ _ => False) s as
      (.spawn (.dispatch c) child next) s' →
    ∀ chat prompt clone put, Handed path c chat prompt as clone put →
      isCompactCommand prompt.content = false →
      TellsPast c chat prompt prompt.content (pastOf path c put) := by
  intro hclaim
  have hrun : (((handle (.retryChat 1)).alone (List.replicate 6 {}) (serve oneMessage 10 [['p']])).bind
      (fun mid => mid.2.1.resume {} mid.2.2)).map (fun out => out.2.2.map Prod.fst) =
        some [.dispatch 1] := by decide
  obtain ⟨child, as, next, s', ht, out, hout, has⟩ :=
    Prog.alone_child (fun _ _ => False) hrun (List.mem_singleton_self _)
  -- All the way the chat holds its one message, and that is the one to be told.
  have hsteps : ((handle (.retryChat 1)).alone (List.replicate 7 {}) (serve oneMessage 10 [['p']])).map
      (fun out => out.1.all (fun a => idsOf 1 a.before = [2] ∧
        (a.before.chats.retryPrompt 1).map (fun out => out.1.content) = some ['a'])) = some true := by
    decide
  have hout : (handle (.retryChat 1)).alone (List.replicate 7 {}) (serve oneMessage 10 [['p']]) =
      some out := hout
  rw [hout, Option.map_some, Option.some.injEq, List.all_eq_true] at hsteps
  obtain ⟨chat, prompt, clone, put, -, horder, hput, hclone⟩ := @handle_hands _ _ _ _ 1 .retryChat _ _ ht
  have hall : ∀ a ∈ [put, clone], idsOf 1 a.before = [2] ∧
      (a.before.chats.retryPrompt 1).map (fun out => out.1.content) = some ['a'] := by
    intro a ha
    simpa using hsteps a (has.subset (horder.subset ha))
  obtain ⟨reg, hlast, -⟩ := hput.2
  have hcontent : prompt.content = ['a'] := by
    have hp := (hall put (by simp)).2
    rw [hlast] at hp
    exact Option.some.inj hp
  have htold := hclaim .retryChat 1 child next _ s' as ht chat prompt clone put ⟨horder, hput, hclone⟩
    (by rw [hcontent]; decide)
  rw [tellsPast_iff (by rw [hcontent]; decide), pastOf, (hall put (by simp)).1] at htold
  have hids := (hall clone (by simp)).1
  rw [idsOf, hclone.2] at hids
  exact absurd (htold.symm.trans hids) (by decide)

end AgentGrove
