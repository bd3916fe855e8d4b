import AgentGrove.Restart.Handlers

namespace AgentGrove

open Coop

section Chats

variable {fn : Fn} {c : Uuid}

/-- A stored chat is still to be cached. -/
theorem storeCreate_brings (site projectId : Uuid) (worktreeId : Option Uuid)
    (title provider model : Text) (effort : Option Text) :
    Brings False (storeCreate fn site projectId worktreeId title provider model effort) Mirrored
      (fun stored u =>
        match stored with
        | .ok row => Mirrored { u with cache := u.cache.ingestChat (recordOfRow row []) }
        | .error _ => Mirrored u) := by
  unfold storeCreate
  split
  · exact fun _ hm => hm
  · exact storeCall_brings fun _ _ hm => hm.create rfl rfl

theorem persistCreateChat_brings (projectId : Uuid) (worktreeId : Option Uuid)
    (title provider model : Text) (effort : Option Text) :
    Restartable (persistCreateChat projectId worktreeId title provider model effort) := by
  unfold persistCreateChat
  split
  · exact fun _ hm => hm
  apply (storeCreate_brings ..).andThen
  intro stored
  cases stored with
  | error e => exact fun _ hm => hm
  | ok row =>
    apply Prog.Carries.andThen (M := fun _ => Mirrored)
    · exact access_brings fun _ _ _ hm => hm
    intro _
    exact (publishOn_aloof _ _).andThen fun _ _ hm => hm

theorem createChat_restartable (projectId : Uuid) (worktreeId : Option Uuid)
    (title provider model : Text) (effort : Option Text) :
    Restartable (createChat projectId worktreeId title provider model effort) := by
  apply Aloof.andThen (access_aloof fun _ _ => rfl)
  intro known
  cases known with
  | false => exact fun _ hm => hm
  | true =>
  cases worktreeId with
  | none => exact persistCreateChat_brings ..
  | some wt =>
  apply Aloof.andThen (access_aloof fun _ _ => rfl)
  intro owner
  cases owner with
  | none => exact fun _ hm => hm
  | some owner =>
    dsimp only
    split
    · exact persistCreateChat_brings ..
    · exact fun _ hm => hm

theorem deleteChat_restartable : Restartable (deleteChat c) := by
  apply Prog.Carries.andThen (M := fun deleted u =>
    Came (Mirrored u) (fun _ => Mirrored { u with cache := u.cache.evict c }) deleted)
  · exact storeCall_brings fun w _ hm => hm.delete w.now
  intro deleted
  cases deleted with
  | error e => exact fun _ hm => hm
  | ok _ =>
    apply Prog.Carries.andThen (M := fun _ => Mirrored)
    · exact access_brings fun _ _ _ hm => hm
    exact fun _ _ hm => hm

/-- Restoring a chat that is not deleted leaves its row as it is. -/
theorem restore_live {rows : List ChatRow} (h : ChatRepo.isDeleted rows c = false) :
    ChatRepo.restore c rows = rows := by
  have hsame : ∀ r ∈ rows, (if r.id = c then { r with deletedAt := none } else r) = r := by
    intro r hr
    split
    · rename_i hid
      have hlive := List.any_eq_false.mp h r hr
      simp only [hid, true_and, decide_eq_true_eq, Option.not_isSome_iff_eq_none] at hlive
      rw [← hlive]
    · rfl
  simp only [ChatRepo.restore, ChatRepo.updateRow, List.map_congr_left hsame, List.map_id']

theorem Mirrored.get_deleted {u : Sides} (h : Mirrored u) (hd : ChatRepo.isDeleted u.rows c = true) :
    ∃ row, ChatRepo.get u.rows c = some row ∧ row.deletedAt.isSome = true := by
  obtain ⟨row, hrow, hid⟩ := List.any_eq_true.mp hd
  simp only [decide_eq_true_eq] at hid
  exact ⟨row, (find_row h.rowIds).mpr ⟨hrow, hid.1⟩, hid.2⟩

theorem restoreChat_brings : Brings True (restoreChat c)
    (fun u => Mirrored u ∧ (ChatRepo.isDeleted u.rows c = true → ChatRepo.listPrompts u.prompts c = []))
    (fun _ => Mirrored) := by
  apply Prog.Carries.andThen (M := fun restored u => Came (Mirrored u) (fun was =>
    bif was then ∃ row, ChatRepo.get u.rows c = some row ∧
      Mirrored { u with cache := u.cache.ingestChat (recordOfRow row []) }
    else Mirrored u) restored)
  · refine storeCall_brings fun w s hu => ?_
    obtain ⟨hm, hempty⟩ := hu
    dsimp only
    cases hd : ChatRepo.isDeleted s.store.chats c with
    | false =>
      simp only [sides, restore_live hd]
      exact hm
    | true =>
      obtain ⟨row, hrow, hdel⟩ := hm.get_deleted hd
      refine ⟨{ row with deletedAt := none }, ?_, hm.restore hrow hdel (hempty hd)⟩
      have hget : ChatRepo.get s.store.chats c = some row := hrow
      simp only [sides, ChatRepo.restore]
      rw [get_updateRow (f := fun r : ChatRow => { r with deletedAt := none }) fun _ => rfl, if_pos rfl,
        hget, Option.map_some]
  intro restored
  cases restored with
  | error e => exact fun _ hm => hm
  | ok was =>
  cases was with
  | false => exact fun _ hm => hm
  | true =>
  apply Prog.Carries.andThen (M := fun found u => Came (Mirrored u)
    (fun row => Mirrored { u with cache := u.cache.ingestChat (recordOfRow row []) }) found)
  · refine storeCall_brings fun w s hu => ?_
    obtain ⟨row, hrow, hm⟩ := hu
    have hget : ChatRepo.get s.store.chats c = some row := hrow
    simp only [hget]
    exact hm
  intro found
  cases found with
  | error e => exact fun _ hm => hm
  | ok row =>
    apply Prog.Carries.andThen (M := fun _ => Mirrored)
    · exact access_brings fun _ _ _ hm => hm
    exact fun _ _ hm => hm

theorem patch_restartable (title model : Option Text) (effort : Option (Option Text)) :
    Restartable (patch c title model effort) := by
  apply getChat_aloof.andThen
  intro found
  cases found with
  | none => exact fun _ hm => hm
  | some _ =>
  dsimp only
  cases nonBlank "title cannot be empty".toList title with
  | error e => exact fun _ hm => hm
  | ok title =>
  cases nonBlank "model cannot be empty".toList model with
  | error e => exact fun _ hm => hm
  | ok model =>
  apply (persistChatUpdate_brings id _ _).andThen
  intro updated
  cases updated with
  | error e => exact fun _ hm => hm
  | ok _ =>
  apply getChat_aloof.brings.andThen
  intro found
  cases found with
  | none => exact fun _ hm => hm
  | some record => exact (publishOn_aloof _ _).andThen fun _ _ hm => hm

/-- A fork that finds nothing to copy. -/
theorem forkChat_brings (seq : Nat) : Brings True (forkChat c seq)
    (fun u => Mirrored u ∧ ∀ chat ∈ u.cache.get c, ∀ q ∈ chat.prompts, seq < q.seq)
    (fun _ => Mirrored) := by
  apply Prog.Carries.andThen (M := fun found u => found = none ∧ Mirrored u)
  · refine access_brings fun w s _ hu => ?_
    obtain ⟨hm, hlate⟩ := hu
    have hnone : s.chats.fork s.nextId w.now c seq = none := by
      unfold ChatRegistry.fork
      cases hget : s.chats.get c with
      | none => rfl
      | some chat =>
        have hempty : chat.prompts.filter (fun p => p.seq ≤ seq) = [] := by
          rw [List.filter_eq_nil_iff]
          intro q hq
          simpa using hlate chat hget q hq
        simp [hempty]
    simp only [hnone]
    exact ⟨trivial, hm⟩
  intro found
  cases found with
  | none => exact fun _ hm => hm.2
  | some forked => exact .unreached _ _ fun _ hm => nomatch hm.1

theorem deletePrompts_brings (ids : List Uuid) : Brings False (deletePrompts c ids)
    (MirroredBy (fun prompts => prompts.filter (fun r => r.id ∉ ids))) (fun _ => Mirrored) := by
  induction ids with
  | nil =>
    intro u hm
    simpa [MirroredBy] using hm
  | cons p ids ih =>
    apply Prog.Carries.andThen (M := fun _ => MirroredBy (fun prompts => prompts.filter (fun r => r.id ∉ ids)))
    · refine storeCall_brings fun w s hm => ?_
      have hboth : (ChatRepo.deletePrompt p s.store.prompts).filter (fun r => r.id ∉ ids) =
          s.store.prompts.filter (fun r => r.id ∉ p :: ids) := by
        rw [ChatRepo.deletePrompt, List.filter_filter]
        apply List.filter_congr
        intro r _
        simp [Bool.and_comm]
      simp only [MirroredBy, sides, hboth]
      exact hm
    · exact fun _ => ih

theorem truncateChat_restartable (seq : Nat) : Restartable (truncateChat c seq) := by
  apply Prog.Carries.andThen (M := fun found u => found.elim (Mirrored u)
    (fun removed => MirroredBy (fun prompts => prompts.filter (fun r => r.id ∉ removed)) u))
  · refine access_brings fun w s _ hm => ?_
    cases hr : s.chats.truncateFromSeq c seq with
    | none => exact hm
    | some out => exact hm.truncate hr
  intro found
  cases found with
  | none => exact fun _ hm => hm
  | some removed =>
    apply (deletePrompts_brings removed).andThen
    intro _
    exact (publish_aloof _).andThen fun _ _ hm => hm

/-- A revert of a prompt that the chat does not have. -/
theorem revertPrompt_brings (promptId : Uuid) : Brings True (revertPrompt c promptId)
    (fun u => Mirrored u ∧ ∀ chat ∈ u.cache.get c, ∀ q ∈ chat.prompts, q.id ≠ promptId)
    (fun _ => Mirrored) := by
  apply Prog.Carries.andThen (M := fun _ => Mirrored)
  · refine access_brings fun w s _ hu => ?_
    obtain ⟨hm, hno⟩ := hu
    have hnone : (s.chats.get c).bind (fun chat => chat.prompts.find? (fun q => q.id == promptId)) = none := by
      cases hget : s.chats.get c with
      | none => rfl
      | some chat =>
        rw [Option.bind_some, List.find?_eq_none]
        intro q hq
        simpa using hno chat hget q hq
    simp only [hnone]
    exact hm
  intro found
  cases found with
  | none => exact fun _ hm => hm
  | some prompt => exact fun _ hm => hm

end Chats

end AgentGrove
