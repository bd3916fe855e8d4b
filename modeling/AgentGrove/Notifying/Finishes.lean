import AgentGrove.Coop.Falls
import AgentGrove.Model.ActiveChats

namespace AgentGrove.Notify

open App (makeKey)
open Coop (falls)

variable {rows : List ActiveChat} {r : Rail} {w w' : Watch} {chat : Text}

/-- A chat is among those at work. -/
def works (chat : Text) (rows : List ActiveChat) : Bool := rows.any fun row => row.chatId = chat

section Sets

variable {set l : List Text} {t : Text}

theorem mem_addOnce : t ∈ addOnce set chat ↔ t ∈ set ∨ t = chat := by
  unfold addOnce
  split
  · rename_i h
    exact ⟨Or.inl, fun ht => ht.elim id fun he => he ▸ h⟩
  · simp

theorem addOnce_nodup (h : set.Nodup) : (addOnce set chat).Nodup := by
  unfold addOnce
  split
  · exact h
  · rename_i hnew
    rw [← List.concat_eq_append]
    exact h.concat hnew

theorem mem_foldl_addOnce : t ∈ l.foldl addOnce set ↔ t ∈ set ∨ t ∈ l := by
  induction l generalizing set with
  | nil => simp
  | cons x l ih =>
    rw [List.foldl_cons, ih, mem_addOnce, List.mem_cons]
    exact or_assoc

theorem foldl_addOnce_nodup (h : set.Nodup) : (l.foldl addOnce set).Nodup := by
  induction l generalizing set with
  | nil => exact h
  | cons x l ih => exact ih (addOnce_nodup h)

theorem mem_chatIds : chat ∈ chatIds rows ↔ works chat rows = true := by
  rw [chatIds, mem_foldl_addOnce, works, List.any_eq_true]
  simp

theorem chatIds_nodup : (chatIds rows).Nodup := foldl_addOnce_nodup List.nodup_nil

end Sets

/-- The dots of a rail: none in the scope that is shown. -/
def Rail.Seen (r : Rail) : Prop := ∀ key, r.store.currentScopeKey = some key → key ∉ r.completedScopes

/-- A rail knows of the last answer what another one does. -/
def Rail.Recalls (r r' : Rail) : Prop :=
  r.firstActivePoll = r'.firstActivePoll ∧ r.prevActiveChatIds = r'.prevActiveChatIds ∧
    r.activeChatScopes = r'.activeChatScopes

section Dots

theorem clear_seen (r : Rail) : r.clearScopeCompleted.Seen := by
  unfold Rail.clearScopeCompleted
  split
  · rename_i key hkey
    intro k hk hmem
    obtain rfl := Option.some.inj (hkey.symm.trans hk)
    simpa using (List.mem_filter.mp hmem).2
  · rename_i hnone
    intro k hk
    exact absurd (hnone.symm.trans hk) (by simp)

theorem clear_rest (r : Rail) : r.clearScopeCompleted.firstActivePoll = r.firstActivePoll ∧
    r.clearScopeCompleted.prevActiveChatIds = r.prevActiveChatIds ∧
    r.clearScopeCompleted.activeChatScopes = r.activeChatScopes := by
  unfold Rail.clearScopeCompleted
  split <;> exact ⟨rfl, rfl, rfl⟩

theorem clear_subset (r : Rail) {key : Text} (h : key ∈ r.clearScopeCompleted.completedScopes) :
    key ∈ r.completedScopes := by
  unfold Rail.clearScopeCompleted at h
  split at h
  · exact List.mem_of_mem_filter h
  · exact h

theorem mark_store (r : Rail) (scope : Text × Option Text) : (r.markScopeCompleted scope).store = r.store := by
  unfold Rail.markScopeCompleted
  split <;> rfl

theorem mem_mark {scope : Text × Option Text} {key : Text}
    (h : key ∈ (r.markScopeCompleted scope).completedScopes) :
    key ∈ r.completedScopes ∨ key = makeKey scope.1 scope.2 ∧ r.store.currentScopeKey ≠ some key := by
  unfold Rail.markScopeCompleted at h
  split at h
  · exact Or.inl h
  · rename_i hne
    rcases mem_addOnce.mp h with h | rfl
    · exact Or.inl h
    · exact Or.inr ⟨rfl, hne⟩

theorem marks_store (scopes : List (Text × Option Text)) (r : Rail) :
    (scopes.foldl Rail.markScopeCompleted r).store = r.store := by
  induction scopes generalizing r with
  | nil => rfl
  | cons scope scopes ih => exact (ih _).trans (mark_store r scope)

theorem mem_marks {scopes : List (Text × Option Text)} {key : Text}
    (h : key ∈ (scopes.foldl Rail.markScopeCompleted r).completedScopes) : key ∈ r.completedScopes ∨
      (∃ scope ∈ scopes, key = makeKey scope.1 scope.2) ∧ r.store.currentScopeKey ≠ some key := by
  induction scopes generalizing r with
  | nil => exact Or.inl h
  | cons scope scopes ih =>
    rcases ih h with h | ⟨⟨other, hmem, he⟩, hne⟩
    · rcases mem_mark h with h | ⟨he, hne⟩
      · exact Or.inl h
      · exact Or.inr ⟨⟨scope, List.mem_cons_self, he⟩, hne⟩
    · exact Or.inr ⟨⟨other, List.mem_cons_of_mem _ hmem, he⟩, mark_store r scope ▸ hne⟩

end Dots

section Polls

theorem poll_store : (r.poll rows).1.store = r.store := marks_store _ _

theorem mem_finished : chat ∈ r.finished rows ↔ r.firstActivePoll = false ∧ chat ∈ r.prevActiveChatIds ∧
    works chat rows = false ∧ r.store.selectedChatId ≠ some chat := by
  unfold Rail.finished
  cases r.firstActivePoll with
  | true => simp
  | false =>
    have hmem : chat ∉ chatIds rows ↔ works chat rows = false := by rw [mem_chatIds, Bool.not_eq_true]
    simp [hmem]

/-- A poll makes one toast for each chat that was at work, is no longer and is not shown. -/
theorem count_toasts (hn : r.prevActiveChatIds.Nodup) (chat : Text) :
    ((r.poll rows).2.map Toast.chatId).count chat =
      if r.firstActivePoll = false ∧ chat ∈ r.prevActiveChatIds ∧ works chat rows = false ∧
        r.store.selectedChatId ≠ some chat then 1 else 0 := by
  have hids : (r.poll rows).2.map Toast.chatId = r.finished rows := by
    rw [show (r.poll rows).2 = (r.finished rows).map r.toast from rfl, List.map_map]
    exact List.map_id _
  have hnodup : (r.finished rows).Nodup := by
    unfold Rail.finished
    split
    · exact List.nodup_nil
    · exact hn.filter _
  rw [hids]
  split
  · rename_i hfell
    exact List.count_eq_one_of_mem hnodup (mem_finished.mpr hfell)
  · rename_i hstays
    exact List.count_eq_zero_of_not_mem fun hmem => hstays (mem_finished.mp hmem)

/-- A chat at work is looked up where one of the rows has it. -/
theorem scopesOf_get (h : works chat rows = true) :
    ∃ row ∈ rows, row.chatId = chat ∧ (scopesOf rows).get chat = some (row.projectId, row.worktreeId) := by
  induction rows using List.reverseRecOn with
  | nil => simp [works] at h
  | append_singleton rows row ih =>
    rw [scopesOf, List.foldl_append, List.foldl_cons, List.foldl_nil, ← scopesOf, Assoc.Table.get_upsert]
    by_cases hchat : chat = row.chatId
    · refine ⟨row, by simp, hchat.symm, ?_⟩
      rw [if_pos (by simpa using hchat)]
      cases (scopesOf rows).get row.chatId <;> rfl
    · have hbefore : works chat rows = true := by simpa [works, Ne.symm hchat] using h
      obtain ⟨other, hmem, hother, hget⟩ := ih hbefore
      refine ⟨other, List.mem_append_left _ hmem, hother, ?_⟩
      rw [if_neg (by simpa using hchat)]
      exact hget

/-- A dot that a poll adds is in another scope than the one that is shown, and has a toast. -/
theorem poll_dots {key : Text} (h : key ∈ (r.poll rows).1.completedScopes) : key ∈ r.completedScopes ∨
    (∃ t ∈ (r.poll rows).2, ∃ scope, t.scope = some scope ∧ key = makeKey scope.1 scope.2) ∧
      r.store.currentScopeKey ≠ some key := by
  refine (mem_marks h).imp_right fun ⟨⟨scope, hmem, he⟩, hne⟩ => ⟨?_, hne⟩
  obtain ⟨id, hid, hscope⟩ := List.mem_filterMap.mp hmem
  exact ⟨r.toast id, List.mem_map_of_mem hid, scope, hscope, he⟩

end Polls

namespace Watch

/-- The answers that were taken in. -/
def heard (w : Watch) : List (List ActiveChat) := w.taken.map fun n => w.history.getD n []

/-- Answers are taken in as they were given. -/
def InOrder (w : Watch) : Event → Prop
  | .answer i => ∀ n ∈ w.polls[i]?.join, ∀ m ∈ w.taken, m ≤ n
  | _ => True

instance (w : Watch) (e : Event) : Decidable (InOrder w e) := by
  cases e <;> dsimp only [InOrder] <;> infer_instance

structure Honest (w : Watch) : Prop where
  history : w.history ≠ []
  polls : ∀ n, some n ∈ w.polls → n < w.history.length
  taken : ∀ n ∈ w.taken, n < w.history.length
  nodup : w.rail.prevActiveChatIds.Nodup
  prev : w.rail.firstActivePoll = false →
    ∃ earlier n, w.taken = earlier ++ [n] ∧ ∀ id ∈ w.rail.prevActiveChatIds, works id (w.history.getD n []) = true
  toasts : ∀ chat, (w.toasts.map Toast.chatId).count chat ≤ falls (works chat) w.heard
  seen : w.rail.Seen
  dots : ∀ key ∈ w.rail.completedScopes, ∃ t ∈ w.toasts, ∃ scope, t.scope = some scope ∧ key = makeKey scope.1 scope.2

theorem getD_grow {l : List (List ActiveChat)} {n : Nat} (h : n < l.length) (more : List (List ActiveChat)) :
    (l ++ more).getD n [] = l.getD n [] := by
  rw [List.getD_eq_getElem?_getD, List.getElem?_append_left h, ← List.getD_eq_getElem?_getD]

/-- What an answer makes of the page. -/
def answered (w : Watch) (i n : Nat) : Watch :=
  { w with
    rail := (w.rail.poll (w.history.getD n [])).1
    polls := w.polls.eraseIdx i
    taken := w.taken ++ [n]
    toasts := w.toasts ++ (w.rail.poll (w.history.getD n [])).2 }

theorem heard_answered (w : Watch) (i n : Nat) : (w.answered i n).heard = w.heard ++ [w.history.getD n []] := by
  simp [heard, answered]

/-- Later changes of the server do not change what was heard. -/
theorem heard_grow (h : ∀ n ∈ w.taken, n < w.history.length) (more : List (List ActiveChat)) :
    heard { w with history := w.history ++ more } = w.heard := by
  refine List.map_congr_left fun n hn => ?_
  exact getD_grow (h n hn) more

/-- What a step can do: the server changes, polls are asked, given an answer or fail, an answer is taken in, or the page
shows another scope or is opened again. -/
theorem step_cases {e : Event} (h : w.step e = some w') :
    (∃ now, w' = { w with history := w.history ++ [now] }) ∨
    (∃ polls, w' = { w with polls } ∧ ∀ n, some n ∈ polls → some n ∈ w.polls ∨ n = w.history.length - 1) ∨
    (∃ i n, e = .answer i ∧ w.polls[i]? = some (some n) ∧ w' = w.answered i n) ∨
    ∃ rail polls, w' = { w with rail, polls } ∧ (∀ n, some n ∈ polls → some n ∈ w.polls) ∧ rail.Seen ∧
      (∀ key ∈ rail.completedScopes, key ∈ w.rail.completedScopes) ∧
      (rail.Recalls w.rail ∨ (∃ store, e = .reload store) ∧ rail.firstActivePoll = true ∧
        rail.prevActiveChatIds = []) := by
  cases e with
  | server dispatching reg => exact Or.inl ⟨_, (Option.some.inj h).symm⟩
  | ask =>
    refine Or.inr (Or.inl ⟨_, (Option.some.inj h).symm, fun n hn => Or.inl ?_⟩)
    simpa using hn
  | serve i =>
    simp only [Watch.step] at h
    split at h
    · refine Or.inr (Or.inl ⟨_, (Option.some.inj h).symm, fun n hn => ?_⟩)
      exact (List.mem_or_eq_of_mem_set hn).imp_right Option.some.inj
    · cases h
  | answer i =>
    simp only [Watch.step] at h
    split at h
    · rename_i n hi
      exact Or.inr (Or.inr (Or.inl ⟨i, n, rfl, hi, (Option.some.inj h).symm⟩))
    · cases h
  | fail i =>
    simp only [Watch.step, Option.map_eq_some_iff] at h
    obtain ⟨_, -, rfl⟩ := h
    exact Or.inr (Or.inl ⟨_, rfl, fun n hn => Or.inl ((List.eraseIdx_sublist _ _).subset hn)⟩)
  | navigate store =>
    obtain rfl := Option.some.inj h
    exact Or.inr (Or.inr (Or.inr ⟨_, _, rfl, fun _ hn => hn, clear_seen _,
      fun _ => clear_subset { w.rail with store }, Or.inl (clear_rest _)⟩))
  | reload store =>
    obtain rfl := Option.some.inj h
    exact Or.inr (Or.inr (Or.inr ⟨_, _, rfl, fun _ hn => absurd hn List.not_mem_nil, clear_seen _,
      fun _ => clear_subset _, Or.inr ⟨⟨store, rfl⟩, (clear_rest _).1, (clear_rest _).2.1⟩⟩))

namespace Honest

theorem start (store : App.Store) (dispatching : List Uuid) (reg : ChatRegistry) :
    Honest (.start store dispatching reg) where
  history := List.cons_ne_nil _ _
  polls n hn := (by cases hn)
  taken n hn := (by cases hn)
  nodup := by
    have hprev : (Watch.start store dispatching reg).rail.prevActiveChatIds = [] := (clear_rest _).2.1
    rw [hprev]
    exact List.nodup_nil
  prev hfirst := absurd (hfirst.symm.trans (clear_rest _).1) (by simp)
  toasts chat := Nat.le_refl _
  seen := clear_seen _
  dots key hkey := absurd (clear_subset _ hkey) List.not_mem_nil

theorem server (h : Honest w) (now : List ActiveChat) : Honest { w with history := w.history ++ [now] } where
  history := by simp
  polls n hn := by
    rw [List.length_append]
    exact Nat.lt_add_right _ (h.polls n hn)
  taken n hn := by
    rw [List.length_append]
    exact Nat.lt_add_right _ (h.taken n hn)
  nodup := h.nodup
  prev hfirst := by
    obtain ⟨earlier, n, htaken, hworks⟩ := h.prev hfirst
    refine ⟨earlier, n, htaken, fun id hid => ?_⟩
    have hn : n < w.history.length := h.taken n (by rw [htaken]; simp)
    rw [getD_grow hn]
    exact hworks id hid
  toasts chat := by
    rw [heard_grow h.taken]
    exact h.toasts chat
  seen := h.seen
  dots := h.dots

/-- The polls on their way do not matter but for what they may have been told. -/
theorem asked (h : Honest w) {polls : List (Option Nat)} (hpolls : ∀ n, some n ∈ polls → n < w.history.length) :
    Honest { w with polls } := { h with polls := hpolls }

/-- Another scope is shown, or a page is opened. -/
theorem shown (h : Honest w) {rail : Rail} {polls : List (Option Nat)}
    (hpolls : ∀ n, some n ∈ polls → some n ∈ w.polls) (hseen : rail.Seen)
    (hdots : ∀ key ∈ rail.completedScopes, key ∈ w.rail.completedScopes)
    (hrail : rail.Recalls w.rail ∨ rail.firstActivePoll = true ∧ rail.prevActiveChatIds = []) :
    Honest { w with rail, polls } where
  history := h.history
  polls n hn := h.polls n (hpolls n hn)
  taken := h.taken
  nodup := by
    rcases hrail with ⟨-, hprev, -⟩ | ⟨-, hprev⟩
    · exact hprev ▸ h.nodup
    · exact hprev ▸ List.nodup_nil
  prev hfirst := by
    rcases hrail with ⟨hsame, hprev, -⟩ | ⟨htrue, -⟩
    · exact hprev ▸ h.prev (hsame ▸ hfirst)
    · exact absurd (hfirst.symm.trans htrue) (by simp)
  toasts := h.toasts
  seen := hseen
  dots key hkey := h.dots key (hdots key hkey)

/-- An answer taken in makes toasts for chats that were at work when the one before it was given. -/
theorem answer (h : Honest w) {i n : Nat} (hi : w.polls[i]? = some (some n)) : Honest (w.answered i n) where
  history := h.history
  polls m hm := h.polls m ((List.eraseIdx_sublist _ _).subset hm)
  taken m hm := by
    rcases List.mem_append.mp hm with hm | hm
    · exact h.taken m hm
    · rw [List.mem_singleton.mp hm]
      exact h.polls n (List.mem_of_getElem? hi)
  nodup := chatIds_nodup
  prev _ := ⟨w.taken, n, rfl, fun id hid => mem_chatIds.mp hid⟩
  toasts chat := by
    have hnew := @count_toasts (w.history.getD n []) w.rail h.nodup chat
    have hold := h.toasts chat
    rw [heard_answered, show (w.answered i n).toasts = w.toasts ++ (w.rail.poll (w.history.getD n [])).2 from rfl,
      List.map_append, List.count_append]
    split at hnew
    · rename_i hfell
      obtain ⟨hfirst, hprev, hworks, -⟩ := hfell
      obtain ⟨earlier, m, htaken, hwere⟩ := h.prev hfirst
      have hlast : w.heard = earlier.map (fun n => w.history.getD n []) ++ [w.history.getD m []] := by
        simp [heard, htaken]
      rw [hlast] at hold
      rw [hlast, List.append_assoc, List.singleton_append, Coop.falls_concat, hwere chat hprev, hworks]
      simp only [Bool.not_false, Bool.and_true, if_true]
      omega
    · have hmore := @Coop.falls_le_concat _ (works chat) w.heard (w.history.getD n [])
      omega
  seen key hkey hmem := by
    rcases poll_dots hmem with hmem | ⟨-, hne⟩
    · exact h.seen key (by rw [← poll_store]; exact hkey) hmem
    · exact hne (by rw [← poll_store]; exact hkey)
  dots key hkey := by
    rcases poll_dots hkey with hkey | ⟨⟨t, ht, hscope⟩, -⟩
    · obtain ⟨t, ht, hscope⟩ := h.dots key hkey
      exact ⟨t, List.mem_append_left _ ht, hscope⟩
    · exact ⟨t, List.mem_append_right _ ht, hscope⟩

theorem step (h : Honest w) {e : Event} (hstep : w.step e = some w') : Honest w' := by
  rcases step_cases hstep with ⟨now, rfl⟩ | ⟨polls, rfl, hpolls⟩ | ⟨i, n, -, hi, rfl⟩ |
    ⟨rail, polls, rfl, hpolls, hseen, hdots, hrail⟩
  · exact h.server now
  · refine h.asked fun n hn => ?_
    rcases hpolls n hn with hn | rfl
    · exact h.polls n hn
    · exact Nat.sub_one_lt (Nat.ne_of_gt (List.length_pos_of_ne_nil h.history))
  · exact h.answer hi
  · exact h.shown hpolls hseen hdots (hrail.imp_right And.right)

/-- In whatever order the answers come, what has been toasted is what one has heard to finish. -/
theorem run {store : App.Store} {dispatching : List Uuid} {reg : ChatRegistry} {good : Watch → Event → Prop}
    (h : watch.Reaches good (.start store dispatching reg) w) : Honest w :=
  h.keeps (.start store dispatching reg) fun _ _ _ hw _ hstep => hw.step hstep

end Honest

/-- Where every answer is taken in as it was given, no earlier one comes after a later one. -/
theorem taken_sorted (hw : w.taken.Pairwise (· ≤ ·)) {e : Event} (he : InOrder w e) (hstep : w.step e = some w') :
    w'.taken.Pairwise (· ≤ ·) := by
  rcases step_cases hstep with ⟨now, rfl⟩ | ⟨polls, rfl, -⟩ | ⟨i, n, rfl, hi, rfl⟩ | ⟨rail, polls, rfl, -⟩
  · exact hw
  · exact hw
  · refine List.pairwise_append.mpr ⟨hw, List.pairwise_singleton _ _, fun m hm k hk => ?_⟩
    rw [List.mem_singleton.mp hk]
    exact he n (by rw [hi]; rfl) m hm
  · exact hw

/-- Nothing keeps the finishes of a chat from being announced: the page stays, and does not show the chat when an
answer comes. -/
def Away (chat : Text) (w : Watch) : Event → Prop
  | .answer _ => w.rail.store.selectedChatId ≠ some chat
  | .reload _ => False
  | _ => True

instance (chat : Text) (w : Watch) (e : Event) : Decidable (Away chat w e) := by
  cases e <;> dsimp only [Away] <;> infer_instance

/-- A toast leads to where an answer had its chat at work. -/
def Leads (w : Watch) (t : Toast) : Prop :=
  ∃ rows ∈ w.heard, ∃ row ∈ rows, row.chatId = t.chatId ∧ t.scope = some (row.projectId, row.worktreeId)

theorem Leads.mono {t : Toast} (h : w.Leads t) (hw : ∀ rows ∈ w.heard, rows ∈ w'.heard) : w'.Leads t := by
  obtain ⟨rows, hrows, hrow⟩ := h
  exact ⟨rows, hw rows hrows, hrow⟩

/-- What a page that stays knows is what the last answer said. -/
structure Telling (chat : Text) (w : Watch) : Prop where
  honest : Honest w
  first : w.rail.firstActivePoll = true → w.taken = []
  last : w.rail.firstActivePoll = false → ∃ earlier n, w.taken = earlier ++ [n] ∧
    w.rail.prevActiveChatIds = chatIds (w.history.getD n []) ∧
    w.rail.activeChatScopes = scopesOf (w.history.getD n [])
  toasts : (w.toasts.map Toast.chatId).count chat = falls (works chat) w.heard
  leads : ∀ t ∈ w.toasts, w.Leads t

namespace Telling

theorem start (store : App.Store) (dispatching : List Uuid) (reg : ChatRegistry) :
    Telling chat (.start store dispatching reg) where
  honest := .start store dispatching reg
  first _ := rfl
  last hfirst := absurd (hfirst.symm.trans (clear_rest _).1) (by simp)
  toasts := rfl
  leads t ht := (by cases ht)

theorem server (h : Telling chat w) (now : List ActiveChat) :
    Telling chat { w with history := w.history ++ [now] } where
  honest := h.honest.server now
  first := h.first
  last hfirst := by
    obtain ⟨earlier, n, htaken, hprev, hscopes⟩ := h.last hfirst
    have hn : n < w.history.length := h.honest.taken n (by rw [htaken]; simp)
    refine ⟨earlier, n, htaken, ?_, ?_⟩
    · rw [getD_grow hn]
      exact hprev
    · rw [getD_grow hn]
      exact hscopes
  toasts := by
    rw [heard_grow h.honest.taken]
    exact h.toasts
  leads t ht := (h.leads t ht).mono fun rows hrows => by
    rw [heard_grow h.honest.taken]
    exact hrows

theorem answer (h : Telling chat w) {i n : Nat} (hi : w.polls[i]? = some (some n))
    (haway : w.rail.store.selectedChatId ≠ some chat) : Telling chat (w.answered i n) where
  honest := h.honest.answer hi
  first hfirst := (by cases hfirst)
  last _ := ⟨w.taken, n, rfl, rfl, rfl⟩
  toasts := by
    have hnew := @count_toasts (w.history.getD n []) w.rail h.honest.nodup chat
    rw [heard_answered, show (w.answered i n).toasts = w.toasts ++ (w.rail.poll (w.history.getD n [])).2 from rfl,
      List.map_append, List.count_append, hnew, h.toasts]
    cases hfirst : w.rail.firstActivePoll with
    | true =>
      have hheard : w.heard = [] := by simp [heard, h.first hfirst]
      rw [hheard]
      simp [falls]
    | false =>
      obtain ⟨earlier, m, htaken, hprev, -⟩ := h.last hfirst
      have hlast : w.heard = earlier.map (fun n => w.history.getD n []) ++ [w.history.getD m []] := by
        simp [heard, htaken]
      rw [hlast, List.append_assoc, List.singleton_append, Coop.falls_concat, hprev]
      simp [haway, mem_chatIds]
  leads t ht := by
    rcases List.mem_append.mp ht with ht | ht
    · refine (h.leads t ht).mono fun rows hrows => ?_
      rw [heard_answered]
      exact List.mem_append_left _ hrows
    · obtain ⟨id, hid, rfl⟩ := List.mem_map.mp ht
      obtain ⟨hfirst, hid, -, -⟩ := mem_finished.mp hid
      obtain ⟨earlier, m, htaken, hprev, hscopes⟩ := h.last hfirst
      rw [hprev, mem_chatIds] at hid
      obtain ⟨row, hrow, hchat, hget⟩ := scopesOf_get hid
      have hheard : w.history.getD m [] ∈ w.heard := by simp [heard, htaken]
      refine ⟨w.history.getD m [], ?_, row, hrow, hchat, ?_⟩
      · rw [heard_answered]
        exact List.mem_append_left _ hheard
      · rw [← hget, ← hscopes]
        rfl

theorem step (h : Telling chat w) {e : Event} (he : Away chat w e) (hstep : w.step e = some w') :
    Telling chat w' := by
  have hhonest := h.honest.step hstep
  rcases step_cases hstep with ⟨now, rfl⟩ | ⟨polls, rfl, -⟩ | ⟨i, n, rfl, hi, rfl⟩ |
    ⟨rail, polls, rfl, -, -, -, hrail⟩
  · exact h.server now
  · exact { h with honest := hhonest }
  · exact h.answer hi he
  · rcases hrail with ⟨hfirst, hprev, hscopes⟩ | ⟨⟨store, rfl⟩, -⟩
    · exact
        { honest := hhonest
          first := fun hnew => h.first (hfirst ▸ hnew)
          last := fun hnew => by
            obtain ⟨earlier, n, htaken, hids, hmap⟩ := h.last (hfirst ▸ hnew)
            exact ⟨earlier, n, htaken, hprev.trans hids, hscopes.trans hmap⟩
          toasts := h.toasts
          leads := h.leads }
    · exact he.elim

end Telling

section Runs

variable {store : App.Store} {dispatching : List Uuid} {reg : ChatRegistry}

/-- A page that shows no project. -/
def nowhere : App.Store := ⟨[], fun _ => none, none, fun _ => none, Assoc.Table.empty⟩

/-- Chat 7 in the root of project 1. -/
def oneChat : ChatRegistry where
  byId := (∅ : AList fun _ : Uuid => ChatRecord).insert 7 ⟨7, 1, none, [], [], [], 0, [], none, none⟩
  byProject := ∅

/-- As long as the answers come in the order in which they were given, a chat is said to have finished no oftener than
it really did on the server, over any reloads, failed polls and scopes shown; and the scope that is shown has no dot,
while every dot belongs to the scope of a chat that was said to have finished. -/
theorem toasts_are_finishes (h : watch.Reaches InOrder (.start store dispatching reg) w) :
    (∀ chat, (w.toasts.map Toast.chatId).count chat ≤ falls (works chat) w.history) ∧
    (∀ key, w.rail.store.currentScopeKey = some key → key ∉ w.rail.completedScopes) ∧
    ∀ key ∈ w.rail.completedScopes, ∃ t ∈ w.toasts, ∃ scope, t.scope = some scope ∧ key = makeKey scope.1 scope.2 := by
  have hhonest : Honest w := .run h
  have hsorted : w.taken.Pairwise (· ≤ ·) :=
    h.keeps List.Pairwise.nil fun _ _ _ hw he hstep => taken_sorted hw he hstep
  exact ⟨fun chat => Nat.le_trans (hhonest.toasts chat) (Coop.falls_sampled hsorted hhonest.taken), hhonest.seen,
    hhonest.dots⟩

theorem toasts_are_finishes_away :
    ∃ w, watch.play InOrder (.start nowhere [7] oneChat)
        [.ask, .serve 0, .answer 0, .ask, .server [] oneChat, .serve 0, .answer 0] = some w ∧
      w.toasts.map Toast.chatId = ["7".toList] ∧ w.rail.completedScopes = ["1".toList] ∧
      (∀ chat, (w.toasts.map Toast.chatId).count chat ≤ falls (works chat) w.history) ∧
      (∀ key, w.rail.store.currentScopeKey = some key → key ∉ w.rail.completedScopes) ∧
      ∀ key ∈ w.rail.completedScopes, ∃ t ∈ w.toasts, ∃ scope, t.scope = some scope ∧
        key = makeKey scope.1 scope.2 := by
  obtain ⟨w, hw, hids, hdots⟩ : ∃ w, watch.play InOrder (.start nowhere [7] oneChat)
      [.ask, .serve 0, .answer 0, .ask, .server [] oneChat, .serve 0, .answer 0] = some w ∧
      w.toasts.map Toast.chatId = ["7".toList] ∧ w.rail.completedScopes = ["1".toList] := ⟨_, rfl, rfl, rfl⟩
  exact ⟨w, hw, hids, hdots, toasts_are_finishes (Coop.Machine.play_reaches hw)⟩

/-- The condition is needed: an answer that comes after a later one brings a chat back that has finished, and its one
finish is toasted twice. -/
example :
    (watch.play Coop.Machine.anyEvent (.start nowhere [7] oneChat)
      [.ask, .ask, .serve 0, .serve 1, .answer 0, .server [] oneChat, .ask, .serve 1, .answer 1, .answer 0, .ask,
        .serve 0, .answer 0]).map (fun w => (w.toasts.map Toast.chatId, falls (works "7".toList) w.history)) =
      some (["7".toList, "7".toList], 1) := by
  decide

/-- No finish is passed over: as long as the page stays and does not show the chat when an answer comes, the chat is
said to have finished exactly as often as the answers go from having it at work to not having it, and each time one can
go to where an answer had it. -/
theorem finishes_are_toasted (h : watch.Reaches (Away chat) (.start store dispatching reg) w) :
    (w.toasts.map Toast.chatId).count chat = falls (works chat) w.heard ∧
    ∀ t ∈ w.toasts, ∃ rows ∈ w.heard, ∃ row ∈ rows, row.chatId = t.chatId ∧
      t.scope = some (row.projectId, row.worktreeId) := by
  have htelling : Telling chat w := h.keeps (.start store dispatching reg) fun _ _ _ hw he hstep => hw.step he hstep
  exact ⟨htelling.toasts, htelling.leads⟩

theorem finishes_are_toasted_twice :
    ∃ w, watch.play (Away "7".toList) (.start nowhere [7] oneChat)
        [.ask, .serve 0, .answer 0, .server [] oneChat, .ask, .serve 0, .answer 0, .server [7] oneChat, .ask, .serve 0,
          .answer 0, .server [] oneChat, .ask, .serve 0, .answer 0] = some w ∧
      w.toasts.map Toast.chatId = ["7".toList, "7".toList] ∧
      (w.toasts.map Toast.chatId).count "7".toList = falls (works "7".toList) w.heard ∧
      ∀ t ∈ w.toasts, ∃ rows ∈ w.heard, ∃ row ∈ rows, row.chatId = t.chatId ∧
        t.scope = some (row.projectId, row.worktreeId) := by
  obtain ⟨w, hw, hids⟩ : ∃ w, watch.play (Away "7".toList) (.start nowhere [7] oneChat)
      [.ask, .serve 0, .answer 0, .server [] oneChat, .ask, .serve 0, .answer 0, .server [7] oneChat, .ask, .serve 0,
        .answer 0, .server [] oneChat, .ask, .serve 0, .answer 0] = some w ∧
      w.toasts.map Toast.chatId = ["7".toList, "7".toList] := ⟨_, rfl, rfl⟩
  exact ⟨w, hw, hids, finishes_are_toasted (Coop.Machine.play_reaches hw)⟩

end Runs

end Watch

end AgentGrove.Notify
