import AgentGrove.Coop.Machine
import AgentGrove.Model.Projects
import AgentGrove.Restart.Index

namespace AgentGrove.Projects

open Coop (Machine)
open Worktrees (WorktreeRecord)

def office : Machine Office Event := ⟨Office.step⟩

/-- What the tables and the cache keep by themselves. -/
structure Founded (s : Estate) : Prop where
  fresh : ∀ p ∈ s.projects, p.id < s.nextId
  homes : ∀ w ∈ s.worktrees, ∃ p ∈ s.projects, p.id = w.projectId
  keyed : ∀ id chat, s.cache.get id = some chat → chat.id = id

/-- What one access can bring: a row that is new to a table has a later time. -/
structure Later (s s' : Estate) : Prop where
  clock : s.clock ≤ s'.clock
  nextId : s.nextId ≤ s'.nextId
  projects : ∀ p' ∈ s'.projects, (∃ p ∈ s.projects, p.id = p'.id) ∨ s.nextId ≤ p'.id
  chats : ∀ c' ∈ s'.chats, c'.deletedAt = none → s.clock ≤ s'.live c'.id ∨
    s.live c'.id ≤ s'.live c'.id ∧ ∃ c ∈ s.chats, c.id = c'.id ∧ c.projectId = c'.projectId ∧ c.deletedAt = none
  cache : ∀ id r, s'.cache.get id = some r → s.clock ≤ s'.cached id ∨
    s.cached id ≤ s'.cached id ∧ s.cache.get id = some r
  layouts : ∀ l ∈ s'.layouts, s.clock ≤ s'.laid l.projectId l.worktreeId ∨
    s.laid l.projectId l.worktreeId ≤ s'.laid l.projectId l.worktreeId ∧ l ∈ s.layouts

/-- The chats that a deletion has still to delete. -/
def Stage.ahead : Stage → List Uuid
  | .chats ids => ids
  | _ => []

/-- The stages behind the sweep of the cache. -/
def Stage.swept : Stage → Bool
  | .listWorktrees | .worktrees _ | .layouts | .row | .done _ => true
  | _ => false

/-- Where a deletion stands. -/
structure Right (s : Estate) (d : Deletion) : Prop where
  listed : ∀ t, d.listedAt = some t → t ≤ s.clock ∧ ∀ c ∈ s.chats, c.projectId = d.id → c.deletedAt = none →
    t ≤ s.live c.id ∨ c.id ∈ d.missed ∨ c.id ∈ d.stage.ahead
  swept : d.stage.swept = true → d.sweptAt ≤ s.clock ∧ ∀ id r, s.cache.get id = some r → r.projectId = d.id →
    d.sweptAt ≤ s.cached id
  cleared : ∀ t, d.clearedAt = some t → t ≤ s.clock ∧ ∀ l ∈ s.layouts, l.projectId = d.id →
    t ≤ s.laid l.projectId l.worktreeId
  gone : d.stage = .done (.ok ()) → d.id < s.nextId ∧ ∀ p ∈ s.projects, p.id ≠ d.id

section Accesses

variable {s s' : Estate} {d : Deletion} {a : Access} {now : Nat}

theorem Later.refl (s : Estate) : Later s s where
  clock := Nat.le_refl _
  nextId := Nat.le_refl _
  projects p hp := Or.inl ⟨p, hp, rfl⟩
  chats c hc hlive := Or.inr ⟨Nat.le_refl _, c, hc, rfl, rfl, hlive⟩
  cache _ _ hr := Or.inr ⟨Nat.le_refl _, hr⟩
  layouts _ hl := Or.inr ⟨Nat.le_refl _, hl⟩

theorem Right.later (h : Right s d) (hl : Later s s') : Right s' d where
  listed t ht := by
    obtain ⟨hle, hall⟩ := h.listed t ht
    refine ⟨hle.trans hl.clock, fun c' hc' hproject hlive => ?_⟩
    obtain hnew | ⟨hsame, c, hc, hid, hproject', hlive'⟩ := hl.chats c' hc' hlive
    · exact Or.inl (hle.trans hnew)
    · rw [← hid] at hsame ⊢
      obtain hlate | hrest := hall c hc (hproject'.trans hproject) hlive'
      · exact Or.inl (hlate.trans hsame)
      · exact Or.inr hrest
  swept hs := by
    obtain ⟨hle, hall⟩ := h.swept hs
    refine ⟨hle.trans hl.clock, fun id r hr hproject => ?_⟩
    obtain hnew | ⟨hsame, hr'⟩ := hl.cache id r hr
    · exact hle.trans hnew
    · exact (hall id r hr' hproject).trans hsame
  cleared t ht := by
    obtain ⟨hle, hall⟩ := h.cleared t ht
    refine ⟨hle.trans hl.clock, fun l hl' hproject => ?_⟩
    obtain hnew | ⟨hsame, hold⟩ := hl.layouts l hl'
    · exact hle.trans hnew
    · exact (hall l hold hproject).trans hsame
  gone hdone := by
    obtain ⟨hlt, hall⟩ := h.gone hdone
    refine ⟨Nat.lt_of_lt_of_le hlt hl.nextId, fun p' hp' => ?_⟩
    obtain ⟨p, hp, hid⟩ | hnew := hl.projects p' hp'
    · rw [← hid]
      exact hall p hp
    · exact fun he => absurd (he ▸ hnew) (Nat.not_le.mpr hlt)

theorem Later.tick (h : Later s s') : Later s s'.tick where
  clock := h.clock.trans (Nat.le_succ _)
  nextId := h.nextId
  projects := h.projects
  chats := h.chats
  cache := h.cache
  layouts := h.layouts

theorem Founded.tick (h : Founded s) : Founded s.tick := ⟨h.fresh, h.homes, h.keyed⟩

theorem mem_updateRow {id : Uuid} {f : ChatRow → ChatRow} {chats : List ChatRow} {c' : ChatRow}
    (h : c' ∈ ChatRepo.updateRow id f chats) : ∃ c ∈ chats, c' = if c.id = id then f c else c := by
  obtain ⟨c, hc, rfl⟩ := List.mem_map.mp h
  exact ⟨c, hc, rfl⟩

/-- A row that is live after a soft delete is another one, and was live before. -/
theorem mem_delete {id : Uuid} {chats : List ChatRow} {c : ChatRow} (h : c ∈ ChatRepo.delete now id chats)
    (hlive : c.deletedAt = none) : c ∈ chats ∧ c.id ≠ id := by
  obtain ⟨c₀, hc₀, rfl⟩ := mem_updateRow h
  split at hlive
  · split at hlive
    · cases hlive
    · rename_i hdeleted
      rw [hlive] at hdeleted
      exact absurd rfl hdeleted
  · rename_i hne
    rw [if_neg hne]
    exact ⟨hc₀, hne⟩

theorem mem_restore {id : Uuid} {chats : List ChatRow} {c' : ChatRow} (h : c' ∈ ChatRepo.restore id chats) :
    ∃ c ∈ chats, c.id = c'.id ∧ c.projectId = c'.projectId ∧
      (c'.deletedAt = none → c.deletedAt = none ∨ c.id = id ∧ ChatRepo.isDeleted chats id = true) := by
  obtain ⟨c, hc, rfl⟩ := mem_updateRow h
  refine ⟨c, hc, ?_⟩
  split
  · rename_i hid
    refine ⟨rfl, rfl, fun _ => ?_⟩
    cases hdeleted : c.deletedAt with
    | none => exact Or.inl rfl
    | some t =>
      refine Or.inr ⟨hid, ?_⟩
      exact List.any_eq_true.mpr ⟨c, hc, by simp [hid, hdeleted]⟩
  · exact ⟨rfl, rfl, fun hlive => Or.inl hlive⟩

theorem update_later (s : Estate) (f : Uuid → Nat) (k n : Uuid) :
    s.clock ≤ Function.update f k s.clock n ∨ Function.update f k s.clock n = f n ∧ n ≠ k := by
  by_cases hn : n = k
  · left
    rw [hn, Function.update_self]
  · exact Or.inr ⟨Function.update_of_ne hn _ _, hn⟩

/-- What another request can bring. -/
theorem access_later (s : Estate) (now : Nat) (a : Access) : Later s (s.access now a) := by
  have hrefl := Later.refl s
  cases a with
  | createProject name root =>
    unfold Estate.access ProjectRepo.create
    dsimp only
    split
    · exact hrefl
    · refine ⟨Nat.le_refl _, Nat.le_succ _, ?_, hrefl.chats, hrefl.cache, hrefl.layouts⟩
      intro p hp
      rcases List.mem_append.mp hp with hp | hp
      · exact Or.inl ⟨p, hp, rfl⟩
      · rw [List.mem_singleton.mp hp]
        exact Or.inr (Nat.le_refl _)
  | createWorktree projectId record =>
    unfold Estate.access WorktreeRepo.create
    dsimp only
    split
    · exact ⟨Nat.le_refl _, Nat.le_succ _, hrefl.projects, hrefl.chats, hrefl.cache, hrefl.layouts⟩
    · exact hrefl
  | removeWorktree id => exact ⟨Nat.le_refl _, Nat.le_refl _, hrefl.projects, hrefl.chats, hrefl.cache, hrefl.layouts⟩
  | restoreWorktree id => exact ⟨Nat.le_refl _, Nat.le_refl _, hrefl.projects, hrefl.chats, hrefl.cache, hrefl.layouts⟩
  | createChat projectId worktreeId title provider model effort =>
    refine ⟨Nat.le_refl _, Nat.le_succ _, hrefl.projects, ?_, hrefl.cache, hrefl.layouts⟩
    intro c hc hlive
    rcases List.mem_append.mp hc with hc | hc
    · obtain hnew | ⟨hsame, -⟩ := update_later s s.live s.nextId c.id
      · exact Or.inl hnew
      · exact Or.inr ⟨Nat.le_of_eq hsame.symm, c, hc, rfl, rfl, hlive⟩
    · left
      rw [List.mem_singleton.mp hc]
      simp [Estate.access, ChatRepo.create]
  | deleteChat id =>
    refine ⟨Nat.le_refl _, Nat.le_refl _, hrefl.projects, ?_, hrefl.cache, hrefl.layouts⟩
    intro c hc hlive
    exact Or.inr ⟨Nat.le_refl _, c, (mem_delete hc hlive).1, rfl, rfl, hlive⟩
  | restoreChat id =>
    refine ⟨Nat.le_refl _, Nat.le_refl _, hrefl.projects, ?_, hrefl.cache, hrefl.layouts⟩
    intro c' hc hlive
    obtain ⟨c, hc, hid, hproject, hwas⟩ := mem_restore hc
    simp only [Estate.access]
    split
    · obtain hnew | ⟨hsame, hne⟩ := update_later s s.live id c'.id
      · exact Or.inl hnew
      · obtain hlive' | ⟨hrestored, -⟩ := hwas hlive
        · exact Or.inr ⟨Nat.le_of_eq hsame.symm, c, hc, hid, hproject, hlive'⟩
        · exact absurd (hid.symm.trans hrestored) hne
    · rename_i hnone
      obtain hlive' | ⟨-, hdeleted⟩ := hwas hlive
      · exact Or.inr ⟨Nat.le_refl _, c, hc, hid, hproject, hlive'⟩
      · exact absurd hdeleted hnone
  | ingestChat record =>
    refine ⟨Nat.le_refl _, Nat.le_refl _, hrefl.projects, hrefl.chats, ?_, hrefl.layouts⟩
    intro id r hr
    simp only [Estate.access, ChatRegistry.get_ingestChat] at hr ⊢
    obtain hnew | ⟨hsame, hne⟩ := update_later s s.cached record.id id
    · exact Or.inl hnew
    · rw [if_neg hne] at hr
      exact Or.inr ⟨Nat.le_of_eq hsame.symm, hr⟩
  | evict id =>
    refine ⟨Nat.le_refl _, Nat.le_refl _, hrefl.projects, hrefl.chats, ?_, hrefl.layouts⟩
    intro k r hr
    simp only [Estate.access, ChatRegistry.get_evict] at hr
    split at hr
    · cases hr
    · exact Or.inr ⟨Nat.le_refl _, hr⟩
  | putScope projectId worktreeId blob =>
    refine ⟨Nat.le_refl _, Nat.le_refl _, hrefl.projects, hrefl.chats, hrefl.cache, ?_⟩
    intro l hl
    simp only [Estate.access, LayoutRepo.putScope]
    split
    · exact Or.inl (Nat.le_refl _)
    · rename_i hother
      refine Or.inr ⟨Nat.le_refl _, ?_⟩
      rcases List.mem_append.mp hl with hl | hl
      · exact (List.mem_filter.mp hl).1
      · rw [List.mem_singleton.mp hl] at hother
        exact absurd ⟨rfl, rfl⟩ hother
  | index projectId => exact ⟨Nat.le_refl _, Nat.le_refl _, hrefl.projects, hrefl.chats, hrefl.cache, hrefl.layouts⟩

theorem Founded.update (hf : Founded s) (id : Uuid) {f : WorktreeRecord → WorktreeRecord}
    (hproject : ∀ w, (f w).projectId = w.projectId) : Founded (WorktreeRepo.update id f s) := by
  refine ⟨hf.fresh, fun w hw => ?_, hf.keyed⟩
  obtain ⟨w₀, hw₀, rfl⟩ := List.mem_map.mp hw
  obtain ⟨p, hp, hid⟩ := hf.homes w₀ hw₀
  refine ⟨p, hp, hid.trans ?_⟩
  split
  · exact (hproject w₀).symm
  · rfl

theorem Founded.access (hf : Founded s) (now : Nat) (a : Access) : Founded (s.access now a) := by
  cases a with
  | createProject name root =>
    unfold Estate.access ProjectRepo.create
    dsimp only
    split
    · exact hf
    · refine ⟨?_, ?_, hf.keyed⟩
      · intro p hp
        rcases List.mem_append.mp hp with hp | hp
        · exact Nat.lt_succ_of_lt (hf.fresh p hp)
        · rw [List.mem_singleton.mp hp]
          exact Nat.lt_succ_self _
      · intro w hw
        obtain ⟨p, hp, hid⟩ := hf.homes w hw
        exact ⟨p, List.mem_append_left _ hp, hid⟩
  | createWorktree projectId record =>
    unfold Estate.access WorktreeRepo.create
    dsimp only
    split
    · rename_i haccepts
      refine ⟨fun p hp => Nat.lt_succ_of_lt (hf.fresh p hp), ?_, hf.keyed⟩
      intro w hw
      rcases List.mem_append.mp hw with hw | hw
      · exact hf.homes w hw
      · rw [List.mem_singleton.mp hw]
        rw [Bool.and_eq_true] at haccepts
        obtain ⟨p, hp, hid⟩ := List.any_eq_true.mp haccepts.1
        exact ⟨p, hp, by simpa using hid⟩
    · exact hf
  | removeWorktree id =>
    refine hf.update id fun w => ?_
    split <;> rfl
  | restoreWorktree id =>
    refine hf.update id fun w => ?_
    split <;> rfl
  | createChat projectId worktreeId title provider model effort =>
    exact ⟨fun p hp => Nat.lt_succ_of_lt (hf.fresh p hp), hf.homes, hf.keyed⟩
  | deleteChat id => exact ⟨hf.fresh, hf.homes, hf.keyed⟩
  | restoreChat id => exact ⟨hf.fresh, hf.homes, hf.keyed⟩
  | ingestChat record =>
    refine ⟨hf.fresh, hf.homes, ?_⟩
    intro id chat hchat
    simp only [Estate.access, ChatRegistry.get_ingestChat] at hchat
    split at hchat
    · rename_i hid
      obtain rfl := Option.some.inj hchat
      exact hid.symm
    · exact hf.keyed id chat hchat
  | evict id =>
    refine ⟨hf.fresh, hf.homes, ?_⟩
    intro k chat hchat
    simp only [Estate.access, ChatRegistry.get_evict] at hchat
    split at hchat
    · cases hchat
    · exact hf.keyed k chat hchat
  | putScope projectId worktreeId blob => exact ⟨hf.fresh, hf.homes, hf.keyed⟩
  | index projectId => exact ⟨hf.fresh, hf.homes, hf.keyed⟩

end Accesses

section Deletions

variable {s : Estate} {d : Deletion} {now : Nat} {fail : Bool} {error : Text}

theorem ahead_afterChats (ids : List Uuid) : (afterChats ids).ahead = ids := by
  cases ids with
  | nil => rfl
  | cons c ids => rfl

theorem swept_afterChats (ids : List Uuid) : (afterChats ids).swept = false := by
  cases ids with
  | nil => rfl
  | cons c ids => rfl

theorem afterChats_done (ids : List Uuid) (answer : Except Worktrees.Failure Unit) : afterChats ids ≠ .done answer := by
  cases ids with
  | nil => simp [afterChats]
  | cons c ids => simp [afterChats]

theorem ahead_afterWorktrees (ids : List Uuid) : (afterWorktrees ids).ahead = [] := by
  cases ids with
  | nil => rfl
  | cons c ids => rfl

theorem afterWorktrees_done (ids : List Uuid) (answer : Except Worktrees.Failure Unit) : afterWorktrees ids ≠ .done answer := by
  cases ids with
  | nil => simp [afterWorktrees]
  | cons c ids => simp [afterWorktrees]

/-- What a deletion does to the tables and the cache brings nothing. -/
theorem resume_later (hf : Founded s) (d : Deletion) (now : Nat) (fail : Bool) (error : Text) :
    Later s (d.resume now fail error s).1 ∧ Founded (d.resume now fail error s).1 := by
  have hrefl := Later.refl s
  have hsame : Later s s ∧ Founded s := ⟨hrefl, hf⟩
  unfold Deletion.resume
  split
  · exact ⟨⟨Nat.le_refl _, Nat.le_refl _, hrefl.projects, hrefl.chats, hrefl.cache, hrefl.layouts⟩, ⟨hf.fresh, hf.homes, hf.keyed⟩⟩
  · split <;> exact hsame
  · exact hsame
  · split
    · exact hsame
    · refine ⟨⟨Nat.le_refl _, Nat.le_refl _, hrefl.projects, ?_, hrefl.cache, hrefl.layouts⟩, ⟨hf.fresh, hf.homes, hf.keyed⟩⟩
      intro c hc hlive
      exact Or.inr ⟨Nat.le_refl _, c, (mem_delete hc hlive).1, rfl, rfl, hlive⟩
  · have hkept : ∀ id r, (s.cache.retainChats (fun c => c.projectId ≠ d.id)).get id = some r → s.cache.get id = some r := by
      intro id r hr
      rw [get_retainChats hf.keyed] at hr
      exact (Option.filter_eq_some_iff.mp hr).1
    exact
      ⟨⟨Nat.le_refl _, Nat.le_refl _, hrefl.projects, hrefl.chats, fun id r hr => Or.inr ⟨Nat.le_refl _, hkept id r hr⟩, hrefl.layouts⟩,
        ⟨hf.fresh, hf.homes, fun id r hr => hf.keyed id r (hkept id r hr)⟩⟩
  · split <;> exact hsame
  · exact hsame
  · split
    · exact hsame
    · exact
        ⟨⟨Nat.le_refl _, Nat.le_refl _, hrefl.projects, hrefl.chats, hrefl.cache, hrefl.layouts⟩,
          ⟨hf.fresh, fun w hw => hf.homes w (List.mem_filter.mp hw).1, hf.keyed⟩⟩
  · split
    · exact hsame
    · exact
        ⟨⟨Nat.le_refl _, Nat.le_refl _, hrefl.projects, hrefl.chats, hrefl.cache,
            fun l hl => Or.inr ⟨Nat.le_refl _, (List.mem_filter.mp hl).1⟩⟩,
          ⟨hf.fresh, hf.homes, hf.keyed⟩⟩
  · split
    · exact hsame
    · split
      · refine
          ⟨⟨Nat.le_refl _, Nat.le_refl _, fun p hp => Or.inl ⟨p, (List.mem_filter.mp hp).1, rfl⟩, hrefl.chats, hrefl.cache, hrefl.layouts⟩,
            ⟨fun p hp => hf.fresh p (List.mem_filter.mp hp).1, fun w hw => ?_, hf.keyed⟩⟩
        obtain ⟨hw, hother⟩ := List.mem_filter.mp hw
        obtain ⟨p, hp, hid⟩ := hf.homes w hw
        exact ⟨p, List.mem_filter.mpr ⟨hp, by rw [hid]; exact hother⟩, hid⟩
      · exact hsame
  · exact hsame

/-- A deletion goes on. What it no longer has ahead it has missed, or there is no live row of it. -/
theorem Right.next (h : Right s d) {stage : Stage} {missed : List Uuid}
    (hahead : ∀ c ∈ s.chats, c.deletedAt = none → c.id ∈ d.stage.ahead → c.id ∈ missed ∨ c.id ∈ stage.ahead)
    (hmissed : ∀ c ∈ d.missed, c ∈ missed) (hswept : stage.swept = true → d.stage.swept = true)
    (hdone : stage ≠ .done (.ok ())) : Right s { d with stage, missed } where
  listed t ht := by
    obtain ⟨hle, hall⟩ := h.listed t ht
    refine ⟨hle, fun c hc hproject hlive => ?_⟩
    obtain hlate | hm | ha := hall c hc hproject hlive
    · exact Or.inl hlate
    · exact Or.inr (Or.inl (hmissed _ hm))
    · exact Or.inr (hahead c hc hlive ha)
  swept hs := h.swept (hswept hs)
  cleared := h.cleared
  gone hd := absurd hd hdone

/-- A step of a deletion leaves it right. -/
theorem Right.resume (hf : Founded s) (h : Right s d) :
    Right (d.resume now fail error s).1 (d.resume now fail error s).2 := by
  have hl := h.later (resume_later hf d now fail error).1
  obtain ⟨id, stage, listedAt, sweptAt, clearedAt, missed⟩ := d
  cases stage with
  | forget => exact hl.next (fun c _ _ ha => by cases ha) (fun c hc => hc) (by simp [Stage.swept]) (by simp)
  | listChats =>
    cases fail with
    | true => exact hl.next (fun c _ _ ha => by cases ha) (fun c hc => hc) (by simp [Stage.swept]) (by simp)
    | false =>
      refine ⟨?_, fun hs => ?_, h.cleared, fun hd => absurd hd (afterChats_done _ _)⟩
      · intro t ht
        obtain rfl := Option.some.inj ht
        refine ⟨Nat.le_refl _, fun c hc hproject hlive => Or.inr (Or.inr ?_)⟩
        have hmem : c ∈ ChatRepo.listForProject s.chats id := by
          simpa [ChatRepo.listForProject, hlive] using ⟨hc, hproject⟩
        simpa [Deletion.resume, ahead_afterChats] using List.mem_map_of_mem (f := ChatRow.id) hmem
      · simp [Deletion.resume, swept_afterChats] at hs
  | chats ids =>
    cases ids with
    | nil => exact hl.next (fun c _ _ ha => by cases ha) (fun c hc => hc) (by simp [Stage.swept]) (by simp)
    | cons k ids =>
      cases fail with
      | true =>
        refine hl.next (fun c _ _ ha => ?_) (fun c hc => List.mem_cons_of_mem _ hc) ?_ (afterChats_done _ _)
        · rw [ahead_afterChats]
          rcases List.mem_cons.mp ha with ha | ha
          · exact Or.inl (by rw [ha]; exact List.mem_cons_self)
          · exact Or.inr ha
        · simp [swept_afterChats]
      | false =>
        refine hl.next (fun c hc hlive ha => ?_) (fun c hc => hc) ?_ (afterChats_done _ _)
        · rw [ahead_afterChats]
          rcases List.mem_cons.mp ha with ha | ha
          · exact absurd ha (mem_delete hc hlive).2
          · exact Or.inr ha
        · simp [swept_afterChats]
  | sweep =>
    refine ⟨fun t ht => ?_, fun _ => ⟨Nat.le_refl _, fun k r hr hproject => ?_⟩, hl.cleared, fun hd => by cases hd⟩
    · exact hl.listed t ht
    · simp only [Deletion.resume] at hr
      rw [get_retainChats hf.keyed] at hr
      have hother : r.projectId ≠ id := by simpa using (Option.filter_eq_some_iff.mp hr).2
      exact absurd hproject hother
  | listWorktrees =>
    cases fail with
    | true => exact hl.next (fun c _ _ ha => by cases ha) (fun c hc => hc) (fun _ => rfl) (by simp)
    | false => exact hl.next (fun c _ _ ha => by cases ha) (fun c hc => hc) (fun _ => rfl) (afterWorktrees_done _ _)
  | worktrees ids =>
    cases ids with
    | nil => exact hl.next (fun c _ _ ha => by cases ha) (fun c hc => hc) (fun _ => rfl) (by simp)
    | cons w ids => exact hl.next (fun c _ _ ha => by cases ha) (fun c hc => hc) (fun _ => rfl) (afterWorktrees_done _ _)
  | layouts =>
    cases fail with
    | true => exact hl.next (fun c _ _ ha => by cases ha) (fun c hc => hc) (fun _ => rfl) (by simp)
    | false =>
      refine ⟨hl.listed, hl.swept, fun t ht => ⟨Nat.le_of_eq (Option.some.inj ht).symm, fun l hl' hproject => ?_⟩, fun hd => by cases hd⟩
      have hother : l.projectId ≠ id := by simpa using (List.mem_filter.mp hl').2
      exact absurd hproject hother
  | row =>
    cases fail with
    | true => exact hl.next (fun c _ _ ha => by cases ha) (fun c hc => hc) (fun _ => rfl) (by simp)
    | false =>
      have hstage : (Deletion.resume now false error ⟨id, .row, listedAt, sweptAt, clearedAt, missed⟩ s) =
          if s.projects.any (fun p => p.id = id) then (ProjectRepo.delete id s, ⟨id, .done (.ok ()), listedAt, sweptAt, clearedAt, missed⟩)
          else (s, ⟨id, .done (.error (.notFound, "project ".toList ++ showNat id ++ " not found".toList)), listedAt, sweptAt,
            clearedAt, missed⟩) := by
        simp only [Deletion.resume]
        rfl
      rw [hstage] at hl ⊢
      split
      · rename_i hany
        rw [if_pos hany] at hl
        refine ⟨hl.listed, hl.swept, hl.cleared, fun _ => ⟨?_, fun p hp => ?_⟩⟩
        · obtain ⟨p, hp, hid⟩ := List.any_eq_true.mp hany
          have hlt := hf.fresh p hp
          rwa [show p.id = id by simpa using hid] at hlt
        · simpa using (List.mem_filter.mp hp).2
      · rename_i hany
        rw [if_neg hany] at hl
        exact hl.next (fun c _ _ ha => by cases ha) (fun c hc => hc) (fun _ => rfl) (by simp)
  | done answer => exact h

end Deletions

section Runs

variable {o o' : Office} {e : Event} {d : Deletion}

/-- The server, with all deletions where they say they are. -/
structure Sound (o : Office) : Prop where
  founded : Founded o.estate
  deletions : ∀ d ∈ o.deletions, Right o.estate d

theorem Sound.step (h : Sound o) (hs : office.step o e = some o') : Sound o' := by
  cases e with
  | delete id =>
    obtain rfl := Option.some.inj hs
    refine ⟨h.founded, fun d hd => ?_⟩
    rcases List.mem_append.mp hd with hd | hd
    · exact h.deletions d hd
    · rw [List.mem_singleton.mp hd]
      exact
        { listed := fun t ht => by cases ht
          swept := fun hs => by cases hs
          cleared := fun t ht => by cases ht
          gone := fun hd => by cases hd }
  | resume i now fail error =>
    obtain ⟨d, hi, rfl⟩ := Option.map_eq_some_iff.mp hs
    have hd := h.deletions d (List.mem_of_getElem? hi)
    obtain ⟨hlater, hfounded⟩ := resume_later h.founded d now fail error
    refine ⟨hfounded.tick, fun d' hd' => ?_⟩
    rcases List.mem_or_eq_of_mem_set hd' with hd' | rfl
    · exact (h.deletions d' hd').later hlater.tick
    · exact (hd.resume h.founded).later (Later.refl _).tick
  | access now a =>
    obtain rfl := Option.some.inj hs
    have hlater := access_later o.estate now a
    exact ⟨(h.founded.access now a).tick, fun d hd => (h.deletions d hd).later hlater.tick⟩

end Runs

section Others

variable {ids : List Uuid} {s s' : Estate} {o o' : Office} {e : Event} {d : Deletion} {now : Nat} {fail : Bool} {error : Text}

/-- Everything of the projects outside a list is as it was. -/
structure Spared (ids : List Uuid) (s s' : Estate) : Prop where
  projects : s'.projects.filter (fun p => p.id ∉ ids) = s.projects.filter (fun p => p.id ∉ ids)
  worktrees : s'.worktrees.filter (fun w => w.projectId ∉ ids) = s.worktrees.filter (fun w => w.projectId ∉ ids)
  chats : s'.chats.filter (fun c => c.projectId ∉ ids) = s.chats.filter (fun c => c.projectId ∉ ids)
  layouts : s'.layouts.filter (fun l => l.projectId ∉ ids) = s.layouts.filter (fun l => l.projectId ∉ ids)
  cache : ∀ id r, r.projectId ∉ ids → (s'.cache.get id = some r ↔ s.cache.get id = some r)

/-- Only deletions of these projects are asked for, and no other request comes in between. -/
def Deleting (ids : List Uuid) (_ : Office) : Event → Prop
  | .delete id => id ∈ ids
  | .resume _ _ _ _ => True
  | .access _ _ => False

/-- The worktrees that a deletion has still to delete. -/
def Stage.trees : Stage → List Uuid
  | .worktrees ids => ids
  | _ => []

/-- What a deletion works on is of its project. -/
structure Aimed (ids : List Uuid) (s : Estate) (d : Deletion) : Prop where
  id : d.id ∈ ids
  chats : ∀ c ∈ s.chats, c.id ∈ d.stage.ahead → c.projectId ∈ ids
  worktrees : ∀ w ∈ s.worktrees, w.id ∈ d.stage.trees → w.projectId ∈ ids

/-- The primary keys. -/
structure Unique (s : Estate) : Prop where
  chats : (s.chats.map ChatRow.id).Nodup
  worktrees : (s.worktrees.map WorktreeRecord.id).Nodup

theorem Spared.refl (ids : List Uuid) (s : Estate) : Spared ids s s := ⟨rfl, rfl, rfl, rfl, fun _ _ _ => Iff.rfl⟩

theorem Spared.trans {s'' : Estate} (h : Spared ids s s') (h' : Spared ids s' s'') : Spared ids s s'' where
  projects := h'.projects.trans h.projects
  worktrees := h'.worktrees.trans h.worktrees
  chats := h'.chats.trans h.chats
  layouts := h'.layouts.trans h.layouts
  cache id r hr := (h'.cache id r hr).trans (h.cache id r hr)

/-- Rows that go are none of those that are looked at. -/
theorem filter_spared {α : Type} {keep p : α → Bool} {l : List α} (h : ∀ x ∈ l, p x = true → keep x = true) :
    (l.filter keep).filter p = l.filter p := by
  rw [List.filter_filter]
  apply List.filter_congr
  intro x hx
  cases hp : p x with
  | false => simp
  | true => simp [h x hx hp]

theorem delete_spared {k : Uuid} {chats : List ChatRow} (h : ∀ c ∈ chats, c.id = k → c.projectId ∈ ids) :
    (ChatRepo.delete now k chats).filter (fun c => c.projectId ∉ ids) = chats.filter (fun c => c.projectId ∉ ids) := by
  induction chats with
  | nil => simp [ChatRepo.delete, ChatRepo.updateRow]
  | cons c chats ih =>
    have hrest := ih fun c' hc' => h c' (List.mem_cons_of_mem _ hc')
    simp only [ChatRepo.delete, ChatRepo.updateRow, List.map_cons] at hrest ⊢
    by_cases hk : c.id = k
    · have hin := h c List.mem_cons_self hk
      have hin' : (if c.deletedAt.isNone then { c with deletedAt := some now } else c).projectId ∈ ids := by
        split <;> exact hin
      rw [if_pos hk, List.filter_cons_of_neg (by simpa using hin'), List.filter_cons_of_neg (by simpa using hin), hrest]
    · rw [if_neg hk]
      by_cases hin : c.projectId ∈ ids
      · rw [List.filter_cons_of_neg (by simpa using hin), List.filter_cons_of_neg (by simpa using hin), hrest]
      · rw [List.filter_cons_of_pos (by simpa using hin), List.filter_cons_of_pos (by simpa using hin), hrest]

/-- A soft delete changes neither ids nor projects. -/
theorem delete_keys (k : Uuid) (chats : List ChatRow) :
    (ChatRepo.delete now k chats).map (fun c => (c.id, c.projectId)) = chats.map (fun c => (c.id, c.projectId)) := by
  rw [ChatRepo.delete, ChatRepo.updateRow, List.map_map]
  apply List.map_congr_left
  intro c _
  simp only [Function.comp_apply]
  split
  · split <;> rfl
  · rfl

/-- What a deletion leaves of the keys. -/
structure Shrunk (s s' : Estate) : Prop where
  chats : s'.chats.map (fun c => (c.id, c.projectId)) = s.chats.map (fun c => (c.id, c.projectId))
  worktrees : s'.worktrees.Sublist s.worktrees

theorem resume_shrinks (d : Deletion) (now : Nat) (fail : Bool) (error : Text) (s : Estate) :
    Shrunk s (d.resume now fail error s).1 := by
  have hsame : Shrunk s s := ⟨rfl, List.Sublist.refl _⟩
  unfold Deletion.resume
  split
  · exact ⟨rfl, List.Sublist.refl _⟩
  · split <;> exact hsame
  · exact hsame
  · split
    · exact hsame
    · exact ⟨delete_keys _ _, List.Sublist.refl _⟩
  · exact ⟨rfl, List.Sublist.refl _⟩
  · split <;> exact hsame
  · exact hsame
  · split
    · exact hsame
    · exact ⟨rfl, List.filter_sublist⟩
  · split
    · exact hsame
    · exact ⟨rfl, List.Sublist.refl _⟩
  · split
    · exact hsame
    · split
      · exact ⟨rfl, List.filter_sublist⟩
      · exact hsame
  · exact hsame

theorem Unique.shrunk (h : Unique s) (hs : Shrunk s s') : Unique s' where
  chats := by
    have hids := congrArg (List.map Prod.fst) hs.chats
    simp only [List.map_map] at hids
    have hsame : s'.chats.map ChatRow.id = s.chats.map ChatRow.id := hids
    rw [hsame]
    exact h.chats
  worktrees := h.worktrees.sublist (hs.worktrees.map _)

theorem Aimed.shrunk (h : Aimed ids s d) (hs : Shrunk s s') : Aimed ids s' d where
  id := h.id
  chats c' hc' ha := by
    have hmem : (c'.id, c'.projectId) ∈ s.chats.map (fun c => (c.id, c.projectId)) := by
      rw [← hs.chats]
      exact List.mem_map_of_mem (f := fun c : ChatRow => (c.id, c.projectId)) hc'
    obtain ⟨c, hc, hkeys⟩ := List.mem_map.mp hmem
    obtain ⟨hid, hproject⟩ := Prod.mk.inj hkeys
    rw [← hproject]
    exact h.chats c hc (by rw [hid]; exact ha)
  worktrees w hw ht := h.worktrees w (hs.worktrees.subset hw) ht

/-- A deletion goes on with what it had ahead. -/
theorem Aimed.next (h : Aimed ids s d) {d' : Deletion} (hid : d'.id = d.id) (hchats : ∀ c ∈ d'.stage.ahead, c ∈ d.stage.ahead)
    (htrees : ∀ w ∈ d'.stage.trees, w ∈ d.stage.trees) : Aimed ids s d' where
  id := by rw [hid]; exact h.id
  chats c hc ha := h.chats c hc (hchats _ ha)
  worktrees w hw ht := h.worktrees w hw (htrees _ ht)

theorem trees_afterChats (l : List Uuid) : (afterChats l).trees = [] := by
  cases l with
  | nil => rfl
  | cons c l => rfl

theorem trees_afterWorktrees (l : List Uuid) : (afterWorktrees l).trees = l := by
  cases l with
  | nil => rfl
  | cons c l => rfl

theorem Aimed.resume (hu : Unique s) (h : Aimed ids s d) : Aimed ids s (d.resume now fail error s).2 := by
  obtain ⟨id, stage, listedAt, sweptAt, clearedAt, missed⟩ := d
  cases stage with
  | forget => exact h.next rfl (fun c hc => by cases hc) (fun w hw => by cases hw)
  | listChats =>
    cases fail with
    | true => exact h.next rfl (fun c hc => by cases hc) (fun w hw => by cases hw)
    | false =>
      refine ⟨h.id, fun c hc ha => ?_, fun w hw ht => ?_⟩
      · simp only [Deletion.resume, Bool.false_eq_true, if_false, ahead_afterChats] at ha
        obtain ⟨c', hc', hid⟩ := List.mem_map.mp ha
        obtain ⟨hmem, hproject, -⟩ : c' ∈ s.chats ∧ c'.projectId = id ∧ c'.deletedAt = none := by
          simpa [ChatRepo.listForProject] using hc'
        rw [← List.inj_on_of_nodup_map hu.chats hmem hc hid, hproject]
        exact h.id
      · simp [Deletion.resume, trees_afterChats] at ht
  | chats l =>
    cases l with
    | nil => exact h.next rfl (fun c hc => by cases hc) (fun w hw => by cases hw)
    | cons k l =>
      cases fail with
      | true =>
        refine h.next rfl (fun c hc => ?_) (fun w hw => ?_)
        · simp only [Deletion.resume, if_true, ahead_afterChats] at hc
          exact List.mem_cons_of_mem _ hc
        · simp [Deletion.resume, trees_afterChats] at hw
      | false =>
        refine h.next rfl (fun c hc => ?_) (fun w hw => ?_)
        · simp only [Deletion.resume, Bool.false_eq_true, if_false, ahead_afterChats] at hc
          exact List.mem_cons_of_mem _ hc
        · simp [Deletion.resume, trees_afterChats] at hw
  | sweep => exact h.next rfl (fun c hc => by cases hc) (fun w hw => by cases hw)
  | listWorktrees =>
    cases fail with
    | true => exact h.next rfl (fun c hc => by cases hc) (fun w hw => by cases hw)
    | false =>
      refine ⟨h.id, fun c hc ha => ?_, fun w hw ht => ?_⟩
      · simp [Deletion.resume, ahead_afterWorktrees] at ha
      · simp only [Deletion.resume, Bool.false_eq_true, if_false, trees_afterWorktrees] at ht
        obtain ⟨w', hw', hid⟩ := List.mem_map.mp ht
        obtain ⟨hmem, hproject, -⟩ : w' ∈ s.worktrees ∧ w'.projectId = id ∧ w'.removedAt = none := by
          simpa [WorktreeRepo.listForProject] using hw'
        rw [← List.inj_on_of_nodup_map hu.worktrees hmem hw hid, hproject]
        exact h.id
  | worktrees l =>
    cases l with
    | nil => exact h.next rfl (fun c hc => by cases hc) (fun w hw => by cases hw)
    | cons k l =>
      refine h.next rfl (fun c hc => ?_) (fun w hw => ?_)
      · simp [Deletion.resume, ahead_afterWorktrees] at hc
      · simp only [Deletion.resume, trees_afterWorktrees] at hw
        exact List.mem_cons_of_mem _ hw
  | layouts =>
    cases fail with
    | true => exact h.next rfl (fun c hc => by cases hc) (fun w hw => by cases hw)
    | false => exact h.next rfl (fun c hc => by cases hc) (fun w hw => by cases hw)
  | row =>
    have hout : ((Deletion.resume now fail error ⟨id, .row, listedAt, sweptAt, clearedAt, missed⟩ s).2.stage.ahead = []) ∧
        (Deletion.resume now fail error ⟨id, .row, listedAt, sweptAt, clearedAt, missed⟩ s).2.stage.trees = [] ∧
        (Deletion.resume now fail error ⟨id, .row, listedAt, sweptAt, clearedAt, missed⟩ s).2.id = id := by
      simp only [Deletion.resume]
      split
      · exact ⟨rfl, rfl, rfl⟩
      · split <;> exact ⟨rfl, rfl, rfl⟩
    exact h.next hout.2.2 (fun c hc => by rw [hout.1] at hc; cases hc) (fun w hw => by rw [hout.2.1] at hw; cases hw)
  | done answer => exact h

theorem resume_spares (hf : Founded s) (h : Aimed ids s d) (now : Nat) (fail : Bool) (error : Text) :
    Spared ids s (d.resume now fail error s).1 := by
  have hsame := Spared.refl ids s
  obtain ⟨id, stage, listedAt, sweptAt, clearedAt, missed⟩ := d
  cases stage with
  | forget => exact ⟨rfl, rfl, rfl, rfl, fun _ _ _ => Iff.rfl⟩
  | listChats => cases fail <;> exact hsame
  | chats l =>
    cases l with
    | nil => exact hsame
    | cons k l =>
      cases fail with
      | true => exact hsame
      | false =>
        refine ⟨rfl, rfl, delete_spared fun c hc hid => h.chats c hc ?_, rfl, fun _ _ _ => Iff.rfl⟩
        rw [hid]
        exact List.mem_cons_self
  | sweep =>
    refine ⟨rfl, rfl, rfl, rfl, fun k r hr => ?_⟩
    simp only [Deletion.resume]
    rw [get_retainChats hf.keyed, Option.filter_eq_some_iff]
    have hother : r.projectId ≠ id := fun he => hr (he ▸ h.id)
    simp [hother]
  | listWorktrees => cases fail <;> exact hsame
  | worktrees l =>
    cases l with
    | nil => exact hsame
    | cons k l =>
      cases fail with
      | true => exact hsame
      | false =>
        refine ⟨rfl, filter_spared fun w hw hother => ?_, rfl, rfl, fun _ _ _ => Iff.rfl⟩
        have hne : w.id ≠ k := by
          rintro rfl
          have hin := h.worktrees w hw List.mem_cons_self
          simp [hin] at hother
        simpa using hne
  | layouts =>
    cases fail with
    | true => exact hsame
    | false =>
      refine ⟨rfl, rfl, rfl, filter_spared fun l _ hother => ?_, fun _ _ _ => Iff.rfl⟩
      have hne : l.projectId ≠ id := fun he => by simp [he, h.id] at hother
      simpa using hne
  | row =>
    simp only [Deletion.resume]
    split
    · exact hsame
    · split
      · refine ⟨filter_spared fun p _ hother => ?_, filter_spared fun w _ hother => ?_, rfl, rfl, fun _ _ _ => Iff.rfl⟩
        · have hne : p.id ≠ id := fun he => by simp [he, h.id] at hother
          simpa using hne
        · have hne : w.projectId ≠ id := fun he => by simp [he, h.id] at hother
          simpa using hne
      · exact hsame
  | done answer => exact hsame

/-- The row of a project goes only with a deletion that says so. -/
theorem resume_projects (d : Deletion) (now : Nat) (fail : Bool) (error : Text) (s : Estate) :
    ∀ p ∈ s.projects, p ∈ (d.resume now fail error s).1.projects ∨
      p.id = d.id ∧ (d.resume now fail error s).2.id = d.id ∧ (d.resume now fail error s).2.stage = .done (.ok ()) := by
  intro p hp
  obtain ⟨id, stage, listedAt, sweptAt, clearedAt, missed⟩ := d
  cases stage with
  | forget => exact Or.inl hp
  | listChats => cases fail <;> exact Or.inl hp
  | chats l =>
    cases l with
    | nil => exact Or.inl hp
    | cons k l => cases fail <;> exact Or.inl hp
  | sweep => exact Or.inl hp
  | listWorktrees => cases fail <;> exact Or.inl hp
  | worktrees l =>
    cases l with
    | nil => exact Or.inl hp
    | cons k l => cases fail <;> exact Or.inl hp
  | layouts => cases fail <;> exact Or.inl hp
  | row =>
    simp only [Deletion.resume]
    split
    · exact Or.inl hp
    · split
      · by_cases hid : p.id = id
        · exact Or.inr ⟨hid, rfl, rfl⟩
        · exact Or.inl (List.mem_filter.mpr ⟨hp, by simpa using hid⟩)
      · exact Or.inl hp
  | done answer => exact Or.inl hp

/-- Runs of deletions, on their way. -/
structure Sparing (ids : List Uuid) (s : Estate) (o : Office) : Prop where
  founded : Founded o.estate
  unique : Unique o.estate
  aimed : ∀ d ∈ o.deletions, Aimed ids o.estate d
  spared : Spared ids s o.estate
  rows : ∀ p ∈ s.projects, p ∈ o.estate.projects ∨ ∃ d ∈ o.deletions, d.id = p.id ∧ d.stage = .done (.ok ())

theorem Aimed.tick (h : Aimed ids s d) : Aimed ids s.tick d := ⟨h.id, h.chats, h.worktrees⟩

theorem Sparing.step (h : Sparing ids s o) (hd : Deleting ids o e) (hs : office.step o e = some o') : Sparing ids s o' := by
  cases e with
  | delete id =>
    obtain rfl := Option.some.inj hs
    refine ⟨h.founded, h.unique, fun d hmem => ?_, h.spared, fun p hp => ?_⟩
    · rcases List.mem_append.mp hmem with hmem | hmem
      · exact h.aimed d hmem
      · rw [List.mem_singleton.mp hmem]
        exact ⟨hd, fun c _ ha => (by cases ha), fun w _ ht => (by cases ht)⟩
    · obtain hp | ⟨d, hmem, hdone⟩ := h.rows p hp
      · exact Or.inl hp
      · exact Or.inr ⟨d, List.mem_append_left _ hmem, hdone⟩
  | resume i now fail error =>
    obtain ⟨d, hi, rfl⟩ := Option.map_eq_some_iff.mp hs
    have hmem := List.mem_of_getElem? hi
    have hshrunk := resume_shrinks d now fail error o.estate
    have haimed := h.aimed d hmem
    refine
      { founded := (resume_later h.founded d now fail error).2.tick
        unique := ⟨(h.unique.shrunk hshrunk).chats, (h.unique.shrunk hshrunk).worktrees⟩
        aimed := fun d' hd' => ?_
        spared := ?_
        rows := fun p hp => ?_ }
    · rcases List.mem_or_eq_of_mem_set hd' with hd' | rfl
      · exact ((h.aimed d' hd').shrunk hshrunk).tick
      · exact ((haimed.resume h.unique).shrunk hshrunk).tick
    · have hspared := h.spared.trans (resume_spares h.founded haimed now fail error)
      exact ⟨hspared.projects, hspared.worktrees, hspared.chats, hspared.layouts, hspared.cache⟩
    · have hlt : i < o.deletions.length := (List.getElem?_eq_some_iff.mp hi).1
      have hset : (d.resume now fail error o.estate).2 ∈ o.deletions.set i (d.resume now fail error o.estate).2 :=
        List.mem_iff_getElem?.mpr ⟨i, List.getElem?_set_self hlt⟩
      obtain hp | ⟨d', hd', hid, hdone⟩ := h.rows p hp
      · obtain hp | ⟨hid, hsame, hdone⟩ := resume_projects d now fail error o.estate p hp
        · exact Or.inl hp
        · exact Or.inr ⟨_, hset, hsame.trans hid.symm, hdone⟩
      · right
        obtain ⟨j, hj⟩ := List.mem_iff_getElem?.mp hd'
        by_cases hij : i = j
        · subst hij
          obtain rfl := Option.some.inj (hi.symm.trans hj)
          refine ⟨_, hset, ?_⟩
          rw [Deletion.resume, hdone]
          exact ⟨hid, hdone⟩
        · exact ⟨d', List.mem_iff_getElem?.mpr ⟨j, by rw [List.getElem?_set_ne hij]; exact hj⟩, hid, hdone⟩
  | access now a => cases hd

/-- However many deletions run at once, whatever of them fails and wherever they stop: what belongs to other projects
stays as it was, in every table and in the cache, and the row of a project is there until a deletion of it is answered
with success. -/
theorem deletions_spare_others (hf : Founded s) (hu : Unique s) (h : office.Reaches (Deleting ids) ⟨s, []⟩ o) :
    Spared ids s o.estate ∧
    ∀ p ∈ s.projects, p ∈ o.estate.projects ∨ ∃ d ∈ o.deletions, d.id = p.id ∧ d.stage = .done (.ok ()) := by
  have hsparing : Sparing ids s o := by
    refine h.keeps ⟨hf, hu, fun d hd => (by cases hd), Spared.refl ids s, fun p hp => Or.inl hp⟩ ?_
    intro _ _ _ hs hgood hstep
    exact hs.step hgood hstep
  exact ⟨hsparing.spared, hsparing.rows⟩

end Others

/-- Two projects with a chat each, the first with a worktree too. -/
def twoProjects : Estate where
  projects := [⟨0, ['a'], ['/', 'a'], none, 0, 0⟩, ⟨1, ['b'], ['/', 'b'], none, 0, 0⟩]
  worktrees := [⟨2, 0, ['w'], ['H'], ['/', 'w'], .ready, none, none, 0, 0, none⟩]
  chats := [ChatRepo.create 3 0 0 none ['t'] ['p'] ['m'] none, ChatRepo.create 4 0 1 none ['t'] ['p'] ['m'] none]
  layouts := [⟨0, none, "{}".toList, 0⟩, ⟨1, none, "{}".toList, 0⟩]
  indexed _ := false
  cache := ChatRegistry.empty
  nextId := 5
  clock := 0
  live _ := 0
  cached _ := 0
  laid _ _ := 0

theorem twoProjects_founded : Founded twoProjects where
  fresh := by decide
  homes := by decide
  keyed id chat h := by cases h

theorem twoProjects_unique : Unique twoProjects where
  chats := by decide
  worktrees := by decide

/-- A deletion of the first project, while another request makes a chat in it. -/
def razing : List Event :=
  [.delete 0, .resume 0 1 false [], .resume 0 1 false [], .access 2 (.createChat 0 none ['u'] ['p'] ['m'] none),
    .resume 0 3 false [], .resume 0 3 false [], .resume 0 3 false [], .resume 0 3 false [], .resume 0 3 false [],
    .resume 0 3 false []]

instance (ids : List Uuid) (o : Office) (e : Event) : Decidable (Deleting ids o e) :=
  match e with
  | .delete id => inferInstanceAs (Decidable (id ∈ ids))
  | .resume _ _ _ _ => .isTrue trivial
  | .access _ _ => .isFalse id

/-- Two deletions of the first project at once, one of which fails to list the chats. -/
theorem deletions_spare_others_twice : ∃ o, office.play (Deleting [0]) ⟨twoProjects, []⟩
      [.delete 0, .delete 0, .resume 0 1 false [], .resume 1 1 false [], .resume 0 1 true [], .resume 1 1 false []] = some o ∧
    Spared [0] twoProjects o.estate ∧
    ∀ p ∈ twoProjects.projects, p ∈ o.estate.projects ∨ ∃ d ∈ o.deletions, d.id = p.id ∧ d.stage = .done (.ok ()) := by
  obtain ⟨o, hplay⟩ : ∃ o, office.play (Deleting [0]) ⟨twoProjects, []⟩
      [.delete 0, .delete 0, .resume 0 1 false [], .resume 1 1 false [], .resume 0 1 true [], .resume 1 1 false []] = some o :=
    ⟨_, rfl⟩
  exact ⟨o, hplay, deletions_spare_others twoProjects_founded twoProjects_unique (Machine.play_reaches hplay)⟩

end AgentGrove.Projects
