import AgentGrove.Model.CrossInstanceSync
import AgentGrove.Proofs.Basic

namespace AgentGrove.CrossInstanceSync

open Slots

/-- What an answer tells of the lists. -/
def Lists.take (a : Answer) (l : Lists) : Lists :=
  match a with
  | .projects list => { l with projects := list }
  | .worktrees pid list => { l with worktrees := fun q => if q = pid then list else l.worktrees q }

/-- The lists as answers tell of them, the newest of which is the first. -/
def Lists.after (base : Lists) (answers : List Answer) : Lists := answers.foldr Lists.take base

namespace SyncFrame

/-- Whether the frame is about the list of projects. -/
def ofProjects : SyncFrame → Bool
  | projectCreated _ | projectDeleted _ | projectUpdated _ => true
  | _ => false

/-- The project that the frame is about, or whose worktrees it is about. -/
def about : SyncFrame → Option Text
  | projectCreated pid | projectDeleted pid | projectUpdated pid => some pid
  | worktreeCreated _ pid | worktreeUpdated _ pid | worktreeDeleted _ pid | worktreeRestored _ pid => some pid
  | _ => none

end SyncFrame

/-- A frame accounts for a change of the lists. -/
structure Announces (f : SyncFrame) (l l' : Lists) : Prop where
  projects : f.ofProjects = false → l'.projects = l.projects
  worktrees : ∀ pid, f.about ≠ some pid → l'.worktrees pid = l.worktrees pid

/-- The server changes as it announces; all else may happen at any time. -/
def Allowed (s : System) : Event → Prop
  | .change f server => Announces f s.server.toLists server.toLists
  | _ => True

inductive Course (start : System) : System → Prop where
  | start : Course start start
  | step {s : System} (before : Course start s) (e : Event) (ok : Allowed s e) : Course start (exec s e)

/-- The client shows what the server has, and nothing is under way. -/
structure InStep (s : System) : Prop where
  shown : s.client.lists = s.server.toLists
  calls : s.calls = []
  owed : s.owed = []
  made : s.made = []
  arrived : s.arrived = []

/-- Every change has been announced since it was made, and every call has been answered. -/
structure Quiet (s : System) : Prop where
  owed : s.owed = []
  calls : s.calls = []

/-- Of each list the last answer to arrive is as the last one that was made; of a project that is gone it has no
worktrees. -/
structure Ordered (base : Lists) (s : System) : Prop where
  projects : (base.after s.arrived).projects = (base.after s.made).projects
  worktrees : ∀ pid, s.server.has pid = true →
    (base.after s.arrived).worktrees pid = (base.after s.made).worktrees pid
  gone : ∀ pid, s.server.has pid = false → (base.after s.arrived).worktrees pid = []

variable {base : Lists} {s s' s'' : System} {pid : Text} {loop : Bool}

/-! ### What the client does -/

/-- What the client shows is what has arrived. -/
def Shown (base : Lists) (s : System) : Prop := s.client.lists = base.after s.arrived

/-- Calls are added, and nothing is shown but what arrives. -/
structure Continues (s s' : System) : Prop where
  server : s'.server = s.server
  owed : s'.owed = s.owed
  made : s'.made = s.made
  calls : s.calls ⊆ s'.calls
  shown : ∀ base, Shown base s → Shown base s'

theorem Continues.refl : Continues s s := ⟨rfl, rfl, rfl, fun _ h => h, fun _ h => h⟩

theorem Continues.trans (h : Continues s s') (h' : Continues s' s'') : Continues s s'' where
  server := h'.server.trans h.server
  owed := h'.owed.trans h.owed
  made := h'.made.trans h.made
  calls := List.Subset.trans h.calls h'.calls
  shown base hs := h'.shown base (h.shown base hs)

theorem continues_send (c : Call) : Continues s (s.send c) :=
  ⟨rfl, rfl, rfl, List.subset_append_left _ _, fun _ h => h⟩

theorem continues_setLoadError (e : Text) : Continues s (s.setLoadError e) :=
  ⟨rfl, rfl, rfl, fun _ h => h, fun _ h => h⟩

theorem continues_setProjects (list : List Project) : Continues s (s.setProjects list) where
  server := rfl
  owed := rfl
  made := rfl
  calls _ h := h
  shown base h := by
    have hshown : s.client.lists = base.after s.arrived := h
    change { s.client.lists with projects := list } = { base.after s.arrived with projects := list }
    rw [hshown]

theorem lists_setWorktrees (c : Client) (pid : Text) (list : List Worktree) :
    (c.setWorktrees pid list).lists = c.lists.take (.worktrees pid list) := by
  ext q
  · rfl
  · simp only [Client.lists, Client.setWorktrees, Lists.take]
    split <;> rfl

theorem continues_setWorktrees (pid : Text) (list : List Worktree) : Continues s (s.setWorktrees pid list) where
  server := rfl
  owed := rfl
  made := rfl
  calls _ h := h
  shown base h := by
    have hshown : s.client.lists = base.after s.arrived := h
    change (s.client.setWorktrees pid list).lists = (base.after s.arrived).take (.worktrees pid list)
    rw [lists_setWorktrees, hshown]

theorem continues_refreshEach (pids : List Text) : Continues s (s.refreshEach pids) := by
  cases pids with
  | nil => exact .refl
  | cons pid rest => exact continues_send _

theorem continues_selectProject (id : Text) : Continues s (s.selectProject id) :=
  ⟨rfl, rfl, rfl, List.subset_append_left _ _, fun _ h => h⟩

theorem continues_refreshedProjects (loop : Bool) : Continues s (s.refreshedProjects loop) := by
  cases loop with
  | false => exact .refl
  | true => exact continues_refreshEach _

theorem continues_fetchedAll (list : List Project) (loop : Bool) : Continues s (s.fetchedAll list loop) := by
  unfold System.fetchedAll
  dsimp only
  split
  · exact (continues_selectProject _).trans (continues_refreshedProjects loop)
  · exact continues_refreshedProjects loop

theorem continues_gotProjects (loop : Bool) (r : Except Text (List Project)) : Continues s (s.gotProjects loop r) := by
  cases r with
  | error e => exact (continues_setLoadError e).trans (continues_refreshedProjects loop)
  | ok list =>
    cases list with
    | nil => exact (continues_setProjects []).trans (continues_fetchedAll [] loop)
    | cons p ps =>
      refine (continues_setProjects (p :: ps)).trans ?_
      exact ⟨rfl, rfl, rfl, List.subset_append_left _ _, fun _ h => h⟩

theorem continues_gotWorktrees (pid : Text) (next : Next) (r : Except Text (List Worktree)) :
    Continues s (s.gotWorktrees pid next r) := by
  cases next with
  | fetched batch list loop =>
    have hrest (t : System) (h : Continues s t) :
        Continues s (if t.waits batch then t else t.fetchedAll list loop) := by
      split
      · exact h
      · exact h.trans (continues_fetchedAll list loop)
    cases r with
    | ok wts => exact hrest _ (continues_setWorktrees pid wts)
    | error e => exact hrest _ .refl
  | refreshed rest =>
    cases r with
    | ok list => exact (continues_setWorktrees pid list).trans (continues_refreshEach rest)
    | error e => exact (continues_setLoadError e).trans (continues_refreshEach rest)

theorem continues_handleFrame (f : SyncFrame) : Continues s (s.handleFrame f) := by
  cases f with
  | chatCreated | chatUpdated | scratchpadUpdated | notesUpdated => exact .refl
  | _ => exact continues_send _

theorem refreshes_projects {f : SyncFrame} (h : f.ofProjects = true) :
    ∃ loop, Call.projects loop none ∈ (s.handleFrame f).calls := by
  cases f with
  | projectCreated => exact ⟨false, List.mem_append_right _ (.head _)⟩
  | projectDeleted | projectUpdated => exact ⟨true, List.mem_append_right _ (.head _)⟩
  | _ => cases h

theorem refreshes_worktrees {f : SyncFrame} (h : f.about = some pid) (hf : f.ofProjects = false) :
    Call.worktrees pid (.refreshed []) none ∈ (s.handleFrame f).calls := by
  cases f with
  | worktreeCreated | worktreeUpdated | worktreeDeleted | worktreeRestored =>
    cases h
    exact List.mem_append_right _ (.head _)
  | projectCreated | projectDeleted | projectUpdated => cases hf
  | _ => cases h

theorem gotProjects_fetches {list : List Project} {p : Project} (hp : p ∈ list) :
    ∃ next, Call.worktrees p.id next none ∈ (s.gotProjects loop (.ok list)).calls := by
  cases list with
  | nil => cases hp
  | cons q qs => exact ⟨_, List.mem_append_right _ (List.mem_map.mpr ⟨p, hp, rfl⟩)⟩

/-! ### What arrives is shown -/

theorem Course.shown {start s : System} (h : Course start s) (hstart : InStep start) :
    Shown start.server.toLists s := by
  induction h with
  | start =>
    have harrived := hstart.arrived
    rw [Shown, hstart.shown, harrived]
    rfl
  | @step s before e ok ih =>
    cases e with
    | change f server => exact ih
    | frame f => exact (continues_handleFrame f).shown _ ih
    | refreshProjects => exact (continues_send _).shown _ ih
    | refreshWorktreesForProject pid => exact (continues_refreshEach _).shown _ ih
    | selectProject id => exact (continues_selectProject id).shown _ ih
    | serve i =>
      change Shown _ (s.serve i)
      unfold System.serve
      split
      · exact ih
      · dsimp only
        split <;> exact ih
      · exact ih
    | arrive i =>
      change Shown _ (s.arrive i)
      unfold System.arrive
      dsimp only
      split
      · exact (continues_gotProjects _ _).shown _ ih
      · exact (continues_gotWorktrees _ _ _).shown _ ih
      · exact ih

/-! ### What has changed is asked for -/

/-- A call will bring the worktrees of a project. -/
inductive Asks (pid : Text) : Call → Prop where
  | projects (loop : Bool) : Asks pid (.projects loop none)
  | listed (loop : Bool) {list : List Project} {p : Project} (hp : p ∈ list) (hid : p.id = pid) :
      Asks pid (.projects loop (some (.ok list)))
  | worktrees (next : Next) : Asks pid (.worktrees pid next none)

/-- A list has not changed since the last answer of it was made, or a frame will still come, or a call will be
answered. -/
structure Due (base : Lists) (s : System) : Prop where
  projects : (base.after s.made).projects = s.server.projects ∨ (∃ f ∈ s.owed, f.ofProjects = true) ∨
    ∃ loop, Call.projects loop none ∈ s.calls
  worktrees : ∀ pid, s.server.has pid = true →
    (base.after s.made).worktrees pid = s.server.worktrees pid ∨
      (∃ f ∈ s.owed, f.ofProjects = true ∨ f.about = some pid) ∨ ∃ c ∈ s.calls, Asks pid c

/-- What is asked for stays asked for as long as some call does so. -/
theorem Due.keep (h : Due base s) (hserver : s'.server = s.server) (hmade : s'.made = s.made) (howed : s.owed ⊆ s'.owed)
    (hprojects : ∀ loop, Call.projects loop none ∈ s.calls → Call.projects loop none ∈ s'.calls)
    (hasks : ∀ pid, s.server.has pid = true → ∀ c ∈ s.calls, Asks pid c → ∃ c ∈ s'.calls, Asks pid c) :
    Due base s' where
  projects := by
    rw [hserver, hmade]
    rcases h.projects with hsame | ⟨f, hf, hp⟩ | ⟨loop, hc⟩
    · exact Or.inl hsame
    · exact Or.inr (Or.inl ⟨f, howed hf, hp⟩)
    · exact Or.inr (Or.inr ⟨loop, hprojects loop hc⟩)
  worktrees pid hpid := by
    rw [hserver] at hpid
    rw [hserver, hmade]
    rcases h.worktrees pid hpid with hsame | ⟨f, hf, hp⟩ | ⟨c, hc, hpend⟩
    · exact Or.inl hsame
    · exact Or.inr (Or.inl ⟨f, howed hf, hp⟩)
    · exact Or.inr (Or.inr (hasks pid hpid c hc hpend))

theorem Due.continues (h : Due base s) (hc : Continues s s') : Due base s' := by
  refine h.keep hc.server hc.made ?_ (fun _ hcall => hc.calls hcall) ?_
  · rw [hc.owed]
    exact fun _ hf => hf
  · exact fun _ _ c hcall hpend => ⟨c, hc.calls hcall, hpend⟩

theorem Due.change (h : Due base s) {f : SyncFrame} {server : Server}
    (hf : Announces f s.server.toLists server.toLists) : Due base (exec s (.change f server)) where
  projects := by
    cases hproj : f.ofProjects with
    | true => exact Or.inr (Or.inl ⟨f, List.mem_insert_self, hproj⟩)
    | false =>
      rcases h.projects with hsame | ⟨g, hg, hp⟩ | hcall
      · exact Or.inl (hsame.trans (hf.projects hproj).symm)
      · exact Or.inr (Or.inl ⟨g, List.mem_insert_of_mem hg, hp⟩)
      · exact Or.inr (Or.inr hcall)
  worktrees pid hpid := by
    by_cases hown : f.ofProjects = true ∨ f.about = some pid
    · exact Or.inr (Or.inl ⟨f, List.mem_insert_self, hown⟩)
    · simp only [not_or, Bool.not_eq_true] at hown
      have hbefore : s.server.has pid = true := by
        rw [Lists.has, ← hf.projects hown.1]
        exact hpid
      rcases h.worktrees pid hbefore with hsame | ⟨g, hg, hp⟩ | hcall
      · exact Or.inl (hsame.trans (hf.worktrees pid hown.2).symm)
      · exact Or.inr (Or.inl ⟨g, List.mem_insert_of_mem hg, hp⟩)
      · exact Or.inr (Or.inr hcall)

theorem Due.frame (h : Due base s) (f : SyncFrame) : Due base (exec s (.frame f)) := by
  have hhandle : Continues { s with owed := s.owed.filter (fun g => g ≠ f) } (exec s (.frame f)) :=
    continues_handleFrame f
  have howed (g : SyncFrame) (hg : g ∈ s.owed) (hne : g ≠ f) : g ∈ (exec s (.frame f)).owed := by
    rw [hhandle.owed]
    exact List.mem_filter.mpr ⟨hg, by simpa using hne⟩
  constructor
  · rw [hhandle.server, hhandle.made]
    rcases h.projects with hsame | ⟨g, hg, hp⟩ | ⟨loop, hc⟩
    · exact Or.inl hsame
    · by_cases hne : g = f
      · subst hne
        exact Or.inr (Or.inr (refreshes_projects hp))
      · exact Or.inr (Or.inl ⟨g, howed g hg hne, hp⟩)
    · exact Or.inr (Or.inr ⟨loop, hhandle.calls hc⟩)
  · intro pid hpid
    rw [hhandle.server] at hpid
    rw [hhandle.server, hhandle.made]
    rcases h.worktrees pid hpid with hsame | ⟨g, hg, hp⟩ | ⟨c, hc, hasks⟩
    · exact Or.inl hsame
    · by_cases hne : g = f
      · subst hne
        refine Or.inr (Or.inr ?_)
        cases hproj : g.ofProjects with
        | true =>
          obtain ⟨loop, hc⟩ := refreshes_projects (s := { s with owed := s.owed.filter (fun k => k ≠ g) }) hproj
          exact ⟨_, hc, .projects loop⟩
        | false =>
          rw [hproj] at hp
          exact ⟨_, refreshes_worktrees (hp.resolve_left Bool.false_ne_true) hproj, .worktrees _⟩
      · exact Or.inr (Or.inl ⟨g, howed g hg hne, hp⟩)
    · exact Or.inr (Or.inr ⟨c, hhandle.calls hc, hasks⟩)

theorem Due.serve (h : Due base s) (i : Nat) : Due base (s.serve i) := by
  unfold System.serve
  split
  next loop hi =>
    constructor
    · exact Or.inl rfl
    · intro pid hpid
      rcases h.worktrees pid hpid with hsame | howed | ⟨c, hc, hasks⟩
      · exact Or.inl hsame
      · exact Or.inr (Or.inl howed)
      · refine Or.inr (Or.inr ?_)
        rcases mem_set_of_mem hi hc with rfl | hc
        · obtain ⟨p, hp, hid⟩ := List.any_eq_true.mp hpid
          exact ⟨_, mem_set_self hi, .listed loop hp (by simpa using hid)⟩
        · exact ⟨c, hc, hasks⟩
  next q next hi =>
    have hcalls {c : Call} (hc : c ∈ s.calls) (hne : c ≠ .worktrees q next none) :
        c ∈ s.calls.set i (.worktrees q next (some (s.server.listWorktrees q))) :=
      (mem_set_of_mem hi hc).resolve_left hne
    have hother {pid : Text} {c : Call} (hpid : pid ≠ q) (hasks : Asks pid c) : c ≠ .worktrees q next none := by
      rintro rfl
      cases hasks
      exact hpid rfl
    dsimp only
    split
    next hq =>
      constructor
      · rcases h.projects with hsame | howed | ⟨loop, hc⟩
        · exact Or.inl hsame
        · exact Or.inr (Or.inl howed)
        · exact Or.inr (Or.inr ⟨loop, hcalls hc nofun⟩)
      · intro pid hpid
        by_cases hown : pid = q
        · subst hown
          exact Or.inl (if_pos rfl)
        · rcases h.worktrees pid hpid with hsame | howed | ⟨c, hc, hasks⟩
          · exact Or.inl ((if_neg hown).trans hsame)
          · exact Or.inr (Or.inl howed)
          · exact Or.inr (Or.inr ⟨c, hcalls hc (hother hown hasks), hasks⟩)
    next hq =>
      -- No answer is made of the worktrees of a project that is gone, and none is due.
      refine h.keep rfl rfl (fun _ hf => hf) (fun loop hc => hcalls hc nofun) ?_
      intro pid hpid c hc hasks
      have hown : pid ≠ q := by
        rintro rfl
        exact hq hpid
      exact ⟨c, hcalls hc (hother hown hasks), hasks⟩
  next => exact h

theorem Due.arrive (h : Due base s) (i : Nat) : Due base (s.arrive i) := by
  unfold System.arrive
  dsimp only
  split
  next loop r hi =>
    have hgot := continues_gotProjects (s := { s with calls := s.calls.eraseIdx i }) loop r
    refine h.keep hgot.server hgot.made ?_ ?_ ?_
    · rw [hgot.owed]
      exact fun _ hf => hf
    · exact fun _ hc => hgot.calls ((mem_eraseIdx_of_mem hi hc).resolve_left nofun)
    · intro pid hpid c hc hasks
      rcases mem_eraseIdx_of_mem hi hc with rfl | hc
      · cases hasks with
        | listed loop hp hid =>
          subst hid
          obtain ⟨next, hc⟩ := gotProjects_fetches hp
          exact ⟨_, hc, .worktrees next⟩
      · exact ⟨c, hgot.calls hc, hasks⟩
  next q next r hi =>
    refine Due.continues ?_ (continues_gotWorktrees q next r)
    refine h.keep rfl rfl (fun _ hf => hf) (fun loop hc => (mem_eraseIdx_of_mem hi hc).resolve_left nofun) ?_
    intro pid hpid c hc hasks
    refine ⟨c, (mem_eraseIdx_of_mem hi hc).resolve_left ?_, hasks⟩
    rintro rfl
    cases hasks
  next => exact h

theorem InStep.due {start : System} (h : InStep start) : Due start.server.toLists start where
  projects := by
    rw [h.made]
    exact Or.inl rfl
  worktrees pid _ := by
    rw [h.made]
    exact Or.inl rfl

theorem Course.due {start s : System} (h : Course start s) (hstart : InStep start) : Due start.server.toLists s := by
  induction h with
  | start => exact hstart.due
  | @step s before e ok ih =>
    cases e with
    | change f server => exact ih.change ok
    | frame f => exact ih.frame f
    | refreshProjects => exact ih.continues (continues_send _)
    | refreshWorktreesForProject pid => exact ih.continues (continues_refreshEach [pid])
    | selectProject id => exact ih.continues (continues_selectProject id)
    | serve i => exact ih.serve i
    | arrive i => exact ih.arrive i

/-! ### Convergence -/

/-- Once it is quiet, the answers that were made last are of what the server has. -/
theorem Due.quiet (h : Due base s) (hquiet : Quiet s) : (base.after s.made).projects = s.server.projects ∧
    ∀ pid, s.server.has pid = true → (base.after s.made).worktrees pid = s.server.worktrees pid := by
  have howed {f : SyncFrame} (hf : f ∈ s.owed) : False := by
    rw [hquiet.owed] at hf
    exact List.not_mem_nil hf
  have hcalls {c : Call} (hc : c ∈ s.calls) : False := by
    rw [hquiet.calls] at hc
    exact List.not_mem_nil hc
  constructor
  · rcases h.projects with hsame | ⟨f, hf, -⟩ | ⟨loop, hc⟩
    · exact hsame
    · exact (howed hf).elim
    · exact (hcalls hc).elim
  · intro pid hpid
    rcases h.worktrees pid hpid with hsame | ⟨f, hf, -⟩ | ⟨c, hc, -⟩
    · exact hsame
    · exact (howed hf).elim
    · exact (hcalls hc).elim

/-- Each event of a sequence is allowed where it comes. -/
def AllAllowed : System → List Event → Prop
  | _, [] => True
  | s, e :: events => Allowed s e ∧ AllAllowed (exec s e) events

theorem Course.play {start s : System} (h : Course start s) (events : List Event) (ok : AllAllowed s events) :
    Course start (events.foldl exec s) := by
  induction events generalizing s with
  | nil => exact h
  | cons e events ih => exact ih (h.step e ok.1) ok.2

/-- When all frames have come and all answers have arrived, the client shows what the server has exactly if no answer
was overtaken for good, and none is left of a project that is gone. -/
theorem converged_iff (start : System) (hstart : InStep start) (events : List Event) (ok : AllAllowed start events)
    (hquiet : Quiet (events.foldl exec start)) :
    (events.foldl exec start).client.lists = (events.foldl exec start).server.toLists ↔
      Ordered start.server.toLists (events.foldl exec start) := by
  have hcourse : Course start (events.foldl exec start) := Course.start.play events ok
  have hshown : (events.foldl exec start).client.lists = _ := hcourse.shown hstart
  obtain ⟨hprojects, hworktrees⟩ := (hcourse.due hstart).quiet hquiet
  rw [hshown]
  constructor
  · intro h
    refine ⟨?_, fun pid hpid => ?_, fun pid hpid => ?_⟩
    · rw [h, hprojects]
    · rw [h, hworktrees pid hpid]
    · rw [h, Server.gone _ pid hpid]
  · intro h
    ext1
    · rw [h.projects, hprojects]
    · funext pid
      cases hpid : (events.foldl exec start).server.has pid with
      | true => rw [h.worktrees pid hpid, hworktrees pid hpid]
      | false => rw [h.gone pid hpid, Server.gone _ pid hpid]

/-- A server whose projects have no worktrees. -/
def bare (projects : List Project) : Server := ⟨⟨projects, fun _ => []⟩, fun _ _ => rfl⟩

def one : Project := { id := "p".toList, name := "one".toList, root := "/one".toList }

def two : Project := { id := "q".toList, name := "two".toList, root := "/two".toList }

def fresh : System := { server := bare [], client := {} }

theorem fresh_inStep : InStep fresh := ⟨rfl, rfl, rfl, rfl, rfl⟩

theorem announces_created {projects projects' : List Project} (pid : Text) :
    Announces (.projectCreated pid) (bare projects).toLists (bare projects').toLists :=
  ⟨nofun, fun _ _ => rfl⟩

/-- A project is created; its frame is answered, then the worktrees of the project, and those of the one selected. -/
def created : List Event :=
  [.change (.projectCreated one.id) (bare [one]), .frame (.projectCreated one.id), .serve 0, .arrive 0, .serve 0,
    .arrive 0, .serve 0, .arrive 0]

theorem created_converged : (created.foldl exec fresh).client.lists = (created.foldl exec fresh).server.toLists := by
  have hallowed : AllAllowed fresh created :=
    ⟨announces_created _, trivial, trivial, trivial, trivial, trivial, trivial, trivial, trivial⟩
  refine (converged_iff fresh fresh_inStep created hallowed ⟨rfl, rfl⟩).mpr ⟨rfl, fun _ _ => rfl, fun pid _ => ?_⟩
  change (if pid = one.id then [] else if pid = one.id then [] else []) = []
  simp

/-- Two projects are created, and the second call for the projects is answered before the first. -/
def overtaken : List Event :=
  [.change (.projectCreated one.id) (bare [one]), .frame (.projectCreated one.id), .serve 0,
    .change (.projectCreated two.id) (bare [one, two]), .frame (.projectCreated two.id), .serve 1, .arrive 1,
    .serve 1, .serve 2, .arrive 1, .arrive 1, .serve 1, .arrive 1, .arrive 0, .serve 0, .arrive 0]

def tree : Worktree := { id := "w".toList, projectId := one.id, branch := "b".toList }

/-- A project with one worktree is shown. -/
def grown : System where
  server :=
    { projects := [one]
      worktrees := fun pid => if pid = one.id then [tree] else []
      gone := by
        intro pid hpid
        refine if_neg ?_
        rintro rfl
        exact absurd hpid (by decide) }
  client := { projects := [one], worktrees := fun pid => if pid = one.id then some [tree] else none }

theorem grown_inStep : InStep grown := by
  refine ⟨?_, rfl, rfl, rfl, rfl⟩
  ext1
  · rfl
  · funext pid
    change (if pid = one.id then some [tree] else none).getD [] = if pid = one.id then [tree] else []
    split <;> rfl

/-- The project is deleted, and the frame that says so is answered. -/
def felled : List Event :=
  [.change (.projectDeleted one.id) (bare []), .frame (.projectDeleted one.id), .serve 0, .arrive 0]

theorem felled_allowed : AllAllowed grown felled := by
  refine ⟨⟨nofun, fun pid hpid => ?_⟩, trivial, trivial, trivial, trivial⟩
  have hne : pid ≠ one.id := by
    rintro rfl
    exact hpid rfl
  exact (if_neg hne).symm

/-- A list that was overtaken is shown for good, and so are the worktrees of a project that is deleted. -/
theorem lists_left_behind :
    (InStep fresh ∧ AllAllowed fresh overtaken ∧ Quiet (overtaken.foldl exec fresh) ∧
      (overtaken.foldl exec fresh).client.lists ≠ (overtaken.foldl exec fresh).server.toLists) ∧
    (InStep grown ∧ AllAllowed grown felled ∧ Quiet (felled.foldl exec grown) ∧
      (felled.foldl exec grown).client.lists ≠ (felled.foldl exec grown).server.toLists) := by
  refine ⟨⟨fresh_inStep, ?_, ⟨rfl, rfl⟩, fun h => ?_⟩, ⟨grown_inStep, felled_allowed, ⟨rfl, rfl⟩, fun h => ?_⟩⟩
  · exact ⟨announces_created _, trivial, trivial, announces_created _, trivial, trivial, trivial, trivial, trivial,
      trivial, trivial, trivial, trivial, trivial, trivial, trivial, trivial⟩
  · have hprojects : [one] = [one, two] := congrArg Lists.projects h
    exact absurd hprojects (by decide)
  · have hworktrees : [tree] = [] := congrFun (congrArg Lists.worktrees h) one.id
    exact absurd hworktrees (by decide)

end AgentGrove.CrossInstanceSync
