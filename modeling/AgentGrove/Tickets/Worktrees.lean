import AgentGrove.Model.Tickets

namespace AgentGrove.TicketWorktrees

open ClickUp (TicketRow slugify clickup)
open Worktrees (WorktreeRecord CreateWorktreeBody)

/-- A ClickUp task is of no repository. -/
structure Ticket where
  provider : Text
  repository : Text
  id : Text
deriving DecidableEq

/-- A ticket, and the title that it had when its worktree was created. -/
structure Origin where
  ticket : Ticket
  title : Text

def Origin.branch (o : Origin) : Text := "ticket/".toList ++ o.ticket.id ++ "-".toList ++ slugify o.title

/-- A worktree that was created for a ticket. -/
inductive Made (wt : WorktreeRecord) : Origin → Prop where
  | ticket {ticketId title : Text} {baseRef : Option Text} {project again : Except (Option Text) Repo} {repo : Repo}
      {body : CreateWorktreeBody} (h : workOnTicket wt.projectId ticketId baseRef project again = .ok (repo, title, body))
      (hbranch : wt.branch = body.branch) : Made wt ⟨⟨repo.forge, repo.repository, ticketId⟩, title⟩
  | clickup {taskId title : Text} {project : Except (Option Text) Unit} {token : Option Text} {tasks : Text → List TicketRow}
      {body : CreateWorktreeBody} (h : workOnClickup taskId wt.projectId project token tasks = .ok (title, body))
      (hbranch : wt.branch = body.branch) : Made wt ⟨⟨clickup, [], taskId⟩, title⟩

/-- What the client knows of the worktrees, each of which was created for a ticket. -/
structure Groves where
  worktrees : List (Uuid × List WorktreeRecord)
  origin : Uuid → Origin
  made : ∀ p ∈ worktrees, ∀ wt ∈ p.2, Made wt (origin wt.id)

def Groves.live (g : Groves) :
    List WorktreeRecord := g.worktrees.flatMap (fun p => p.2.filter (fun wt => wt.removedAt.isNone))

def Groves.ticketOf (g : Groves) (wt : WorktreeRecord) : Ticket := (g.origin wt.id).ticket

/-- A ticket is offered a worktree just where one was created for it, and such a one. -/
structure Offered (g : Groves) (t : Ticket) : Prop where
  some_iff : (findTicketWorktree g.worktrees t.id).isSome = true ↔ ∃ wt ∈ g.live, g.ticketOf wt = t
  own : ∀ wt, findTicketWorktree g.worktrees t.id = some wt → g.ticketOf wt = t

/-- A ticket's branch looks as one for this id does: the id is the same one, or the ids run on into each other at a
hyphen. -/
def Origin.Resembles (o : Origin) (id : Text) : Prop :=
  o.ticket.id = id ∨ (id ++ ['-']) <+: o.ticket.id ∨
    ∃ rest, id = o.ticket.id ++ '-' :: rest ∧ (rest ++ ['-']) <+: slugify o.title

/-- Every worktree of another ticket with such a branch comes after one of this ticket's own. -/
def FirstOwn (g : Groves) (t : Ticket) : Prop := ∀ before wt after, g.live = before ++ wt :: after → g.ticketOf wt ≠ t →
  (g.origin wt.id).Resembles t.id → ∃ own ∈ before, g.ticketOf own = t

theorem Made.branch_eq {wt : WorktreeRecord} {o : Origin} (h : Made wt o) : wt.branch = o.branch := by
  cases h with
  | @ticket ticketId title baseRef project again repo body h hbranch =>
    rw [hbranch]
    unfold workOnTicket at h
    cases project with
    | error e => cases h
    | ok repo =>
      dsimp only at h
      cases hlist : listTickets wt.projectId again with
      | error e =>
        rw [hlist] at h
        cases h
      | ok tickets =>
        rw [hlist] at h
        dsimp only [Bind.bind, Except.bind] at h
        split at h
        · cases h
        · cases h
          rfl
  | @clickup taskId title project token tasks body h hbranch =>
    rw [hbranch]
    unfold workOnClickup at h
    cases project with
    | error e => cases h
    | ok _ =>
      cases token with
      | none => cases h
      | some tok =>
        cases h
        rfl

/-- The ids are told apart by the hyphen that follows them, as far as they are without one. -/
theorem run_on_iff {id other rest : Text} : (id ++ ['-']) <+: other ++ '-' :: rest ↔
    other = id ∨ (id ++ ['-']) <+: other ∨ ∃ more, id = other ++ '-' :: more ∧ (more ++ ['-']) <+: rest := by
  constructor
  · rintro ⟨after, h⟩
    rw [List.append_assoc, List.singleton_append] at h
    rcases List.append_eq_append_iff.mp h with ⟨more, hother, hrest⟩ | ⟨more, hid, hrest⟩
    · cases more with
      | nil => exact .inl (by simpa using hother)
      | cons c more =>
        obtain ⟨rfl, hmore⟩ := List.cons.inj hrest
        refine .inr (.inl ⟨more, ?_⟩)
        rw [hother]
        simp
    · cases more with
      | nil => exact .inl (by simpa using hid.symm)
      | cons c more =>
        obtain ⟨rfl, hmore⟩ := List.cons.inj hrest
        refine .inr (.inr ⟨more, hid, after, ?_⟩)
        rw [hmore]
        simp
  · rintro (rfl | ⟨after, rfl⟩ | ⟨more, rfl, after, rfl⟩)
    · exact ⟨rest, by simp⟩
    · exact ⟨after ++ '-' :: rest, by simp⟩
    · exact ⟨after, by simp⟩

theorem Origin.start_iff (o : Origin) (id : Text) :
    ("ticket/".toList ++ id ++ "-".toList) <+: o.branch ↔ o.Resembles id := by
  unfold Origin.branch
  rw [List.append_assoc, List.append_assoc, List.append_assoc, List.prefix_append_right_inj]
  exact run_on_iff

theorem resembles_self (o : Origin) : o.Resembles o.ticket.id := .inl rfl

/-- Without hyphens in the ids, a branch looks like that of the same id only. -/
theorem resembles_plain {o : Origin} {id : Text} (hid : '-' ∉ id) (ho : '-' ∉ o.ticket.id) :
    o.Resembles id ↔ o.ticket.id = id := by
  constructor
  · rintro (rfl | ⟨after, hafter⟩ | ⟨rest, rfl, -⟩)
    · rfl
    · exact absurd (by simp [← hafter]) ho
    · exact absurd (by simp) hid
  · exact .inl

section Search

variable {g : Groves} {t : Ticket} {wt : WorktreeRecord}

theorem Groves.made_of_live (hwt : wt ∈ g.live) : Made wt (g.origin wt.id) := by
  obtain ⟨p, hp, hwt⟩ := List.mem_flatMap.mp hwt
  exact g.made p hp wt (List.mem_filter.mp hwt).1

theorem find_eq (g : Groves) (id : Text) : findTicketWorktree g.worktrees id =
    g.live.find? (fun wt => ("ticket/".toList ++ id ++ "-".toList).isPrefixOf wt.branch) := by
  unfold findTicketWorktree Groves.live
  rw [List.find?_flatMap]
  simp only [List.find?_filter, Bool.decide_and, Bool.decide_eq_true]

theorem start_of_live (hwt : wt ∈ g.live) (id : Text) :
    ("ticket/".toList ++ id ++ "-".toList).isPrefixOf wt.branch = true ↔ (g.origin wt.id).Resembles id := by
  rw [List.isPrefixOf_iff_prefix, (Groves.made_of_live hwt).branch_eq, Origin.start_iff]

theorem find_isSome (hwt : wt ∈ g.live) (ht : g.ticketOf wt = t) :
    (findTicketWorktree g.worktrees t.id).isSome = true := by
  rw [find_eq, List.find?_isSome]
  refine ⟨wt, hwt, (start_of_live hwt t.id).mpr ?_⟩
  subst ht
  exact resembles_self _

/-- What is found is the first that looks like one of this ticket's. -/
theorem find_some (h : findTicketWorktree g.worktrees t.id = some wt) : ∃ before after, g.live = before ++ wt :: after ∧
    (g.origin wt.id).Resembles t.id ∧ ∀ other ∈ before, g.ticketOf other ≠ t := by
  rw [find_eq] at h
  obtain ⟨hstart, before, after, hlive, hbefore⟩ := List.find?_eq_some_iff_append.mp h
  have hwt : wt ∈ g.live := by simp [hlive]
  refine ⟨before, after, hlive, (start_of_live hwt t.id).mp hstart, ?_⟩
  rintro other hother rfl
  have hlater : other ∈ g.live := by simp [hlive, hother]
  have hmiss := hbefore other hother
  have hhit := (start_of_live hlater (g.ticketOf other).id).mpr (resembles_self _)
  rw [hhit] at hmiss
  cases hmiss

end Search

/-- A ticket is offered its own worktree, or none, just where no worktree of another ticket with such a branch comes
first. -/
theorem offered_iff (g : Groves) (t : Ticket) : Offered g t ↔ FirstOwn g t := by
  constructor
  · intro hoffered before wt after hlive hother hresembles
    have hwt : wt ∈ g.live := by simp [hlive]
    have hstart := (start_of_live hwt t.id).mpr hresembles
    cases hfind : before.find? (fun wt => ("ticket/".toList ++ t.id ++ "-".toList).isPrefixOf wt.branch) with
    | none =>
      have hfirst : findTicketWorktree g.worktrees t.id = some wt := by
        rw [find_eq, hlive, List.find?_append, hfind, Option.none_or]
        exact List.find?_cons_of_pos hstart
      exact absurd (hoffered.own wt hfirst) hother
    | some own =>
      have hfirst : findTicketWorktree g.worktrees t.id = some own := by
        rw [find_eq, hlive, List.find?_append, hfind, Option.some_or]
      exact ⟨own, List.mem_of_find?_eq_some hfind, hoffered.own own hfirst⟩
  · intro hfirst
    have hown (wt : WorktreeRecord) (hfind : findTicketWorktree g.worktrees t.id = some wt) : g.ticketOf wt = t := by
      by_contra hother
      obtain ⟨before, after, hlive, hresembles, hbefore⟩ := find_some hfind
      obtain ⟨own, hmem, heq⟩ := hfirst before wt after hlive hother hresembles
      exact hbefore own hmem heq
    refine ⟨⟨?_, ?_⟩, hown⟩
    · intro hsome
      obtain ⟨wt, hfind⟩ := Option.isSome_iff_exists.mp hsome
      obtain ⟨before, after, hlive, -, -⟩ := find_some hfind
      exact ⟨wt, by simp [hlive], hown wt hfind⟩
    · rintro ⟨wt, hwt, ht⟩
      exact find_isSome hwt ht

/-- Issue 5 of one repository. -/
def issueFive : TicketRow where
  provider := "github".toList
  id := "5".toList
  title := "Fix".toList
  status := "OPEN".toList
  url := []
  labels := []
  assignee := none
  author := none
  createdAt := none
  updatedAt := none
  priority := none

def fivesWorktree : WorktreeRecord where
  id := 10
  projectId := 1
  branch := "ticket/5-fix".toList
  baseRef := "HEAD".toList
  path := "/w/1/ticket-5-fix".toList
  status := .ready
  preScript := none
  postScript := none
  createdAt := 0
  updatedAt := 0
  removedAt := none

/-- The one worktree was created for issue 5 of the repository of project 1. -/
def worked : Groves where
  worktrees := [(1, [fivesWorktree]), (2, [])]
  origin := fun _ => ⟨⟨"github".toList, "acme/api".toList, "5".toList⟩, "Fix".toList⟩
  made := by
    have hmade : Made fivesWorktree ⟨⟨"github".toList, "acme/api".toList, "5".toList⟩, "Fix".toList⟩ := by
      let repo : Repo := ⟨"acme/api".toList, "github".toList, [issueFive], []⟩
      have hbody : workOnTicket fivesWorktree.projectId "5".toList none (.ok repo) (.ok repo) =
        .ok (repo, "Fix".toList, { branch := "ticket/5-fix".toList }) := rfl
      exact .ticket hbody rfl
    simpa using hmade

/-- Issue 5 of another repository is offered that worktree, and has none. -/
theorem other_issue_offered :
    let t : Ticket := ⟨"github".toList, "acme/web".toList, "5".toList⟩
    findTicketWorktree worked.worktrees t.id = some fivesWorktree ∧ (∀ wt ∈ worked.live, worked.ticketOf wt ≠ t) ∧
    ¬ Offered worked t := by
  have hfound : findTicketWorktree worked.worktrees "5".toList = some fivesWorktree := by decide
  have hother (wt : WorktreeRecord) : worked.ticketOf wt ≠ ⟨"github".toList, "acme/web".toList, "5".toList⟩ := by
    change (Ticket.mk "github".toList "acme/api".toList "5".toList) ≠ _
    decide
  refine ⟨hfound, fun wt _ => hother wt, ?_⟩
  intro hoffered
  exact hother _ (hoffered.own _ hfound)

end AgentGrove.TicketWorktrees
