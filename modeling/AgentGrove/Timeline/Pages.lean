import AgentGrove.Coop.Digest
import AgentGrove.Model.ChatVerbs

namespace AgentGrove.Web

open Coop

/-- What has come of a chat so far, oldest prompt first, and the pages of `list_prompts`
among it as they were answered. -/
structure Backfill where
  received : List PromptRecord
  pages : List (List PromptRecord × Bool)

/-- Ask for the page before the oldest prompt received, if there is one. -/
def Backfill.next (c : ChatRecord) (b : Backfill) (limit : Nat) : Backfill :=
  match b.received.head? with
  | none => b
  | some oldest =>
    let page := listPrompts c oldest.seq limit
    { received := page.1 ++ b.received, pages := b.pages ++ [page] }

/-- The window of `get_one`, and then a page for each limit. -/
def backfill (c : ChatRecord) (limits : List Nat) : Backfill :=
  limits.foldl (Backfill.next c) ⟨(windowChat c).chat.prompts, []⟩

/-- The page contains the chat's first prompt. -/
def HasFirst (c : ChatRecord) (page : List PromptRecord) : Prop :=
  ∃ first, c.prompts.head? = some first ∧ windowEvents first ∈ page

section

variable {c : ChatRecord} {front back : List PromptRecord} {oldest : PromptRecord} {n : Nat}

theorem clamp_pos (limit : Nat) : 0 < min (max limit 1) 200 := by omega

/-- The prompts before one of an ordered list are those in front of it. -/
theorem filter_before
    (h : (front ++ oldest :: back).Pairwise (fun p q => p.seq < q.seq)) :
    (front ++ oldest :: back).filter (fun p => p.seq < oldest.seq) = front := by
  obtain ⟨-, hback, hfront⟩ := List.pairwise_append.mp h
  have hkeep : front.filter (fun p => p.seq < oldest.seq) = front := by
    apply List.filter_eq_self.mpr
    intro p hp
    exact decide_eq_true (hfront p hp oldest List.mem_cons_self)
  have hdrop : (oldest :: back).filter (fun p => p.seq < oldest.seq) = [] := by
    apply List.filter_eq_nil_iff.mpr
    intro p hp
    rw [decide_eq_true_eq, Nat.not_lt]
    rcases List.mem_cons.mp hp with rfl | hp
    · exact Nat.le_refl _
    · exact Nat.le_of_lt ((List.pairwise_cons.mp hback).1 p hp)
  rw [List.filter_append, hkeep, hdrop, List.append_nil]

/-- A page takes the last prompts that are still missing. -/
theorem listPrompts_page (h : c.prompts.Pairwise (fun p q => p.seq < q.seq))
    (hsplit : c.prompts = front ++ oldest :: back) (limit : Nat) :
    listPrompts c oldest.seq limit =
      ((latest (min (max limit 1) 200) front).map windowEvents,
        decide (front.length ≤ min (max limit 1) 200)) := by
  have hslice := filter_before (hsplit ▸ h)
  unfold listPrompts
  simp only [hsplit, hslice]
  rfl

/-- A page that reaches back to the chat's first prompt is one that takes all. -/
theorem page_first (hpos : 0 < n) (h : c.prompts.Pairwise (fun p q => p.seq < q.seq))
    (hsplit : c.prompts = front ++ back) :
    front.length ≤ n ↔ (latest n front).map windowEvents = [] ∨
      HasFirst c ((latest n front).map windowEvents) := by
  constructor
  · intro hl
    rw [latest_short hl]
    cases front with
    | nil => exact .inl rfl
    | cons first front =>
      refine .inr ⟨first, ?_, List.mem_map_of_mem List.mem_cons_self⟩
      rw [hsplit]
      rfl
  · rintro (hnil | ⟨first, hfirst, hmem⟩)
    · have hlen := congrArg List.length hnil
      rw [List.length_map, length_latest, List.length_nil] at hlen
      omega
    · by_contra hl
      cases front with
      | nil => exact hl (Nat.zero_le n)
      | cons p front =>
        have hp : p = first := by simpa [hsplit] using hfirst
        have hle : n ≤ front.length := by
          rw [List.length_cons] at hl
          omega
        rw [latest_cons hle] at hmem
        obtain ⟨q, hq, he⟩ := List.mem_map.mp hmem
        have hseq : q.seq = first.seq := by
          have := congrArg PromptRecord.seq he
          simpa [windowEvents] using this
        rw [hsplit, List.cons_append, List.pairwise_cons] at h
        have hlt := h.1 q (List.mem_append_left _ ((latest_suffix n front).subset hq))
        rw [hp, hseq] at hlt
        exact Nat.lt_irrefl _ hlt

end

/-- Where a backfill stands: the prompts in front are missing, those behind have come. Every
page that is not the last takes some of the missing ones away. -/
structure Backfilled (c : ChatRecord) (front back : List PromptRecord) (b : Backfill) : Prop where
  split : c.prompts = front ++ back
  begun : back = [] → c.prompts = []
  received : b.received = back.map windowEvents
  pages : b.received = (b.pages.map Prod.fst).reverse.flatten ++ (windowChat c).chat.prompts
  first : ∀ page ∈ b.pages, page.2 = true ↔ page.1 = [] ∨ HasFirst c page.1
  done : (∃ page ∈ b.pages, page.2 = true) → front = []
  pace : (∀ page ∈ b.pages, page.2 = false) →
    b.pages.length + front.length ≤ c.prompts.length - defaultPromptsWindow

namespace Backfilled

variable {c : ChatRecord} {front back : List PromptRecord} {b : Backfill}

theorem window (c : ChatRecord) :
    Backfilled c (c.prompts.take (c.prompts.length - defaultPromptsWindow))
      (c.prompts.drop (c.prompts.length - defaultPromptsWindow))
      ⟨(windowChat c).chat.prompts, []⟩ := by
  refine ⟨(List.take_append_drop _ _).symm, fun hnil => ?_, rfl, rfl, fun _ hp => (nomatch hp),
    fun ⟨_, hp, _⟩ => (nomatch hp), fun _ => ?_⟩
  · have hlen := congrArg List.length hnil
    rw [List.length_drop, List.length_nil] at hlen
    apply List.eq_nil_of_length_eq_zero
    unfold defaultPromptsWindow at hlen
    omega
  · rw [List.length_take, List.length_nil, Nat.zero_add]
    exact Nat.min_le_left _ _

/-- A page moves prompts from the front to the back. -/
theorem next (h : Backfilled c front back b) (hseq : c.prompts.Pairwise (fun p q => p.seq < q.seq))
    (hsome : c.prompts ≠ []) (limit : Nat) :
    ∃ front' back', Backfilled c front' back' (b.next c limit) ∧
      (b.next c limit).pages.length = b.pages.length + 1 := by
  cases back with
  | nil => exact absurd (h.begun rfl) hsome
  | cons oldest back =>
    have hhead : b.received.head? = some (windowEvents oldest) := by
      rw [h.received]
      rfl
    have hoseq : (windowEvents oldest).seq = oldest.seq := by simp only [windowEvents]
    have hpos := clamp_pos limit
    have hpage := listPrompts_page hseq h.split limit
    generalize min (max limit 1) 200 = n at hpos hpage
    have hfirst := page_first hpos hseq h.split
    have hnext : b.next c limit =
        { received := (latest n front).map windowEvents ++ b.received
          pages := b.pages ++ [((latest n front).map windowEvents, decide (front.length ≤ n))] } := by
      simp only [Backfill.next, hhead, hoseq, hpage]
    have hcut : front.take (front.length - n) ++ latest n front = front := List.take_append_drop _ _
    rw [hnext]
    refine ⟨front.take (front.length - n), latest n front ++ oldest :: back,
      ⟨?_, by simp, ?_, ?_, ?_, ?_, ?_⟩, by simp⟩
    · rw [← List.append_assoc, hcut]
      exact h.split
    · rw [h.received, List.map_append]
    · simp [h.pages]
    · intro page hp
      rcases List.mem_append.mp hp with hp | hp
      · exact h.first page hp
      · rw [List.mem_singleton.mp hp, decide_eq_true_eq]
        exact hfirst
    · rintro ⟨page, hp, hdone⟩
      rcases List.mem_append.mp hp with hp | hp
      · rw [h.done ⟨page, hp, hdone⟩, List.take_nil]
      · rw [List.mem_singleton.mp hp, decide_eq_true_eq] at hdone
        rw [Nat.sub_eq_zero_of_le hdone, List.take_zero]
    · intro hall
      have hlong := hall _ (List.mem_append_right _ (List.mem_singleton_self _))
      rw [decide_eq_false_iff_not] at hlong
      have hpace := h.pace fun page hp => hall page (List.mem_append_left _ hp)
      simp only [List.length_append, List.length_singleton, List.length_take]
      omega

theorem backfill (hseq : c.prompts.Pairwise (fun p q => p.seq < q.seq)) (hsome : c.prompts ≠ [])
    (limits : List Nat) : ∃ front back, Backfilled c front back (backfill c limits) ∧
      (AgentGrove.Web.backfill c limits).pages.length = limits.length := by
  induction limits using List.reverseRecOn with
  | nil => exact ⟨_, _, window c, rfl⟩
  | append_singleton limits limit ih =>
    obtain ⟨front, back, hb, hlen⟩ := ih
    obtain ⟨front', back', hb', hlen'⟩ := hb.next hseq hsome limit
    rw [AgentGrove.Web.backfill, List.foldl_concat]
    refine ⟨front', back', hb', ?_⟩
    rw [List.length_append, List.length_singleton, ← hlen]
    exact hlen'

end Backfilled

/-- Without prompts there is nothing to ask for. -/
theorem backfill_empty {c : ChatRecord} (h : c.prompts = []) (limits : List Nat) :
    backfill c limits = ⟨[], []⟩ := by
  induction limits using List.reverseRecOn with
  | nil => simp [backfill, windowChat, h]
  | append_singleton limits limit ih =>
    rw [backfill, List.foldl_concat]
    exact congrArg (fun b => Backfill.next c b limit) ih

/-- The window and the pages before it, with whatever limits, are the timeline without gaps or
repetitions, as far as they go. A page says that it is the last exactly if it has the chat's
first prompt or is empty, then everything has come, and one does after as many calls
as there are prompts beyond the window and one more. -/
theorem pagination_complete {c : ChatRecord} (hseq : c.prompts.Pairwise (fun p q => p.seq < q.seq))
    (limits : List Nat) :
    let b := backfill c limits
    b.received = (b.pages.map Prod.fst).reverse.flatten ++ (windowChat c).chat.prompts ∧
      b.received <:+ c.prompts.map windowEvents ∧
      (∀ page ∈ b.pages, page.2 = true ↔ page.1 = [] ∨ HasFirst c page.1) ∧
      ((∃ page ∈ b.pages, page.2 = true) → b.received = c.prompts.map windowEvents) ∧
      (c.prompts.length - 50 < limits.length → b.received = c.prompts.map windowEvents ∧
        (c.prompts = [] ∨ ∃ page ∈ b.pages, page.2 = true)) := by
  intro b
  by_cases hnil : c.prompts = []
  · have hb : b = ⟨[], []⟩ := backfill_empty hnil limits
    rw [hb, hnil]
    simp [windowChat, hnil]
  · obtain ⟨front, back, hb, hlen⟩ := Backfilled.backfill hseq hnil limits
    have hall : front = [] → b.received = c.prompts.map windowEvents := by
      intro hfront
      rw [hb.received, hb.split, hfront, List.nil_append]
    refine ⟨hb.pages, ?_, hb.first, fun hdone => hall (hb.done hdone), fun hlong => ?_⟩
    · rw [hb.received, hb.split, List.map_append]
      exact List.suffix_append _ _
    · have hdone : ∃ page ∈ b.pages, page.2 = true := by
        by_contra hnone
        have hpace := hb.pace fun page hp => by
          rw [← Bool.not_eq_true]
          exact fun hp2 => hnone ⟨page, hp, hp2⟩
        unfold defaultPromptsWindow at hpace
        omega
      exact ⟨hall (hb.done hdone), .inr hdone⟩

/-- A chat of 52 prompts. -/
def longChat : ChatRecord where
  id := 1
  projectId := 0
  worktreeId := none
  title := ['t']
  provider := ['p']
  model := ['m']
  createdAt := 0
  prompts := (List.range 52).map (fun i =>
    { id := i + 2, seq := i + 1, content := ['a'], events := [], touchedPaths := [], createdAt := 0 })
  sessionId := none
  effort := none

theorem pagination_complete_long :
    (backfill longChat [1, 0, 1]).received = longChat.prompts.map windowEvents := by
  have hseq : longChat.prompts.Pairwise (fun p q => p.seq < q.seq) :=
    List.pairwise_map.mpr (List.pairwise_lt_range.imp Nat.succ_lt_succ)
  have hall := pagination_complete hseq [1, 0, 1]
  exact (hall.2.2.2.2 (by simp [longChat])).1

end AgentGrove.Web
