import AgentGrove.Coop.Digest
import AgentGrove.Coop.Ranking
import AgentGrove.Model.Export
import Mathlib.Algebra.Order.BigOperators.Group.List
import Mathlib.Algebra.Order.Ring.Nat
import Mathlib.Data.List.Nodup

namespace AgentGrove.Export

open Coop (latest latest_short length_latest)
open Web (listPrompts windowEvents)

/-- The prompts of a chat as it is at any time. -/
abbrev Ascending (prompts : List PromptRecord) : Prop := prompts.Pairwise (fun p q => p.seq < q.seq)

section Pages

variable {c : ChatRecord} {p q : PromptRecord} {before : Nat}

/-- The prompts of a chat that a page may have. -/
def earlier (c : ChatRecord) (before : Nat) : List PromptRecord := c.prompts.filter (fun p => p.seq < before)

theorem page_prompts (c : ChatRecord) (before : Nat) :
    (listPrompts c before pageLimit).1 = (latest pageLimit (earlier c before)).map windowEvents := by
  have hlimit : min (max pageLimit 1) 200 = pageLimit := by decide
  simp only [listPrompts, hlimit]
  rfl

theorem page_last (c : ChatRecord) (before : Nat) :
    (listPrompts c before pageLimit).2 = decide ((earlier c before).length ≤ pageLimit) := by
  have hlimit : min (max pageLimit 1) 200 = pageLimit := by decide
  simp only [listPrompts, hlimit]
  rfl

theorem windowEvents_seq (p : PromptRecord) : (windowEvents p).seq = p.seq := by
  simp only [windowEvents]

theorem mem_page (h : p ∈ (listPrompts c before pageLimit).1) :
    ∃ q ∈ c.prompts, p = windowEvents q := by
  rw [page_prompts, List.mem_map] at h
  obtain ⟨q, hq, rfl⟩ := h
  exact ⟨q, (List.mem_filter.mp ((Coop.latest_suffix pageLimit _).subset hq)).1, rfl⟩

theorem ascending_map {ps : List PromptRecord} (h : Ascending ps) : Ascending (ps.map windowEvents) := by
  rw [Ascending, List.pairwise_map]
  simpa only [windowEvents_seq] using h

theorem earlier_ascending (h : Ascending c.prompts) : Ascending (earlier c before) := List.Pairwise.filter _ h

theorem page_ascending (h : Ascending c.prompts) : Ascending (listPrompts c before pageLimit).1 := by
  rw [page_prompts]
  exact ascending_map ((earlier_ascending h).sublist (Coop.latest_suffix pageLimit _).sublist)

/-- What is at the end of an ascending list has everything from its head on. -/
theorem latest_covers {ps : List PromptRecord} (h : Ascending ps) (n : Nat) (hp : p ∈ ps)
    (hle : oldestSeq (latest n ps) ≤ p.seq) (hne : latest n ps ≠ []) : p ∈ latest n ps := by
  have hsplit : ps.take (ps.length - n) ++ latest n ps = ps := List.take_append_drop _ _
  obtain ⟨x, xs, hx⟩ := List.exists_cons_of_ne_nil hne
  rw [← hsplit, Ascending, List.pairwise_append] at h
  rw [← hsplit, List.mem_append] at hp
  rcases hp with hp | hp
  · have hlt := h.2.2 p hp x (by rw [hx]; exact List.mem_cons_self)
    rw [hx] at hle
    exact absurd hle (Nat.not_le.mpr hlt)
  · exact hp

/-- A page has every prompt before the one that was asked for, from its own oldest on. -/
theorem page_covers (h : Ascending c.prompts) (hq : q ∈ c.prompts) (hbefore : q.seq < before)
    (hle : oldestSeq (listPrompts c before pageLimit).1 ≤ q.seq) (hne : (listPrompts c before pageLimit).1 ≠ []) :
    windowEvents q ∈ (listPrompts c before pageLimit).1 := by
  have hmem : q ∈ earlier c before := List.mem_filter.mpr ⟨hq, decide_eq_true hbefore⟩
  rw [page_prompts] at hle hne ⊢
  have hhead : oldestSeq ((latest pageLimit (earlier c before)).map windowEvents) = oldestSeq (latest pageLimit (earlier c before)) := by
    cases latest pageLimit (earlier c before) with
    | nil => rfl
    | cons p ps => simp [oldestSeq, windowEvents_seq]
  rw [hhead] at hle
  exact List.mem_map_of_mem (latest_covers (earlier_ascending h) pageLimit hmem hle fun hnil => hne (by rw [hnil]; rfl))

/-- A page that says it is the last has every prompt before the one that was asked for. -/
theorem last_covers (hlast : (listPrompts c before pageLimit).2 = true) (hq : q ∈ c.prompts) (hbefore : q.seq < before) :
    windowEvents q ∈ (listPrompts c before pageLimit).1 := by
  rw [page_last, decide_eq_true_eq] at hlast
  rw [page_prompts, latest_short hlast]
  exact List.mem_map_of_mem (List.mem_filter.mpr ⟨hq, decide_eq_true hbefore⟩)

theorem empty_page (hnil : (listPrompts c before pageLimit).1 = []) (hq : q ∈ c.prompts) : before ≤ q.seq := by
  by_contra hbefore
  have hmem : q ∈ earlier c before := List.mem_filter.mpr ⟨hq, decide_eq_true (Nat.not_le.mp hbefore)⟩
  have hlen := congrArg List.length hnil
  rw [page_prompts, List.length_map, length_latest, List.length_nil] at hlen
  have hpos := List.length_pos_of_mem hmem
  have hlimit : 0 < pageLimit := by decide
  omega

/-- The last of so many ascending numbers is that far behind the first. -/
theorem ascending_span {ps : List PromptRecord} (h : Ascending ps) (hlt : ∀ p ∈ ps, p.seq < before) (hne : ps ≠ []) :
    oldestSeq ps + ps.length ≤ before := by
  induction ps with
  | nil => exact absurd rfl hne
  | cons p ps ih =>
    obtain ⟨hfirst, hrest⟩ := List.pairwise_cons.mp h
    cases ps with
    | nil =>
      exact hlt p List.mem_cons_self
    | cons q qs =>
      have hspan := ih hrest (fun r hr => hlt r (List.mem_cons_of_mem _ hr)) (by simp)
      have hpq := hfirst q List.mem_cons_self
      simp only [oldestSeq, List.head?_cons, Option.map_some, Option.getD_some, List.length_cons] at hspan ⊢
      omega

/-- A page that is not the last is full, so its oldest prompt is far before the one that was asked for. -/
theorem page_pace (h : Ascending c.prompts) (hlast : (listPrompts c before pageLimit).2 = false) :
    oldestSeq (listPrompts c before pageLimit).1 + pageLimit ≤ before := by
  have hlong : pageLimit < (earlier c before).length := by
    rw [page_last, decide_eq_false_iff_not, Nat.not_le] at hlast
    exact hlast
  have hlen : (listPrompts c before pageLimit).1.length = pageLimit := by
    rw [page_prompts, List.length_map, length_latest]
    omega
  have hne : (listPrompts c before pageLimit).1 ≠ [] := by
    intro hnil
    rw [hnil] at hlen
    cases hlen
  have hspan := ascending_span (page_ascending h) (fun p hp => page_before hp) hne
  rwa [hlen] at hspan

end Pages

section Loop

variable {served : Nat → Option ChatRecord} {ps out : List PromptRecord}

/-- A number that every request finds a prompt of. -/
def Lasting (served : Nat → Option ChatRecord) (n : Nat) : Prop :=
  ∀ k c, served k = some c → ∃ q ∈ c.prompts, q.seq = n

/-- What has come so far: prompts of the chat in their order, with everything lasting from the oldest on. -/
structure Fetched (served : Nat → Option ChatRecord) (ps : List PromptRecord) : Prop where
  ascending : Ascending ps
  found : ∀ p ∈ ps, ∃ k c, served k = some c ∧ ∃ q ∈ c.prompts, p = windowEvents q
  covers : ∀ n, Lasting served n → oldestSeq ps ≤ n → ∃ p ∈ ps, p.seq = n

/-- All that lasts has come. -/
structure Whole (served : Nat → Option ChatRecord) (ps : List PromptRecord) : Prop where
  ascending : Ascending ps
  found : ∀ p ∈ ps, ∃ k c, served k = some c ∧ ∃ q ∈ c.prompts, p = windowEvents q
  covers : ∀ n, Lasting served n → ∃ p ∈ ps, p.seq = n

theorem oldestSeq_append {qs : List PromptRecord} (h : ps ≠ []) : oldestSeq (ps ++ qs) = oldestSeq ps := by
  cases ps with
  | nil => exact absurd rfl h
  | cons p ps => rfl

/-- A page in front of what has come. -/
theorem Fetched.page_ascending (h : Fetched served ps) {k : Nat} {c : ChatRecord} (hk : served k = some c)
    (hseq : Ascending c.prompts) :
    Ascending ((listPrompts c (oldestSeq ps) pageLimit).1 ++ ps) ∧
      ∀ p ∈ (listPrompts c (oldestSeq ps) pageLimit).1 ++ ps, ∃ k c, served k = some c ∧ ∃ q ∈ c.prompts, p = windowEvents q := by
  constructor
  · refine List.pairwise_append.mpr ⟨Export.page_ascending hseq, h.ascending, fun p hp q hq => ?_⟩
    have hle : oldestSeq ps ≤ q.seq := by
      cases ps with
      | nil => cases hq
      | cons r rs =>
        rcases List.mem_cons.mp hq with rfl | hq
        · exact Nat.le_refl _
        · exact Nat.le_of_lt ((List.pairwise_cons.mp h.ascending).1 q hq)
    exact Nat.lt_of_lt_of_le (page_before hp) hle
  · intro p hp
    rcases List.mem_append.mp hp with hp | hp
    · exact ⟨k, c, hk, mem_page hp⟩
    · exact h.found p hp

theorem Fetched.page (h : Fetched served ps) {k : Nat} {c : ChatRecord} (hk : served k = some c) (hseq : Ascending c.prompts)
    (hne : (listPrompts c (oldestSeq ps) pageLimit).1 ≠ []) :
    Fetched served ((listPrompts c (oldestSeq ps) pageLimit).1 ++ ps) := by
  obtain ⟨hascending, hfound⟩ := h.page_ascending hk hseq
  refine ⟨hascending, hfound, fun n hn hle => ?_⟩
  rw [oldestSeq_append hne] at hle
  obtain hlt | hge := Nat.lt_or_ge n (oldestSeq ps)
  · obtain ⟨q, hq, rfl⟩ := hn k c hk
    exact ⟨windowEvents q, List.mem_append_left _ (page_covers hseq hq hlt hle hne), windowEvents_seq q⟩
  · obtain ⟨p, hp, rfl⟩ := h.covers n hn hge
    exact ⟨p, List.mem_append_right _ hp, rfl⟩

theorem Fetched.last (h : Fetched served ps) {k : Nat} {c : ChatRecord} (hk : served k = some c) (hseq : Ascending c.prompts)
    (hlast : (listPrompts c (oldestSeq ps) pageLimit).2 = true) :
    Whole served ((listPrompts c (oldestSeq ps) pageLimit).1 ++ ps) := by
  obtain ⟨hascending, hfound⟩ := h.page_ascending hk hseq
  refine ⟨hascending, hfound, fun n hn => ?_⟩
  obtain hlt | hge := Nat.lt_or_ge n (oldestSeq ps)
  · obtain ⟨q, hq, rfl⟩ := hn k c hk
    exact ⟨windowEvents q, List.mem_append_left _ (last_covers hlast hq hlt), windowEvents_seq q⟩
  · obtain ⟨p, hp, rfl⟩ := h.covers n hn hge
    exact ⟨p, List.mem_append_right _ hp, rfl⟩

theorem Fetched.empty (h : Fetched served ps) {k : Nat} {c : ChatRecord} (hk : served k = some c)
    (hnil : (listPrompts c (oldestSeq ps) pageLimit).1 = []) : Whole served ps := by
  refine ⟨h.ascending, h.found, fun n hn => ?_⟩
  obtain ⟨q, hq, rfl⟩ := hn k c hk
  exact h.covers q.seq hn (empty_page hnil hq)

/-- The loop ends with all that lasts. -/
theorem fetchOlder_whole (hseq : ∀ k c, served k = some c → Ascending c.prompts) (k : Nat) (h : Fetched served ps)
    (hne : ps ≠ []) (hout : fetchOlder served k ps = some out) : Whole served out := by
  induction k, ps using fetchOlder.induct served with
  | case1 k => exact absurd rfl hne
  | case2 k oldest newer hnone =>
    rw [fetchOlder, hnone] at hout
    cases hout
  | case3 k oldest newer c hk hnil =>
    rw [fetchOlder, hk] at hout
    simp only [hnil, if_true, Option.some.injEq] at hout
    subst hout
    exact h.empty hk hnil
  | case4 k oldest newer c hk hpage hlast =>
    rw [fetchOlder, hk] at hout
    simp only [if_neg hpage, hlast, if_true, Option.some.injEq] at hout
    subst hout
    exact h.last hk (hseq k c hk) hlast
  | case5 k oldest newer c hk hpage hlast ih =>
    rw [fetchOlder, hk] at hout
    simp only [if_neg hpage, if_neg hlast] at hout
    exact ih (h.page hk (hseq k c hk) hpage) (by simp) hout

/-- As many requests as there may be full pages, and one more, are enough. -/
theorem fetchOlder_ends (hseq : ∀ k c, served k = some c → Ascending c.prompts) (n : Nat) (k : Nat)
    (hserved : ∀ i ≤ n, (served (k + i)).isSome = true) (hn : oldestSeq ps < pageLimit * (n + 1)) :
    (fetchOlder served k ps).isSome = true := by
  induction n generalizing k ps with
  | zero =>
    cases ps with
    | nil => rw [fetchOlder]; rfl
    | cons oldest newer =>
      obtain ⟨c, hk⟩ := Option.isSome_iff_exists.mp (hserved 0 (Nat.le_refl 0))
      rw [Nat.add_zero] at hk
      rw [fetchOlder, hk]
      dsimp only
      split
      · rfl
      · split
        · rfl
        · rename_i hlast
          have hpace := page_pace (hseq k c hk) (by simpa using hlast)
          simp only [oldestSeq, List.head?_cons, Option.map_some, Option.getD_some] at hn
          omega
  | succ n ih =>
    cases ps with
    | nil => rw [fetchOlder]; rfl
    | cons oldest newer =>
      obtain ⟨c, hk⟩ := Option.isSome_iff_exists.mp (hserved 0 (Nat.zero_le _))
      rw [Nat.add_zero] at hk
      rw [fetchOlder, hk]
      dsimp only
      split
      · rfl
      · rename_i hpage
        split
        · rfl
        · rename_i hlast
          have hpace := page_pace (hseq k c hk) (by simpa using hlast)
          simp only [oldestSeq, List.head?_cons, Option.map_some, Option.getD_some] at hn
          apply ih (k + 1)
          · intro i hi
            rw [Nat.add_assoc, Nat.add_comm 1 i]
            exact hserved (i + 1) (by omega)
          · rw [oldestSeq_append hpage]
            rw [Nat.mul_succ] at hn
            omega

/-- The first request brings the newest prompts. -/
theorem window_fetched {c : ChatRecord} (hseq : Ascending c.prompts) (hc : served 0 = some c) :
    Fetched served (windowChat c).chat.prompts ∧
      ((windowChat c).chat.prompts.length ≥ (windowChat c).promptsTotal → Whole served (windowChat c).chat.prompts) ∧
      ((windowChat c).chat.prompts = [] → c.prompts = []) := by
  have hwindow : (windowChat c).chat.prompts = (latest defaultPromptsWindow c.prompts).map windowEvents := rfl
  have htotal : (windowChat c).promptsTotal = c.prompts.length := rfl
  have hlimit : 0 < defaultPromptsWindow := by decide
  have hascending : Ascending (windowChat c).chat.prompts := by
    rw [hwindow]
    exact ascending_map (hseq.sublist (Coop.latest_suffix _ _).sublist)
  have hfound : ∀ p ∈ (windowChat c).chat.prompts, ∃ k c, served k = some c ∧ ∃ q ∈ c.prompts, p = windowEvents q := by
    rw [hwindow]
    intro p hp
    obtain ⟨q, hq, rfl⟩ := List.mem_map.mp hp
    exact ⟨0, c, hc, q, (Coop.latest_suffix _ _).subset hq, rfl⟩
  have hnil : (windowChat c).chat.prompts = [] → c.prompts = [] := by
    rw [hwindow, List.map_eq_nil_iff]
    intro hnil
    have hlen := congrArg List.length hnil
    rw [length_latest, List.length_nil] at hlen
    apply List.eq_nil_of_length_eq_zero
    omega
  refine ⟨⟨hascending, hfound, fun n hn hle => ?_⟩, fun hall => ⟨hascending, hfound, fun n hn => ?_⟩, hnil⟩
  · obtain ⟨q, hq, rfl⟩ := hn 0 c hc
    have hne : latest defaultPromptsWindow c.prompts ≠ [] := by
      intro h
      rw [hnil (by rw [hwindow, h]; rfl)] at hq
      cases hq
    have hhead : oldestSeq (windowChat c).chat.prompts = oldestSeq (latest defaultPromptsWindow c.prompts) := by
      rw [hwindow]
      cases latest defaultPromptsWindow c.prompts with
      | nil => rfl
      | cons p ps => simp [oldestSeq, windowEvents_seq]
    rw [hhead] at hle
    rw [hwindow]
    exact ⟨windowEvents q, List.mem_map_of_mem (latest_covers hseq _ hq hle hne), windowEvents_seq q⟩
  · obtain ⟨q, hq, rfl⟩ := hn 0 c hc
    rw [hwindow, htotal, List.length_map, length_latest] at hall
    rw [hwindow, latest_short (by omega)]
    exact ⟨windowEvents q, List.mem_map_of_mem hq, windowEvents_seq q⟩

theorem same_seq {p q : PromptRecord} (h : Ascending ps) (hp : p ∈ ps) (hq : q ∈ ps) (hseq : p.seq = q.seq) : p = q := by
  have hnodup : (ps.map PromptRecord.seq).Nodup := List.pairwise_map.mpr (h.imp Nat.ne_of_lt)
  exact List.inj_on_of_nodup_map hnodup hp hq hseq

/-- A chat that stays as it is has nothing but what lasts. -/
theorem Whole.unchanged {c : ChatRecord} (h : Whole served ps) (hseq : Ascending c.prompts) (hserved : ∀ k, served k = some c) :
    ps = c.prompts.map windowEvents := by
  have hown : ∀ p ∈ ps, ∃ q ∈ c.prompts, p = windowEvents q := by
    intro p hp
    obtain ⟨k, c', hk, hq⟩ := h.found p hp
    obtain rfl := Option.some.inj ((hserved k).symm.trans hk)
    exact hq
  have hall : ∀ q ∈ c.prompts, windowEvents q ∈ ps := by
    intro q hq
    have hlasting : Lasting served q.seq := by
      intro k c' hk
      obtain rfl := Option.some.inj ((hserved k).symm.trans hk)
      exact ⟨q, hq, rfl⟩
    obtain ⟨p, hp, hsame⟩ := h.covers q.seq hlasting
    obtain ⟨r, hr, rfl⟩ := hown p hp
    rw [windowEvents_seq] at hsame
    rwa [same_seq hseq hr hq hsame] at hp
  have hperm : ps.Perm (c.prompts.map windowEvents) := by
    apply (List.perm_ext_iff_of_nodup (h.ascending.imp fun hlt he => by subst he; exact Nat.lt_irrefl _ hlt)
      ((ascending_map hseq).imp fun hlt he => by subst he; exact Nat.lt_irrefl _ hlt)).mpr
    intro p
    constructor
    · intro hp
      obtain ⟨q, hq, rfl⟩ := hown p hp
      exact List.mem_map_of_mem hq
    · intro hp
      obtain ⟨q, hq, rfl⟩ := List.mem_map.mp hp
      exact hall q hq
  exact Coop.eq_of_strict (fun p q => Nat.lt_asymm) hperm h.ascending (ascending_map hseq)

theorem fetchAllPrompts_whole (hseq : ∀ k c, served k = some c → Ascending c.prompts)
    (hout : fetchAllPrompts served = some out) : Whole served out := by
  unfold fetchAllPrompts at hout
  split at hout
  · cases hout
  · rename_i c hc
    obtain ⟨hfetched, hwhole, hempty⟩ := window_fetched (hseq 0 c hc) hc
    dsimp only at hout
    split at hout
    · rename_i hall
      obtain rfl := Option.some.inj hout
      exact hwhole hall
    · rename_i hmore
      refine fetchOlder_whole hseq 1 hfetched (fun hnil => hmore ?_) hout
      have htotal : (windowChat c).promptsTotal = c.prompts.length := rfl
      rw [htotal, hempty hnil]
      exact Nat.zero_le _

theorem fetchAllPrompts_ends (hseq : ∀ k c, served k = some c → Ascending c.prompts) {n : Nat}
    (hserved : ∀ i ≤ n + 1, (served i).isSome = true)
    (hn : ∀ c, served 0 = some c → ∀ p ∈ c.prompts, p.seq < pageLimit * (n + 1)) : (fetchAllPrompts served).isSome = true := by
  obtain ⟨c, hc⟩ := Option.isSome_iff_exists.mp (hserved 0 (Nat.zero_le _))
  rw [fetchAllPrompts, hc]
  dsimp only
  split
  · rfl
  · apply fetchOlder_ends hseq n 1
    · intro i hi
      rw [Nat.add_comm]
      exact hserved (i + 1) (by omega)
    · have hpos : 0 < pageLimit * (n + 1) := Nat.mul_pos (by decide) (Nat.succ_pos n)
      obtain ⟨hfetched, -, -⟩ := window_fetched (hseq 0 c hc) hc
      have hmem : ∀ p ∈ (windowChat c).chat.prompts, p.seq < pageLimit * (n + 1) := by
        intro p hp
        have hwindow : (windowChat c).chat.prompts = (latest defaultPromptsWindow c.prompts).map windowEvents := rfl
        rw [hwindow] at hp
        obtain ⟨q, hq, rfl⟩ := List.mem_map.mp hp
        rw [windowEvents_seq]
        exact hn c hc q ((Coop.latest_suffix _ _).subset hq)
      cases hps : (windowChat c).chat.prompts with
      | nil => exact hpos
      | cons p ps => exact hmem p (by rw [hps]; exact List.mem_cons_self)

end Loop

/-- A chat of so many prompts. -/
def chatOf (n : Nat) : ChatRecord where
  id := 1
  projectId := 0
  worktreeId := none
  title := ['t']
  provider := ['p']
  model := ['m']
  createdAt := 0
  prompts := (List.range n).map (fun i =>
    { id := i + 2, seq := i + 1, content := ['a'], events := [], touchedPaths := [], createdAt := 0 })
  sessionId := none
  effort := none

theorem hyphens_chars (t : Text) : ∀ c ∈ hyphens t, slugChar c = true ∨ c = '-' := by
  induction t using hyphens.induct with
  | case1 => simp [hyphens]
  | case2 c t hc ih => simpa [hyphens, hc] using ih
  | case3 c t hc hnext ih => simpa [hyphens, hc, hnext] using ih
  | case4 c t hc hnext ih => simpa [hyphens, hc, hnext] using ih

/-- Whatever the title, the file has a name without slashes, dots or blanks. -/
theorem slugify_safe (toLowerCase : Text → Text) (title : Text) :
    slugify toLowerCase title ≠ [] ∧ (slugify toLowerCase title).length ≤ 60 ∧
      ∀ c ∈ slugify toLowerCase title, slugChar c = true ∨ c = '-' := by
  unfold slugify
  dsimp only
  split
  · exact ⟨by simp, by simp, by simp [slugChar]⟩
  · rename_i hne
    refine ⟨hne, List.length_take_le _ _, fun c hc => ?_⟩
    have hdrop := (List.rdropWhile_prefix _ (l := _)).subset (List.mem_of_mem_take hc)
    exact hyphens_chars _ c ((List.dropWhile_suffix _).subset hdrop)

section Rendering

variable {t : Transcript} {events events' : List AgentEvent}

/-- Events that are not shown. -/
def hidden : AgentEvent → Bool
  | .thinking _ | .sessionStart _ | .done _ _ | .truncated _ => true
  | _ => false

/-- The transcript does not show how a text was cut into tokens. -/
theorem renderEvents_tokens (a b : Text) :
    renderEvents (events ++ .token a :: .token b :: events') = renderEvents (events ++ .token (a ++ b) :: events') := by
  simp only [renderEvents, List.foldl_append, List.foldl_cons, Transcript.event, List.append_assoc]

theorem event_hidden {e : AgentEvent} (h : hidden e = true) (t : Transcript) : t.event e = t := by
  cases e with
  | thinking text => rfl
  | sessionStart id => rfl
  | done result cost => rfl
  | truncated dropped => rfl
  | token text => cases h
  | toolCall name args id => cases h
  | toolResult name result id => cases h
  | error message => cases h

/-- Nor which hidden events came between them. -/
theorem renderEvents_visible (events : List AgentEvent) : renderEvents (events.filter fun e => !hidden e) = renderEvents events := by
  have hfold : ∀ t : Transcript, (events.filter fun e => !hidden e).foldl Transcript.event t = events.foldl Transcript.event t := by
    induction events with
    | nil => simp
    | cons e events ih =>
      intro t
      cases he : hidden e with
      | false => simp [he, ih]
      | true => simp [he, ih, event_hidden he]
  rw [renderEvents, hfold, ← renderEvents]

end Rendering

end AgentGrove.Export
