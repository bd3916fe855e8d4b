import AgentGrove.Model.Tickets
import Mathlib.Data.List.Nodup

namespace AgentGrove.ClickUpFeed

open ClickUp (TicketRow ClickUpFilters)
open Wire (Value)

/-- Whether a task passes the filters, and the ids of those that do. -/
def shownIds (f : ClickUpFilters) (tasks : List Value) : List Text :=
  (tasks.filter (fun it => clickupTaskMatches it f)).map (fun it => (mapClickupTask it).id)

section Fetching

variable (get : Text → Response) (base : Text)

def answerTo (page : Nat) : Option Value :=
  match get (pageUrl base page) with
  | .success body => some (body.getD .null)
  | .status | .failed => none

def tasksOn (page : Nat) : List Value := (answerTo get base page).elim [] tasksOf

/-- A full page that is not flagged as the last one. -/
def GoesOn (page : Nat) :
    Prop := ∃ body, answerTo get base page = some body ∧ isLast body = false ∧ 100 ≤ (tasksOf body).length

/-- The pages that are asked for. -/
def Asked (page : Nat) : Prop := page < 50 ∧ ∀ earlier < page, GoesOn get base earlier

/-- A task on one of the pages that came back. -/
def Returned (it : Value) : Prop := ∃ page, Asked get base page ∧ it ∈ tasksOn get base page

/-- The answers are the pages of a list of tasks. -/
def Paged (tasks : List Value) : Prop := ∀ page, ∃ body, answerTo get base page = some body ∧
  tasksOf body = (tasks.drop (100 * page)).take 100 ∧ (isLast body = true → tasks.length ≤ 100 * (page + 1))

end Fetching

section Pages

variable {get : Text → Response} {base : Text} {tasks : List Value} {it : Value}

theorem fetchPages_none (n page : Nat) (h : answerTo get base page = none) : fetchPages get base n page = [] := by
  cases n with
  | zero => rfl
  | succ n =>
    unfold answerTo at h
    rw [fetchPages]
    cases hget : get (pageUrl base page) with
    | success body =>
      rw [hget] at h
      cases h
    | status => rfl
    | failed => rfl

theorem fetchPages_some {n page : Nat} {body : Value} (h : answerTo get base page = some body) :
    fetchPages get base (n + 1) page =
      if isLast body || (tasksOf body).length < 100 then tasksOf body
      else tasksOf body ++ fetchPages get base n (page + 1) := by
  unfold answerTo at h
  rw [fetchPages]
  cases hget : get (pageUrl base page) with
  | success answer =>
    rw [hget] at h
    cases h
    rfl
  | status =>
    rw [hget] at h
    cases h
  | failed =>
    rw [hget] at h
    cases h

/-- The pages are fetched in their order, up to the first that does not go on. -/
theorem fetchPages_eq (get : Text → Response) (base : Text) (n page : Nat) : ∃ count, fetchPages get base n page =
    (List.range' page count).flatMap (tasksOn get base) ∧
    ∀ p, page ≤ p →
      (p < page + count ↔ p < page + n ∧ ∀ earlier, page ≤ earlier → earlier < p → GoesOn get base earlier) := by
  induction n generalizing page with
  | zero => exact ⟨0, rfl, fun p hp => by omega⟩
  | succ n ih =>
    by_cases hgoes : GoesOn get base page
    · obtain ⟨body, hbody, hlast, hfull⟩ := hgoes
      obtain ⟨count, heq, hcount⟩ := ih (page + 1)
      refine ⟨count + 1, ?_, ?_⟩
      · rw [fetchPages_some hbody, if_neg (by simp [hlast]; omega), List.range'_succ, List.flatMap_cons, heq, tasksOn,
          hbody]
        rfl
      · intro p hp
        rcases hp.lt_or_eq with hp | rfl
        · rw [show page + (count + 1) = page + 1 + count by omega, hcount p hp]
          constructor
          · rintro ⟨hlt, hall⟩
            refine ⟨by omega, fun earlier hfrom hto => ?_⟩
            rcases hfrom.lt_or_eq with hfrom | rfl
            · exact hall earlier hfrom hto
            · exact ⟨body, hbody, hlast, hfull⟩
          · rintro ⟨hlt, hall⟩
            exact ⟨by omega, fun earlier hfrom hto => hall earlier (by omega) hto⟩
        · exact ⟨fun _ => ⟨by omega, fun earlier hfrom hto => by omega⟩, fun _ => by omega⟩
    · refine ⟨1, ?_, ?_⟩
      · rw [List.range'_one, List.flatMap_singleton, tasksOn]
        cases hbody : answerTo get base page with
        | none => exact fetchPages_none _ _ hbody
        | some body =>
          rw [fetchPages_some hbody, if_pos ?_]
          · rfl
          · by_contra hmore
            simp only [Bool.or_eq_true, decide_eq_true_eq, not_or, Bool.not_eq_true, not_lt] at hmore
            exact hgoes ⟨body, hbody, hmore⟩
      · intro p hp
        constructor
        · intro hlt
          exact ⟨by omega, fun earlier hfrom hto => by omega⟩
        · rintro ⟨-, hall⟩
          by_contra hlater
          exact hgoes (hall page le_rfl (by omega))

theorem fetchAllPages_eq (get : Text → Response) (base : Text) :
    ∃ count, clickupFetchAllPages get base = (List.range count).flatMap (tasksOn get base) ∧
    ∀ page, page < count ↔ Asked get base page := by
  obtain ⟨count, heq, hcount⟩ := fetchPages_eq get base 50 0
  refine ⟨count, by rw [List.range_eq_range']; exact heq, fun page => ?_⟩
  have hpage := hcount page (Nat.zero_le _)
  rw [Nat.zero_add, Nat.zero_add] at hpage
  rw [hpage]
  exact and_congr_right fun _ => forall_congr' fun earlier => by simp

theorem mem_fetchAllPages : it ∈ clickupFetchAllPages get base ↔ Returned get base it := by
  obtain ⟨count, heq, hcount⟩ := fetchAllPages_eq get base
  rw [heq, List.mem_flatMap]
  simp only [List.mem_range, hcount]
  rfl

/-- A list that is served in pages comes back whole, as far as fifty of them go. -/
theorem fetchAllPages_paged (h : Paged get base tasks) : clickupFetchAllPages get base = tasks.take 5000 := by
  have hpages (n page : Nat) : fetchPages get base n page = (tasks.drop (100 * page)).take (100 * n) := by
    induction n generalizing page with
    | zero => simp [fetchPages]
    | succ n ih =>
      obtain ⟨body, hbody, htasks, hlast⟩ := h page
      rw [fetchPages_some hbody]
      split
      · rename_i hstop
        have hshort : (tasks.drop (100 * page)).length ≤ 100 := by
          rw [List.length_drop]
          rcases Bool.or_eq_true _ _ |>.mp hstop with hstop | hstop
          · have hlen := hlast hstop
            omega
          · have hlen := of_decide_eq_true hstop
            rw [htasks, List.length_take, List.length_drop] at hlen
            omega
        rw [htasks, List.take_of_length_le hshort, List.take_of_length_le (by omega)]
      · rw [htasks, ih, show 100 * (n + 1) = 100 + 100 * n by omega, List.take_add, List.drop_drop]
        rw [show 100 * (page + 1) = 100 * page + 100 by omega]
  exact hpages 50 0

end Pages

/-- The endpoints that are fetched, each with the number of its fetch. -/
def sources (get : Nat → Text → Response) (f : ClickUpFilters) : List (Text × Nat) :=
  if !f.lists.isEmpty then f.lists.zipIdx.map (fun l => (listBase l.1, l.2))
  else (clickupTeamId (get 0)).toList.map (fun teamId => (teamBase teamId, 0))

/-- No two of the tasks that came back and pass the filters have one id. -/
structure Apart (get : Nat → Text → Response) (f : ClickUpFilters) : Prop where
  page : ∀ s ∈ sources get f, ∀ page, Asked (get s.2) s.1 page → (shownIds f (tasksOn (get s.2) s.1 page)).Nodup
  pages : ∀ s ∈ sources get f, ∀ page page', page < page' → Asked (get s.2) s.1 page' →
    (shownIds f (tasksOn (get s.2) s.1 page)).Disjoint (shownIds f (tasksOn (get s.2) s.1 page'))
  lists : (sources get f).Pairwise fun s s' => ∀ it it', Returned (get s.2) s.1 it → Returned (get s'.2) s'.1 it' →
    clickupTaskMatches it f = true → clickupTaskMatches it' f = true → (mapClickupTask it).id ≠ (mapClickupTask it').id

section Rows

variable {get : Nat → Text → Response} {f : ClickUpFilters}

theorem listClickupTasks_eq : listClickupTasks get f =
    (((sources get f).flatMap fun s => clickupFetchAllPages (get s.2) s.1).filter
      (fun it => clickupTaskMatches it f)).map mapClickupTask := by
  unfold listClickupTasks sources
  cases hlists : f.lists.isEmpty with
  | false => simp [List.flatMap_map]
  | true => cases clickupTeamId (get 0) <;> simp

theorem mem_shownIds {tasks : List Value} {id : Text} : id ∈ shownIds f tasks ↔
    ∃ it ∈ tasks, clickupTaskMatches it f = true ∧ (mapClickupTask it).id = id := by
  simp [shownIds, and_assoc]

theorem shownIds_flatMap {α : Type} (l : List α) (g : α → List Value) :
    shownIds f (l.flatMap g) = l.flatMap (fun x => shownIds f (g x)) := by
  rw [shownIds, List.filter_flatMap, List.map_flatMap]
  rfl

theorem ids_eq : (listClickupTasks get f).map TicketRow.id =
    (sources get f).flatMap fun s => shownIds f (clickupFetchAllPages (get s.2) s.1) := by
  rw [← shownIds_flatMap, listClickupTasks_eq, List.map_map]
  rfl

/-- Within one fetch, the ids repeat on a page or over a page border. -/
theorem fetch_nodup {answer : Text → Response} {base : Text} : (shownIds f (clickupFetchAllPages answer base)).Nodup ↔
    (∀ page, Asked answer base page → (shownIds f (tasksOn answer base page)).Nodup) ∧
    ∀ page page', page < page' → Asked answer base page' →
      (shownIds f (tasksOn answer base page)).Disjoint (shownIds f (tasksOn answer base page')) := by
  obtain ⟨count, heq, hcount⟩ := fetchAllPages_eq answer base
  rw [heq, shownIds_flatMap, List.nodup_flatMap, List.pairwise_iff_getElem]
  simp only [List.mem_range, hcount, List.length_range, List.getElem_range, Function.onFun]
  refine and_congr_right fun _ => ⟨fun h page page' hlt hasked => ?_, fun h page page' hpage hpage' hlt => ?_⟩
  · have hpage' := (hcount page').mpr hasked
    exact h page page' (hcount page |>.mp (hlt.trans hpage')) hasked hlt
  · exact h page page' hlt hpage'

theorem ids_nodup_iff : ((listClickupTasks get f).map TicketRow.id).Nodup ↔ Apart get f := by
  rw [ids_eq, List.nodup_flatMap]
  simp only [fetch_nodup]
  have hlists : (sources get f).Pairwise (Function.onFun List.Disjoint fun s =>
      shownIds f (clickupFetchAllPages (get s.2) s.1)) ↔ (sources get f).Pairwise fun s s' => ∀ it it',
      Returned (get s.2) s.1 it → Returned (get s'.2) s'.1 it' → clickupTaskMatches it f = true →
      clickupTaskMatches it' f = true → (mapClickupTask it).id ≠ (mapClickupTask it').id := by
    refine iff_of_eq (congrArg (fun r => List.Pairwise r (sources get f)) ?_)
    funext s s'
    rw [eq_iff_iff]
    constructor
    · intro h it it' hit hit' hmatch hmatch' hid
      exact h (mem_shownIds.mpr ⟨it, mem_fetchAllPages.mpr hit, hmatch, rfl⟩)
        (mem_shownIds.mpr ⟨it', mem_fetchAllPages.mpr hit', hmatch', hid.symm⟩)
    · intro h id hid hid'
      obtain ⟨it, hit, hmatch, rfl⟩ := mem_shownIds.mp hid
      obtain ⟨it', hit', hmatch', heq⟩ := mem_shownIds.mp hid'
      exact h it it' (mem_fetchAllPages.mp hit) (mem_fetchAllPages.mp hit') hmatch hmatch' heq.symm
  rw [hlists]
  constructor
  · rintro ⟨hpages, hapart⟩
    exact ⟨fun s hs => (hpages s hs).1, fun s hs => (hpages s hs).2, hapart⟩
  · rintro ⟨hpage, hpages, hapart⟩
    exact ⟨fun s hs => ⟨hpage s hs, hpages s hs⟩, hapart⟩

theorem mem_listClickupTasks {n : Nat} {listId : Text} {it : Value} (hlist : f.lists[n]? = some listId)
    (hit : it ∈ clickupFetchAllPages (get n) (listBase listId)) (hmatch : clickupTaskMatches it f = true) :
    mapClickupTask it ∈ listClickupTasks get f := by
  have hmem : listId ∈ f.lists := List.mem_of_getElem? hlist
  have hsource : (listBase listId, n) ∈ sources get f := by
    rw [sources, if_pos (by simpa using List.ne_nil_of_mem hmem)]
    exact List.mem_map.mpr ⟨(listId, n), List.mem_zipIdx_iff_getElem?.mpr hlist, rfl⟩
  rw [listClickupTasks_eq]
  exact List.mem_map_of_mem (List.mem_filter.mpr ⟨List.mem_flatMap.mpr ⟨_, hsource, hit⟩, hmatch⟩)

end Rows

/-- Whatever comes back for a watched list and passes the filters is in the feed, and so is a list that is served whole in
at most fifty pages. No id is there twice just where none came back twice. -/
theorem feed_is_set_iff (get : Nat → Text → Response) (f : ClickUpFilters) :
    (∀ (n : Nat) (listId : Text), f.lists[n]? = some listId → ∀ it, Returned (get n) (listBase listId) it →
      clickupTaskMatches it f = true → mapClickupTask it ∈ listClickupTasks get f) ∧
    (∀ (n : Nat) (listId : Text) (tasks : List Value), f.lists[n]? = some listId → Paged (get n) (listBase listId) tasks →
      ∀ it ∈ tasks.take 5000, clickupTaskMatches it f = true → mapClickupTask it ∈ listClickupTasks get f) ∧
    (((listClickupTasks get f).map TicketRow.id).Nodup ↔ Apart get f) := by
  refine ⟨?_, ?_, ids_nodup_iff⟩
  · intro n listId hlist it hit hmatch
    exact mem_listClickupTasks hlist (mem_fetchAllPages.mpr hit) hmatch
  · intro n listId tasks hlist hpaged it hit hmatch
    rw [← fetchAllPages_paged hpaged] at hit
    exact mem_listClickupTasks hlist hit hmatch

/-- One task, in each list that is asked for. -/
def shared : Nat → Text → Response := fun _ _ =>
  .success (some (.object [("tasks".toList, .array [.object [("id".toList, .string "86a1".toList)]])]))

theorem shared_task_twice :
    let f : ClickUpFilters := { lists := ["901".toList, "902".toList] }
    f.lists.Nodup ∧ (listClickupTasks shared f).map TicketRow.id = ["86a1".toList, "86a1".toList] ∧
    ¬ ((listClickupTasks shared f).map TicketRow.id).Nodup := by
  have hids : (listClickupTasks shared { lists := ["901".toList, "902".toList] }).map TicketRow.id =
      ["86a1".toList, "86a1".toList] := by decide
  refine ⟨by decide, hids, ?_⟩
  rw [hids]
  decide

end AgentGrove.ClickUpFeed
