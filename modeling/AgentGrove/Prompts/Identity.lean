import AgentGrove.Prompts.Isolation

namespace AgentGrove

open Coop

/-- Ids and seqs of a chat's cached prompts, in list order. -/
def marksOf (s : AppState) (c : Uuid) : List (Uuid × Nat) := (timeline s c).map PromptRecord.mark

/-- What lookups by id, truncation and pagination by seq rely on. -/
structure Identified (s : AppState) : Prop where
  ordered : ∀ c, (timeline s c).Pairwise (fun p q => p.seq < q.seq)
  within : ∀ c, ((timeline s c).map PromptRecord.id).Nodup
  across : ∀ c d, c ≠ d → ∀ p ∈ timeline s c, ∀ q ∈ timeline s d, p.id ≠ q.id

/-- The primary key and `UNIQUE (chat_id, seq)` of the prompts table, all ids issued. -/
structure Tabled (prompts : List PromptRow) (nextId : Uuid) : Prop where
  ids : (prompts.map PromptRow.id).Nodup
  seqs : (prompts.map (fun r => (r.chatId, r.seq))).Nodup
  issued : ∀ row ∈ prompts, row.id < nextId

/-- The chat a task is numbering a prompt of, and the number. -/
def Errand.picked : Errand → Option (Uuid × Nat)
  | numbered c n | fresh c _ n => some (c, n)
  | _ => none

/-- The prompt a task has stored and not cached yet. -/
def Errand.issued : Errand → Option Uuid
  | fresh _ id _ => some id
  | _ => none

/-- Cached prompts and rows that share an id share chat and seq. -/
structure Marked (s : AppState) : Prop where
  table : Tabled s.store.prompts s.nextId
  known : ∀ c, ∀ m ∈ marksOf s c, m.1 < s.nextId
  ordered : ∀ c, (marksOf s c).Pairwise (fun m n => m.2 < n.2)
  within : ∀ c, ((marksOf s c).map Prod.fst).Nodup
  across : ∀ c d, c ≠ d → ∀ m ∈ marksOf s c, ∀ n ∈ marksOf s d, m.1 ≠ n.1
  link : ∀ c, ∀ m ∈ marksOf s c, ∀ row ∈ s.store.prompts, row.id = m.1 →
    row.chatId = c ∧ row.seq = m.2

/-- A number that a task has picked is above all cached ones of its chat, and a prompt
it has stored is not cached yet. -/
structure Errand.Fits (s : AppState) (r : Errand) : Prop where
  below : ∀ c n, r.picked = some (c, n) → ∀ m ∈ marksOf s c, m.2 < n
  new : ∀ c id n, r = .fresh c id n → id < s.nextId ∧ (∀ d, ∀ m ∈ marksOf s d, m.1 ≠ id) ∧
    ∀ row ∈ s.store.prompts, row.id = id → row.chatId = c ∧ row.seq = n
  noCopy : r ≠ .forking

/-- Two tasks numbering prompts of one chat, or one prompt stored by both. -/
def Errand.Meets (r r' : Errand) : Prop :=
  (∃ c n m, r.picked = some (c, n) ∧ r'.picked = some (c, m)) ∨
    ∃ id, r.issued = some id ∧ r'.issued = some id

structure Accounted (s : AppState) (roles : List Errand) : Prop extends Marked s where
  fits : ∀ r ∈ roles, r.Fits s
  distinct : ∀ (i j : Nat) r r', roles[i]? = some r → roles[j]? = some r' → r.Meets r' → i = j

/-- No other task is between picking the next seq of this chat and caching its prompt. -/
def Solo (p : Server) (i : Nat) (c : Uuid) : Prop :=
  ∀ t ∈ p.threads.eraseIdx i, ∀ x ∈ t.site, x.chat = c → x.call.issues = false

instance (p : Server) (i : Nat) (c : Uuid) : Decidable (Solo p i c) :=
  inferInstanceAs (Decidable (∀ t ∈ p.threads.eraseIdx i, _))

/-- No fork copies prompts. Prompts of a chat are numbered one at a time: in the store
only once all cached ones are stored, and by a revert only while the cached seqs have
no gap. -/
def OneByOne (p : Server) : ServerEvent → Prop
  | .arrive _ => True
  | .run i w => ∀ x ∈ p.restsAt i,
      (x.call = .forkCache → ∀ s' ∈ p.acts i w, s'.nextId = p.shared.nextId) ∧
      (x.call = .maxSeq → w.fail = false → Solo p i x.chat ∧ ∀ q ∈ timeline p.shared x.chat,
        ∃ row ∈ p.shared.store.prompts, row.id = q.id) ∧
      (x.call = .revert → Solo p i x.chat ∧ ∀ q ∈ timeline p.shared x.chat,
        q.seq ≤ (timeline p.shared x.chat).length)

instance (p : Server) (e : ServerEvent) : Decidable (OneByOne p e) :=
  match e with
  | .arrive _ => .isTrue trivial
  | .run i _ => inferInstanceAs (Decidable (∀ x ∈ p.restsAt i, _))

/-- A run of the server with restarts of the process between any two steps. -/
def Lives (good : Server → ServerEvent → Prop) : Server → Server → Prop :=
  Relation.ReflTransGen (fun p p' =>
    Pool.Step entry good p p' ∨ ∃ now, p' = ⟨startup now p.shared, []⟩)

section Marks

variable {e : Option (Site × Choice)} {r r' : Errand} {s s' : AppState} {c : Uuid}
  {roles : List Errand}

theorem Marked.identified (h : Marked s) : Identified s := by
  refine ⟨fun c => ?_, fun c => ?_, ?_⟩
  · have ho := h.ordered c
    rwa [marksOf, List.pairwise_map] at ho
  · have hw := h.within c
    rwa [marksOf, List.map_map] at hw
  · intro c d hne p hp q hq
    exact h.across c d hne p.mark (List.mem_map_of_mem hp) q.mark (List.mem_map_of_mem hq)

theorem Tabled.rewrites (ht : Tabled s.store.prompts s.nextId) (h : Rewrites s s') :
    Tabled s'.store.prompts s'.nextId := by
  have hn := h.nextId
  refine ⟨h.rows ht.ids, ?_, fun row hrow => ?_⟩
  · cases h with
    | map f hf hkey hn =>
      have he : s'.store.prompts.map (fun r => (r.chatId, r.seq)) =
          s.store.prompts.map (fun r => (r.chatId, r.seq)) := by
        rw [hf, List.map_map]
        apply List.map_congr_left
        intro r _
        simp only [Function.comp, chatId_of_key (hkey r), seq_of_key (hkey r)]
      rw [he]
      exact ht.seqs
    | append row _ ha hp hn =>
      rw [hp, List.map_append, List.map_singleton, List.nodup_append]
      refine ⟨ht.seqs, by simp, ?_⟩
      intro a ha' b hb he
      obtain ⟨old, hold, rfl⟩ := List.mem_map.mp ha'
      simp only [List.mem_singleton] at hb
      simp only [ChatRepo.accepts, Bool.and_eq_true, List.all_eq_true, decide_eq_true_eq] at ha
      rw [hb, Prod.mk.injEq] at he
      exact (ha.2 old hold).2 he
    | remove id hp hn =>
      rw [hp]
      exact ht.seqs.sublist (List.filter_sublist.map _)
  · rcases h.row hrow with ⟨old, hold, he⟩ | ⟨hid, hn⟩
    · rw [← id_of_key he]
      exact Nat.lt_of_lt_of_le (ht.issued old hold) hn
    · rw [hid, hn]
      exact Nat.lt_succ_self _

/-- Links to the store survive as long as the cached prompt does. -/
theorem Marked.relink (h : Marked s) (hw : Rewrites s s') {m : Uuid × Nat}
    (hm : m ∈ marksOf s c) {row : PromptRow} (hrow : row ∈ s'.store.prompts) (hid : row.id = m.1) :
    row.chatId = c ∧ row.seq = m.2 := by
  rcases hw.row hrow with ⟨old, hold, he⟩ | ⟨hnew, -⟩
  · rw [← chatId_of_key he, ← seq_of_key he]
    exact h.link c m hm old hold ((id_of_key he).trans hid)
  · have hlt := h.known c m hm
    rw [← hid, hnew] at hlt
    exact absurd hlt (Nat.lt_irrefl _)

section Shrink

variable (hw : Rewrites s s') (hsub : ∀ d, (marksOf s' d).Sublist (marksOf s d))
include hw hsub

theorem Marked.shrink (h : Marked s) : Marked s' where
  table := h.table.rewrites hw
  known c m hm := Nat.lt_of_lt_of_le (h.known c m ((hsub c).subset hm)) hw.nextId
  ordered c := (h.ordered c).sublist (hsub c)
  within c := (h.within c).sublist ((hsub c).map _)
  across c d hne m hm n hn := h.across c d hne m ((hsub c).subset hm) n ((hsub d).subset hn)
  link c _ hm _ hrow hid := h.relink hw ((hsub c).subset hm) hrow hid

theorem Errand.Fits.shrink (h : r.Fits s) : r.Fits s' := by
  refine ⟨fun c n hp m hm => h.below c n hp m ((hsub c).subset hm), ?_, h.noCopy⟩
  intro c id n hr
  obtain ⟨hlt, hnew, hrows⟩ := h.new c id n hr
  refine ⟨Nat.lt_of_lt_of_le hlt hw.nextId, fun d m hm => hnew d m ((hsub d).subset hm), ?_⟩
  intro row hrow hid
  rcases hw.row hrow with ⟨old, hold, he⟩ | ⟨hissued, -⟩
  · rw [← chatId_of_key he, ← seq_of_key he]
    exact hrows old hold ((id_of_key he).trans hid)
  · rw [← hid, hissued] at hlt
    exact absurd hlt (Nat.lt_irrefl _)

end Shrink

section Append

variable {id : Uuid} {n : Nat} (hrows : s'.store.prompts = s.store.prompts)
  (hn : s.nextId ≤ s'.nextId) (hc : marksOf s' c = marksOf s c ++ [(id, n)])
  (hothers : ∀ d, d ≠ c → marksOf s' d = marksOf s d)
include hc hothers

/-- Of all chats, only one has a new mark. -/
theorem mem_appended {d : Uuid} {m : Uuid × Nat} (hm : m ∈ marksOf s' d) :
    m ∈ marksOf s d ∨ d = c ∧ m = (id, n) := by
  by_cases hd : d = c
  · subst hd
    rw [hc, List.mem_append, List.mem_singleton] at hm
    exact hm.imp_right fun he => ⟨rfl, he⟩
  · rw [hothers d hd] at hm
    exact .inl hm

include hrows hn

theorem Marked.append (h : Marked s) (hid : id < s'.nextId)
    (hnew : ∀ d, ∀ m ∈ marksOf s d, m.1 ≠ id) (habove : ∀ m ∈ marksOf s c, m.2 < n)
    (hlink : ∀ row ∈ s.store.prompts, row.id = id → row.chatId = c ∧ row.seq = n) : Marked s' := by
  refine ⟨?_, fun d m hm => ?_, fun d => ?_, fun d => ?_, fun d b hne m hm q hq => ?_, ?_⟩
  · rw [hrows]
    exact ⟨h.table.ids, h.table.seqs, fun row hr => Nat.lt_of_lt_of_le (h.table.issued row hr) hn⟩
  · rcases mem_appended hc hothers hm with hm | ⟨-, rfl⟩
    · exact Nat.lt_of_lt_of_le (h.known d m hm) hn
    · exact hid
  · by_cases hd : d = c
    · subst hd
      rw [hc, List.pairwise_append]
      refine ⟨h.ordered d, List.pairwise_singleton _ _, ?_⟩
      intro m hm q hq
      rw [List.mem_singleton.mp hq]
      exact habove m hm
    · rw [hothers d hd]
      exact h.ordered d
  · by_cases hd : d = c
    · subst hd
      rw [hc, List.map_append, List.map_singleton, List.nodup_append]
      refine ⟨h.within d, by simp, ?_⟩
      intro a ha b hb
      obtain ⟨m, hm, rfl⟩ := List.mem_map.mp ha
      rw [List.mem_singleton.mp hb]
      exact hnew d m hm
    · rw [hothers d hd]
      exact h.within d
  · rcases mem_appended hc hothers hm with hm | ⟨rfl, rfl⟩
    · rcases mem_appended hc hothers hq with hq | ⟨rfl, rfl⟩
      · exact h.across d b hne m hm q hq
      · exact hnew d m hm
    · rcases mem_appended hc hothers hq with hq | ⟨rfl, rfl⟩
      · exact (hnew b q hq).symm
      · exact absurd rfl hne
  · intro d m hm row hrow he
    rw [hrows] at hrow
    rcases mem_appended hc hothers hm with hm | ⟨rfl, rfl⟩
    · exact h.link d m hm row hrow he
    · exact hlink row hrow he

theorem Errand.Fits.append (h : r.Fits s) (hpick : ∀ k, r.picked ≠ some (c, k))
    (hissue : r.issued ≠ some id) : r.Fits s' := by
  refine ⟨fun d k hp q hq => ?_, fun d i k hr => ?_, h.noCopy⟩
  · rcases mem_appended hc hothers hq with hq | ⟨rfl, -⟩
    · exact h.below d k hp q hq
    · exact absurd hp (hpick k)
  · obtain ⟨hlt, hnew, hlink⟩ := h.new d i k hr
    refine ⟨Nat.lt_of_lt_of_le hlt hn, fun b q hq => ?_, hrows ▸ hlink⟩
    rcases mem_appended hc hothers hq with hq | ⟨-, rfl⟩
    · exact hnew b q hq
    · rintro rfl
      exact hissue (by rw [hr, Errand.issued])

end Append

/-- What an action other than a fork's does to the cached marks: it drops some, or
appends one, of a prompt just stored or of a revert. -/
theorem Does.marks (h : Does e r s r' s') (hr : r ≠ .forking) (hr' : r' ≠ .forking) :
    (∀ d, (marksOf s' d).Sublist (marksOf s d)) ∨
      ∃ c id n, marksOf s' c = marksOf s c ++ [(id, n)] ∧
        (∀ d, d ≠ c → marksOf s' d = marksOf s d) ∧ s'.store.prompts = s.store.prompts ∧
        (r = .fresh c id n ∧ r' = .tending c [id] ∧ s'.nextId = s.nextId ∨
          id = s.nextId ∧ s'.nextId = s.nextId + 1 ∧ n = (timeline s c).length + 1 ∧
            ∃ x w ids, e = some (x, w) ∧ x.call = .revert ∧ r = .tending c ids ∧ r' = r) := by
  have hsame : ∀ {t : AppState}, t.chats = s.chats → ∀ d, (marksOf t d).Sublist (marksOf s d) := by
    intro t ht d
    simp only [marksOf, timeline, cachedPrompts, ht]
    exact List.Sublist.refl _
  have htends : ∀ {c ids}, Tends c ids s s' → ∀ d, (marksOf s' d).Sublist (marksOf s d) := by
    intro c ids h d
    by_cases hd : d = c
    · rw [hd, marksOf, h.marks]
      exact List.Sublist.refl _
    · simp only [marksOf, timeline, h.others d hd]
      exact List.Sublist.refl _
  cases h with
  | now h => exact .inl (hsame h.chats)
  | touch h => exact .inl (hsame h.chats)
  | tend h => exact .inl (htends h)
  | take _ _ h => exact .inl (htends h)
  | number | refuse | lose | tail | insert | remove => exact .inl (hsame rfl)
  | fork => exact absurd rfl hr'
  | copy => exact absurd rfl hr
  | @blank _ _ c b ids _ _ _ _ hothers hempty _ =>
    refine .inl fun d => ?_
    by_cases hd : d = b
    · rw [hd, marksOf, hempty]
      exact List.nil_sublist _
    · simp only [marksOf, timeline, hothers d hd]
      exact List.Sublist.refl _
  | @cut _ _ c ids gone seq _ reg _ h =>
    unfold ChatRegistry.truncateFromSeq at h
    split at h
    · cases h
    rename_i chat hget
    cases h
    refine .inl fun d => ?_
    simp only [marksOf, timeline, cachedPrompts, ChatRegistry.get_chatMut]
    split
    · rename_i hd
      simp only [hd, hget, Option.map_some, Option.getD_some]
      exact List.filter_sublist.map _
    · exact List.Sublist.refl _
  | @ingest _ _ c id n _ p hid hn =>
    cases hget : s.chats.get c with
    | none =>
      refine .inl fun d => ?_
      simp only [marksOf, timeline, cachedPrompts, ChatRegistry.ingestPrompt, ChatRegistry.get_chatMut]
      split
      · simp [hget]
      · exact List.Sublist.refl _
    | some chat =>
      refine .inr ⟨c, id, n, ?_, fun d hd => ?_, rfl, .inl ⟨rfl, rfl, rfl⟩⟩
      · simp [marksOf, timeline, cachedPrompts, ChatRegistry.ingestPrompt, hget, PromptRecord.mark,
          hid, hn]
      · simp [marksOf, timeline, cachedPrompts, ChatRegistry.ingestPrompt, hd]
  | @revert x w c ids _ now content p reg hx h =>
    unfold ChatRegistry.addPrompt at h
    split at h
    · cases h
    rename_i chat hget
    cases h
    refine .inr ⟨c, s.nextId, (timeline s c).length + 1, ?_, fun d hd => ?_, rfl,
      .inr ⟨rfl, rfl, rfl, x, w, ids, rfl, hx, rfl, rfl⟩⟩
    · simp [marksOf, timeline, cachedPrompts, hget, PromptRecord.mark]
    · simp [marksOf, timeline, cachedPrompts, hd]

theorem Errand.fits_tending {ids : List Uuid} : (Errand.tending c ids).Fits s :=
  ⟨by simp [Errand.picked], by simp, by simp⟩

/-- The id of a stored prompt has been handed out. -/
theorem Errand.Fits.unissued (h : r.Fits s) {id : Uuid} (hid : s.nextId ≤ id) :
    r.issued ≠ some id := by
  intro hi
  cases r with
  | fresh c i n =>
    simp only [Errand.issued, Option.some.injEq] at hi
    have hlt := (h.new c i n rfl).1
    rw [hi] at hlt
    exact absurd hlt (Nat.not_lt.mpr hid)
  | _ => simp [Errand.issued] at hi

/-- The role an action that appends no mark leaves its task in. -/
theorem Does.fits (h : Does e r s r' s') (hs : Marked s) (hfits : r.Fits s)
    (hsub : ∀ d, (marksOf s' d).Sublist (marksOf s d)) (hr' : r' ≠ .forking)
    (hnumber : ∀ c n, r' = .numbered c n → r.picked = none → ∀ m ∈ marksOf s c, m.2 < n) :
    r'.Fits s' := by
  cases h with
  | now h => exact hfits.shrink h.rewrites hsub
  | touch h => exact hfits.shrink h.rewrites hsub
  | tend | refuse | lose | take | cut | tail | remove | revert | blank | ingest =>
    exact Errand.fits_tending
  | fork => exact absurd rfl hr'
  | copy => exact absurd rfl hr'
  | number hx =>
    refine ⟨?_, by simp, by simp⟩
    rintro d n ⟨⟩ m hm
    exact hnumber _ _ rfl rfl m hm
  | @insert x w c n _ row hid hc hseq ha =>
    refine ⟨?_, ?_, by simp⟩
    · rintro d k ⟨⟩ m hm
      exact hfits.below c n rfl m hm
    · rintro d id k ⟨⟩
      refine ⟨Nat.lt_succ_self _, fun d m hm => Nat.ne_of_lt (hs.known d m hm), ?_⟩
      intro other hother he
      simp only [List.mem_append, List.mem_singleton] at hother
      rcases hother with hother | rfl
      · exact absurd he (Nat.ne_of_lt (hs.table.issued other hother))
      · exact ⟨hc, hseq⟩

/-- A task meets no other that it has not met before, unless it picks a number anew. -/
theorem Does.meets (h : Does e r s r' s') {r₁ : Errand} (hs : r₁.Fits s) (hm : r'.Meets r₁)
    (hnumber : ∀ c n, r' = .numbered c n → r.picked = none → ∀ m, r₁.picked ≠ some (c, m)) :
    r.Meets r₁ := by
  cases h with
  | now | touch => exact hm
  | tend | refuse | lose | take | cut | tail | remove | revert | blank | ingest | fork | copy =>
    simp [Errand.Meets, Errand.picked, Errand.issued] at hm
  | number hx =>
    rcases hm with ⟨d, n, m, hd, hp⟩ | ⟨id, hd, -⟩
    · cases hd
      exact absurd hp (hnumber _ _ rfl rfl m)
    · simp [Errand.issued] at hd
  | insert hid _ _ _ =>
    rcases hm with ⟨d, n, m, hd, hp⟩ | ⟨id, hd, hi⟩
    · cases hd
      exact .inl ⟨_, _, m, rfl, hp⟩
    · cases hd
      exact absurd hi (hs.unissued (Nat.le_refl _))

theorem Accounted.does (hs : Accounted s roles) {i : Nat} (hi : roles[i]? = some r)
    (h : Does e r s r' s') (hr' : r' ≠ .forking)
    (hnumber : ∀ c n, r' = .numbered c n → r.picked = none → (∀ m ∈ marksOf s c, m.2 < n) ∧
      ∀ (j : Nat) r₁ m, roles[j]? = some r₁ → j ≠ i → r₁.picked ≠ some (c, m))
    (hrevert : ∀ x w c ids, e = some (x, w) → x.call = .revert → r = .tending c ids →
      (∀ m ∈ marksOf s c, m.2 ≤ (timeline s c).length) ∧
      ∀ (j : Nat) r₁ m, roles[j]? = some r₁ → j ≠ i → r₁.picked ≠ some (c, m)) :
    Accounted s' (roles.set i r') := by
  have hl := (List.getElem?_eq_some_iff.mp hi).1
  have hmem := List.mem_of_getElem? hi
  have hfits := hs.fits r hmem
  have hw := h.rewrites
  have hdistinct : ∀ (j k : Nat) r₁ r₂, (roles.set i r')[j]? = some r₁ →
      (roles.set i r')[k]? = some r₂ → r₁.Meets r₂ → j = k := by
    have hone : ∀ (k : Nat) r₂, roles[k]? = some r₂ → k ≠ i → ¬ r'.Meets r₂ := by
      intro k r₂ hk hne hm
      have hold := h.meets (hs.fits r₂ (List.mem_of_getElem? hk)) hm fun c n hr hp m =>
        (hnumber c n hr hp).2 k r₂ m hk hne
      exact hne (hs.distinct k i r₂ r hk hi (by
        rcases hold with ⟨c, n, m, hn, hm⟩ | ⟨id, hn, hm⟩
        · exact .inl ⟨c, m, n, hm, hn⟩
        · exact .inr ⟨id, hm, hn⟩))
    intro j k r₁ r₂ hj hk hm
    rw [List.getElem?_set] at hj hk
    by_cases hji : i = j
    · by_cases hki : i = k
      · exact hji.symm.trans hki
      · rw [if_pos hji, if_pos hl] at hj
        rw [if_neg hki] at hk
        cases hj
        exact absurd hm (hone k r₂ hk fun he => hki he.symm)
    · rw [if_neg hji] at hj
      by_cases hki : i = k
      · rw [if_pos hki, if_pos hl] at hk
        cases hk
        refine absurd ?_ (hone j r₁ hj fun he => hji he.symm)
        rcases hm with ⟨c, n, m, hn, hm⟩ | ⟨id, hn, hm⟩
        · exact .inl ⟨c, m, n, hm, hn⟩
        · exact .inr ⟨id, hm, hn⟩
      · rw [if_neg hki] at hk
        exact hs.distinct j k r₁ r₂ hj hk hm
  rcases h.marks hfits.noCopy hr' with hsub | ⟨c, id, n, hc, hothers, hrows, hcase⟩
  · refine ⟨hs.toMarked.shrink hw hsub, fun r₁ hr₁ => ?_, hdistinct⟩
    rcases List.mem_or_eq_of_mem_set hr₁ with hold | rfl
    · exact (hs.fits r₁ hold).shrink hw hsub
    · exact h.fits hs.toMarked hfits hsub hr' fun c n hr hp => (hnumber c n hr hp).1
  -- The appended prompt is one nobody else has in hand.
  have hnew : id < s'.nextId ∧ (∀ d, ∀ m ∈ marksOf s d, m.1 ≠ id) ∧ (∀ m ∈ marksOf s c, m.2 < n) ∧
      (∀ row ∈ s.store.prompts, row.id = id → row.chatId = c ∧ row.seq = n) ∧
      (∃ ids, r' = .tending c ids) ∧ ∀ (j : Nat) r₁, roles[j]? = some r₁ → j ≠ i →
        (∀ m, r₁.picked ≠ some (c, m)) ∧ r₁.issued ≠ some id := by
    rcases hcase with ⟨rfl, rfl, hn⟩ | ⟨rfl, hn, rfl, x, w, ids, rfl, hx, rfl, rfl⟩
    · obtain ⟨hlt, hcached, hlink⟩ := hfits.new c id n rfl
      refine ⟨hn ▸ hlt, hcached, hfits.below c n rfl, hlink, ⟨_, rfl⟩, fun j r₁ hj hne => ⟨?_, ?_⟩⟩
      · exact fun m hm => hne (hs.distinct j i r₁ _ hj hi (.inl ⟨c, m, n, hm, rfl⟩))
      · exact fun hm => hne (hs.distinct j i r₁ _ hj hi (.inr ⟨id, hm, rfl⟩))
    · obtain ⟨hseq, hother⟩ := hrevert x w c ids rfl hx rfl
      refine ⟨hn ▸ Nat.lt_succ_self _, fun d m hm => Nat.ne_of_lt (hs.known d m hm),
        fun m hm => Nat.lt_succ_of_le (hseq m hm),
        fun row hrow he => absurd he (Nat.ne_of_lt (hs.table.issued row hrow)), ⟨ids, rfl⟩, ?_⟩
      exact fun j r₁ hj hne => ⟨fun m => hother j r₁ m hj hne,
        (hs.fits r₁ (List.mem_of_getElem? hj)).unissued (Nat.le_refl _)⟩
  obtain ⟨hlt, hcached, habove, hlink, ⟨ids, rfl⟩, hothers'⟩ := hnew
  refine ⟨hs.toMarked.append hrows hw.nextId hc hothers hlt hcached habove hlink, ?_, hdistinct⟩
  intro r₁ hr₁
  obtain ⟨j, hj⟩ := List.getElem?_of_mem hr₁
  rw [List.getElem?_set] at hj
  split at hj
  · cases hj
    exact Errand.fits_tending
  · rename_i hne
    obtain ⟨hpick, hissue⟩ := hothers' j r₁ hj fun he => hne he.symm
    exact (hs.fits r₁ (List.mem_of_getElem? hj)).append hrows hw.nextId hc hothers hpick hissue

end Marks

section Runs

variable {p : Server} {roles : List Errand} {i : Nat} {c : Uuid}

theorem Solo.picked (h : Solo p i c) (hc : errands.Coupled p roles) {j : Nat} {r : Errand}
    {n : Nat} (hj : roles[j]? = some r) (hne : j ≠ i) : r.picked ≠ some (c, n) := by
  intro hp
  obtain ⟨t, ht, hrest⟩ := hc.thread hj
  have hmem : t ∈ p.threads.eraseIdx i := List.mem_eraseIdx_iff_getElem?.mpr ⟨j, hne, ht⟩
  cases hsite : t.site with
  | none =>
    rw [hsite] at hrest
    rcases hrest with ⟨d, ids, rfl⟩ | rfl <;> simp [Errand.picked] at hp
  | some x =>
    rw [hsite] at hrest
    have hfree := h t hmem x hsite
    cases r with
    | numbered d k =>
      simp only [Errand.picked, Option.some.injEq, Prod.mk.injEq] at hp
      obtain ⟨hchat, hcall, -⟩ := hrest
      have hissues := hfree (hchat.trans hp.1)
      rw [hcall] at hissues
      cases hissues
    | fresh d id k =>
      simp only [Errand.picked, Option.some.injEq, Prod.mk.injEq] at hp
      obtain ⟨hchat, hcall, -⟩ := hrest
      have hissues := hfree (hchat.trans hp.1)
      rcases hcall with hcall | hcall <;> rw [hcall] at hissues <;> cases hissues
    | _ => simp [Errand.picked] at hp

/-- One action of a step that meets the condition. -/
theorem Accounted.run {w : Choice} {x : Site} {r r' : Errand} {s' : AppState}
    (hs : Accounted p.shared roles) (hc : errands.Coupled p roles) (hg : OneByOne p (.run i w))
    (hat : p.At i x) (hacts : p.acts i w = some s') (hi : roles[i]? = some r)
    (h : Does (some (x, w)) r p.shared r' s') : Accounted s' (roles.set i r') := by
  obtain ⟨hfork, hmax, hrevert⟩ := hg x hat
  obtain ⟨th, hth, hrest⟩ := hc.thread hi
  have hsite : th.site = some x := by
    have hat' : p.threads[i]?.bind Thread.site = some x := hat
    rwa [hth] at hat'
  rw [hsite] at hrest
  have hr := (hs.fits r (List.mem_of_getElem? hi)).noCopy
  apply hs.does hi h
  · cases h with
    | fork _ hx _ => exact absurd (hfork hx _ hacts) (Nat.succ_ne_self _)
    | copy => exact absurd rfl hr
    | touch | tend | number | refuse | insert | lose | ingest | take | cut | tail | remove | revert
    | blank => simp
  · rintro c n rfl hp
    cases h with
    | number hx hw =>
      obtain ⟨rfl, -⟩ := hrest
      obtain ⟨hsolo, hstored⟩ := hmax hx hw
      refine ⟨fun m hm => ?_, fun j r₁ m hj hne => hsolo.picked hc hj hne⟩
      obtain ⟨q, hq, rfl⟩ := List.mem_map.mp hm
      obtain ⟨row, hrow, hid⟩ := hstored q hq
      obtain ⟨hchat, hseq⟩ := hs.link _ _ hm row hrow hid
      rw [← hseq]
      exact seq_lt_nextSeq hrow hchat
  · rintro _ _ c ids ⟨⟩ hx rfl
    obtain ⟨rfl, -⟩ := hrest
    obtain ⟨hsolo, hseq⟩ := hrevert hx
    refine ⟨fun m hm => ?_, fun j r₁ m hj hne => hsolo.picked hc hj hne⟩
    obtain ⟨q, hq, rfl⟩ := List.mem_map.mp hm
    exact hseq q hq

theorem Accounted.set_same {s : AppState} {r : Errand} (hs : Accounted s roles)
    (hi : roles[i]? = some r) : Accounted s (roles.set i r) := by
  rwa [AgentGrove.set_same hi]

theorem Accounted.append {s : AppState} (hs : Accounted s roles) (c : Uuid) (ids : List Uuid) :
    Accounted s (roles ++ [.tending c ids]) := by
  refine ⟨hs.toMarked, fun r hr => ?_, fun j k r₁ r₂ hj hk hm => ?_⟩
  · rw [List.mem_append, List.mem_singleton] at hr
    rcases hr with hr | rfl
    · exact hs.fits r hr
    · exact Errand.fits_tending
  · have hold : ∀ {j : Nat} {r : Errand}, (roles ++ [.tending c ids])[j]? = some r →
        (∀ d e, r ≠ .tending d e) → roles[j]? = some r := by
      intro j r hj hr
      rw [List.getElem?_append] at hj
      split at hj
      · exact hj
      · have hmem := List.mem_of_getElem? hj
        rw [List.mem_singleton] at hmem
        exact absurd hmem (hr _ _)
    apply hs.distinct j k r₁ r₂ (hold hj _) (hold hk _) hm
    · rintro d e rfl
      simp [Errand.Meets, Errand.picked, Errand.issued] at hm
    · rintro d e rfl
      simp [Errand.Meets, Errand.picked, Errand.issued] at hm

theorem accounted_kept : errands.Kept Accounted where
  sees _ _ _ _ _ _ := trivial
  sync s roles i r r' s' hv hi hm := by
    cases hm with
    | now h =>
      have hr := (hv.fits r (List.mem_of_getElem? hi)).noCopy
      apply hv.does hi (.now h) hr
      · rintro c n rfl hp
        simp [Errand.picked] at hp
      · rintro _ _ _ _ ⟨⟩
  fork s roles i r tag rc r' hv hi hf := by
    obtain ⟨rfl, rfl, c, ids, rfl⟩ := hf
    exact (hv.set_same hi).append c ids

/-- The prompts of a chat, as the store lists them, have ascending seqs. -/
theorem listPrompts_ordered {prompts : List PromptRow}
    (h : (prompts.map (fun r => (r.chatId, r.seq))).Nodup) (c : Uuid) :
    (ChatRepo.listPrompts prompts c).Pairwise (fun a b => a.seq < b.seq) := by
  have hsorted : (ChatRepo.listPrompts prompts c).Pairwise (fun a b => a.seq ≤ b.seq) :=
    List.pairwise_insertionSort _ _
  have hne : (ChatRepo.listPrompts prompts c).Pairwise (fun a b =>
      (a.chatId, a.seq) ≠ (b.chatId, b.seq)) := by
    have hnodup : ((ChatRepo.listPrompts prompts c).map (fun r => (r.chatId, r.seq))).Nodup := by
      unfold ChatRepo.listPrompts
      rw [List.Perm.nodup_iff ((List.perm_insertionSort _ _).map _)]
      exact h.sublist (List.filter_sublist.map _)
    rwa [List.Nodup, List.pairwise_map] at hnodup
  apply (hsorted.and hne).imp_of_mem
  intro a b ha hb hab
  have hchat : ∀ {r}, r ∈ ChatRepo.listPrompts prompts c → r.chatId = c := by
    intro r hr
    simp only [ChatRepo.listPrompts, List.mem_insertionSort, List.mem_filter,
      decide_eq_true_eq] at hr
    exact hr.2
  refine Nat.lt_of_le_of_ne hab.1 fun he => hab.2 ?_
  rw [hchat ha, hchat hb, he]

/-- What a restart caches is identified if the table is. -/
theorem marked_startup {s : AppState} (now : Nat) (h : Tabled s.store.prompts s.nextId) :
    Marked (startup now s) := by
  have hmem : ∀ {c m}, m ∈ marksOf (startup now s) c →
      ∃ row ∈ s.store.prompts, row.chatId = c ∧ row.id = m.1 ∧ row.seq = m.2 := by
    intro c m hm
    obtain ⟨q, hq, rfl⟩ := List.mem_map.mp hm
    obtain ⟨row, hrow, hc, rfl⟩ := mem_startup hq
    exact ⟨row, hrow, hc, rfl, rfl⟩
  have hsame : ∀ {a b : PromptRow}, a ∈ s.store.prompts → b ∈ s.store.prompts → a.id = b.id →
      a = b := fun ha hb he => List.inj_on_of_nodup_map h.ids ha hb he
  refine ⟨h, fun c m hm => ?_, fun c => ?_, fun c => ?_, fun c d hne m hm n hn he => ?_, ?_⟩
  · obtain ⟨row, hrow, -, hid, -⟩ := hmem hm
    exact hid ▸ h.issued row hrow
  · rw [marksOf, List.pairwise_map]
    rcases timeline_startup now s c with he | he
    · rw [he]
      exact List.Pairwise.nil
    · rw [he, List.pairwise_map]
      exact listPrompts_ordered h.seqs c
  · rcases timeline_startup now s c with he | he
    · simp [marksOf, he]
    · have hids : (marksOf (startup now s) c).map Prod.fst =
          (ChatRepo.listPrompts s.store.prompts c).map PromptRow.id := by
        rw [marksOf, he, List.map_map, List.map_map]
        rfl
      unfold ChatRepo.listPrompts at hids
      rw [hids, List.Perm.nodup_iff ((List.perm_insertionSort _ _).map _)]
      exact h.ids.sublist (List.filter_sublist.map _)
  · obtain ⟨a, ha, hc, hida, -⟩ := hmem hm
    obtain ⟨b, hb, hd, hidb, -⟩ := hmem hn
    have hab := hsame ha hb (hida.trans (he.trans hidb.symm))
    exact hne (hc.symm.trans ((congrArg PromptRow.chatId hab).trans hd))
  · intro c m hm row hrow hid
    obtain ⟨a, ha, hc, hida, hseq⟩ := hmem hm
    rw [hsame hrow ha (hid.trans hida.symm)]
    exact ⟨hc, hseq⟩

end Runs

/-- Cached prompts stay identified through every run and restart in which no fork
copies prompts and prompts are numbered one at a time, in step with the store. -/
theorem prompts_identified {store : Store} {nextId : Uuid} {builtins : List Text}
    (hs : Tabled store.prompts nextId) {p : Server}
    (h : Lives OneByOne ⟨serve store nextId builtins, []⟩ p) : Identified p.shared := by
  suffices hrun : ∃ roles, errands.Coupled p roles ∧ Accounted p.shared roles by
    obtain ⟨roles, -, hv⟩ := hrun
    exact hv.identified
  have hfresh : ∀ s : AppState, Marked s → ∃ roles, errands.Coupled ⟨s, []⟩ roles ∧
      Accounted s roles := fun s hm => ⟨[], ⟨rfl, by simp⟩, hm, by simp, by simp⟩
  induction h with
  | refl => exact hfresh _ (marked_startup 0 hs)
  | @tail p p' _ hstep ih =>
    obtain ⟨roles, hc, hv⟩ := ih
    rcases hstep with hstep | ⟨now, rfl⟩
    · apply accounted_kept.reaches_acting _ _ (.single hstep) hc hv
      · intro q roles request _ hv _
        exact ⟨_, promptCourse.handles request, hv.append _ _⟩
      · intro q roles i w x r r' s' hc hv hg hat hacts hr hm
        exact hv.run hc hg hat hacts hr hm
    · exact hfresh _ (marked_startup now hv.table)

/-- A reverted message, and one sent after a restart. -/
theorem prompts_identified_reverted : ∃ p : Server,
    Lives OneByOne ⟨serve oneMessage 10 [], []⟩ p ∧ marksOf p.shared 1 = [(2, 1), (11, 2)] ∧
      Identified p.shared := by
  have hrun : ((Pool.play entry OneByOne ⟨serve oneMessage 10 [], []⟩
      (.arrive (.revertPrompt 1 2) :: rounds 0 1)).bind (fun p =>
        (Pool.play entry OneByOne ⟨startup 0 p.shared, []⟩
          (.arrive (.sendMessage 1 ['b']) :: rounds 0 10)).map (fun p' => marksOf p'.shared 1))) =
      some [(2, 1), (11, 2)] := by decide
  obtain ⟨p, hp, hlater⟩ := Option.bind_eq_some_iff.mp hrun
  obtain ⟨p', hp', hmarks⟩ := Option.map_eq_some_iff.mp hlater
  have hlives : Lives OneByOne ⟨serve oneMessage 10 [], []⟩ p' := by
    have hfirst : Lives OneByOne ⟨serve oneMessage 10 [], []⟩ p :=
      Relation.ReflTransGen.mono (fun _ _ => .inl) _ _ (Pool.play_reaches hp)
    have hsecond : Lives OneByOne ⟨startup 0 p.shared, []⟩ p' :=
      Relation.ReflTransGen.mono (fun _ _ => .inl) _ _ (Pool.play_reaches hp')
    exact (hfirst.tail (.inr ⟨0, rfl⟩)).trans hsecond
  exact ⟨p', hlives, hmarks, prompts_identified ⟨by decide, by decide, by decide⟩ hlives⟩

/-- A fork's cached prompts keep the ids of their originals. -/
theorem fork_shares_ids :
    ¬ ∀ (store : Store) (nextId : Uuid) (builtins : List Text) (p : Server),
      Tabled store.prompts nextId → Lives Pool.anyStep ⟨serve store nextId builtins, []⟩ p →
      Identified p.shared := by
  intro hall
  have hrun : (Pool.play entry Pool.anyStep ⟨serve oneMessage 10 [], []⟩ forkFirst).map (fun p =>
      ((timeline p.shared 1).map PromptRecord.id, (timeline p.shared 11).map PromptRecord.id)) =
      some ([2], [2]) := by decide
  obtain ⟨p, hp, he⟩ := Option.map_eq_some_iff.mp hrun
  simp only [Prod.mk.injEq] at he
  obtain ⟨a, ha, hida⟩ := List.map_eq_singleton_iff.mp he.1
  obtain ⟨b, hb, hidb⟩ := List.map_eq_singleton_iff.mp he.2
  have hid := hall oneMessage 10 [] p ⟨by decide, by decide, by decide⟩
    (Relation.ReflTransGen.mono (fun _ _ => .inl) _ _ (Pool.play_reaches hp))
  apply hid.across 1 11 (by decide) a _ b _ (hida.trans hidb.symm)
  · simp [ha]
  · simp [hb]

end AgentGrove
