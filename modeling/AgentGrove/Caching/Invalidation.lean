import AgentGrove.Coop.Census
import AgentGrove.Coop.Protocol
import AgentGrove.Model.ModelsCache
import AgentGrove.Model.Providers

namespace AgentGrove.ModelsCache

open Coop

variable {P : Type} [DecidableEq P]

abbrev CachePool (P : Type) := Pool (Site P) Unit Choice (Cache P)

/-- No list from before an invalidation that the request comes after. -/
def Answer.Current (a : Answer P) : Prop := ∀ of ∈ a.listed.fetchedOf, a.owed ≤ of

instance (a : Answer P) : Decidable a.Current :=
  inferInstanceAs (Decidable (∀ of ∈ a.listed.fetchedOf, a.owed ≤ of))

/-- No fresh entry from after that invalidation would have done. -/
def Fetch.Needed (f : Fetch P) : Prop := ∀ e ∈ f.fresh, ¬ f.owed ≤ e.fetchedOf

instance (f : Fetch P) : Decidable f.Needed :=
  inferInstanceAs (Decidable (∀ e ∈ f.fresh, ¬ f.owed ≤ e.fetchedOf))

structure Effective (s : Cache P) : Prop where
  answers : ∀ a ∈ s.answers, a.Current
  fetches : ∀ f ∈ s.fetches, f.Needed

/-- A list is stored only if its provider has not been invalidated since the fetch of it began, and
no other request for the provider is between its look-up and its fetch. -/
def Careful (p : CachePool P) : Event Choice (Request P) → Prop
  | .arrive _ => True
  | .run i _ => ∀ id of, p.At i (.store id of) →
      p.shared.drops id ≤ of ∧ ∀ t ∈ p.threads, t.site ≠ some (.begin id)

instance (p : CachePool P) : (e : Event Choice (Request P)) → Decidable (Careful p e)
  | .arrive _ => .isTrue trivial
  | .run i _ =>
    match hx : p.restsAt i with
    | some (.store id of) =>
      decidable_of_iff (p.shared.drops id ≤ of ∧ ∀ t ∈ p.threads, t.site ≠ some (.begin id))
        (by simp [Careful, Pool.At, hx])
    | none | some .lookup | some (.begin _) | some .fetch | some .cached | some .invalidate =>
      .isTrue (by simp [Careful, Pool.At, hx])

/-- How far a request is. -/
inductive Role (P : Type) where
  | idle
  | asks (id : P) (ttl owed : Nat)
  /-- The look-up found nothing fresh. -/
  | missed (id : P) (ttl owed : Nat)
  | fetching (id : P) (owed fetchedOf : Nat)
  | shows (id : P) (owed : Nat) (listed : Listed)

/-- What a role relies on. -/
def Sees : Role P → Cache P → Prop
  | .idle, _ => True
  | .asks id _ owed, s => owed ≤ s.drops id
  | .missed id ttl owed, s => owed ≤ s.drops id ∧ s.fresh id ttl = none
  | .fetching id owed of, s => owed ≤ of ∧ of ≤ s.drops id
  | .shows _ owed listed, _ => ∀ of ∈ listed.fetchedOf, owed ≤ of

inductive Moves : Option (Site P × Choice) → Role P → Cache P → Role P → Cache P → Prop where
  | ask {id : P} {ttl : Nat} {s : Cache P} : Moves none .idle s (.asks id ttl (s.drops id)) s
  | hit {site : Site P} {w : Choice} {id : P} {ttl owed d : Nat} {s : Cache P} {e : Entry}
      (he : s.entries id = some e) :
      Moves (some (site, w)) (.asks id ttl owed) s (.shows id owed e.listed) (s.tick d)
  | miss {site : Site P} {w : Choice} {id : P} {ttl owed d : Nat} {s : Cache P}
      (he : (s.tick d).fresh id ttl = none) :
      Moves (some (site, w)) (.asks id ttl owed) s (.missed id ttl owed) (s.tick d)
  | begin {site : Site P} {w : Choice} {id : P} {ttl owed d : Nat} {s : Cache P} :
      Moves (some (site, w)) (.missed id ttl owed) s (.fetching id owed (s.drops id))
        { s.tick d with fetches := s.fetches ++ [⟨id, owed, (s.tick d).fresh id ttl⟩] }
  | wait {site : Site P} {w : Choice} {id : P} {owed of d : Nat} {s : Cache P} :
      Moves (some (site, w)) (.fetching id owed of) s (.fetching id owed of) (s.tick d)
  | store {w : Choice} {id : P} {owed of d : Nat} {s : Cache P} {models : List Text} :
      Moves (some (.store id of, w)) (.fetching id owed of) s (.shows id owed ⟨models, some of⟩)
        { s.tick d with entries := Function.update s.entries id (some ⟨models, s.now + d, of⟩) }
  | fallBack {site : Site P} {w : Choice} {id : P} {owed of d : Nat} {s : Cache P} :
      Moves (some (site, w)) (.fetching id owed of) s
        (.shows id owed (((s.entries id).map Entry.listed).getD ⟨[], none⟩)) (s.tick d)
  | present {id : P} {owed : Nat} {listed : Listed} {s : Cache P} :
      Moves none (.shows id owed listed) s .idle { s with answers := s.answers ++ [⟨id, owed, listed⟩] }
  | drop {site : Site P} {w : Choice} {id : P} {d : Nat} {s : Cache P} :
      Moves (some (site, w)) .idle s .idle
        { s.tick d with
          entries := Function.update s.entries id none
          drops := Function.update s.drops id (s.drops id + 1) }

/-- A request that has missed has not begun its fetch. -/
def rests (site : Option (Site P)) : Role P → Prop
  | .missed id _ _ => site = some (.begin id)
  | _ => True

/-- The requests about models. -/
def lists : Protocol (Site P) Unit Choice (Cache P) (Role P) where
  rest _ site r := rests site r
  sees := Sees
  move := Moves
  fork _ _ _ _ := False

/-- The cache holds nothing from before an invalidation. -/
structure Clean (s : Cache P) : Prop where
  entries : ∀ id, ∀ e ∈ s.entries id, s.drops id ≤ e.fetchedOf
  effective : Effective s

section Steps

variable {s s' : Cache P} {r r' : Role P} {e : Option (Site P × Choice)} {id : P}

/-- What lasts while no list of the provider is stored. -/
structure Lasts (id : P) (s s' : Cache P) : Prop where
  now : s.now ≤ s'.now
  entries : ∀ e ∈ s'.entries id, e ∈ s.entries id

omit [DecidableEq P] in
theorem Lasts.fresh {ttl : Nat} (h : Lasts id s s') (hn : s.fresh id ttl = none) :
    s'.fresh id ttl = none := by
  rw [Cache.fresh, Option.filter_eq_none_iff] at hn ⊢
  intro e he
  have hold := hn e (h.entries e he)
  have hnow := h.now
  simp only [decide_eq_true_eq] at hold ⊢
  omega

omit [DecidableEq P] in
theorem tick_lasts (s : Cache P) (d : Nat) : Lasts id s (s.tick d) := ⟨Nat.le_add_right _ _, fun _ he => he⟩

/-- An entry of the cache after one provider has been given another. -/
theorem mem_update {entries : P → Option Entry} {id' : P} {o : Option Entry} {x : Entry}
    (h : x ∈ Function.update entries id o id') : id' = id ∧ x ∈ o ∨ id' ≠ id ∧ x ∈ entries id' := by
  by_cases heq : id' = id
  · subst heq
    rw [Function.update_self] at h
    exact .inl ⟨rfl, h⟩
  · rw [Function.update_of_ne heq] at h
    exact .inr ⟨heq, h⟩

theorem Moves.lasts (h : Moves e r s r' s') (he : ∀ of w, e ≠ some (.store id of, w)) : Lasts id s s' := by
  cases h with
  | ask | present => exact ⟨le_rfl, fun _ he => he⟩
  | hit | miss | wait | fallBack => exact tick_lasts _ _
  | begin => exact ⟨Nat.le_add_right _ _, fun _ he => he⟩
  | store =>
    refine ⟨Nat.le_add_right _ _, fun x hx => ?_⟩
    rcases mem_update hx with ⟨heq, -⟩ | ⟨-, hx⟩
    · exact absurd (by rw [heq]) (he _ _)
    · exact hx
  | drop =>
    refine ⟨Nat.le_add_right _ _, fun x hx => ?_⟩
    rcases mem_update hx with ⟨-, hx⟩ | ⟨-, hx⟩
    · cases hx
    · exact hx

theorem Moves.drops (h : Moves e r s r' s') (id : P) : s.drops id ≤ s'.drops id := by
  cases h with
  | drop =>
    dsimp only [Function.update]
    split
    · rename_i heq
      subst heq
      exact Nat.le_succ _
    · exact le_rfl
  | _ => exact le_rfl

omit [DecidableEq P] in
/-- What a request relies on lasts, if no list is stored under its eyes. -/
theorem Sees.last (h : Sees r s) (hdrops : ∀ id, s.drops id ≤ s'.drops id)
    (hmissed : ∀ id ttl owed, r = .missed id ttl owed → Lasts id s s') : Sees r s' := by
  cases r with
  | idle => trivial
  | asks id ttl owed => exact h.trans (hdrops id)
  | missed id ttl owed => exact ⟨h.1.trans (hdrops id), (hmissed _ _ _ rfl).fresh h.2⟩
  | fetching id owed of => exact ⟨h.1, h.2.trans (hdrops id)⟩
  | shows id owed listed => exact h

/-- What the role of the acting request relies on next. -/
theorem Moves.sees (h : Moves e r s r' s') (hc : Clean s) (hr : Sees r s) : Sees r' s' := by
  cases h with
  | ask => exact le_rfl
  | hit he =>
    intro of hof
    cases hof
    exact hr.trans (hc.entries _ _ he)
  | miss he => exact ⟨hr, he⟩
  | begin => exact ⟨hr.1, le_rfl⟩
  | wait => exact hr
  | store =>
    intro of hof
    cases hof
    exact hr.1
  | @fallBack site w id owed of d s =>
    intro of' hof
    cases he : s.entries id with
    | none =>
      rw [he] at hof
      cases hof
    | some e =>
      rw [he] at hof
      cases hof
      exact (hr.1.trans hr.2).trans (hc.entries id e he)
  | present | drop => trivial

/-- One step that meets the condition. -/
theorem Clean.move (hc : Clean s) (h : Moves e r s r' s') (hr : Sees r s)
    (hstore : ∀ id of w, e = some (.store id of, w) → s.drops id ≤ of) : Clean s' := by
  obtain ⟨hentries, hanswers, hfetches⟩ := hc
  cases h with
  | ask | hit | miss | wait | fallBack => exact ⟨hentries, hanswers, hfetches⟩
  | begin =>
    refine ⟨hentries, hanswers, fun f hf => ?_⟩
    rcases List.mem_append.mp hf with hf | hf
    · exact hfetches f hf
    · rw [List.mem_singleton.mp hf]
      intro e he
      rw [(tick_lasts s _).fresh hr.2] at he
      cases he
  | @store w id owed of d s models =>
    refine ⟨fun id' e he => ?_, hanswers, hfetches⟩
    rcases mem_update he with ⟨rfl, hnew⟩ | ⟨-, he⟩
    · cases hnew
      exact hstore _ _ _ rfl
    · exact hentries id' e he
  | present =>
    refine ⟨hentries, fun a ha => ?_, hfetches⟩
    rcases List.mem_append.mp ha with ha | ha
    · exact hanswers a ha
    · rw [List.mem_singleton.mp ha]
      exact hr
  | @drop site w id d s =>
    refine ⟨fun id' e he => ?_, hanswers, hfetches⟩
    rcases mem_update he with ⟨-, he⟩ | ⟨hne, he⟩
    · cases he
    · dsimp only
      rw [Function.update_of_ne hne]
      exact hentries id' e he

end Steps

section Handlers

variable {r : Role P} {β : Type} {site : Site P} {act : Choice → Cache P → Cache P × β}
  {Q : β → Role P → Prop} {id : P} {ttl owed of : Nat}

theorem call_follows (hrest : rests (some site) r)
    (h : ∀ w s, ∃ r', Moves (some (site, w)) r s r' (act w (s.tick w.elapsed)).1 ∧
      Q (act w (s.tick w.elapsed)).2 r') :
    lists.Follows () (call site act) r Q := by
  refine ⟨hrest, fun w s s' b _ ha => ?_⟩
  obtain ⟨rfl, rfl⟩ := Prod.mk.inj (Option.some.inj ha)
  exact h w s

theorem atOnce_follows {act : Cache P → Cache P × β}
    (h : ∀ s, ∃ r', Moves none r s r' (act s).1 ∧ Q (act s).2 r') :
    lists.Follows () (atOnce act) r Q :=
  fun s _ => h s

theorem lookup_follows : lists.Follows () (lookup id ttl) (.asks id ttl owed) (fun found r =>
    match found with
    | some listed => r = .shows id owed listed
    | none => r = .missed id ttl owed) := by
  refine call_follows trivial fun w s => ?_
  cases hf : (s.tick w.elapsed).fresh id ttl with
  | none => exact ⟨_, .miss hf, rfl⟩
  | some e => exact ⟨_, .hit (Option.filter_eq_some_iff.mp hf).1, rfl⟩

theorem cached_follows : lists.Follows () (cached id) (.fetching id owed of)
    (fun listed r => r = .shows id owed listed) :=
  call_follows trivial fun _ _ => ⟨_, .fallBack, rfl⟩

theorem getOrFetch_follows : lists.Follows () (getOrFetch id ttl owed) (.asks id ttl owed)
    (fun listed r => r = .shows id owed listed) := by
  refine Protocol.follows_then lookup_follows fun found r hr => ?_
  cases found with
  | some listed => exact hr
  | none =>
    subst hr
    refine Protocol.follows_then (M := fun of r => r = .fetching id owed of)
      (call_follows rfl fun w s => ⟨_, .begin, rfl⟩) ?_
    rintro of _ rfl
    refine Protocol.follows_to (call_follows trivial fun w s => ⟨_, .wait, rfl⟩) fun result => ?_
    match result with
    | .ok [] | .error _ => exact cached_follows
    | .ok (m :: models) =>
      refine Protocol.follows_to (call_follows trivial fun w s => ⟨_, .store, rfl⟩) fun _ => ?_
      rfl

theorem models_follows : lists.Follows () (models id ttl) .idle (fun _ r => r = .idle) := by
  refine Protocol.follows_then (M := fun owed r => r = .asks id ttl owed)
    (atOnce_follows fun s => ⟨_, .ask, rfl⟩) ?_
  rintro owed _ rfl
  refine Protocol.follows_then getOrFetch_follows ?_
  rintro listed _ rfl
  exact atOnce_follows fun s => ⟨_, .present, rfl⟩

theorem invalidate_follows : lists.Follows () (invalidate id) .idle (fun _ r => r = .idle) :=
  call_follows trivial fun _ _ => ⟨_, .drop, rfl⟩

theorem handle_follows (request : Request P) :
    lists.Follows () (handle request) .idle (fun _ r => r = .idle) := by
  cases request with
  | models id ttl => exact models_follows
  | invalidate id => exact invalidate_follows
  | refresh id => exact Protocol.follows_to invalidate_follows fun _ => models_follows

end Handlers

/-- The cache is clean, and every request relies on what holds. -/
structure Sane (s : Cache P) (roles : List (Role P)) : Prop where
  clean : Clean s
  sees : ∀ r ∈ roles, Sees r s

section Runs

variable {s s' : Cache P} {roles : List (Role P)} {r r' : Role P} {i : Nat}
  {e : Option (Site P × Choice)} {p : CachePool P}

theorem Sane.move (h : Sane s roles) (hi : roles[i]? = some r) (hm : Moves e r s r' s')
    (hstore : ∀ id of w, e = some (.store id of, w) → s.drops id ≤ of)
    (halone : ∀ id of w, e = some (.store id of, w) → ∀ ttl owed, .missed id ttl owed ∉ roles) :
    Sane s' (roles.set i r') := by
  have hr := h.sees r (List.mem_of_getElem? hi)
  refine ⟨h.clean.move hm hr hstore, fun r₁ hr₁ => ?_⟩
  rcases mem_set hr₁ with rfl | hr₁
  · exact hm.sees h.clean hr
  · refine (h.sees r₁ hr₁).last hm.drops fun id ttl owed heq => hm.lasts fun of w he => ?_
    exact halone id of w he ttl owed (heq ▸ hr₁)

theorem sane_kept : (lists (P := P)).Kept Sane where
  sees _ _ _ r h hi := h.sees r (List.mem_of_getElem? hi)
  sync _ _ _ _ _ _ h hi hm := h.move hi hm (fun _ _ _ he => nomatch he) (fun _ _ _ he => nomatch he)
  fork _ _ _ _ _ _ _ _ _ hf := hf.elim

omit [DecidableEq P] in
theorem boot_sane : Sane (boot (P := P)) [] :=
  ⟨⟨fun _ _ he => (nomatch he), fun _ ha => (nomatch ha), fun _ hf => (nomatch hf)⟩,
    fun _ hr => (nomatch hr)⟩

/-- A request that has missed rests before its fetch. -/
theorem not_missed {id : P} {ttl owed : Nat} (hc : lists.Coupled p roles)
    (h : ∀ t ∈ p.threads, t.site ≠ some (.begin id)) : .missed id ttl owed ∉ roles := by
  intro hm
  obtain ⟨j, hj⟩ := List.getElem?_of_mem hm
  obtain ⟨t, ht, hrest⟩ := hc.thread hj
  exact h t (List.mem_of_getElem? ht) hrest

/-- In a run in which a list is stored only if its provider has not been invalidated since the
fetch of it began, and only while no other request for the provider is about to fetch, no request
gets a list from before an invalidation that it comes after, nor fetches beside a fresh entry. -/
theorem invalidation_effective (h : Pool.Reaches (entry (P := P)) Careful ⟨boot, []⟩ p) :
    Effective p.shared := by
  obtain ⟨roles, -, hsane⟩ := sane_kept.reaches
    (fun p roles request _ hv _ => ⟨.idle, Protocol.follows_mono (handle_follows request)
      (fun _ r hr => by subst hr; trivial), hv.clean, fun r hr => by
        rcases List.mem_append.mp hr with hr | hr
        · exact hv.sees r hr
        · rw [List.mem_singleton.mp hr]
          trivial⟩)
    (fun p roles i w site r r' s' hc hv hg hat hi hm => hv.move hi hm
      (fun id of _ he => by
        cases he
        exact (hg id of hat).1)
      (fun id of _ he ttl owed => by
        cases he
        exact not_missed hc (hg id of hat).2))
    h ⟨rfl, fun _ _ hi => nomatch hi⟩ boot_sane
  exact hsane.clean.effective

end Runs

instance (s : Cache P) : Decidable (Effective s) :=
  decidable_of_iff ((∀ a ∈ s.answers, a.Current) ∧ ∀ f ∈ s.fetches, f.Needed)
    ⟨fun h => ⟨h.1, h.2⟩, fun h => ⟨h.answers, h.fetches⟩⟩

open Agents (ProviderId)

def known : List Text := ["gpt-5".toList]

/-- The models are fetched, and fetched anew once they have been invalidated. -/
def refreshing : List (Event Choice (Request ProviderId)) :=
  [.arrive (.models .codex defaultTtl), .run 0 {}, .run 0 {}, .run 0 { fetched := .ok known }, .run 0 {},
    .arrive (.refresh .codex), .run 1 {}, .run 1 {}, .run 1 {}, .run 1 { fetched := .ok known }, .run 1 {}]

theorem invalidation_effective_refreshed : ∃ p : CachePool ProviderId,
    (Pool.Reaches entry Careful ⟨boot, []⟩ p ∧
      p.shared.answers = [⟨.codex, 0, known, some 0⟩, ⟨.codex, 1, known, some 1⟩]) ∧
    Effective p.shared := by
  have hrun : ((Pool.play entry Careful ⟨boot, []⟩ refreshing).map (fun p => p.shared.answers)) =
      some [⟨.codex, 0, known, some 0⟩, ⟨.codex, 1, known, some 1⟩] := by decide
  obtain ⟨p, hp, hanswers⟩ := Option.map_eq_some_iff.mp hrun
  have hreach := Pool.play_reaches hp
  exact ⟨p, ⟨hreach, hanswers⟩, invalidation_effective hreach⟩

/-- A fetch is under way when its provider is invalidated, and what it brings is served after that. -/
def reinstalling : List (Event Choice (Request ProviderId)) :=
  [.arrive (.models .codex defaultTtl), .run 0 {}, .run 0 {}, .arrive (.invalidate .codex), .run 1 {},
    .run 0 { fetched := .ok known }, .run 0 {}, .arrive (.models .codex defaultTtl), .run 2 {}]

theorem invalidated_list_served : ¬ ∀ p : CachePool ProviderId,
    Pool.Reaches entry Pool.anyStep ⟨boot, []⟩ p → Effective p.shared := by
  intro hall
  have hrun : ((Pool.play entry Pool.anyStep ⟨boot, []⟩ reinstalling).map
      (fun p => decide (Effective p.shared))) = some false := by decide
  obtain ⟨p, hp, hstale⟩ := Option.map_eq_some_iff.mp hrun
  exact of_decide_eq_false hstale (hall p (Pool.play_reaches hp))

end AgentGrove.ModelsCache
