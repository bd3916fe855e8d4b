import AgentGrove.Coop.Census
import AgentGrove.Coop.Protocol
import AgentGrove.Model.ClickUp

namespace AgentGrove.ClickUp

open Coop

abbrev HubPool := Pool Site Unit Choice Hub

/-- All that had been changed when the answer was asked for went into what it shows, the
present key included. -/
def Shown.Current (a : Shown) : Prop := ∀ read ∈ a.listed.read, a.owed ≤ read

instance (a : Shown) : Decidable a.Current :=
  inferInstanceAs (Decidable (∀ read ∈ a.listed.read, a.owed ≤ read))

/-- A list goes to the cache only if no change has dropped the cache that the fetch does not
know of, and a row is written back only with the key that is still the stored one. -/
def Careful (p : HubPool) : Event Choice Request → Prop
  | .arrive _ => True
  | .run i w =>
    (∀ read, p.At i (.store read) → p.shared.cleared ≤ read) ∧
      ∀ key, p.At i (.save (some key)) → w.fail = false → p.shared.keyAt = key

instance (p : HubPool) : (e : Event Choice Request) → Decidable (Careful p e)
  | .arrive _ => .isTrue trivial
  | .run i w =>
    match hx : p.restsAt i with
    | some (.store read) => decidable_of_iff (p.shared.cleared ≤ read) (by simp [Careful, Pool.At, hx])
    | some (.save (some key)) => decidable_of_iff (w.fail = false → p.shared.keyAt = key)
        (by simp [Careful, Pool.At, hx])
    | none | some .lookup | some .token | some .filters | some .fetch | some .project | some .worktree
    | some .start | some .validate | some (.save none) | some .delete | some .drop =>
      .isTrue (by simp [Careful, Pool.At, hx])

/-- How far a request is, as far as the cache goes. -/
inductive Role where
  /-- About to list, with the changes answered by then. -/
  | asks (owed : Version)
  /-- The key is read, and dates from this change. -/
  | holds (owed : Version) (key : Nat)
  /-- There is a list of this to show. -/
  | shows (owed read : Version)
  | idle
  | changed (v : Version)
  | dropped (v : Version)

/-- What a role relies on. -/
def Sees : Role → Hub → Prop
  | .asks owed, s => owed ≤ s.answered
  | .holds owed key, s => owed ≤ s.answered ∧ owed .key ≤ key
  | .shows owed read, _ => owed ≤ read
  | .idle, _ => True
  | .changed v, s => v ≤ s.version
  | .dropped v, s => v ≤ s.cleared

/-- The steps. -/
inductive Moves : Option (Site × Choice) → Role → Hub → Role → Hub → Prop where
  /-- Nothing that matters changes, and the request forgets what it knew. -/
  | rest {e : Option (Site × Choice)} {r : Role} {s s' : Hub} (hs : s' = { s with worktrees := s'.worktrees }) :
      Moves e r s .idle s'
  | stay {e : Option (Site × Choice)} {r : Role} {s : Hub} : Moves e r s r s
  | ask {s : Hub} : Moves none .idle s (.asks s.answered) s
  | hit {w : Choice} {owed : Version} {s : Hub} (hc : s.clickupCache.isSome = true) :
      Moves (some (.lookup, w)) (.asks owed) s (.shows owed s.cachedOf) s
  | hold {w : Choice} {owed : Version} {s : Hub} :
      Moves (some (.token, w)) (.asks owed) s (.holds owed s.keyAt) s
  | read {w : Choice} {owed : Version} {key : Nat} {s : Hub} :
      Moves (some (.filters, w)) (.holds owed key) s
        (.shows owed (Function.update s.version .key key)) s
  | store {w : Choice} {owed read : Version} {s : Hub} {rows : List TicketRow} {at_ : Nat} :
      Moves (some (.store read, w)) (.shows owed read) s (.shows owed read)
        { s with clickupCache := some (rows, at_), cachedOf := read }
  | present {r : Role} {s : Hub} {a : Shown} (ha : ∀ read ∈ a.listed.read, r = .shows a.owed read) :
      Moves none r s .idle { s with shown := s.shown ++ [a] }
  | newKey {e : Option (Site × Choice)} {s : Hub} {tokens : Text → Option IntegrationToken} :
      Moves e .idle s (.changed (s.next account))
        { s.change account with tokens := tokens, keyAt := s.next account .key }
  | writeBack {w : Choice} {s : Hub} {key : Nat} {tokens : Text → Option IntegrationToken}
      (hw : w.fail = false) :
      Moves (some (.save (some key), w)) .idle s (.changed (s.next (· == .filters)))
        { s.change (· == .filters) with tokens := tokens, keyAt := key }
  | start {e : Option (Site × Choice)} {s : Hub} :
      Moves e .idle s (.changed (s.next (· == .tasks))) (s.change (· == .tasks))
  | forget {e : Option (Site × Choice)} {s : Hub} {tokens : Text → Option IntegrationToken} :
      Moves e .idle s (.dropped ⊥) { s with tokens := tokens }
  | drop {e : Option (Site × Choice)} {v : Version} {s : Hub} :
      Moves e (.changed v) s (.dropped v) { s with clickupCache := none, cleared := s.cleared ⊔ v }
  | settle {v : Version} {s : Hub} :
      Moves none (.dropped v) s .idle { s with answered := s.answered ⊔ v }

/-- The requests about ClickUp. -/
def tickets : Protocol Site Unit Choice Hub Role where
  rest _ _ _ := True
  sees := Sees
  move := Moves
  fork _ _ _ _ := False

/-- The cache holds nothing that a change has made stale and dropped. -/
structure Fresh (s : Hub) : Prop where
  key : s.keyAt = s.version .key
  answered : s.answered ≤ s.cleared
  cleared : s.cleared ≤ s.version
  cached : s.clickupCache.isSome = true → s.cleared ≤ s.cachedOf
  shown : ∀ a ∈ s.shown, a.Current

/-- What a role relies on lasts. -/
structure Grows (s s' : Hub) : Prop where
  version : s.version ≤ s'.version
  cleared : s.cleared ≤ s'.cleared
  answered : s.answered ≤ s'.answered

section Steps

variable {s s' : Hub} {r r' : Role} {e : Option (Site × Choice)} {inputs : Input → Bool}

theorem Sees.grow (h : Sees r s) (hg : Grows s s') : Sees r s' := by
  cases r with
  | asks owed => exact h.trans hg.answered
  | holds owed key => exact ⟨h.1.trans hg.answered, h.2⟩
  | shows owed read => exact h
  | idle => trivial
  | changed v => exact h.trans hg.version
  | dropped v => exact h.trans hg.cleared

theorem version_le_change (s : Hub) (inputs : Input → Bool) : s.version ≤ (s.change inputs).version :=
  le_sup_left

theorem next_le_change (s : Hub) (inputs : Input → Bool) : s.next inputs ≤ (s.change inputs).version :=
  le_sup_right

/-- No step takes back a change, a clearing or an answer. -/
theorem Moves.grows (h : Moves e r s r' s') : Grows s s' := by
  cases h with
  | rest hs =>
    rw [hs]
    exact ⟨le_rfl, le_rfl, le_rfl⟩
  | stay | ask | hit | hold | read | store | present | forget => exact ⟨le_rfl, le_rfl, le_rfl⟩
  | newKey => exact ⟨version_le_change s _, le_rfl, le_rfl⟩
  | writeBack => exact ⟨version_le_change s _, le_rfl, le_rfl⟩
  | start => exact ⟨version_le_change s _, le_rfl, le_rfl⟩
  | drop => exact ⟨le_rfl, le_sup_left, le_rfl⟩
  | settle => exact ⟨le_rfl, le_rfl, le_sup_left⟩

/-- A request that was asked knows of a key and filters no older than what it owes. -/
theorem Fresh.owed (h : Fresh s) {owed : Version} (ho : owed ≤ s.answered) : owed ≤ s.version :=
  ho.trans (h.answered.trans h.cleared)

/-- What the role of the acting request relies on next. -/
theorem Moves.sees (h : Moves e r s r' s') (hf : Fresh s) (hr : Sees r s) : Sees r' s' := by
  cases h with
  | rest | settle | present => trivial
  | stay => exact hr
  | ask => exact le_rfl
  | hit hc => exact hr.trans (hf.answered.trans (hf.cached hc))
  | hold => exact ⟨hr, hf.key ▸ hf.owed hr .key⟩
  | read =>
    intro i
    by_cases hi : i = .key
    · subst hi
      simpa using hr.2
    · simpa [Function.update_of_ne hi] using hf.owed hr.1 i
  | store => exact hr
  | newKey => exact next_le_change s _
  | writeBack => exact next_le_change s _
  | start => exact next_le_change s _
  | forget => exact bot_le
  | drop => exact le_sup_right

/-- One step that meets the condition. -/
theorem Fresh.move (hf : Fresh s) (h : Moves e r s r' s') (hr : Sees r s)
    (hstore : ∀ read w, e = some (.store read, w) → s.cleared ≤ read)
    (hsave : ∀ key w, e = some (.save (some key), w) → w.fail = false → s.keyAt = key) : Fresh s' := by
  cases h with
  | rest hs =>
    rw [hs]
    exact ⟨hf.key, hf.answered, hf.cleared, hf.cached, hf.shown⟩
  | stay | ask | hit | hold | read => exact hf
  | store => exact ⟨hf.key, hf.answered, hf.cleared, fun _ => hstore _ _ rfl, hf.shown⟩
  | present ha =>
    refine ⟨hf.key, hf.answered, hf.cleared, hf.cached, fun a hm => ?_⟩
    rcases List.mem_append.mp hm with hm | hm
    · exact hf.shown a hm
    · rw [List.mem_singleton.mp hm]
      intro read hread
      rw [ha read hread] at hr
      exact hr
  | newKey =>
    refine ⟨?_, hf.answered, hf.cleared.trans (version_le_change s _), hf.cached, hf.shown⟩
    simp [Hub.change, Hub.next, account]
  | writeBack hw =>
    refine ⟨?_, hf.answered, hf.cleared.trans (version_le_change s _), hf.cached, hf.shown⟩
    rw [← hsave _ _ rfl hw, hf.key]
    simp [Hub.change, Hub.next]
  | start =>
    refine ⟨?_, hf.answered, hf.cleared.trans (version_le_change s _), hf.cached, hf.shown⟩
    show s.keyAt = (s.change _).version .key
    rw [hf.key]
    simp [Hub.change, Hub.next]
  | forget => exact ⟨hf.key, hf.answered, hf.cleared, hf.cached, hf.shown⟩
  | drop => exact ⟨hf.key, hf.answered.trans le_sup_left, sup_le hf.cleared hr, fun hc => (nomatch hc), hf.shown⟩
  | settle => exact ⟨hf.key, sup_le hf.answered hr, hf.cleared, hf.cached, hf.shown⟩

end Steps

section Handlers

variable {r : Role} {β : Type} {site : Site} {act : Choice → Hub → Hub × β} {Q : β → Role → Prop}

theorem call_follows (h : ∀ w s, ∃ r', Moves (some (site, w)) r s r' (act w s).1 ∧ Q (act w s).2 r') :
    tickets.Follows () (call site act) r Q := by
  refine ⟨trivial, fun w s s' b _ ha => ?_⟩
  obtain ⟨rfl, rfl⟩ := Prod.mk.inj (Option.some.inj ha)
  exact h w s

theorem atOnce_follows {act : Hub → Hub × β}
    (h : ∀ s, ∃ r', Moves none r s r' (act s).1 ∧ Q (act s).2 r') :
    tickets.Follows () (atOnce act) r Q :=
  fun s _ => h s

/-- A call that leaves the shared state alone. -/
theorem read_follows (h : ∀ w s, (act w s).1 = s ∧ Q (act w s).2 r) :
    tickets.Follows () (call site act) r Q := by
  refine call_follows fun w s => ⟨r, ?_, (h w s).2⟩
  rw [(h w s).1]
  exact .stay

variable (K : FiltersCodec) {owed : Version}

theorem freshRows_follows : tickets.Follows () freshRows (.asks owed) (fun found r =>
    (found = none ∧ r = .asks owed) ∨ ∃ listed read, found = some listed ∧ listed.read = some read ∧
      r = .shows owed read) := by
  refine call_follows fun w s => ?_
  dsimp only
  cases hc : s.clickupCache.filter (fun c => w.now - c.2 < clickupCacheTtl) with
  | none => exact ⟨_, .stay, .inl ⟨rfl, rfl⟩⟩
  | some c =>
    have hsome : s.clickupCache.isSome = true := by
      rw [(Option.filter_eq_some_iff.mp hc).1]
      rfl
    exact ⟨_, .hit hsome, .inr ⟨_, _, rfl, rfl, rfl⟩⟩

theorem loadToken_follows : tickets.Follows () (loadToken clickup) (.asks owed) (fun found r =>
    ∀ tok key, found = some (tok, key) → r = .holds owed key) := by
  refine Protocol.follows_then (M := fun found r => ∀ t key, found = some (t, key) → r = .holds owed key)
    (call_follows fun w s => ⟨_, .hold, ?_⟩) ?_
  · intro t key hfound
    dsimp only at hfound
    split at hfound
    · cases hfound
    · obtain ⟨t', -, he⟩ := Option.map_eq_some_iff.mp hfound
      cases he
      rfl
  · intro found r hr tok key hfound
    obtain ⟨⟨t, k⟩, rfl, he⟩ := Option.map_eq_some_iff.mp hfound
    cases he
    exact hr t _ rfl

theorem listClickup_follows : tickets.Follows () (listClickup K) (.asks owed) (fun listed r =>
    ∀ read ∈ listed.read, r = .shows owed read) := by
  refine Protocol.follows_then freshRows_follows fun found r hr => ?_
  rcases hr with ⟨rfl, rfl⟩ | ⟨listed, read, rfl, hread, rfl⟩
  swap
  · intro read' hread'
    rw [hread] at hread'
    cases hread'
    rfl
  refine Protocol.follows_then loadToken_follows fun found r hr => ?_
  cases found with
  | none => exact fun _ hread => (nomatch hread)
  | some t =>
    rw [hr t.1 t.2 rfl]
    refine Protocol.follows_then (M := fun x r => r = .shows owed x.2)
      (call_follows fun w s => ⟨_, .read, rfl⟩) ?_
    rintro ⟨filters, read⟩ _ rfl
    refine Protocol.follows_to (read_follows fun w s => ⟨rfl, rfl⟩) fun fetched => ?_
    refine Protocol.follows_to (call_follows fun w s => ⟨_, .store, rfl⟩) fun _ => ?_
    intro read' hread'
    cases hread'
    rfl

/-- A change that is through with the cache. -/
def Dropped (x : Except Failure Version) (r : Role) : Prop := ∀ v, x = .ok v → r = .dropped v

theorem dropCache_follows {v : Version} {x : Except Failure Version} (hx : x = .ok v) :
    tickets.Follows () ((dropCache v).bind fun _ => .ret x) (.changed v) Dropped := by
  refine Protocol.follows_to (call_follows fun w s => ⟨_, .drop, rfl⟩) fun _ => ?_
  intro u hu
  rw [hx] at hu
  cases hu
  rfl

/-- What is done with a change once it is there, if it is. -/
theorem change_follows {act : Choice → Hub → Hub × Except Text Version}
    {f : Except Text Version → HubProg (Except Failure Version)}
    (hact : ∀ w s, ((act w s).1 = s ∧ ∃ e, (act w s).2 = .error e) ∨
      ∃ v, (act w s).2 = .ok v ∧ Moves (some (site, w)) .idle s (.changed v) (act w s).1)
    (herr : ∀ e, tickets.Follows () (f (.error e)) .idle Dropped)
    (hok : ∀ v, tickets.Follows () (f (.ok v)) (.changed v) Dropped) :
    tickets.Follows () ((call site act).bind f) .idle Dropped := by
  refine Protocol.follows_then (M := fun x r => (∃ e, x = .error e ∧ r = .idle) ∨
    ∃ v, x = .ok v ∧ r = .changed v) (call_follows fun w s => ?_) ?_
  · rcases hact w s with ⟨hs, e, he⟩ | ⟨v, hv, hm⟩
    · exact ⟨.idle, by rw [hs]; exact .stay, .inl ⟨e, he, rfl⟩⟩
    · exact ⟨_, hm, .inr ⟨v, hv, rfl⟩⟩
  · rintro _ _ (⟨e, rfl, rfl⟩ | ⟨v, rfl, rfl⟩)
    · exact herr e
    · exact hok v

theorem failed_follows (e : Failure) : tickets.Follows () (Prog.ret (.error e)) .idle Dropped :=
  fun _ he => (nomatch he)

theorem putClickupFilters_follows (body : ClickUpFilters) :
    tickets.Follows () (putClickupFilters K body) .idle Dropped := by
  refine Protocol.follows_to (read_follows fun w s => ⟨rfl, rfl⟩) fun found => ?_
  cases found with
  | none => exact failed_follows _
  | some t =>
    refine change_follows (fun w s => ?_) (fun e => failed_follows _) (fun v => dropCache_follows rfl)
    cases hw : w.fail with
    | true => exact .inl ⟨by simp, w.error, by simp⟩
    | false => exact .inr ⟨s.next (· == .filters), by simp, by simpa using Moves.writeBack hw⟩

theorem workOnClickup_follows (taskId projectId : Text) :
    tickets.Follows () (workOnClickup taskId projectId) .idle Dropped := by
  refine Protocol.follows_to (read_follows fun w s => ⟨rfl, rfl⟩) fun found => ?_
  cases found with
  | error e => exact failed_follows _
  | ok _ =>
    have htoken : tickets.Follows () (loadToken clickup) .idle (fun _ r => r = .idle) :=
      Protocol.follows_to (read_follows fun w s => ⟨rfl, rfl⟩) fun _ => rfl
    refine Protocol.follows_to htoken fun found => ?_
    cases found with
    | none => exact failed_follows _
    | some t =>
      refine Protocol.follows_to (read_follows fun w s => ⟨rfl, rfl⟩) fun fetched => ?_
      refine Protocol.follows_to (m := .idle) (call_follows fun w s => ⟨.idle, ?_, rfl⟩) fun made => ?_
      · cases w.created with
        | ok _ => exact .rest rfl
        | error e => exact .stay
      cases made with
      | error e => exact failed_follows _
      | ok _ =>
        refine Protocol.follows_then (M := fun v r => r = .changed v)
          (call_follows fun w s => ⟨_, .start, rfl⟩) ?_
        rintro v _ rfl
        exact dropCache_follows rfl

theorem saveClickupKey_follows (apiKey : Text) :
    tickets.Follows () (saveClickupKey apiKey) .idle Dropped := by
  unfold saveClickupKey
  split
  · exact failed_follows _
  refine Protocol.follows_to (read_follows fun w s => ⟨rfl, rfl⟩) fun check => ?_
  cases check with
  | unreachable e => exact failed_follows _
  | rejected => exact failed_follows _
  | undecodable e => exact failed_follows _
  | user name id =>
    refine change_follows (fun w s => ?_) (fun e => failed_follows _) (fun v => dropCache_follows rfl)
    cases hw : w.fail with
    | true => exact .inl ⟨by simp, w.error, by simp⟩
    | false => exact .inr ⟨s.next account, by simp, by simpa using Moves.newKey⟩

theorem disconnect_follows (provider : Text) :
    tickets.Follows () (disconnect provider) .idle Dropped := by
  by_cases hp : provider = clickup
  · refine change_follows (fun w s => ?_) (fun e => failed_follows _) (fun v => ?_)
    · cases hw : w.fail with
      | true => exact .inl ⟨by simp, w.error, by simp⟩
      | false => exact .inr ⟨s.next account, by simp [hp], by simpa [hp] using Moves.newKey⟩
    · dsimp only
      rw [if_pos hp]
      exact dropCache_follows rfl
  · refine Protocol.follows_then (M := fun x r => (∃ e, x = .error e ∧ r = .idle) ∨
      x = .ok ⊥ ∧ r = .dropped ⊥) (call_follows fun w s => ?_) ?_
    · cases hw : w.fail with
      | true => exact ⟨.idle, by simpa using Moves.stay, .inl ⟨w.error, by simp, rfl⟩⟩
      | false => exact ⟨.dropped ⊥, by simpa [hp] using Moves.forget, .inr ⟨by simp [hp], rfl⟩⟩
    · rintro _ _ (⟨e, rfl, rfl⟩ | ⟨rfl, rfl⟩)
      · exact failed_follows _
      · dsimp only
        rw [if_neg hp]
        intro v hv
        cases hv
        rfl

theorem settle_follows {x : Except Failure Version} (hr : Dropped x r) :
    tickets.Follows () (settle x) r (fun _ _ => True) := by
  cases x with
  | error e => trivial
  | ok v =>
    rw [hr v rfl]
    exact atOnce_follows fun s => ⟨_, .settle, trivial⟩

theorem handle_follows (request : Request) :
    tickets.Follows () (handle K request) .idle (fun _ _ => True) := by
  cases request with
  | listClickup =>
    refine Protocol.follows_then (M := fun owed r => r = .asks owed)
      (atOnce_follows fun s => ⟨_, .ask, rfl⟩) ?_
    rintro owed _ rfl
    refine Protocol.follows_then (listClickup_follows K) fun listed r hr => ?_
    exact atOnce_follows fun s => ⟨_, .present hr, trivial⟩
  | putClickupFilters body =>
    exact Protocol.follows_then (putClickupFilters_follows K body) fun _ _ => settle_follows
  | workOnClickup taskId projectId =>
    exact Protocol.follows_then (workOnClickup_follows taskId projectId) fun _ _ => settle_follows
  | saveClickupKey apiKey =>
    exact Protocol.follows_then (saveClickupKey_follows apiKey) fun _ _ => settle_follows
  | disconnect provider =>
    exact Protocol.follows_then (disconnect_follows provider) fun _ _ => settle_follows

end Handlers

/-- The cache is fresh, and every request relies on what holds. -/
structure Sane (s : Hub) (roles : List Role) : Prop where
  fresh : Fresh s
  sees : ∀ r ∈ roles, Sees r s

section Runs

variable {s s' : Hub} {roles : List Role} {r r' : Role} {i : Nat} {e : Option (Site × Choice)}
  {p : HubPool}

theorem Sane.move (h : Sane s roles) (hi : roles[i]? = some r) (hm : Moves e r s r' s')
    (hstore : ∀ read w, e = some (.store read, w) → s.cleared ≤ read)
    (hsave : ∀ key w, e = some (.save (some key), w) → w.fail = false → s.keyAt = key) :
    Sane s' (roles.set i r') := by
  have hr := h.sees r (List.mem_of_getElem? hi)
  refine ⟨h.fresh.move hm hr hstore hsave, fun r₁ hr₁ => ?_⟩
  rcases mem_set hr₁ with rfl | hr₁
  · exact hm.sees h.fresh hr
  · exact (h.sees r₁ hr₁).grow hm.grows

theorem sane_kept : tickets.Kept Sane where
  sees _ _ _ r h hi := h.sees r (List.mem_of_getElem? hi)
  sync _ _ _ _ _ _ h hi hm := h.move hi hm (fun _ _ he => nomatch he) (fun _ _ he => nomatch he)
  fork _ _ _ _ _ _ _ _ _ hf := hf.elim

theorem boot_sane (projects : List Text) (tokens : Text → Option IntegrationToken) :
    Sane (boot projects tokens) [] :=
  ⟨⟨rfl, le_rfl, le_rfl, fun h => (nomatch h), fun _ h => (nomatch h)⟩, fun _ h => (nomatch h)⟩

/-- In a run that never fills the cache with what a change has already dropped, and never
writes a replaced key back, no list shows less than had been answered when it was asked for. -/
theorem clickup_lists_current (K : FiltersCodec) (projects : List Text)
    (tokens : Text → Option IntegrationToken)
    (h : Pool.Reaches (entry K) Careful ⟨boot projects tokens, []⟩ p) :
    ∀ a ∈ p.shared.shown, a.Current := by
  obtain ⟨roles, -, hsane⟩ := sane_kept.reaches
    (fun p roles request _ hv _ => ⟨.idle, handle_follows K request, hv.fresh, fun r hr => by
      rcases List.mem_append.mp hr with hr | hr
      · exact hv.sees r hr
      · rw [List.mem_singleton.mp hr]
        trivial⟩)
    (fun p roles i w site r r' s' _ hv hg hat hi hm => hv.move hi hm
      (fun read _ he => by
        cases he
        exact hg.1 read hat)
      (fun key _ he hw => by
        cases he
        exact hg.2 key hat hw))
    h ⟨rfl, fun _ _ hi => nomatch hi⟩ (boot_sane projects tokens)
  exact hsane.fresh.shown

end Runs

/-- A key stored for ClickUp, and nothing else. -/
def connected (apiKey : Text) : Text → Option IntegrationToken :=
  Function.update (fun _ => none) clickup
    (some { accessToken := apiKey, refreshToken := none, tokenType := none, scope := none
            userName := none, userId := none, expiresAt := none })

def task (id : Text) : TicketRow :=
  { provider := clickup, id := id, title := [], status := [], url := [], labels := [], assignee := none
    author := none, createdAt := none, updatedAt := none, priority := none }

/-- Filters are not used below. -/
def noFilters : FiltersCodec := ⟨fun _ => [], fun _ => none⟩

/-- A task under the old key is cached, the key replaced, and the list asked for again. -/
def rekeying : List (Event Choice Request) :=
  [.arrive .listClickup, .run 0 {}, .run 0 {}, .run 0 {}, .run 0 { rows := [task ['a']] }, .run 0 {},
    .arrive (.saveClickupKey ['n']), .run 1 { check := .user none none }, .run 1 {}, .run 1 {},
    .arrive .listClickup, .run 2 {}, .run 2 {}, .run 2 {}, .run 2 { rows := [task ['b']] }, .run 2 {}]

theorem clickup_lists_current_rekeyed : ∃ p : HubPool,
    (Pool.Reaches (entry noFilters) Careful ⟨boot [] (connected ['o']), []⟩ p ∧
      p.shared.shown.map (fun a => a.listed.rows) = [[task ['a']], [task ['b']]]) ∧
    ∀ a ∈ p.shared.shown, a.Current := by
  have hrun : ((Pool.play (entry noFilters) Careful ⟨boot [] (connected ['o']), []⟩ rekeying).map
      (fun p => p.shared.shown.map (fun a => a.listed.rows))) =
      some [[task ['a']], [task ['b']]] := by decide
  obtain ⟨p, hp, hrows⟩ := Option.map_eq_some_iff.mp hrun
  have hreach := Pool.play_reaches hp
  exact ⟨p, ⟨hreach, hrows⟩, clickup_lists_current noFilters [] (connected ['o']) hreach⟩

/-- A list is fetched, ClickUp is disconnected, and only then does the list reach the cache. -/
def disconnecting : List (Event Choice Request) :=
  [.arrive .listClickup, .run 0 {}, .run 0 {}, .run 0 {}, .run 0 { rows := [task ['a']] },
    .arrive (.disconnect clickup), .run 1 {}, .run 1 {}, .run 0 {}, .arrive .listClickup, .run 2 {}]

theorem clickup_shows_disconnected_tasks :
    ¬ ∀ (K : FiltersCodec) (projects : List Text) (tokens : Text → Option IntegrationToken) (p : HubPool),
      Pool.Reaches (entry K) Pool.anyStep ⟨boot projects tokens, []⟩ p →
        ∀ a ∈ p.shared.shown, a.Current := by
  intro hall
  have hrun : ((Pool.play (entry noFilters) Pool.anyStep ⟨boot [] (connected ['o']), []⟩
      disconnecting).map (fun p => decide (∀ a ∈ p.shared.shown, a.Current))) = some false := by
    decide
  obtain ⟨p, hp, hstale⟩ := Option.map_eq_some_iff.mp hrun
  exact of_decide_eq_false hstale (hall noFilters [] (connected ['o']) p (Pool.play_reaches hp))

end AgentGrove.ClickUp
