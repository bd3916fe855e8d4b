import AgentGrove.Model.ChatStream

namespace AgentGrove.Web

/-- What the store has of one prompt: its events, if it is there, and its live text. -/
abbrev Bubble := Option (List StreamEvent) × Option Text

def ChatStore.bubble (s : ChatStore) (id : Text) : Bubble :=
  ((s.prompt id).map Prompt.events, s.liveTokens id)

/-- What a prompt's own events make of it. -/
def Bubble.apply (b : Bubble) : StreamEvent → Bubble
  | .agent (.token text) => (b.1, some (b.2.getD [] ++ text))
  | .agent (.thinking _) => b
  | .retry message => (b.1.map (fun _ => [.retry message]), if b.1.isSome then none else b.2)
  | .agent ev => (b.1.map (fun events => appendEventBounded events (.agent ev) maxEventsInView),
      if b.1.isSome && ev.terminal then none else b.2)

/-- The frames of a prompt among others. -/
def own (id : Text) (frames : List WsFrame) : List StreamEvent :=
  (frames.filter (fun f => f.promptId = id)).map WsFrame.event

def Bubble.fold (b : Bubble) (events : List StreamEvent) : Bubble := events.foldl Bubble.apply b

/-- A frame counts for its own prompt only. -/
def Bubble.hear (id : Text) (b : Bubble) (f : WsFrame) : Bubble :=
  if f.promptId = id then b.apply f.event else b

theorem own_append (id : Text) (l l' : List WsFrame) : own id (l ++ l') = own id l ++ own id l' := by
  simp [own]

theorem own_fold (id : Text) (b : Bubble) (l : List WsFrame) :
    b.fold (own id l) = l.foldl (Bubble.hear id) b := by
  induction l generalizing b with
  | nil => rfl
  | cons f l ih =>
    rw [List.foldl_cons, ← ih, Bubble.hear, Bubble.fold, own]
    by_cases h : f.promptId = id
    · simp [h, Bubble.fold, own]
    · simp [h, Bubble.fold, own]

theorem find_setEvents (id id' : Text) (f : List StreamEvent → List StreamEvent) (ps : List Prompt) :
    ((setEvents id f ps).find? (fun p => p.id = id')).map Prompt.events =
      ((ps.find? (fun p => p.id = id')).map Prompt.events).map
        (fun events => if id' = id then f events else events) := by
  induction ps with
  | nil => rfl
  | cons p ps ih =>
    unfold setEvents
    by_cases h : p.id = id
    · by_cases h' : p.id = id'
      · simp [← h, ← h']
      · have hne : id' ≠ id := fun he => h' (h.trans he.symm)
        simp [h, hne, Ne.symm hne, Function.comp_def]
    · by_cases h' : p.id = id'
      · have hne : id' ≠ id := fun he => h (h'.trans he)
        simp [h', hne]
      · simpa [h, h'] using ih

@[simp] theorem deleteLive_apply (live : Text → Option Text) (id id' : Text) :
    deleteLive live id id' = if id' = id then none else live id' := by
  simp [deleteLive, Function.update_apply]

@[simp] theorem appendLive_apply (live : Text → Option Text) (id id' t : Text) :
    appendLive live id t id' =
      if id' = id then some ((live id).getD [] ++ t) else live id' := by
  simp [appendLive, Function.update_apply]

/-- What a frame does beside its events: at the end of a turn the live text goes. -/
theorem bubble_setEvents (s : ChatStore) (id id' : Text) (f : List StreamEvent → List StreamEvent) :
    ({ s with prompts := setEvents id f s.prompts } : ChatStore).bubble id' =
      ((s.bubble id').1.map (fun events => if id' = id then f events else events),
        (s.bubble id').2) :=
  Prod.ext (find_setEvents id id' f s.prompts) rfl

theorem bubble_dropLive (s : ChatStore) (id id' : Text) :
    (s.dropLive id).bubble id' =
      ((s.bubble id').1, if id' = id then none else (s.bubble id').2) :=
  Prod.ext rfl (deleteLive_apply s.liveTokens id id')

section

variable {s : ChatStore} {promptId : Text} {ev : AgentEvent}

def isDelta : AgentEvent → Bool
  | .token _ => true
  | .thinking _ => true
  | _ => false

theorem Bubble.apply_agent (b : Bubble) (h : isDelta ev = false) : b.apply (.agent ev) =
    (b.1.map (fun events => appendEventBounded events (.agent ev) maxEventsInView),
      if b.1.isSome && ev.terminal then none else b.2) := by
  cases ev with
  | token text => cases h
  | thinking text => cases h
  | _ => rfl

theorem applyWsFrame_absent (h : isDelta ev = false) (hp : s.prompt promptId = none) :
    applyWsFrame s ⟨promptId, .agent ev⟩ = s := by
  cases ev with
  | token text => cases h
  | thinking text => cases h
  | _ => simp only [applyWsFrame, hp]

theorem applyWsFrame_present (h : isDelta ev = false) {p : Prompt} (hp : s.prompt promptId = some p) :
    applyWsFrame s ⟨promptId, .agent ev⟩ =
      let s' := { s with
        prompts := setEvents promptId
          (fun events => appendEventBounded events (.agent ev) maxEventsInView) s.prompts }
      if ev.terminal then s'.dropLive promptId else s' := by
  cases ev with
  | token text => cases h
  | thinking text => cases h
  | _ =>
    simp only [applyWsFrame, hp, StreamEvent.terminal]
    rfl

theorem bubble_absent (hp : s.prompt promptId = none) : (s.bubble promptId).1 = none := by
  rw [ChatStore.bubble, hp]
  rfl

theorem bubble_present {p : Prompt} (hp : s.prompt promptId = some p) :
    (s.bubble promptId).1 = some p.events := by
  rw [ChatStore.bubble, hp]
  rfl

end

/-- A frame changes the bubble of its own prompt, and only that. -/
theorem applyWsFrame_bubble (s : ChatStore) (f : WsFrame) (id : Text) :
    (applyWsFrame s f).bubble id = (s.bubble id).hear id f := by
  obtain ⟨promptId, ev⟩ := f
  have hagent : ∀ ev, isDelta ev = false → (applyWsFrame s ⟨promptId, .agent ev⟩).bubble id =
      (s.bubble id).hear id ⟨promptId, .agent ev⟩ := by
    intro ev hd
    unfold Bubble.hear
    rw [Bubble.apply_agent _ hd]
    cases hp : s.prompt promptId with
    | none =>
      rw [applyWsFrame_absent hd hp]
      split
      · rename_i h
        have hb : (s.bubble id).1 = none := h ▸ bubble_absent hp
        exact Prod.ext (by simp [hb]) (by simp [hb])
      · rfl
    | some p =>
      rw [applyWsFrame_present hd hp]
      by_cases h : promptId = id
      · have hb := bubble_present hp
        rw [h] at hb
        cases ev.terminal <;> simp [h, hb, bubble_setEvents, bubble_dropLive]
      · have hne : id ≠ promptId := Ne.symm h
        cases ev.terminal <;> simp [h, hne, bubble_setEvents, bubble_dropLive]
  cases ev with
  | agent ev =>
    cases hd : isDelta ev with
    | false => exact hagent ev hd
    | true =>
      cases ev with
      | token text =>
        by_cases h : promptId = id
        · simp [applyWsFrame, Bubble.hear, Bubble.apply, ChatStore.bubble, ChatStore.prompt, h]
        · simp [applyWsFrame, Bubble.hear, ChatStore.bubble, ChatStore.prompt, h, Ne.symm h]
      | thinking text =>
        simp [applyWsFrame, Bubble.hear, Bubble.apply, ChatStore.bubble, ChatStore.prompt]
      | _ => cases hd
  | retry message =>
    cases hp : s.prompt promptId with
    | none =>
      have hs : applyWsFrame s ⟨promptId, .retry message⟩ = s := by
        simp only [applyWsFrame, hp]
      rw [hs, Bubble.hear]
      split
      · rename_i h
        have hb : (s.bubble id).1 = none := h ▸ bubble_absent hp
        exact Prod.ext (by simp [Bubble.apply, hb]) (by simp [Bubble.apply, hb])
      · rfl
    | some p =>
      simp only [applyWsFrame, hp]
      refine (bubble_setEvents (ChatStore.dropLive { s with prompts := setEvents promptId _ s.prompts }
        promptId) promptId id (fun _ => [.retry message])).trans ?_
      rw [bubble_dropLive, bubble_setEvents, Bubble.hear, Bubble.apply]
      by_cases h : promptId = id
      · have hb := bubble_present hp
        rw [h] at hb
        simp [h, hb]
      · have hne : id ≠ promptId := Ne.symm h
        simp [h, hne]

/-- Text that is merged into a batch comes after what the batch has. -/
theorem addMerged_appendLive (live merged : Text → Option Text) (id text : Text) :
    addMerged live (appendLive merged id text) = appendLive (addMerged live merged) id text := by
  funext other
  unfold addMerged
  rw [appendLive_apply, appendLive_apply]
  by_cases h : other = id
  · subst h
    rw [if_pos rfl, if_pos rfl]
    cases merged other <;> simp
  · rw [if_neg h, if_neg h]

/-- One more delta in the batch is as if it were applied after the rest. -/
theorem flushStore_delta (s : ChatStore) (batch : List WsFrame) (f : WsFrame) (h : f.delta = true) :
    flushStore s (batch ++ [f]) = applyWsFrame (flushStore s batch) f := by
  obtain ⟨promptId, ev⟩ := f
  have hmerge (text : StreamEvent → Option Text) : mergeDeltas text (batch ++ [⟨promptId, ev⟩]) =
      (text ev).elim (mergeDeltas text batch) (appendLive (mergeDeltas text batch) promptId) := by
    rw [mergeDeltas, List.foldl_append, List.foldl_cons, List.foldl_nil]
    cases text ev <;> rfl
  unfold flushStore
  rw [hmerge, hmerge]
  cases ev with
  | retry message => cases h
  | agent ev =>
    cases ev with
    | token text => simp only [deltaToken, deltaThinking, applyWsFrame, Option.elim_some,
        Option.elim_none, addMerged_appendLive]
    | thinking text => simp only [deltaToken, deltaThinking, applyWsFrame, Option.elim_some,
        Option.elim_none, addMerged_appendLive]
    | _ => cases h

theorem flushStore_concat (s : ChatStore) (batch : List WsFrame) (f : WsFrame) (id : Text)
    (h : f.delta = true) :
    (flushStore s (batch ++ [f])).bubble id = ((flushStore s batch).bubble id).hear id f := by
  rw [flushStore_delta s batch f h, applyWsFrame_bubble]

theorem flushStore_nil (s : ChatStore) (id : Text) : (flushStore s []).bubble id = s.bubble id :=
  rfl

/-- A flush sees no more of the store than the bubble. -/
theorem flushStore_congr {s s' : ChatStore} {id : Text} (h : s.bubble id = s'.bubble id)
    (batch : List WsFrame) : (flushStore s batch).bubble id = (flushStore s' batch).bubble id := by
  have hlive : s.liveTokens id = s'.liveTokens id := congrArg Prod.snd h
  have hevents : (s.prompt id).map Prompt.events = (s'.prompt id).map Prompt.events :=
    congrArg Prod.fst h
  refine Prod.ext hevents ?_
  simp only [ChatStore.bubble, flushStore, addMerged, hlive]

/-- The answer of a reconcile has nothing new for the prompt: it lists the
events the store has, no live text would be dropped, and the prompt stays in the
window. -/
structure Agrees (id : Text) (s : ChatStore) (view : ChatView) : Prop where
  events : (view.prompts.find? (fun p => p.id = id)).map Prompt.events = (s.bubble id).1
  listed : (view.prompts.find? (fun p => p.id = id)).isSome
  live : ∀ p ∈ view.prompts, p.id = id → finished p = true → s.liveTokens id = none
  fits : view.prompts.length + (newerLocal s view).length ≤ maxPromptsInView

theorem dropLive_fold (s : ChatStore) (ps : List Prompt) (id : Text) :
    (ps.foldl (fun s p => s.dropLive p.id) s).bubble id =
      ((s.bubble id).1, if ∃ p ∈ ps, p.id = id then none else (s.bubble id).2) := by
  induction ps generalizing s with
  | nil => simp
  | cons p ps ih =>
    rw [List.foldl_cons, ih, bubble_dropLive]
    by_cases h : p.id = id
    · simp [h]
    · simp [h, Ne.symm h]

theorem keepTail_suffix {front back : List Prompt} (h : back.length ≤ maxPromptsInView) :
    ∃ front', front' ⊆ front ∧ keepTail (front ++ back) = front' ++ back := by
  unfold keepTail
  split
  · refine ⟨front.drop ((front ++ back).length - maxPromptsInView), List.drop_subset _ _, ?_⟩
    apply List.drop_append_of_le_length
    rw [List.length_append]
    omega
  · exact ⟨front, List.Subset.refl _, rfl⟩

theorem olderLocal_id {s : ChatStore} {view : ChatView} {p : Prompt} (h : p ∈ olderLocal s view) :
    p.id ∉ view.prompts.map Prompt.id := by
  have hl := (List.mem_filter.mp (List.mem_filter.mp h).1).2
  simp only [Bool.and_eq_true, Bool.not_eq_true', List.contains_eq_mem, decide_eq_false_iff_not] at hl
  exact hl.1

/-- An answer that agrees changes nothing. -/
theorem reconcileStore_bubble {id : Text} {s : ChatStore} {view : ChatView} (h : Agrees id s view) :
    (reconcileStore s view).bubble id = s.bubble id := by
  obtain ⟨p, hp⟩ := Option.isSome_iff_exists.mp h.listed
  have hback : (view.prompts ++ newerLocal s view).length ≤ maxPromptsInView := by
    rw [List.length_append]
    exact h.fits
  obtain ⟨front, hsub, hkeep⟩ := @keepTail_suffix (olderLocal s view) _ hback
  have hfront : front.find? (fun p => p.id = id) = none := by
    apply List.find?_eq_none.mpr
    intro q hq
    have hnot := olderLocal_id (hsub hq)
    simp only [decide_eq_true_eq]
    intro he
    apply hnot
    rw [he]
    have hmem := List.mem_of_find?_eq_some hp
    have hid : p.id = id := by simpa using List.find?_some hp
    exact hid ▸ List.mem_map_of_mem hmem
  unfold reconcileStore
  rw [dropLive_fold]
  refine Prod.ext ?_ ?_
  · simp only [ChatStore.bubble, ChatStore.prompt, List.append_assoc, hkeep, List.find?_append, hfront,
      Option.none_or, hp, Option.some_or]
    rw [← hp]
    exact h.events
  · dsimp only
    split
    · rename_i hex
      obtain ⟨q, hmem, hqid⟩ := hex
      obtain ⟨hq, hfin⟩ := List.mem_filter.mp hmem
      exact (h.live q hq hqid hfin).symm
    · rfl

/-- What is shown of a prompt is read off its bubble. -/
def Bubble.shown (b : Bubble) : Option (Text × List StreamEvent) :=
  b.1.map (fun events => (b.2.getD (events.map tokenText).flatten, events))

theorem shown_bubble (s : ChatStore) (id : Text) : s.shown id = (s.bubble id).shown := by
  unfold ChatStore.shown ChatStore.bubble Bubble.shown
  cases hp : s.prompt id with
  | none => rfl
  | some p =>
    have hid : p.id = id := by simpa using List.find?_some hp
    simp only [Option.map_some, assistantText, hid]
    cases s.liveTokens id <;> rfl

/-- A retry wipes the slate. -/
theorem Bubble.fold_retry (b : Bubble) (hb : b.1.isSome) (before after : List StreamEvent)
    (message : Text) :
    b.fold (before ++ .retry message :: after) = Bubble.fold (some [.retry message], none) after := by
  have hsome : ∀ (b : Bubble) ev, b.1.isSome → (b.apply ev).1.isSome := by
    intro b ev hb
    cases ev with
    | retry message => simpa [Bubble.apply] using hb
    | agent ev => cases ev <;> simpa [Bubble.apply] using hb
  have hfold : (b.fold before).1.isSome := by
    induction before generalizing b with
    | nil => exact hb
    | cons ev before ih => exact ih (b.apply ev) (hsome b ev hb)
  obtain ⟨events, he⟩ := Option.isSome_iff_exists.mp hfold
  rw [Bubble.fold, List.foldl_append, List.foldl_cons]
  unfold Bubble.fold at he
  simp [Bubble.apply, he, Bubble.fold]

/-- What a session's stream is made of: a frame arrives, or the timer of the batch goes off. -/
inductive Arrival where
  | frame (f : WsFrame)
  | timer

def arrive (c : ChatSession) : Arrival → ChatSession
  | .frame f => enqueue c f
  | .timer => flush c

def framesOf (arrivals : List Arrival) : List WsFrame :=
  arrivals.filterMap fun
    | .frame f => some f
    | .timer => none

theorem flushStore_empty (s : ChatStore) : flushStore s [] = s := rfl

/-- The store as it will be after the flush. -/
def ChatSession.settled (c : ChatSession) : ChatStore := flushStore c.store c.pending

theorem settled_flush (c : ChatSession) : (flush c).settled = c.settled := flushStore_empty c.settled

theorem settled_enqueue (c : ChatSession) (f : WsFrame) : (enqueue c f).settled = applyWsFrame c.settled f := by
  unfold enqueue
  split
  · rename_i hdelta
    exact flushStore_delta c.store c.pending f hdelta
  · exact flushStore_empty _

theorem settled_run (c : ChatSession) (arrivals : List Arrival) :
    (arrivals.foldl arrive c).settled = (framesOf arrivals).foldl applyWsFrame c.settled := by
  induction arrivals generalizing c with
  | nil => rfl
  | cons arrival arrivals ih =>
    rw [List.foldl_cons, ih]
    cases arrival with
    | frame f =>
      change _ = (framesOf arrivals).foldl applyWsFrame (applyWsFrame c.settled f)
      rw [← settled_enqueue]
      rfl
    | timer =>
      change _ = (framesOf arrivals).foldl applyWsFrame c.settled
      rw [← settled_flush c]
      rfl

/-- However the timer splits the frames into batches, the flushed store is that of the frames applied one by one; and it is
the session's own store wherever no batch waits. -/
theorem batched_fold (s : ChatStore) (reconciling : Nat) (arrivals : List Arrival) :
    let c := arrivals.foldl arrive ⟨s, [], reconciling⟩
    (flush c).store = (framesOf arrivals).foldl applyWsFrame s ∧
    (c.pending = [] → c.store = (framesOf arrivals).foldl applyWsFrame s) := by
  intro c
  have hrun : c.settled = (framesOf arrivals).foldl applyWsFrame s := settled_run ⟨s, [], reconciling⟩ arrivals
  refine ⟨hrun, ?_⟩
  intro hpending
  rw [← hrun, ChatSession.settled, hpending, flushStore_empty]

end AgentGrove.Web
