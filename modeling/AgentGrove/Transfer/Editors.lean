import AgentGrove.Coop.Service
import AgentGrove.Transfer.Carried

namespace AgentGrove

open Coop

/-- Every row in the queue is new or has the body that it had before. -/
structure BodiesStay (s s' : AppState) : Prop where
  nextId : s.nextId ≤ s'.nextId
  rows : ∀ j ∈ s'.store.items, s.nextId ≤ j.id ∨ ∃ i ∈ s.store.items, i.id = j.id ∧ i.body = j.body

/-- Code no await of which changes the body of a queued message. -/
abbrev Unedited {α : Type} (p : Async α) : Prop := p.Awaits (fun _ => BodiesStay)

section Unedited

variable {α β ε : Type} {fn : Fn} {c d : Uuid} {call : Call} {s s' : AppState}

theorem BodiesStay.same (hi : s'.store.items = s.store.items) (hn : s.nextId ≤ s'.nextId) :
    BodiesStay s s' :=
  ⟨hn, fun j hj => .inr ⟨j, hi ▸ hj, rfl, rfl⟩⟩

theorem BodiesStay.refl (s : AppState) : BodiesStay s s := .same rfl (Nat.le_refl _)

theorem Still.bodies (h : Still s s') : BodiesStay s s' := .same h.items (Nat.le_of_eq h.nextId.symm)

/-- Rows changed in place but for their bodies. -/
theorem BodiesStay.map {f : QueueItemRow → QueueItemRow}
    (hf : ∀ i, (f i).id = i.id ∧ (f i).body = i.body) :
    BodiesStay s (setItems (s.store.items.map f) s) := by
  refine ⟨Nat.le_refl _, fun j hj => .inr ?_⟩
  obtain ⟨i, hi, rfl⟩ := List.mem_map.mp hj
  exact ⟨i, hi, (hf i).1.symm, (hf i).2.symm⟩

theorem BodiesStay.filter (p : QueueItemRow → Bool) :
    BodiesStay s (setItems (s.store.items.filter p) s) :=
  ⟨Nat.le_refl _, fun j hj => .inr ⟨j, List.mem_of_mem_filter hj, rfl, rfl⟩⟩

theorem BodiesStay.setStatus (guard : QueueItemRow → Bool) (status : QueueStatus) (now : Nat) (id : Uuid) :
    BodiesStay s (setItems (QueueRepo.setStatus guard status now id s.store.items) s) := by
  apply BodiesStay.map
  intro i
  split
  · exact ⟨rfl, rfl⟩
  · exact ⟨rfl, rfl⟩

theorem BodiesStay.reorder (now : Nat) (chatId : Uuid) (ordered : List Uuid) :
    BodiesStay s (setItems (QueueRepo.reorder now chatId ordered s.store.items) s) := by
  apply BodiesStay.map
  intro i
  split
  · exact ⟨rfl, rfl⟩
  · split
    · exact ⟨rfl, rfl⟩
    · exact ⟨rfl, rfl⟩

theorem access_unedited {act : Choice → AppState → AppState × β}
    (ha : ∀ w s, BodiesStay s (act w s).1) : Unedited (access fn d call act) := by
  refine ⟨fun w s s' b h => ?_, fun _ => trivial⟩
  have hw := ha w s
  rw [Option.some.inj h] at hw
  exact hw

theorem read_unedited {act : Choice → AppState → β} :
    Unedited (access fn d call (fun w s => (s, act w s))) :=
  access_unedited fun _ s => .refl s

theorem store_unedited {err : ε} {act : Choice → AppState → AppState × Except ε β}
    (ha : ∀ w s, BodiesStay s (act w s).1) : Unedited (storeCall fn d call err act) := by
  apply access_unedited
  intro w s
  split
  · exact .refl s
  · exact ha w s

theorem storeRead_unedited {err : ε} {act : Choice → AppState → Except ε β} :
    Unedited (storeCall fn d call err (fun w s => (s, act w s))) :=
  store_unedited fun _ s => .refl s

theorem Calm.unedited {p : Async α} (h : Calm fn d p) : Unedited p :=
  h.awaits fun _ _ _ _ hq => hq.still.bodies

theorem Offside.unedited {p : Async α} (h : Offside p) : Unedited p :=
  h.awaits fun _ _ _ _ hb => .same hb.2 hb.1.1.nextId

theorem atOnce_unedited {act : AppState → AppState × β} : Unedited (atOnce act) := fun _ => trivial

theorem lockRouting_unedited : Unedited (lockRouting fn d call) := by
  refine ⟨fun w s s' b h => ?_, fun _ => trivial⟩
  dsimp only at h
  split at h
  · cases h
  · cases h
    exact .same rfl (Nat.le_refl _)

theorem reorder_unedited (ids : List Uuid) : Unedited (reorder c ids) := by
  apply Prog.Awaits.bind (store_unedited fun _ _ => .reorder _ _ _)
  intro done
  cases done with
  | error e => trivial
  | ok _ =>
    apply atOnce_unedited.bind
    intro _
    exact Prog.Awaits.bind (storeRead_unedited.bind fun _ => storeRead_unedited.bind fun _ => trivial)
      fun _ => trivial

theorem storeAddPrompt_unedited (content : Text) : Unedited (storeAddPrompt fn d content) := by
  apply storeRead_unedited.bind
  intro row
  cases row with
  | error e => trivial
  | ok row =>
  apply storeRead_unedited.bind
  intro seq
  cases seq with
  | error e => trivial
  | ok seq =>
  apply Prog.Awaits.bind
  · apply store_unedited
    intro w s
    dsimp only
    split
    · exact .same rfl (Nat.le_succ _)
    · exact .refl s
  intro stored
  cases stored with
  | error e => trivial
  | ok stored =>
    apply Prog.Awaits.bind (store_unedited fun _ _ => .same rfl (Nat.le_refl _))
    intro touched
    cases touched <;> trivial

theorem persistAddPrompt_unedited (content : Text) : Unedited (persistAddPrompt fn d content) := by
  apply (storeAddPrompt_unedited content).bind
  intro stored
  cases stored with
  | error e => trivial
  | ok row =>
    exact Prog.Awaits.bind (access_unedited fun _ _ => .same rfl (Nat.le_refl _)) fun _ => trivial

theorem addPrompt_unedited (content : Text) : Unedited (addPrompt c content) := by
  apply lockRouting_unedited.bind
  intro _
  apply read_unedited.bind
  intro found
  cases found with
  | none => exact atOnce_unedited.bind fun _ => trivial
  | some chat =>
  apply (persistAddPrompt_unedited _).bind
  intro stored
  split
  · exact atOnce_unedited.bind fun _ => trivial
  · exact atOnce_unedited.bind fun _ => trivial
  · exact atOnce_unedited.bind fun _ => atOnce_unedited.bind fun _ => trivial

theorem retryChat_unedited : Unedited (retryChat c) := by
  apply lockRouting_unedited.bind
  intro _
  apply read_unedited.bind
  intro found
  cases found with
  | none => exact atOnce_unedited.bind fun _ => trivial
  | some chat =>
  dsimp only
  split
  · exact atOnce_unedited.bind fun _ => trivial
  apply atOnce_unedited.bind
  intro busy
  split
  · exact atOnce_unedited.bind fun _ => trivial
  apply (show Calm .retryChat c _ from retryPrompt_calm).unedited.bind
  intro retried
  cases retried with
  | none => exact atOnce_unedited.bind fun _ => trivial
  | some prompt =>
  apply (show Calm .retryChat c _ from persistPromptEvents_calm prompt.id rfl rfl).unedited.bind
  intro _
  apply Prog.Awaits.bind (store_unedited fun _ _ => .same rfl (Nat.le_refl _))
  intro _
  apply read_unedited.bind
  intro found
  cases found with
  | none => exact atOnce_unedited.bind fun _ => trivial
  | some chat => exact atOnce_unedited.bind fun _ => atOnce_unedited.bind fun _ => trivial

theorem respond_unedited {request : Request} {render : α → Response}
    {p : Async (Except Failure α)} (h : Unedited p) : Unedited (respond request render p) := by
  apply Prog.Awaits.bind h
  intro out
  cases out with
  | ok a => exact atOnce_unedited
  | error e => exact atOnce_unedited

end Unedited

/-- The requests that take back or rewrite a queued message. -/
def Request.edits : Request → Bool
  | .cancel _ _ | .updateItem _ _ _ => true
  | _ => false

theorem entry_unedited {request : Request} (hb : request.edits = false) (he : request.hand = .editor) :
    Unedited (entry request).prog := by
  cases request with
  | addPrompt c content => exact respond_unedited (addPrompt_unedited content)
  | retryChat c => exact respond_unedited retryChat_unedited
  | reorder c ids => exact respond_unedited (reorder_unedited ids)
  | createChat p w title provider model effort =>
    exact respond_unedited (createChat_offside p w title provider model effort).unedited
  | patch c title model effort => exact respond_unedited (patch_offside title model effort).unedited
  | forkChat c seq => exact respond_unedited (forkChat_offside seq).unedited
  | truncateChat c seq => exact respond_unedited (truncateChat_offside seq).unedited
  | revertPrompt c p => exact respond_unedited (revertPrompt_offside p).unedited
  | cancel c item => cases hb
  | updateItem c item body => cases hb
  | _ => cases he

/-- The handlers that change one pending row and answer whether they found it. -/
def changes (request : Request) (fn : Fn) (c : Uuid) (call : Call) (itemId : Uuid)
    (act : Nat → List QueueItemRow → List QueueItemRow) : Async Unit :=
  respond request (fun _ => .done) (do
    match ← changeItem fn c call itemId QueueRepo.isPending act with
    | .ok true => return .ok ()
    | .ok false => return .error (.notFound, [])
    | .error _ => return .error (.internalServerError, []))

theorem entry_cancel (c id : Uuid) : (entry (.cancel c id)).prog =
    changes (.cancel c id) .cancel c .cancelItem id (fun _ => QueueRepo.cancel id) := rfl

theorem entry_updateItem (c id : Uuid) {body : Text} (h : (trim body).isEmpty = false) :
    (entry (.updateItem c id body)).prog = changes (.updateItem c id body) .updateItem c .updateBody id
      (fun now => QueueRepo.updateBody now id body) := by
  show respond _ _ (updateItem c id body) = _
  unfold updateItem
  rw [h]
  rfl

/-- A blank body is refused at once. -/
theorem entry_updateItem_blank (c id : Uuid) {body : Text} (h : (trim body).isEmpty = true) :
    (entry (.updateItem c id body)).prog =
      answer (.updateItem c id body) (.failed .badRequest []) := by
  show respond _ _ (updateItem c id body) = _
  unfold updateItem
  rw [if_pos h]
  rfl

section Changes

variable {request : Request} {fn : Fn} {c id : Uuid} {call : Call}
  {act : Nat → List QueueItemRow → List QueueItemRow} {w : Choice} {s s' : AppState}

theorem changes_acts (h : (changes request fn c call id act).acts w s = some s') :
    s' = if w.fail then s else setItems (act w.now s.store.items) s := by
  simp only [changes, respond, changeItem, storeCall, access, Prog.bind_eq, Prog.bind, Prog.acts,
    Option.map_some, Option.some.injEq] at h
  rw [← h]
  split
  · rfl
  · rfl

/-- Such a handler is done after one step, with 204 if it found a pending row. -/
theorem changes_resume {out : AppState × Async Unit × List (Tag × Async Unit)}
    (h : (changes request fn c call id act).resume w s = some out) :
    out.2.1 = .ret () ∧ ∃ response, out.1.answers = s.answers ++ [(request, response)] ∧
      (response = .done ↔ w.fail = false ∧
        QueueRepo.affects QueueRepo.isPending id s.store.items = true) := by
  simp only [changes, respond, changeItem, storeCall, access, Prog.bind_eq, Prog.bind, Prog.resume,
    Option.map_some, Option.some.injEq] at h
  subst h
  cases hf : w.fail with
  | true => exact ⟨rfl, _, rfl, by simp⟩
  | false =>
    cases ha : QueueRepo.affects QueueRepo.isPending id s.store.items with
    | true =>
      simp only [Bool.false_eq_true, if_false]
      exact ⟨rfl, _, rfl, by simp⟩
    | false =>
      simp only [Bool.false_eq_true, if_false]
      exact ⟨rfl, _, rfl, by simp⟩

end Changes

/-- The program of a handler fits its request: an edit has not begun or is over, and
what goes on beside the messages changes no body. -/
def Abides (request : Request) (prog : Async Unit) : Prop :=
  (request.edits = true → prog = (entry request).prog ∨ prog = .ret ()) ∧
    (request.edits = false → request.hand = .editor → Unedited prog)

theorem abides_settle (request : Request) (s : AppState) :
    Abides request ((entry request).prog.settle s).2.1 := by
  refine ⟨fun he => ?_, fun hb he => (entry_unedited hb he).settle s⟩
  cases request with
  | cancel c id => exact .inl rfl
  | updateItem c id body =>
    cases hb : (trim body).isEmpty with
    | true =>
      rw [entry_updateItem_blank c id hb]
      exact .inr rfl
    | false =>
      rw [entry_updateItem c id hb]
      exact .inl rfl
  | _ => cases he

theorem abides_resume (request : Request) (prog : Async Unit) (w : Choice) (s : AppState)
    (out : AppState × Async Unit × List (Tag × Async Unit)) (h : Abides request prog)
    (ho : prog.resume w s = some out) : Abides request out.2.1 := by
  refine ⟨fun he => .inr ?_, fun hb he => (h.2 hb he).resume ho⟩
  rcases h.1 he with rfl | rfl
  · cases request with
    | cancel c id => exact (changes_resume ho).1
    | updateItem c id body =>
      cases hb : (trim body).isEmpty with
      | true =>
        rw [entry_updateItem_blank c id hb] at ho
        cases ho
        rfl
      | false =>
        rw [entry_updateItem c id hb] at ho
        exact (changes_resume ho).1
    | _ => cases he
  · cases ho

end AgentGrove
