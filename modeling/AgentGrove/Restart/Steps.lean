import AgentGrove.Model.ChatCache
import AgentGrove.Restart.Chats

namespace AgentGrove.ChatCache

/-- What the index is of, in the state of the server. -/
def State.of (s : AppState) (handlers : List Handler) : State where
  store := s.store
  chats := s.chats
  nextId := s.nextId
  handlers := handlers

/-- Code that waits where a handler does, and that goes on as the handler does. -/
inductive Runs {α : Type} : Handler → Async α → Prop where
  | step {h : Handler} {p : Async α} (s' : Choice → AppState → AppState) (p' : Choice → AppState → Async α)
      (hs : Choice → AppState → List Handler) (resume : ∀ w s, p.resume w s = some (s' w s, p' w s, []))
      (proceed : ∀ w s l, (State.of s l).proceed w.now w.fail h = .of (s' w s) (l ++ hs w s))
      (next : ∀ w s, ∀ h' ∈ hs w s, Runs h' (p' w s)) : Runs h p

/-- Code whose first step is an event, unless the store lets it down there. -/
def Begins {α : Type} (event : Choice → Event) (p : Async α) : Prop :=
  ∀ w s, ∃ s' p' hs, p.resume w s = some (s', p', []) ∧ (∀ h ∈ hs, Runs h p') ∧
    ((∀ l, exec (.of s l) (event w) = .of s' (l ++ hs)) ∨ w.fail = true ∧ s' = s ∧ hs = [])

variable {α : Type} {h : Handler} {p : Async α} {c : Uuid}

theorem Runs.intro (hstep : ∀ w s, ∃ s' p' hs, p.resume w s = some (s', p', []) ∧
    (∀ l, (State.of s l).proceed w.now w.fail h = .of s' (l ++ hs)) ∧ ∀ h' ∈ hs, Runs h' p') : Runs h p := by
  choose s' p' hs hresume hproceed hnext using hstep
  exact .step s' p' hs hresume hproceed hnext

/-- Among other handlers, too, a step of the code is the machine's. -/
theorem Runs.resume (hr : Runs h p) {l : List Handler} {i : Nat} (hi : l[i]? = some h) (w : Choice)
    (s : AppState) : ∃ s' p' hs, p.resume w s = some (s', p', []) ∧
      exec (.of s l) (.resume i w.now w.fail) = .of s' (l.eraseIdx i ++ hs) ∧ ∀ h' ∈ hs, Runs h' p' := by
  cases hr with
  | step s' p' hs hresume hproceed hnext =>
    refine ⟨_, _, _, hresume w s, ?_, hnext w s⟩
    rw [← hproceed w s (l.eraseIdx i)]
    simp only [exec, State.resume, State.of, hi]

/-- The last step of a handler's code. -/
theorem Runs.last {s' : Choice → AppState → AppState} {p' : Choice → AppState → Async α}
    (hresume : ∀ w s, p.resume w s = some (s' w s, p' w s, []))
    (hproceed : ∀ w s l, (State.of s l).proceed w.now w.fail h = .of (s' w s) l) : Runs h p := by
  refine .intro fun w s => ⟨_, _, [], hresume w s, fun l => ?_, List.forall_mem_nil _⟩
  rw [List.append_nil]
  exact hproceed w s l

theorem deleteChat_begins (c : Uuid) : Begins (fun w => .delete w.now c) (deleteChat c) := by
  rintro ⟨fail, now, pick, recv, joined, text, auto⟩ s
  cases fail with
  | true => exact ⟨_, _, [], rfl, List.forall_mem_nil _, .inr ⟨rfl, rfl, rfl⟩⟩
  | false =>
    refine ⟨_, _, [.evicting c], rfl, fun h hm => ?_, .inl fun l => rfl⟩
    cases List.mem_singleton.mp hm
    exact .last (fun w s => rfl) fun w s l => rfl

theorem persistCreateChat_begins (projectId : Uuid) (worktreeId : Option Uuid) {title : Text}
    (htitle : (trim title).isEmpty = false) (provider model : Text) (effort : Option Text) :
    Begins (fun w => .create w.now projectId worktreeId title provider model effort)
      (persistCreateChat projectId worktreeId title provider model effort) := by
  rintro ⟨fail, now, pick, recv, joined, text, auto⟩ s
  simp only [persistCreateChat, storeCreate, exec, State.create, htitle, Bool.false_eq_true, ↓reduceIte]
  cases fail with
  | true => exact ⟨_, _, [], rfl, List.forall_mem_nil _, .inr ⟨rfl, rfl, rfl⟩⟩
  | false =>
    refine ⟨_, _, [.ingesting (recordOfRow (ChatRepo.create s.nextId now projectId worktreeId (trim title) provider
      model effort) [])], rfl, fun h hm => ?_, .inl fun l => rfl⟩
    cases List.mem_singleton.mp hm
    exact .last (fun w s => rfl) fun w s l => rfl

theorem restoreChat_begins (c : Uuid) : Begins (fun _ => .restore c) (restoreChat c) := by
  rintro ⟨fail, now, pick, recv, joined, text, auto⟩ s
  cases fail with
  | true => exact ⟨_, _, [], rfl, List.forall_mem_nil _, .inr ⟨rfl, rfl, rfl⟩⟩
  | false =>
    simp only [restoreChat, storeCall, access, Coop.Prog.bind_eq, Coop.Prog.bind, Coop.Prog.resume,
      Option.map_some, exec, State.restore]
    cases hd : ChatRepo.isDeleted s.store.chats c with
    | false =>
      refine ⟨_, _, [], rfl, List.forall_mem_nil _, .inl fun l => ?_⟩
      simp only [State.of, hd, restore_live hd, List.append_nil, Bool.false_eq_true, ↓reduceIte]
    | true =>
      refine ⟨_, _, [.reloading c], rfl, fun h hm => ?_, .inl fun l => if_pos hd⟩
      cases List.mem_singleton.mp hm
      refine .intro ?_
      rintro ⟨fail, now, pick, recv, joined, text, auto⟩ s
      cases fail with
      | true => exact ⟨_, _, [], rfl, fun l => (by rw [List.append_nil]; rfl), List.forall_mem_nil _⟩
      | false =>
        simp only [Coop.Prog.resume, Option.map_some, Bool.false_eq_true, ↓reduceIte]
        cases hget : ChatRepo.get s.store.chats c with
        | none =>
          refine ⟨_, _, [], rfl, fun l => ?_, List.forall_mem_nil _⟩
          simp only [State.proceed, State.of, hget, List.append_nil]
        | some row =>
          refine ⟨_, _, [.ingesting (recordOfRow row [])], rfl, fun l => ?_, fun h hm => ?_⟩
          · simp only [State.proceed, State.of, hget, State.push]
          · cases List.mem_singleton.mp hm
            exact .last (fun w s => rfl) fun w s l => rfl

theorem trim_cons {x : Char} (hx : isWhitespace x = false) (t : Text) : (trim (x :: t)).isEmpty = false := by
  have hdrop : (x :: t).dropWhile isWhitespace = x :: t :=
    List.dropWhile_cons_of_neg (ne_true_of_eq_false hx)
  rw [trim, hdrop, List.isEmpty_eq_false_iff]
  intro hnil
  have hall := List.rdropWhile_eq_nil_iff.mp hnil x List.mem_cons_self
  rw [hx] at hall
  cases hall

/-- A fork has a title. -/
theorem fork_title {reg reg' : ChatRegistry} {newId now seq : Nat} {forked : ChatRecord}
    (h : reg.fork newId now c seq = some (forked, reg')) : (trim forked.title).isEmpty = false := by
  unfold ChatRegistry.fork at h
  split at h
  · cases h
  · dsimp only at h
    split at h
    · cases h
    · cases h
      dsimp only
      rw [String.toList_ofList]
      exact trim_cons (by decide) _

theorem forkChat_begins (c : Uuid) (seq : Nat) : Begins (fun w => .fork w.now c seq) (forkChat c seq) := by
  intro w s
  simp only [forkChat, access, Coop.Prog.bind_eq, Coop.Prog.bind, Coop.Prog.resume, Option.map_some, exec, State.fork]
  cases hfork : s.chats.fork s.nextId w.now c seq with
  | none =>
    refine ⟨_, _, [], rfl, List.forall_mem_nil _, .inl fun l => ?_⟩
    simp only [State.of, hfork, List.append_nil]
  | some out =>
    obtain ⟨forked, reg⟩ := out
    have htitle := fork_title hfork
    simp only [storeCreate, htitle, Bool.false_eq_true, ↓reduceIte]
    refine ⟨_, _, [.inserting forked], rfl, fun h hm => ?_, .inl fun l => ?_⟩
    · cases List.mem_singleton.mp hm
      refine .intro ?_
      rintro ⟨fail, now, pick, recv, joined, text, auto⟩ s
      cases fail with
      | true => exact ⟨_, _, [], rfl, fun l => (by rw [List.append_nil]; rfl), List.forall_mem_nil _⟩
      | false =>
        refine ⟨_, _, [.rekeying forked.id s.nextId], rfl, fun l => ?_, fun h hm => ?_⟩
        · simp only [State.proceed, htitle, Bool.or_self, Bool.false_eq_true, ↓reduceIte]
          rfl
        · cases List.mem_singleton.mp hm
          -- What is left then is the copying of its prompts.
          cases hprompts : forked.prompts with
          | nil => exact .last (fun w s => rfl) fun w s l => rfl
          | cons p ps => exact .last (fun w s => rfl) fun w s l => rfl
    · simp only [State.of, hfork, State.push]

end AgentGrove.ChatCache
