import AgentGrove.Routing.OneTurn

namespace AgentGrove

open Coop

/-- Roles of `add_prompt`, which takes the flag without looking. -/
def Role.forces : Role → Bool
  | .eager _ | .forcing _ => true
  | _ => false

/-- Flags are owned and nobody takes one unseen. -/
structure FlagChecked (s : AppState) (roles : List Role) : Prop extends FlagOwned s roles where
  unforced : ∀ r ∈ roles, r.forces = false

section Kept

variable {s s' : AppState} {roles : List Role} {i : Nat} {r r' : Role} {c : Uuid}

theorem looks_forces {b : Bool} (h : Looks c b r r') : r'.forces = false := by
  cases h <;> rfl

/-- Nobody turns into `add_prompt`. -/
theorem moves_forces {e : Option (Site × Choice)} (hm : Moves e r s r' s')
    (h : r.forces = false) : r'.forces = false := by
  cases hm with
  | lock hfree hl => cases hl <;> first | rfl | cases h
  | unlock hu => cases hu <;> rfl
  | look hl => exact looks_forces hl
  | take ht => cases ht <;> rfl
  | drop hd hwhy => cases hd <;> rfl
  | store hs hid hc => cases hs <;> exact h
  | enqueue he hid hc => rcases he with ⟨-, rfl⟩ | ⟨-, rfl⟩ <;> rfl
  | items hh hfrom => cases hh <;> rfl
  | mode hm => rcases hm with ⟨-, rfl⟩ | ⟨-, rfl⟩ <;> rfl
  | quiet _ => exact h
  | answered _ => exact h
  | _ => rfl

theorem unforced_set (h : ∀ r ∈ roles, r.forces = false) (hr' : r'.forces = false) :
    ∀ x ∈ roles.set i r', x.forces = false := by
  intro x hx
  rcases mem_set hx with rfl | hx
  · exact hr'
  · exact h x hx

theorem checked_kept : routing.Kept FlagChecked where
  sees _ _ _ _ _ _ := trivial
  sync s roles i r r' s' hv hi hm :=
    ⟨flag_kept.sync s roles i r r' s' hv.toFlagOwned hi hm,
      unforced_set hv.unforced (moves_forces hm (hv.unforced r (mem_of_get hi)))⟩
  fork s roles i r tag rc r' hv hi hf := by
    refine ⟨flag_kept.fork s roles i r tag rc r' hv.toFlagOwned hi hf, fun x hx => ?_⟩
    have hfacts : r'.forces = false ∧ rc.forces = false := by cases hf <;> exact ⟨rfl, rfl⟩
    rcases List.mem_append.mp hx with hx | hx
    · exact unforced_set hv.unforced hfacts.1 x hx
    · exact List.mem_singleton.mp hx ▸ hfacts.2

theorem checked_run {p : Server}
    (h : Pool.Reaches entry (fun p e => Checking p e ∧ Polite p e) ⟨s, []⟩ p) :
    ∃ roles, routing.Coupled p roles ∧ FlagChecked p.shared roles := by
  refine checked_kept.reaches ?_ ?_ h (coupled_start s) ⟨.start s, by simp⟩
  · intro p roles request hc hv hg
    refine ⟨request.role, entry_follows request, hv.toFlagOwned.arrive request, fun x hx => ?_⟩
    rcases List.mem_append.mp hx with hx | hx
    · exact hv.unforced x hx
    · rw [List.mem_singleton.mp hx]
      cases request with
      | addPrompt c content => exact hg.1.elim
      | _ => rfl
  · intro p roles i w x r r' s' hc hv hg hat hr hm
    have hunforced := hv.unforced r (mem_of_get hr)
    refine ⟨flag_await hv.toFlagOwned hr hm ?_ ?_, unforced_set hv.unforced (moves_forces hm hunforced)⟩
    · rintro d - rfl
      cases hunforced
    · rintro d hx
      refine hg.2.stray hc hv.toFlagOwned ?_
      rcases hx with rfl | rfl
      · exact .inl hat
      · exact .inr hat

end Kept

/-- The flag of a chat is given up only by its owner, in every run in which all
handlers look at the flag and no clear on behalf of another task takes the lock
while someone answers for it: whenever a step removes the flag, no task started
under it is still live and no handler is about to start one. -/
theorem flag_freed_by_owner {s : AppState} {p p' : Server}
    (h : Pool.Reaches entry (fun p e => Checking p e ∧ Polite p e) ⟨s, []⟩ p)
    (hstep : Pool.Step entry (fun p e => Checking p e ∧ Polite p e) p p') {c : Uuid}
    (_hin : c ∈ p.shared.dispatching) (hout : c ∉ p'.shared.dispatching) :
    ∀ t ∈ p'.threads, ¬ Committed t c := by
  obtain ⟨e, hg, hf⟩ := hstep
  obtain ⟨roles, hc, hv⟩ := checked_run (h.tail ⟨e, hg, hf⟩)
  intro t ht hcom
  obtain ⟨i, hi⟩ := List.getElem?_of_mem ht
  obtain ⟨r, hr, ho⟩ := hc.2 i t hi
  exact hout (hv.flag_set (mem_of_get hr) (committed_owns ho hcom))

/-- A second message is sent while the first turn's deferred clear still waits;
the clear then frees the flag of the second turn. -/
def lateClear : List ServerEvent :=
  [.arrive (.sendMessage 1 ['a'])] ++ rounds 0 10 ++ rounds 1 11 ++
    [.arrive (.sendMessage 1 ['b'])] ++ rounds 3 10

theorem late_clear_frees_running_turn :
    ¬ ∀ (s : AppState) (p p' : Server), s.routingLock = false →
      Pool.Reaches entry Checking ⟨s, []⟩ p → Pool.Step entry Checking p p' →
      ∀ c, c ∈ p.shared.dispatching → c ∉ p'.shared.dispatching → ∀ t ∈ p'.threads, ¬ Live t c := by
  intro hall
  have hrun : (Pool.play entry Checking ⟨serve freshStore 10 [], []⟩ lateClear).bind (fun p =>
      (p.fire entry (.run 2 {})).map (fun p' =>
        (decide (1 ∈ p.shared.dispatching), decide (1 ∈ p'.shared.dispatching), p'.sites))) =
      some (true, false, [(.handler 1, none), (.dispatch 1, none), (.guard 1, none),
        (.handler 1, none), (.dispatch 1, some ⟨.dispatchTask, 1, .projectRoot⟩)]) := by decide
  obtain ⟨p, hp, hq⟩ := Option.bind_eq_some_iff.mp hrun
  obtain ⟨p', hp', he⟩ := Option.map_eq_some_iff.mp hq
  simp only [Prod.mk.injEq, decide_eq_true_eq, decide_eq_false_iff_not] at he
  obtain ⟨hin, hout, hsites⟩ := he
  obtain ⟨t, ht, hlive, -⟩ := live_of_sites (p := p') (i := 4) (c := 1) (by rw [hsites]; rfl) (.inl rfl)
  exact hall _ p p' rfl (Pool.play_reaches hp) ⟨.run 2 {}, trivial, hp'⟩ 1 hin hout t
    (List.mem_of_getElem? ht) hlive

/-- The flag of a first turn is given up by the turn's own task, nobody else being about. -/
theorem flag_freed_by_owner_sent :
    ∃ p p' : Server, (1 ∈ p.shared.dispatching ∧ 1 ∉ p'.shared.dispatching ∧
      Pool.Step entry (fun p e => Checking p e ∧ Polite p e) p p') ∧
      ∀ t ∈ p'.threads, ¬ Committed t 1 := by
  have hrun : (Pool.play entry (fun p e => Checking p e ∧ Polite p e) ⟨serve freshStore 10 [], []⟩
      ([.arrive (.sendMessage 1 ['a'])] ++ rounds 0 10 ++ rounds 1 10)).bind (fun p =>
      (p.fire entry (.run 1 {})).map (fun p' =>
        (decide (1 ∈ p.shared.dispatching), decide (1 ∈ p'.shared.dispatching),
          p.restsAt 1))) =
      some (true, false, some ⟨.dispatchTask, 1, .listItems⟩) := by decide
  obtain ⟨p, hp, hq⟩ := Option.bind_eq_some_iff.mp hrun
  obtain ⟨p', hp', he⟩ := Option.map_eq_some_iff.mp hq
  simp only [Prod.mk.injEq, decide_eq_true_eq, decide_eq_false_iff_not] at he
  obtain ⟨hin, hout, hsite⟩ := he
  have hstep : Pool.Step entry (fun p e => Checking p e ∧ Polite p e) p p' := by
    refine ⟨.run 1 {}, ⟨trivial, ?_⟩, hp'⟩
    dsimp only [Polite]
    rw [hsite]
    trivial
  exact ⟨p, p', ⟨hin, hout, hstep⟩, flag_freed_by_owner (Pool.play_reaches hp) hstep hin hout⟩

end AgentGrove
