import Mathlib.Data.List.Basic
import Mathlib.Data.List.Induction
import Mathlib.Data.List.Sort

namespace Results

variable {ε α β : Type} {x : Except ε α} {b : β}

theorem bind_ok {f : α → Except ε β} (h : (x >>= f) = .ok b) : ∃ a, x = .ok a ∧ f a = .ok b := by
  cases x with
  | error e => cases h
  | ok a => exact ⟨a, rfl, h⟩

theorem map_ok {f : α → β} (h : x.map f = .ok b) : ∃ a, x = .ok a ∧ b = f a := by
  cases x with
  | error e => cases h
  | ok a => exact ⟨a, rfl, (Except.ok.inj h).symm⟩

end Results

namespace Runs

variable {σ ω : Type} {step : σ → ω → σ} {Inv : σ → Prop} {Fine : σ → ω → Prop}

/-- Where each step keeps an invariant under exactly one condition, a run keeps it throughout
exactly if each of its steps meets the condition. -/
theorem throughout_iff (hstep : ∀ s op, Inv s → (Inv (step s op) ↔ Fine s op)) {s : σ} (hs : Inv s) (ops : List ω) :
    (∀ done, done <+: ops → Inv (done.foldl step s)) ↔
      ∀ done op, done ++ [op] <+: ops → Fine (done.foldl step s) op := by
  constructor
  · intro h done op hdone
    have hnext := h _ hdone
    rw [List.foldl_append] at hnext
    exact (hstep _ op (h done ((List.prefix_append _ _).trans hdone))).mp hnext
  · intro h done
    induction done using List.reverseRecOn with
    | nil => exact fun _ => hs
    | append_singleton done op ih =>
      intro hdone
      rw [List.foldl_append]
      exact (hstep _ op (ih ((List.prefix_append _ _).trans hdone))).mpr (h done op hdone)

end Runs

namespace Slots

variable {α : Type*} {l : List α} {i : Nat} {a b c : α}

/-- What stands at one place is replaced; the rest stays. -/
theorem mem_set_of_mem (ha : l[i]? = some a) (hc : c ∈ l) : c = a ∨ c ∈ l.set i b := by
  obtain ⟨j, hj⟩ := List.mem_iff_getElem?.mp hc
  by_cases hij : i = j
  · subst hij
    exact Or.inl (Option.some.inj (hj.symm.trans ha))
  · exact Or.inr (List.mem_iff_getElem?.mpr ⟨j, by rw [List.getElem?_set_ne hij, hj]⟩)

theorem mem_set_self (ha : l[i]? = some a) : b ∈ l.set i b := by
  obtain ⟨hi, -⟩ := List.getElem?_eq_some_iff.mp ha
  exact List.mem_iff_getElem?.mpr ⟨i, List.getElem?_set_self hi⟩

/-- What stands at one place is taken out; the rest stays. -/
theorem mem_eraseIdx_of_mem (ha : l[i]? = some a) (hc : c ∈ l) : c = a ∨ c ∈ l.eraseIdx i := by
  obtain ⟨j, hj⟩ := List.mem_iff_getElem?.mp hc
  by_cases hij : j = i
  · subst hij
    exact Or.inl (Option.some.inj (hj.symm.trans ha))
  · exact Or.inr (List.mem_eraseIdx_iff_getElem?.mpr ⟨j, hij, hj⟩)

end Slots

namespace Ascending

variable {α : Type*} [LinearOrder α] {l before last : List α}

/-- What is chosen of an ascending list and keeps its end has that end too. -/
theorem ends_with (hl : l.Pairwise (· < ·)) (hall : (before ++ last).Pairwise (· < ·))
    (hsub : ∀ x ∈ l, x ∈ before ++ last) (hlast : ∀ x ∈ last, x ∈ l) :
    ∃ kept, l = kept ++ last ∧ ∀ x ∈ kept, x ∈ before := by
  have heq : l = (before ++ last).filter (· ∈ l) := by
    refine List.Pairwise.eq_of_mem_iff hl (hall.sublist List.filter_sublist) fun x => ?_
    simp only [List.mem_filter, decide_eq_true_eq]
    exact ⟨fun hx => ⟨hsub x hx, hx⟩, fun hx => hx.2⟩
  have hend : last.filter (· ∈ l) = last := List.filter_eq_self.mpr (by simpa using hlast)
  rw [List.filter_append, hend] at heq
  exact ⟨_, heq, fun x hx => (List.mem_filter.mp hx).1⟩

end Ascending
