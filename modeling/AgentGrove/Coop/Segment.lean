import Mathlib.Data.List.Infix
import Mathlib.Data.List.Nodup
import Mathlib.Order.Lattice
import Mathlib.Tactic.Common

namespace Coop

variable {α β : Type*} [LinearOrder β] {key : α → β} {t l m : List α} {a b x : α}

/-- Some entry of a list comes after all of `l` and before all of `m`. -/
def Parted (key : α → β) (t l m : List α) : Prop :=
  ∃ x ∈ t, (∀ a ∈ l, key a < key x) ∧ ∀ b ∈ m, key x < key b

instance [DecidableLT β] : Decidable (Parted key t l m) :=
  inferInstanceAs (Decidable (∃ x ∈ t, _ ∧ _))

/-- Nothing of the list lies between the two, whichever comes first. -/
def Adjoin (key : α → β) (t l m : List α) : Prop :=
  l = [] ∨ m = [] ∨ ¬Parted key t l m ∧ ¬Parted key t m l

instance [DecidableEq α] [DecidableLT β] : Decidable (Adjoin key t l m) :=
  inferInstanceAs (Decidable (_ ∨ _ ∨ _))

/-- Entries of a list in order, with every entry between two of them. -/
structure Segment (key : α → β) (t l : List α) : Prop where
  sorted : l.Pairwise (fun a b => key a < key b)
  subset : l ⊆ t
  convex : ∀ a ∈ l, ∀ b ∈ l, ∀ x ∈ t, key a ≤ key x → key x ≤ key b → x ∈ l

namespace Segment

theorem nil (t : List α) : Segment key t [] :=
  ⟨.nil, List.nil_subset _, fun _ ha => (nomatch ha)⟩

theorem eq_of_key (ht : t.Pairwise (fun a b => key a < key b)) (ha : a ∈ t) (hb : b ∈ t)
    (h : key a = key b) : a = b := by
  have hkeys : (t.map key).Nodup := (List.pairwise_map.mpr ht).imp ne_of_lt
  exact List.inj_on_of_nodup_map hkeys ha hb h

/-- A part of an ordered list is a segment of it. -/
theorem of_stretch (ht : t.Pairwise (fun a b => key a < key b)) (h : l <:+: t) : Segment key t l := by
  obtain ⟨front, back, rfl⟩ := h
  refine ⟨ht.sublist (List.sublist_append_of_sublist_left (List.sublist_append_right _ _)),
    fun x hx => List.mem_append_left _ (List.mem_append_right _ hx), fun a ha b hb x hx hax hxb => ?_⟩
  rw [List.append_assoc, List.pairwise_append] at ht
  obtain ⟨-, hrest, hfront⟩ := ht
  rcases List.mem_append.mp hx with hx | hx
  · rcases List.mem_append.mp hx with hx | hx
    · exact absurd (hfront x hx a (List.mem_append_left _ ha)) (not_lt.mpr hax)
    · exact hx
  · exact absurd ((List.pairwise_append.mp hrest).2.2 b hb x hx) (not_lt.mpr hxb)

/-- A part of a segment is one. -/
theorem part (h : Segment key t l) (hm : m <:+: l) : Segment key t m := by
  have hsub : m ⊆ l := hm.subset
  refine ⟨h.sorted.sublist hm.sublist, fun x hx => h.subset (hsub hx), fun a ha b hb x hx hax hxb => ?_⟩
  exact (of_stretch h.sorted hm).convex a ha b hb x (h.convex a (hsub ha) b (hsub hb) x hx hax hxb) hax hxb

/-- Entries from the first of the list on, without a gap. -/
theorem prefix_of_closed (ht : t.Pairwise (fun a b => key a < key b))
    (hl : l.Pairwise (fun a b => key a < key b)) (hsub : l ⊆ t)
    (hc : ∀ b ∈ l, ∀ x ∈ t, key x ≤ key b → x ∈ l) : l <+: t := by
  induction t generalizing l with
  | nil => exact (List.subset_nil.mp hsub) ▸ List.prefix_refl _
  | cons y t ih =>
    cases l with
    | nil => exact List.nil_prefix
    | cons b l =>
      rw [List.pairwise_cons] at ht hl
      have hle : key y ≤ key b := by
        rcases List.mem_cons.mp (hsub (List.mem_cons_self ..)) with rfl | hb
        · exact le_refl _
        · exact le_of_lt (ht.1 b hb)
      have heq : y = b := by
        rcases List.mem_cons.mp (hc b (List.mem_cons_self ..) y (List.mem_cons_self ..) hle) with he | hy
        · exact he
        · exact absurd (hl.1 y hy) (not_lt.mpr hle)
      subst heq
      refine (List.prefix_cons_inj y).mpr (ih ht.2 hl.2 (fun x hx => ?_) fun c hc' x hx hxc => ?_)
      · rcases List.mem_cons.mp (hsub (List.mem_cons_of_mem _ hx)) with rfl | hx'
        · exact absurd (hl.1 x hx) (lt_irrefl _)
        · exact hx'
      · rcases List.mem_cons.mp (hc c (List.mem_cons_of_mem _ hc') x (List.mem_cons_of_mem _ hx) hxc) with
          rfl | hx'
        · exact absurd (ht.1 x hx) (lt_irrefl _)
        · exact hx'

/-- A segment is a stretch of the list. -/
theorem stretch (h : Segment key t l) (ht : t.Pairwise (fun a b => key a < key b)) : l <:+: t := by
  induction t with
  | nil => exact (List.subset_nil.mp h.subset) ▸ List.infix_refl _
  | cons y t ih =>
    by_cases hy : y ∈ l
    · refine (prefix_of_closed ht h.sorted h.subset fun b hb x hx hxb => ?_).isInfix
      refine h.convex y hy b hb x hx ?_ hxb
      rcases List.mem_cons.mp hx with rfl | hx
      · exact le_refl _
      · exact le_of_lt (List.rel_of_pairwise_cons ht hx)
    · have hsub : l ⊆ t := by
        intro x hx
        rcases List.mem_cons.mp (h.subset hx) with rfl | hx'
        · exact absurd hx hy
        · exact hx'
      have htail : Segment key t l := ⟨h.sorted, hsub, fun a ha b hb x hx => h.convex a ha b hb x
        (List.mem_cons_of_mem _ hx)⟩
      exact (ih htail (List.pairwise_cons.mp ht).2).trans (List.infix_cons (List.infix_refl _))

/-- A list that grows at its end keeps its segments. -/
theorem grow (h : Segment key t l) {u : List α} (hu : u.Pairwise (fun a b => key a < key b)) (ht : t <+: u) :
    Segment key u l := by
  obtain ⟨new, rfl⟩ := ht
  refine ⟨h.sorted, fun x hx => List.mem_append_left _ (h.subset hx), fun a ha b hb x hx hax hxb => ?_⟩
  rcases List.mem_append.mp hx with hx | hx
  · exact h.convex a ha b hb x hx hax hxb
  · exact absurd ((List.pairwise_append.mp hu).2.2 b (h.subset hb) x hx) (not_lt.mpr hxb)

/-- An entry between a member of `l` and one of `m` belongs to one of the two. -/
theorem between (hl : Segment key t l) (hm : Segment key t m) (hno : ¬Parted key t l m) (ha : a ∈ l)
    (hb : b ∈ m) (hx : x ∈ t) (hax : key a ≤ key x) (hxb : key x ≤ key b) : x ∈ l ∨ x ∈ m := by
  by_cases hleft : ∃ c ∈ l, key x ≤ key c
  · obtain ⟨c, hc, hxc⟩ := hleft
    exact .inl (hl.convex a ha c hc x hx hax hxc)
  · by_cases hright : ∃ c ∈ m, key c ≤ key x
    · obtain ⟨c, hc, hcx⟩ := hright
      exact .inr (hm.convex c hc b hb x hx hcx hxb)
    · refine absurd ⟨x, hx, fun c hc => ?_, fun c hc => ?_⟩ hno
      · exact lt_of_not_ge fun hxc => hleft ⟨c, hc, hxc⟩
      · exact lt_of_not_ge fun hcx => hright ⟨c, hc, hcx⟩

/-- Two segments that adjoin make up one. -/
theorem union {u : List α} (hl : Segment key t l) (hm : Segment key t m) (hadj : Adjoin key t l m)
    (hu : u.Pairwise (fun a b => key a < key b)) (hmem : ∀ x, x ∈ u ↔ x ∈ l ∨ x ∈ m) : Segment key t u := by
  refine ⟨hu, fun x hx => ?_, fun a ha b hb x hx hax hxb => (hmem x).mpr ?_⟩
  · rcases (hmem x).mp hx with hx | hx
    · exact hl.subset hx
    · exact hm.subset hx
  · rcases hadj with rfl | rfl | ⟨hlm, hml⟩
    · have hnil : ∀ {c}, c ∈ u → c ∈ m := fun hc => ((hmem _).mp hc).resolve_left (by simp)
      exact .inr (hm.convex a (hnil ha) b (hnil hb) x hx hax hxb)
    · have hnil : ∀ {c}, c ∈ u → c ∈ l := fun hc => ((hmem _).mp hc).resolve_right (by simp)
      exact .inl (hl.convex a (hnil ha) b (hnil hb) x hx hax hxb)
    · rcases (hmem a).mp ha with ha | ha
      · rcases (hmem b).mp hb with hb | hb
        · exact .inl (hl.convex a ha b hb x hx hax hxb)
        · exact hl.between hm hlm ha hb hx hax hxb
      · rcases (hmem b).mp hb with hb | hb
        · exact (hm.between hl hml ha hb hx hax hxb).symm
        · exact .inr (hm.convex a ha b hb x hx hax hxb)

theorem le_last (ht : t.Pairwise (fun a b => key a < key b)) (hb : t.getLast? = some b) (ha : a ∈ t) :
    key a ≤ key b := by
  obtain ⟨front, rfl⟩ := List.getLast?_eq_some_iff.mp hb
  rcases List.mem_append.mp ha with ha | ha
  · exact le_of_lt ((List.pairwise_append.mp ht).2.2 a ha b (List.mem_singleton.mpr rfl))
  · rw [List.mem_singleton.mp ha]

/-- A segment with the last entry ends with it. -/
theorem last (h : Segment key t l) (ht : t.Pairwise (fun a b => key a < key b)) (hb : t.getLast? = some b)
    (hm : b ∈ l) : l.getLast? = some b := by
  have hlast := List.getLast?_eq_some_getLast (List.ne_nil_of_mem hm)
  have hmem := h.subset (List.mem_of_getLast? hlast)
  have hkey := le_antisymm (le_last ht hb hmem) (le_last h.sorted hlast hm)
  rw [hlast, eq_of_key ht hmem (h.subset hm) hkey]

end Segment

end Coop
