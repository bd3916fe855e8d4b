import Mathlib.Data.List.Nodup
import Mathlib.Logic.Function.Basic

namespace Assoc

variable {K V W : Type} [BEq K] [LawfulBEq K] {l : List (K × V)}
  {key : K} {v : V}

theorem lookup_filter (f : K → Bool) :
    (l.filter (fun e => f e.1)).lookup key = if f key then l.lookup key else none := by
  induction l with
  | nil => simp
  | cons e l ih =>
    obtain ⟨other, content⟩ := e
    rw [List.filter_cons, List.lookup_cons]
    cases hkey : key == other with
    | true =>
      obtain rfl := beq_iff_eq.mp hkey
      cases hf : f key <;> simp [hf, ih]
    | false => cases hf : f other <;> simp [List.lookup_cons, hkey, ih]

omit [LawfulBEq K] in
theorem lookup_map (g : V → W) : (l.map (fun e => (e.1, g e.2))).lookup key = (l.lookup key).map g := by
  induction l with
  | nil => rfl
  | cons e l ih =>
    obtain ⟨other, content⟩ := e
    rw [List.map_cons, List.lookup_cons, List.lookup_cons, ih]
    cases key == other <;> rfl

theorem mem_of_lookup (h : l.lookup key = some v) : (key, v) ∈ l := by
  obtain ⟨before, after, rfl, -⟩ := List.lookup_eq_some_iff.mp h
  exact List.mem_append_right _ List.mem_cons_self

theorem lookup_of_mem (hl : (l.map Prod.fst).Nodup) (h : (key, v) ∈ l) : l.lookup key = some v := by
  induction l with
  | nil => cases h
  | cons e l ih =>
    obtain ⟨other, content⟩ := e
    obtain ⟨hnew, hl⟩ := List.nodup_cons.mp hl
    rw [List.lookup_cons]
    rcases List.mem_cons.mp h with he | h
    · cases he
      simp
    · have hne : (key == other) = false := by
        rw [beq_eq_false_iff_ne]
        intro heq
        exact hnew (List.mem_map.mpr ⟨_, h, heq⟩)
      rw [hne]
      exact ih hl h

/-- `INSERT … ON CONFLICT DO UPDATE`. -/
def upsert (key : K) (insert : V) (update : V → V) : List (K × V) → List (K × V)
  | [] => [(key, insert)]
  | (other, v) :: l => if key == other then (other, update v) :: l else (other, v) :: upsert key insert update l

theorem lookup_upsert (insert : V) (update : V → V) (other : K) : (upsert key insert update l).lookup other =
    if other == key then some (((l.lookup key).map update).getD insert) else l.lookup other := by
  induction l with
  | nil =>
    rw [upsert, List.lookup_cons]
    cases other == key <;> rfl
  | cons e l ih =>
    obtain ⟨k, v⟩ := e
    rw [upsert]
    cases hk : key == k with
    | true =>
      obtain rfl := beq_iff_eq.mp hk
      rw [if_pos rfl, List.lookup_cons, List.lookup_cons, List.lookup_cons]
      cases ho : other == key <;> simp
    | false =>
      rw [if_neg Bool.false_ne_true, List.lookup_cons, ih, List.lookup_cons, List.lookup_cons, hk]
      cases ho : other == k with
      | false => rfl
      | true =>
        obtain rfl := beq_iff_eq.mp ho
        have hne : (other == key) = false := by rw [beq_eq_false_iff_ne] at hk ⊢; exact fun h => hk h.symm
        rw [hne]
        rfl

theorem keys_upsert (insert : V) (update : V → V) : (upsert key insert update l).map Prod.fst =
    if key ∈ l.map Prod.fst then l.map Prod.fst else l.map Prod.fst ++ [key] := by
  induction l with
  | nil => rfl
  | cons e l ih =>
    obtain ⟨k, v⟩ := e
    rw [upsert]
    cases hk : key == k with
    | true =>
      obtain rfl := beq_iff_eq.mp hk
      simp
    | false =>
      have hne : key ≠ k := beq_eq_false_iff_ne.mp hk
      rw [if_neg Bool.false_ne_true, List.map_cons, ih]
      by_cases hm : key ∈ l.map Prod.fst
      · have hcons : key ∈ ((k, v) :: l).map Prod.fst := List.mem_cons_of_mem _ hm
        rw [if_pos hm, if_pos hcons]
        rfl
      · have hcons : key ∉ ((k, v) :: l).map Prod.fst := by simpa [hne] using hm
        rw [if_neg hm, if_neg hcons]
        rfl

/-- A table with a primary key. -/
structure Table (K V : Type) where
  rows : List (K × V)
  unique : (rows.map Prod.fst).Nodup

namespace Table

def empty : Table K V := ⟨[], List.nodup_nil⟩

def get (t : Table K V) (key : K) : Option V := t.rows.lookup key

def upsert (t : Table K V) (key : K) (insert : V) (update : V → V) : Table K V where
  rows := Assoc.upsert key insert update t.rows
  unique := by
    rw [keys_upsert]
    split
    · exact t.unique
    · rename_i hnew
      rw [← List.concat_eq_append]
      exact t.unique.concat hnew

def delete (t : Table K V) (key : K) : Table K V where
  rows := t.rows.filter (fun e => !(e.1 == key))
  unique := t.unique.sublist (List.filter_sublist.map _)

theorem mem_rows {t : Table K V} : (key, v) ∈ t.rows ↔ t.get key = some v :=
  ⟨lookup_of_mem t.unique, mem_of_lookup⟩

theorem get_upsert (t : Table K V) (insert : V) (update : V → V) (other : K) : (t.upsert key insert update).get other =
    if other == key then some (((t.get key).map update).getD insert) else t.get other :=
  lookup_upsert insert update other

theorem get_delete (t : Table K V) (other : K) :
    (t.delete key).get other = if other == key then none else t.get other := by
  unfold get delete
  dsimp only
  rw [lookup_filter (fun k => !(k == key))]
  cases other == key <;> rfl

/-- The table follows a map, row by row. -/
def Tracks {E : Type} (holds : K → V → E → Prop) (t : Table K V) (m : K → Option E) : Prop :=
  ∀ key, Option.Rel (holds key) (t.get key) (m key)

section Tracks

variable {E : Type} {holds : K → V → E → Prop} {t : Table K V} {m : K → Option E}

theorem Tracks.upsert [DecidableEq K] (h : Tracks holds t m) {insert : V} {update : V → V} {e : E}
    (hnew : holds key (((t.get key).map update).getD insert) e) :
    Tracks holds (t.upsert key insert update) (Function.update m key (some e)) := by
  intro other
  rw [get_upsert]
  by_cases ho : other = key
  · subst ho
    rw [Function.update_self, if_pos (beq_self_eq_true _)]
    exact .some hnew
  · rw [Function.update_of_ne ho, if_neg (by simpa using ho)]
    exact h other

theorem Tracks.delete [DecidableEq K] (h : Tracks holds t m) :
    Tracks holds (t.delete key) (Function.update m key none) := by
  intro other
  rw [get_delete]
  by_cases ho : other = key
  · subst ho
    rw [Function.update_self, if_pos (beq_self_eq_true _)]
    exact .none
  · rw [Function.update_of_ne ho, if_neg (by simpa using ho)]
    exact h other

end Tracks

end Table

end Assoc
