import AgentGrove.Wire.Search
import Mathlib.Data.List.DropRight

namespace Cookies

abbrev Text := List Char

def trim (blank : Char → Bool) (t : Text) : Text := (t.dropWhile blank).rdropWhile blank

/-- What follows a text that another one begins with. -/
def strip (pat t : Text) : Option Text := if pat.isPrefixOf t then some (t.drop pat.length) else none

/-- The value of the first cookie of that name in a `Cookie` header. -/
def find (blank : Char → Bool) (name raw : Text) : Option Text :=
  (raw.splitOn ';').findSome? fun part => strip (name ++ ['=']) (trim blank part)

/-- The header that a browser makes of its cookies. -/
def header (crumbs : List Text) : Text := [';', ' '].intercalate crumbs

/-- A cookie as a browser sends it. -/
structure Crumb (blank : Char → Bool) (t : Text) : Prop where
  single : ';' ∉ t
  trimmed : trim blank t = t

variable {blank : Char → Bool} {name value pat t : Text} {crumbs before after : List Text}

@[simp] theorem strip_append (pat t : Text) : strip pat (pat ++ t) = some t := by
  simp [strip]

theorem strip_none (h : ¬ pat <+: t) : strip pat t = none := by
  simp [strip, h]

theorem trim_blank (hblank : blank ' ' = true) (t : Text) : trim blank (' ' :: t) = trim blank t := by
  simp [trim, hblank]

/-- Behind the first one each cookie is split off with the blank that the browser put in front of it. -/
theorem header_cons (c : Text) (cs : List Text) : header (c :: cs) = [';'].intercalate (c :: cs.map (' ' :: ·)) := by
  unfold header
  induction cs generalizing c with
  | nil => simp
  | cons d cs ih =>
    rw [List.intercalate_cons_cons, ih, List.map_cons, List.intercalate_cons_cons]
    cases cs <;> simp [List.intercalate_cons_cons]

theorem find_header_cons (hblank : blank ' ' = true) (h : ∀ c ∈ crumbs, Crumb blank c) :
    find blank name (header crumbs) = crumbs.findSome? (strip (name ++ ['='])) := by
  cases crumbs with
  | nil =>
    simp [find, header, trim, strip, List.rdropWhile]
  | cons c cs =>
    have hsplit : (header (c :: cs)).splitOn ';' = c :: cs.map (' ' :: ·) := by
      rw [header_cons]
      refine List.splitOn_intercalate ';' ?_ (by simp)
      intro t ht
      rcases List.mem_cons.mp ht with rfl | ht
      · exact (h _ List.mem_cons_self).single
      · obtain ⟨d, hd, rfl⟩ := List.mem_map.mp ht
        simpa using (h d (List.mem_cons_of_mem _ hd)).single
    have hrest : ∀ ds : List Text, (∀ d ∈ ds, Crumb blank d) →
        (ds.map (' ' :: ·)).findSome? (fun part => strip (name ++ ['=']) (trim blank part)) =
          ds.findSome? (strip (name ++ ['='])) := by
      intro ds hds
      induction ds with
      | nil => rfl
      | cons d ds ih =>
        obtain ⟨hd, hds⟩ := List.forall_mem_cons.mp hds
        rw [List.map_cons, List.findSome?_cons, List.findSome?_cons, trim_blank hblank, hd.trimmed, ih hds]
    obtain ⟨hc, hcs⟩ := List.forall_mem_cons.mp h
    rw [find, hsplit, List.findSome?_cons, List.findSome?_cons, hc.trimmed, hrest cs hcs]

/-- A cookie is found among others, unless one of its name stands in front of it. -/
theorem find_header (hblank : blank ' ' = true) (h : ∀ c ∈ before ++ (name ++ '=' :: value) :: after, Crumb blank c)
    (hbefore : ∀ c ∈ before, ¬ name ++ ['='] <+: c) :
    find blank name (header (before ++ (name ++ '=' :: value) :: after)) = some value := by
  rw [find_header_cons hblank h, List.findSome?_append, List.findSome?_eq_none_iff.mpr fun c hc => strip_none (hbefore c hc)]
  have hself : strip (name ++ ['=']) (name ++ '=' :: value) = some value := by
    simpa using strip_append (name ++ ['=']) value
  simp [hself]

end Cookies
