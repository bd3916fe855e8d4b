import AgentGrove.Model.ClickUp
import Mathlib

namespace AgentGrove.ClickUp

/-- The loop of `slugify` with its own flag, which `hyphenate` reads off the slug. -/
def slugLoop : Text → Bool → Text → Text
  | slug, _, [] => slug
  | slug, prevDash, c :: title =>
    if c.isAlphanum then slugLoop (slug ++ [c.toLower]) false title
    else if !prevDash && !slug.isEmpty then slugLoop (slug ++ ['-']) true title
    else slugLoop slug prevDash title

/-- A character of `[a-z0-9]`. -/
def isSlugChar (c : Char) : Bool := c.isLower || c.isDigit

/-- Neighbours in a slug, of which one at most is a dash. -/
def Apart (a b : Char) : Prop := ¬(a = '-' ∧ b = '-')

/-- A slug that is still being written: it may end in a dash. -/
structure Opened (s : Text) : Prop where
  chars : ∀ c ∈ s, isSlugChar c = true ∨ c = '-'
  leading : s.head? ≠ some '-'
  single : s.IsChain Apart

/-- A component of a branch's name. -/
structure Slug (s : Text) : Prop extends Opened s where
  trailing : s.getLast? ≠ some '-'
  short : s.length ≤ 40

/-- The alphanumeric ASCII characters of a text, in lower case. -/
def spelled (t : Text) : Text := (t.filter Char.isAlphanum).map Char.toLower

/-- A slug without its dashes. -/
def letters (s : Text) : Text := s.filter (· ≠ '-')

variable {c : Char} {s slug title : Text}

theorem not_isUpper_of_isDigit (h : c.isDigit = true) : ¬c.isUpper = true := by
  simp only [Char.isDigit, Char.isUpper, Bool.and_eq_true, decide_eq_true_eq, UInt32.le_iff_toNat_le] at h ⊢
  have hnine : '9'.val.toNat = 57 := rfl
  have ha : 'A'.val.toNat = 65 := rfl
  omega

theorem isSlugChar_toLower (h : c.isAlphanum = true) : isSlugChar c.toLower = true := by
  rw [isSlugChar, Bool.or_eq_true]
  rcases Bool.or_eq_true _ _ ▸ h with halpha | hdigit
  · exact Or.inl (by rwa [Char.isLower_toLower_eq_isAlpha])
  · rw [Char.toLower_eq_of_not_isUpper (not_isUpper_of_isDigit hdigit)]
    exact Or.inr hdigit

theorem isSlugChar_eq (h : isSlugChar c = true) : c.isAlphanum = true ∧ c.toLower = c := by
  rcases Bool.or_eq_true _ _ ▸ h with hlower | hdigit
  · refine ⟨by simp [Char.isAlphanum, Char.isAlpha, hlower], ?_⟩
    exact Char.toLower_eq_of_not_isUpper (Char.not_isUpper_of_isLower hlower)
  · refine ⟨by simp [Char.isAlphanum, hdigit], ?_⟩
    exact Char.toLower_eq_of_not_isUpper (not_isUpper_of_isDigit hdigit)

theorem isSlugChar_ne (h : isSlugChar c = true) : c ≠ '-' := by
  rintro rfl
  exact absurd h (by decide)

theorem hyphenate_slugLoop (prevDash : Bool) (h : prevDash = true ↔ slug.getLast? = some '-') :
    hyphenate slug title = slugLoop slug prevDash title := by
  induction title generalizing slug prevDash with
  | nil => rfl
  | cons c title ih =>
    rw [hyphenate, slugLoop]
    by_cases hc : c.isAlphanum = true
    · have hne : c.toLower ≠ '-' := isSlugChar_ne (isSlugChar_toLower hc)
      rw [if_pos hc, if_pos hc]
      exact ih false (by simpa using hne)
    · rw [if_neg hc, if_neg hc]
      by_cases hdash : slug.getLast? ≠ some '-' ∧ slug ≠ []
      · have hflag : (!prevDash && !slug.isEmpty) = true := by
          have : prevDash = false := by simpa using mt h.mp hdash.1
          simpa [this] using hdash.2
        rw [if_pos hdash, if_pos hflag]
        exact ih true (by simp)
      · have hflag : ¬(!prevDash && !slug.isEmpty) = true := by
          cases prevDash with
          | true => simp
          | false => simpa [← h] using hdash
        rw [if_neg hdash, if_neg hflag]
        exact ih prevDash h

/-- `slugify` is what its own loop comes to, trimmed and cut. -/
theorem slugify_slugLoop : slugify title =
    (((slugLoop [] false title).rdropWhile (· == '-')).take 40).rdropWhile (· == '-') := by
  rw [slugify, hyphenate_slugLoop false (by simp)]

/-! ### The text that is written -/

theorem Opened.nil : Opened [] := ⟨by simp, by simp, .nil⟩

theorem Opened.snoc (h : Opened s) (hc : isSlugChar c = true ∨ c = '-')
    (hdash : c = '-' → s.getLast? ≠ some '-' ∧ s ≠ []) : Opened (s ++ [c]) where
  chars d hd := by
    rcases List.mem_append.mp hd with hd | hd
    · exact h.chars d hd
    · rw [List.mem_singleton.mp hd]
      exact hc
  leading := by
    cases s with
    | nil =>
      intro hhead
      exact (hdash (by simpa using hhead)).2 rfl
    | cons d s => simpa using h.leading
  single := by
    refine List.isChain_append.mpr ⟨h.single, .singleton c, ?_⟩
    intro a ha b hb
    rintro ⟨rfl, rfl⟩
    exact (hdash (by simpa using hb)).1 (by simpa using ha)

theorem opened_hyphenate (h : Opened slug) : Opened (hyphenate slug title) := by
  induction title generalizing slug with
  | nil => exact h
  | cons c title ih =>
    rw [hyphenate]
    split
    next hc =>
      have hslug := isSlugChar_toLower hc
      exact ih (h.snoc (Or.inl hslug) (fun hdash => absurd hdash (isSlugChar_ne hslug)))
    next =>
      split
      next hdash => exact ih (h.snoc (Or.inr rfl) (fun _ => hdash))
      next => exact ih h

theorem Opened.of_isPrefix {t : Text} (h : Opened t) (hs : s <+: t) : Opened s where
  chars c hc := h.chars c (hs.subset hc)
  leading := by
    obtain ⟨rest, rfl⟩ := hs
    cases s with
    | nil => simp
    | cons d s => simpa using h.leading
  single := by
    obtain ⟨rest, rfl⟩ := hs
    exact h.single.left_of_append

theorem letters_hyphenate : letters (hyphenate slug title) = letters slug ++ spelled title := by
  induction title generalizing slug with
  | nil => simp [hyphenate, spelled]
  | cons c title ih =>
    rw [hyphenate]
    split
    next hc =>
      have hne := isSlugChar_ne (isSlugChar_toLower hc)
      rw [ih]
      simp [letters, spelled, hc, hne]
    next hc =>
      split
      next =>
        rw [ih]
        simp [letters, spelled, hc]
      next =>
        rw [ih]
        simp [spelled, hc]

/-- Nothing that a dash follows ends in one. -/
theorem Opened.getLast?_ne (h : Opened (slug ++ '-' :: s)) : slug.getLast? ≠ some '-' := by
  intro hlast
  exact (List.isChain_append.mp h.single).2.2 '-' hlast '-' rfl ⟨rfl, rfl⟩

/-- What is a slug already is written as it stands. -/
theorem Opened.hyphenate_eq (h : Opened (slug ++ s)) : hyphenate slug s = slug ++ s := by
  induction s generalizing slug with
  | nil => rw [hyphenate, List.append_nil]
  | cons c s ih =>
    have hsnoc : slug ++ c :: s = (slug ++ [c]) ++ s := by simp
    have hnext : hyphenate (slug ++ [c]) s = slug ++ c :: s := by
      rw [hsnoc] at h ⊢
      exact ih h
    rw [hyphenate]
    rcases h.chars c (by simp) with hc | rfl
    · obtain ⟨halnum, hlower⟩ := isSlugChar_eq hc
      rw [if_pos halnum, hlower, hnext]
    · have hne : slug ≠ [] := by
        rintro rfl
        exact h.leading rfl
      rw [if_neg (by decide), if_pos ⟨h.getLast?_ne, hne⟩, hnext]

/-! ### Trimming and cutting -/

/-- `trim_end_matches('-')`. -/
def trimmed (s : Text) : Text := s.rdropWhile (· == '-')

theorem getLast?_trimmed : (trimmed s).getLast? ≠ some '-' := by
  intro hlast
  have hne : trimmed s ≠ [] := by
    intro hnil
    simp [hnil] at hlast
  rw [List.getLast?_eq_some_getLast hne, Option.some_inj] at hlast
  exact List.rdropWhile_last_not _ _ hne (beq_iff_eq.mpr hlast)

theorem trimmed_eq (h : s.getLast? ≠ some '-') : trimmed s = s := by
  rw [trimmed, List.rdropWhile_eq_self_iff]
  intro hne hdash
  exact h (by rw [List.getLast?_eq_some_getLast hne, beq_iff_eq.mp hdash])

theorem trimmed_isPrefix : trimmed s <+: s := List.rdropWhile_prefix _ _

theorem letters_trimmed : letters (trimmed s) = letters s := by
  have hall : letters (s.rtakeWhile (· == '-')) = [] := by
    rw [letters, List.filter_eq_nil_iff]
    intro c hc
    simpa using List.mem_rtakeWhile_imp hc
  calc letters (trimmed s)
      = letters (trimmed s) ++ letters (s.rtakeWhile (· == '-')) := by rw [hall, List.append_nil]
    _ = letters (trimmed s ++ s.rtakeWhile (· == '-')) := (List.filter_append _ _).symm
    _ = letters s := by rw [trimmed, List.rdropWhile_append_rtakeWhile]

/-- Of a text without doubled dashes one dash at most is trimmed. -/
theorem Opened.length_trimmed (h : Opened s) : s.length ≤ (trimmed s).length + 1 := by
  by_cases hlast : s.getLast? = some '-'
  · obtain ⟨init, rfl⟩ := List.getLast?_eq_some_iff.mp hlast
    rw [trimmed, List.rdropWhile_concat_pos _ _ _ (by simp), ← trimmed, trimmed_eq h.getLast?_ne]
    simp
  · rw [trimmed_eq hlast]
    omega

theorem slugify_trimmed : slugify title = trimmed ((trimmed (hyphenate [] title)).take 40) := rfl

theorem slug_slugify : Slug (slugify title) where
  toOpened := by
    have hopened : Opened (hyphenate [] title) := opened_hyphenate Opened.nil
    refine hopened.of_isPrefix ?_
    exact trimmed_isPrefix.trans ((List.take_prefix _ _).trans trimmed_isPrefix)
  trailing := getLast?_trimmed
  short := trimmed_isPrefix.length_le.trans (List.length_take_le _ _)

theorem Slug.slugify_eq (h : Slug s) : slugify s = s := by
  have hopened : Opened ([] ++ s) := h.toOpened
  have hwritten : hyphenate [] s = s := hopened.hyphenate_eq
  rw [slugify_trimmed, hwritten, trimmed_eq h.trailing, List.take_of_length_le h.short, trimmed_eq h.trailing]

theorem letters_trimmed_hyphenate : letters (trimmed (hyphenate [] title)) = spelled title := by
  rw [letters_trimmed, letters_hyphenate]
  rfl

/-- The letters of a title are in its slug, in their order, up to the cut. -/
theorem letters_slugify : letters (slugify title) <+: spelled title := by
  rw [slugify_trimmed, letters_trimmed, ← letters_trimmed_hyphenate]
  exact (List.take_prefix _ _).filter _

/-- A slug that lacks a letter is as long as one may be, but for a dash where it was cut. -/
theorem letters_slugify_eq (h : (slugify title).length < 39) : letters (slugify title) = spelled title := by
  have hopened : Opened ((trimmed (hyphenate [] title)).take 40) :=
    (opened_hyphenate Opened.nil).of_isPrefix ((List.take_prefix _ _).trans trimmed_isPrefix)
  have hshort : (trimmed (hyphenate [] title)).length ≤ 40 := by
    have hcut := hopened.length_trimmed
    rw [← slugify_trimmed, List.length_take] at hcut
    omega
  rw [slugify_trimmed, letters_trimmed, List.take_of_length_le hshort, letters_trimmed_hyphenate]

/-- A slug is a component of a branch's name that spells its title as far as it goes, and is its own slug. -/
theorem slugify_component (title : Text) :
    Slug (slugify title) ∧ letters (slugify title) <+: spelled title ∧
      ((slugify title).length < 39 → letters (slugify title) = spelled title) ∧
      slugify (slugify title) = slugify title :=
  ⟨slug_slugify, letters_slugify, letters_slugify_eq, slug_slugify.slugify_eq⟩

example : slugify "  Spaces   & symbols  ".toList = "spaces-symbols".toList := by decide

end AgentGrove.ClickUp
