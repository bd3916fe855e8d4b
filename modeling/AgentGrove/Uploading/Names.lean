import AgentGrove.Model.Uploads
import AgentGrove.Wire.Search

namespace AgentGrove.Uploads

/-- The name of a file in a directory, that is not hidden. -/
structure Component (name : Text) : Prop where
  nonempty : name ≠ []
  single : '/' ∉ name
  shown : name.head? ≠ some '.'

section Sanitize

variable {beyond : Char → Bool}

/-- What is kept of a name: letters, digits, and these three. -/
def Portable (beyond : Char → Bool) (c : Char) : Prop := isAlphanumeric beyond c = true ∨ c ∈ ['.', '-', '_']

theorem portable_of_mem_collapse {prev : Bool} {t : Text} {c : Char} (h : c ∈ collapse beyond prev t) :
    Portable beyond c := by
  induction t generalizing prev with
  | nil => cases h
  | cons d t ih =>
    rw [collapse] at h
    split at h
    · rename_i hd
      rcases List.mem_cons.mp h with rfl | h
      · simpa [Portable, or_assoc] using hd
      · exact ih h
    · split at h
      · exact ih h
      · rcases List.mem_cons.mp h with rfl | h
        · exact .inr (by simp)
        · exact ih h

theorem slash_not_mem_collapse (prev : Bool) (t : Text) : '/' ∉ collapse beyond prev t := by
  intro hm
  rcases portable_of_mem_collapse hm with halnum | hthree
  · cases halnum
  · exact absurd hthree (by decide)

theorem trimmed_start (t : Text) : (t.dropWhile trimmable).rdropWhile trimmable <+: t.dropWhile trimmable :=
  List.rdropWhile_prefix _ _

theorem head_trimmed {t : Text} {c : Char} (h : ((t.dropWhile trimmable).rdropWhile trimmable).head? = some c) :
    trimmable c = false := by
  obtain ⟨rest, hrest⟩ := trimmed_start t
  have hhead : (t.dropWhile trimmable).head? = some c := by
    rw [← hrest, List.head?_append, h]
    rfl
  have hnot := List.head?_dropWhile_not trimmable t
  rw [hhead] at hnot
  exact hnot

theorem portable_of_mem_sanitizeFilename {raw : Text} {c : Char} (h : c ∈ sanitizeFilename beyond raw) :
    Portable beyond c := by
  unfold sanitizeFilename at h
  dsimp only at h
  split at h
  · have hascii : c.toNat < 128 ∧ c.isAlphanum = true ∨ c ∈ ['.', '-', '_'] := by
      have hall : ∀ c ∈ "upload.bin".toList, c.toNat < 128 ∧ c.isAlphanum = true ∨ c ∈ ['.', '-', '_'] := by
        simp
      exact hall c h
    rcases hascii with ⟨hlt, halnum⟩ | hthree
    · exact .inl (by rw [isAlphanumeric, if_pos hlt, halnum])
    · exact .inr hthree
  · exact portable_of_mem_collapse ((List.dropWhile_sublist _).subset ((trimmed_start _).subset h))

/-- A sanitised name stays in its directory, whatever the client has sent. -/
theorem sanitized_component (raw : Text) : Component (sanitizeFilename beyond raw) := by
  unfold sanitizeFilename
  dsimp only
  split
  · exact ⟨by decide, by decide, by decide⟩
  · rename_i hne
    refine ⟨hne, ?_, ?_⟩
    · intro hm
      have hdropped := (trimmed_start _).subset hm
      exact slash_not_mem_collapse _ _ ((List.dropWhile_sublist _).subset hdropped)
    · intro hdot
      have htrim := head_trimmed hdot
      cases htrim

end Sanitize

section Identifiers

theorem isAlphanum_digitChar {n : Nat} (h : n < 16) : (Nat.digitChar n).isAlphanum = true := by
  have hall : ∀ n < 16, (Nat.digitChar n).isAlphanum = true := by decide
  exact hall n h

theorem mem_hexDigits {u : Uuid} {c : Char} (h : c ∈ hexDigits u) : c.isAlphanum = true := by
  obtain ⟨i, -, rfl⟩ := List.mem_map.mp h
  exact isAlphanum_digitChar (Nat.mod_lt _ (by decide))

/-- The ids that are made are served. -/
theorem isSafeId_hyphenated (u : Uuid) : isSafeId (hyphenated u) = true := by
  have hlength : (hexDigits u).length = 32 := by simp [hexDigits]
  have hsafe (c : Char) (h : c ∈ hyphenated u) : (c.isAlphanum || c == '-') = true := by
    simp only [hyphenated, List.cons_append, List.append_assoc, List.mem_append, List.mem_cons] at h
    rw [Bool.or_eq_true]
    rcases h with h | rfl | h | rfl | h | rfl | h | rfl | h
    · exact .inl (mem_hexDigits (List.mem_of_mem_take h))
    · exact .inr rfl
    · exact .inl (mem_hexDigits (List.mem_of_mem_drop (List.mem_of_mem_take h)))
    · exact .inr rfl
    · exact .inl (mem_hexDigits (List.mem_of_mem_drop (List.mem_of_mem_take h)))
    · exact .inr rfl
    · exact .inl (mem_hexDigits (List.mem_of_mem_drop (List.mem_of_mem_take h)))
    · exact .inr rfl
    · exact .inl (mem_hexDigits (List.mem_of_mem_drop h))
  unfold isSafeId
  rw [List.all_eq_true.mpr hsafe]
  simp [hyphenated, hlength]

theorem isSafeId_single {id : Text} (h : isSafeId id = true) : '/' ∉ id := by
  intro hm
  unfold isSafeId at h
  have hall := List.all_eq_true.mp (Bool.and_eq_true_iff.mp h).2 '/' hm
  revert hall
  decide

end Identifiers

section Paths

variable {dir name path : Text}

theorem join_single (h : '/' ∉ name) : join dir name = dir ++ '/' :: name := by
  unfold join
  rw [if_neg]
  intro hhead
  cases name with
  | nil => cases hhead
  | cons c name => exact h (Option.some.inj hhead ▸ List.mem_cons_self)

/-- What stands in front of the first slash. -/
theorem slash_inj {a b c d : Text} (ha : '/' ∉ a) (hc : '/' ∉ c) (h : a ++ '/' :: b = c ++ '/' :: d) : a = c := by
  have htake := congrArg (List.takeWhile (· ≠ '/')) h
  rwa [Search.takeWhile_sep ha, Search.takeWhile_sep hc] at htake

theorem childOf_eq_some {child : Text} : childOf dir path = some child ↔ path = dir ++ '/' :: child ∧ '/' ∉ child := by
  unfold childOf
  constructor
  · intro h
    split at h
    · rename_i hprefix
      obtain ⟨rest, rfl⟩ := List.isPrefixOf_iff_prefix.mp hprefix
      have hdrop : (dir ++ ['/'] ++ rest).drop (dir.length + 1) = rest := by
        rw [List.drop_left' (by simp)]
      dsimp only at h
      rw [hdrop] at h
      split at h
      · cases h
      · rename_i hsingle
        cases h
        exact ⟨by simp, by simpa using hsingle⟩
    · cases h
  · rintro ⟨rfl, hsingle⟩
    have hprefix : (dir ++ ['/']).isPrefixOf (dir ++ '/' :: child) = true :=
      List.isPrefixOf_iff_prefix.mpr ⟨child, by simp⟩
    have hdrop : (dir ++ '/' :: child).drop (dir.length + 1) = child := by
      have hsplit : dir ++ '/' :: child = (dir ++ ['/']) ++ child := by simp
      rw [hsplit, List.drop_left' (by simp)]
    rw [if_pos hprefix, hdrop]
    dsimp only
    rw [if_neg (by simpa using hsingle)]

end Paths

end AgentGrove.Uploads
