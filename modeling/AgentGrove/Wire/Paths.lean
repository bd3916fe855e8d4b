import AgentGrove.Wire.Tables
import Mathlib.Data.List.Infix

namespace Posix

abbrev Name := List Char

/-- A path from the root, without detours. -/
abbrev AbsPath := List Name

/-- A component that names an entry of its directory. -/
structure Proper (c : Name) : Prop where
  nonempty : c ≠ []
  here : c ≠ ['.']
  up : c ≠ ['.', '.']
  single : '/' ∉ c

instance (c : Name) : Decidable (Proper c) :=
  decidable_of_iff (c ≠ [] ∧ c ≠ ['.'] ∧ c ≠ ['.', '.'] ∧ '/' ∉ c)
    ⟨fun h => ⟨h.1, h.2.1, h.2.2.1, h.2.2.2⟩, fun h => ⟨h.nonempty, h.here, h.up, h.single⟩⟩

inductive Error where
  | notFound
  | notADirectory
  | isADirectory
  | invalidInput
  | other (message : List Char)
deriving DecidableEq

/-- Where a component leads to. -/
def follow (p : AbsPath) (c : Name) : AbsPath :=
  if c = [] ∨ c = ['.'] then p else if c = ['.', '.'] then p.dropLast else p ++ [c]

def locate (cs : List Name) : AbsPath := cs.foldl follow []

/-- Directories and files. Whatever has something in it is a directory. There are no links. -/
structure FileTree (C : Type) where
  dirs : List AbsPath
  files : List (AbsPath × C)

namespace FileTree

variable {C : Type} (t : FileTree C)

def file (p : AbsPath) : Option C := t.files.lookup p

def isDir (p : AbsPath) : Bool :=
  p.isEmpty || t.dirs.any (fun d => p.isPrefixOf d) || t.files.any (fun f => p.isPrefixOf f.1 && p != f.1)

def step (p : AbsPath) (c : Name) : Except Error AbsPath :=
  if c = [] ∨ c = ['.'] ∨ c = ['.', '.'] ∨ t.isDir (p ++ [c]) then .ok (follow p c)
  else if (t.file (p ++ [c])).isSome then .error .notADirectory
  else .error .notFound

/-- The directory that components lead to. -/
def walk (p : AbsPath) : List Name → Except Error AbsPath
  | [] => .ok p
  | c :: cs =>
    match t.step p c with
    | .ok q => walk q cs
    | .error e => .error e

/-- The place of a file by the components of its path. -/
def target (cs : List Name) : Except Error AbsPath :=
  if cs.any (fun c => c.contains '\x00') then .error .invalidInput
  else
    match t.walk [] cs.dropLast with
    | .error e => .error e
    | .ok p =>
      let q := follow p (cs.getLast?.getD [])
      if t.isDir q then .error .isADirectory else .ok q

def read (cs : List Name) : Except Error C :=
  match t.target cs with
  | .error e => .error e
  | .ok q =>
    match t.file q with
    | some content => .ok content
    | none => .error .notFound

def put (q : AbsPath) (content : C) : FileTree C :=
  { t with files := (q, content) :: t.files.filter (fun f => f.1 ≠ q) }

def write (cs : List Name) (content : C) : Except Error (FileTree C) :=
  match t.target cs with
  | .error e => .error e
  | .ok q => .ok (t.put q content)

/-- Every directory on the way that is missing is made, until there is something in the way. -/
def mkdirs (t : FileTree C) (p : AbsPath) : List Name → FileTree C × Except Error Unit
  | [] => (t, .ok ())
  | c :: cs =>
    match t.step p c with
    | .ok q => mkdirs t q cs
    | .error .notFound => mkdirs { t with dirs := (p ++ [c]) :: t.dirs } (p ++ [c]) cs
    | .error e => (t, .error e)

/-- `create_dir_all`. -/
def createDirAll (cs : List Name) : FileTree C × Except Error Unit :=
  if cs.any (fun c => c.contains '\x00') then (t, .error .invalidInput) else mkdirs t [] cs

end FileTree

section Locating

variable {p q : AbsPath} {c : Name} {cs ds : List Name}

theorem follow_proper (h : Proper c) : follow p c = p ++ [c] := by
  unfold follow
  rw [if_neg (not_or.mpr ⟨h.nonempty, h.here⟩), if_neg h.up]

theorem foldl_follow (h : ∀ c ∈ cs, Proper c) : cs.foldl follow p = p ++ cs := by
  induction cs generalizing p with
  | nil => rw [List.foldl_nil, List.append_nil]
  | cons c cs ih =>
    rw [List.foldl_cons, follow_proper (h c List.mem_cons_self), ih fun c hc => h c (List.mem_cons_of_mem _ hc),
      List.append_assoc]
    rfl

theorem locate_proper (h : ∀ c ∈ cs, Proper c) : locate cs = cs := foldl_follow h

/-- Only names that were written are on the path. -/
theorem mem_foldl_follow (h : ∀ c ∈ cs, '/' ∉ c) (hp : ∀ c ∈ p, Proper c) : ∀ c ∈ cs.foldl follow p, Proper c := by
  induction cs generalizing p with
  | nil => exact hp
  | cons c cs ih =>
    rw [List.foldl_cons]
    refine ih (fun c hc => h c (List.mem_cons_of_mem _ hc)) ?_
    unfold follow
    split
    · exact hp
    rename_i hplain
    split
    · exact fun d hd => hp d (List.dropLast_subset _ hd)
    rename_i hup
    intro d hd
    rcases List.mem_append.mp hd with hd | hd
    · exact hp d hd
    · rw [List.mem_singleton.mp hd]
      exact ⟨fun h => hplain (.inl h), fun h => hplain (.inr h), hup, h c List.mem_cons_self⟩

end Locating

namespace FileTree

variable {C : Type} {t t' : FileTree C} {p q : AbsPath} {c : Name} {cs : List Name} {content : C}

theorem isDir_iff : t.isDir p = true ↔
    p = [] ∨ (∃ d ∈ t.dirs, p <+: d) ∨ ∃ f ∈ t.files, p <+: f.1 ∧ p ≠ f.1 := by
  simp [isDir, or_assoc]

theorem isDir_ancestor (h : t.isDir q = true) (hp : p <+: q) : t.isDir p = true := by
  rw [isDir_iff] at h ⊢
  rcases h with rfl | ⟨d, hd, hq⟩ | ⟨f, hf, hq, hne⟩
  · exact .inl (List.prefix_nil.mp hp)
  · exact .inr (.inl ⟨d, hd, hp.trans hq⟩)
  · refine .inr (.inr ⟨f, hf, hp.trans hq, ?_⟩)
    rintro rfl
    exact hne (hq.eq_of_length_le hp.length_le)

theorem isDir_of_file (h : t.file q = some content) (hp : p <+: q) (hne : p ≠ q) : t.isDir p = true :=
  isDir_iff.mpr (.inr (.inr ⟨_, Assoc.mem_of_lookup h, hp, hne⟩))

theorem step_proper (h : Proper c) : t.step p c =
    if t.isDir (p ++ [c]) then .ok (p ++ [c])
    else if (t.file (p ++ [c])).isSome then .error .notADirectory
    else .error .notFound := by
  unfold step
  rw [follow_proper h]
  simp [h.nonempty, h.here, h.up]

/-- Through directories only. -/
theorem walk_proper (h : ∀ c ∈ cs, Proper c) (hp : t.isDir p = true) :
    t.walk p cs = .ok q ↔ q = p ++ cs ∧ t.isDir (p ++ cs) = true := by
  induction cs generalizing p with
  | nil => simp [walk, hp, eq_comm]
  | cons c cs ih =>
    have hcs : ∀ c ∈ cs, Proper c := fun d hd => h d (List.mem_cons_of_mem _ hd)
    have hassoc : p ++ c :: cs = p ++ [c] ++ cs := by simp
    rw [walk, step_proper (h c List.mem_cons_self)]
    cases hc : t.isDir (p ++ [c]) with
    | true =>
      rw [if_pos rfl, hassoc]
      exact ih hcs hc
    | false =>
      have hnone : ¬ t.isDir (p ++ c :: cs) = true := by
        intro hdir
        rw [hassoc] at hdir
        rw [isDir_ancestor hdir (List.prefix_append _ _)] at hc
        cases hc
      cases (t.file (p ++ [c])).isSome <;> simp [hnone]

/-- A path that a system call takes. -/
structure Clean (cs : List Name) : Prop where
  proper : ∀ c ∈ cs, Proper c
  nulFree : ∀ c ∈ cs, '\x00' ∉ c

theorem Clean.any (h : Clean cs) : cs.any (fun c => c.contains '\x00') = false := by
  rw [List.any_eq_false]
  intro c hc
  simpa using h.nulFree c hc

theorem nulFree_of_target (h : t.target cs ≠ .error .invalidInput) : ∀ c ∈ cs, '\x00' ∉ c := by
  intro c hc hnul
  apply h
  unfold target
  rw [if_pos]
  exact List.any_eq_true.mpr ⟨c, hc, by simpa using hnul⟩

theorem nulFree_of_read (h : t.read cs ≠ .error .invalidInput) : ∀ c ∈ cs, '\x00' ∉ c := by
  refine nulFree_of_target (t := t) fun htarget => h ?_
  rw [read, htarget]

theorem nulFree_of_write (h : t.write cs content = .ok t') : ∀ c ∈ cs, '\x00' ∉ c := by
  refine nulFree_of_target (t := t) fun htarget => ?_
  rw [write, htarget] at h
  cases h

/-- What the system calls find at the place of a file. -/
theorem target_ok (h : Clean (p ++ [c])) : t.target (p ++ [c]) = .ok q ↔
    q = p ++ [c] ∧ t.isDir p = true ∧ t.isDir (p ++ [c]) = false := by
  have hp : ∀ d ∈ p, Proper d := fun d hd => h.proper d (List.mem_append_left _ hd)
  have hc : Proper c := h.proper c (List.mem_append_right _ List.mem_cons_self)
  have hwalk (r : AbsPath) : t.walk [] p = .ok r ↔ r = p ∧ t.isDir p = true := walk_proper hp rfl
  unfold target
  rw [h.any, if_neg Bool.false_ne_true, List.dropLast_concat, List.getLast?_concat, Option.getD_some]
  cases hr : t.walk [] p with
  | error e =>
    have hnot : ¬ t.isDir p = true := by
      intro hdir
      rw [(hwalk p).mpr ⟨rfl, hdir⟩] at hr
      cases hr
    simp [hnot]
  | ok r =>
    obtain ⟨rfl, hdir⟩ := (hwalk r).mp hr
    dsimp only
    rw [follow_proper hc, hdir]
    cases t.isDir (r ++ [c]) <;> simp [eq_comm]

theorem read_ok (h : Clean (p ++ [c])) : t.read (p ++ [c]) = .ok content ↔
    t.isDir (p ++ [c]) = false ∧ t.file (p ++ [c]) = some content := by
  unfold read
  cases htarget : t.target (p ++ [c]) with
  | error e =>
    have hnot : ¬ (t.isDir (p ++ [c]) = false ∧ t.file (p ++ [c]) = some content) := by
      rintro ⟨hdir, hfile⟩
      have hparent := isDir_of_file hfile (List.prefix_append p [c]) (by simp)
      rw [(target_ok h).mpr ⟨rfl, hparent, hdir⟩] at htarget
      cases htarget
    simpa using hnot
  | ok q =>
    obtain ⟨rfl, -, hdir⟩ := (target_ok h).mp htarget
    dsimp only
    cases t.file (p ++ [c]) <;> simp [hdir]

/-- There is nothing at a path, and no file in its way. -/
structure Missing (t : FileTree C) (q : AbsPath) : Prop where
  noDir : t.isDir q = false
  noFile : ∀ r, r <+: q → t.isDir r = true ∨ t.file r = none

theorem missing_parent (h : Missing t (p ++ [c])) : t.isDir p = true ∨ Missing t p := by
  cases hp : t.isDir p with
  | true => exact .inl rfl
  | false => exact .inr ⟨hp, fun r hr => h.noFile r (hr.trans (List.prefix_append _ _))⟩

/-- Nothing is beyond what is missing. -/
theorem Missing.extend (h : Missing t p) (hq : p <+: q) : Missing t q where
  noDir := by
    rw [← Bool.not_eq_true]
    intro hdir
    have hp := isDir_ancestor hdir hq
    rw [h.noDir] at hp
    cases hp
  noFile := by
    intro r hr
    rcases Nat.le_total r.length p.length with hle | hle
    · exact h.noFile r (List.prefix_of_prefix_length_le hr hq hle)
    · have hpr : p <+: r := List.prefix_of_prefix_length_le hq hr hle
      by_cases heq : p = r
      · exact heq ▸ h.noFile p (List.prefix_refl _)
      · right
        cases hf : t.file r with
        | none => rfl
        | some content =>
          have hdir := isDir_of_file hf hpr heq
          rw [h.noDir] at hdir
          cases hdir

/-- The first component that is no directory is not there. -/
theorem walk_missing (h : ∀ c ∈ cs, Proper c) (hp : t.isDir p = true) :
    t.walk p cs = .error .notFound ↔ Missing t (p ++ cs) := by
  induction cs generalizing p with
  | nil =>
    rw [walk, List.append_nil]
    exact iff_of_false (by simp) fun hm => by simp [hm.noDir] at hp
  | cons c cs ih =>
    have hcs : ∀ c ∈ cs, Proper c := fun d hd => h d (List.mem_cons_of_mem _ hd)
    have hassoc : p ++ c :: cs = p ++ [c] ++ cs := by simp
    rw [walk, step_proper (h c List.mem_cons_self)]
    cases hc : t.isDir (p ++ [c]) with
    | true =>
      rw [if_pos rfl, hassoc]
      exact ih hcs hc
    | false =>
      have hin : p ++ [c] <+: p ++ c :: cs := by rw [hassoc]; exact List.prefix_append _ _
      cases hfile : t.file (p ++ [c]) with
      | some content =>
        refine iff_of_false (by simp) fun hm => ?_
        rcases hm.noFile _ hin with hdir | hnone
        · rw [hc] at hdir
          cases hdir
        · rw [hfile] at hnone
          cases hnone
      | none =>
        have hm : Missing t (p ++ [c]) := by
          refine ⟨hc, fun r hr => ?_⟩
          rcases List.prefix_concat_iff.mp hr with rfl | hr
          · exact .inr hfile
          · exact .inl (isDir_ancestor hp hr)
        exact iff_of_true (by simp) (hm.extend hin)

theorem read_missing (h : Clean (p ++ [c])) : t.read (p ++ [c]) = .error .notFound ↔ Missing t (p ++ [c]) := by
  have hp : ∀ d ∈ p, Proper d := fun d hd => h.proper d (List.mem_append_left _ hd)
  have hc : Proper c := h.proper c (List.mem_append_right _ List.mem_cons_self)
  have hwalk (r : AbsPath) : t.walk [] p = .ok r ↔ r = p ∧ t.isDir p = true := walk_proper hp rfl
  have hlost : t.walk [] p = .error .notFound ↔ Missing t p := walk_missing hp rfl
  unfold read target
  rw [h.any, if_neg Bool.false_ne_true, List.dropLast_concat, List.getLast?_concat, Option.getD_some]
  cases hr : t.walk [] p with
  | error e =>
    dsimp only
    rw [hr] at hlost
    have hiff : Missing t p ↔ Missing t (p ++ [c]) := by
      refine ⟨fun hm => hm.extend (List.prefix_append _ _), fun hm => (missing_parent hm).resolve_left ?_⟩
      intro hdir
      rw [(hwalk p).mpr ⟨rfl, hdir⟩] at hr
      cases hr
    rw [← hiff, ← hlost, Except.error.injEq, Except.error.injEq]
  | ok r =>
    obtain ⟨rfl, hdir⟩ := (hwalk r).mp hr
    dsimp only
    rw [follow_proper hc]
    cases hc : t.isDir (r ++ [c]) with
    | true => exact iff_of_false (by simp) fun hm => by simp [hm.noDir] at hc
    | false =>
      cases hf : t.file (r ++ [c]) with
      | some content =>
        refine iff_of_false (by simp [hf]) fun hm => ?_
        rcases hm.noFile _ (List.prefix_refl _) with hd | hnone
        · rw [hc] at hd
          cases hd
        · rw [hf] at hnone
          cases hnone
      | none =>
        refine iff_of_true (by simp [hf]) ⟨hc, fun q hq => ?_⟩
        rcases List.prefix_concat_iff.mp hq with rfl | hq
        · exact .inr hf
        · exact .inl (isDir_ancestor hdir hq)

/-- Directories have been made on the way to a path. -/
structure Extended (t t' : FileTree C) (p : AbsPath) : Prop where
  files : t'.files = t.files
  kept : ∀ r, t.isDir r = true → t'.isDir r = true
  made : ∀ r, t'.isDir r = true → t.isDir r = true ∨ (r <+: p ∧ t.file r = none)

theorem isDir_made (q r : AbsPath) :
    ({ t with dirs := q :: t.dirs } : FileTree C).isDir r = true ↔ r <+: q ∨ t.isDir r = true := by
  simp only [isDir_iff, List.exists_mem_cons_iff]
  constructor
  · rintro (h | (h | h) | h)
    · exact .inr (.inl h)
    · exact .inl h
    · exact .inr (.inr (.inl h))
    · exact .inr (.inr (.inr h))
  · rintro (h | h | h | h)
    · exact .inr (.inl (.inl h))
    · exact .inl h
    · exact .inr (.inl (.inr h))
    · exact .inr (.inr h)

theorem mkdirs_extended (h : ∀ c ∈ cs, Proper c) (hp : t.isDir p = true) : Extended t (mkdirs t p cs).1 (p ++ cs) := by
  induction cs generalizing p t with
  | nil => exact ⟨rfl, fun _ hr => hr, fun _ hr => .inl hr⟩
  | cons c cs ih =>
    have hcs : ∀ c ∈ cs, Proper c := fun d hd => h d (List.mem_cons_of_mem _ hd)
    have hassoc : p ++ c :: cs = p ++ [c] ++ cs := by simp
    rw [mkdirs, step_proper (h c List.mem_cons_self), hassoc]
    cases hc : t.isDir (p ++ [c]) with
    | true => exact ih hcs hc
    | false =>
      rw [if_neg Bool.false_ne_true]
      cases hfile : t.file (p ++ [c]) with
      | some content => exact ⟨rfl, fun _ hr => hr, fun _ hr => .inl hr⟩
      | none =>
        have hmade : ({ t with dirs := (p ++ [c]) :: t.dirs } : FileTree C).isDir (p ++ [c]) = true :=
          (isDir_made _ _).mpr (.inl (List.prefix_refl _))
        have hnew := ih hcs hmade
        refine ⟨hnew.files, fun r hr => hnew.kept r ((isDir_made _ _).mpr (.inr hr)), fun r hr => ?_⟩
        rcases hnew.made r hr with hdir | hway
        · rcases (isDir_made _ _).mp hdir with hin | hdir
          · rcases List.prefix_concat_iff.mp hin with rfl | hin
            · exact .inr ⟨List.prefix_append _ _, hfile⟩
            · exact .inl (isDir_ancestor hp hin)
          · exact .inl hdir
        · exact .inr hway

theorem Extended.read (h : Extended t t' q) (hp : Clean (p ++ [c])) (hread : t.read (p ++ [c]) = .ok content) :
    t'.read (p ++ [c]) = .ok content := by
  obtain ⟨hdir, hfile⟩ := (read_ok hp).mp hread
  refine (read_ok hp).mpr ⟨?_, ?_⟩
  · rw [← Bool.not_eq_true]
    intro hd
    rcases h.made _ hd with hd | ⟨-, hnone⟩
    · rw [hdir] at hd
      cases hd
    · rw [hfile] at hnone
      cases hnone
  · unfold file
    rw [h.files]
    exact hfile

theorem Extended.missing (h : Extended t t' p) (hm : Missing t (p ++ [c])) : Missing t' (p ++ [c]) where
  noDir := by
    rw [← Bool.not_eq_true]
    intro hd
    rcases h.made _ hd with hd | ⟨hin, -⟩
    · rw [hm.noDir] at hd
      cases hd
    · have hlength := hin.length_le
      rw [List.length_append, List.length_singleton] at hlength
      omega
  noFile := by
    intro r hr
    rcases hm.noFile r hr with hd | hf
    · exact .inl (h.kept r hd)
    · right
      unfold file
      rw [h.files]
      exact hf

theorem put_file (q r : AbsPath) : (t.put q content).file r = if r = q then some content else t.file r := by
  unfold put file
  dsimp only
  rw [List.lookup_cons, Assoc.lookup_filter (fun p => decide (p ≠ q))]
  by_cases hr : r = q
  · simp [hr]
  · simp [hr, beq_eq_false_iff_ne.mpr hr]

/-- A file in a directory makes no new one. -/
theorem put_isDir (hp : t.isDir p = true) (r : AbsPath) : (t.put (p ++ [c]) content).isDir r = t.isDir r := by
  rw [Bool.eq_iff_iff]
  constructor
  · intro hr
    rcases isDir_iff.mp hr with hr | hr | ⟨f, hf, hin, hne⟩
    · exact isDir_iff.mpr (.inl hr)
    · exact isDir_iff.mpr (.inr (.inl hr))
    · rcases List.mem_cons.mp hf with rfl | hf
      · exact isDir_ancestor hp ((List.prefix_concat_iff.mp hin).resolve_left hne)
      · exact isDir_iff.mpr (.inr (.inr ⟨f, (List.mem_filter.mp hf).1, hin, hne⟩))
  · intro hr
    rcases isDir_iff.mp hr with hr | hr | ⟨f, hf, hin, hne⟩
    · exact isDir_iff.mpr (.inl hr)
    · exact isDir_iff.mpr (.inr (.inl hr))
    · refine isDir_iff.mpr (.inr (.inr ?_))
      by_cases heq : f.1 = p ++ [c]
      · exact ⟨_, List.mem_cons_self, heq ▸ hin, heq ▸ hne⟩
      · exact ⟨f, List.mem_cons_of_mem _ (List.mem_filter.mpr ⟨hf, by simpa using heq⟩), hin, hne⟩

/-- A file that is written is read, and all others are as they were. -/
theorem write_read (hp : Clean (p ++ [c])) (hw : t.write (p ++ [c]) content = .ok t') :
    t'.read (p ++ [c]) = .ok content := by
  unfold write at hw
  cases htarget : t.target (p ++ [c]) with
  | error e =>
    rw [htarget] at hw
    cases hw
  | ok r =>
    rw [htarget] at hw
    obtain ⟨rfl, hdir, hfree⟩ := (target_ok hp).mp htarget
    obtain rfl := Except.ok.inj hw
    refine (read_ok hp).mpr ⟨?_, ?_⟩
    · rw [put_isDir hdir]
      exact hfree
    · rw [put_file, if_pos rfl]

theorem write_other {q : AbsPath} {d : Name} {content' : C} (hp : Clean (p ++ [c])) (hq : Clean (q ++ [d]))
    (hne : q ++ [d] ≠ p ++ [c]) (hw : t.write (p ++ [c]) content = .ok t')
    (hread : t.read (q ++ [d]) = .ok content') : t'.read (q ++ [d]) = .ok content' := by
  unfold write at hw
  cases htarget : t.target (p ++ [c]) with
  | error e =>
    rw [htarget] at hw
    cases hw
  | ok r =>
    rw [htarget] at hw
    obtain ⟨rfl, hdir, -⟩ := (target_ok hp).mp htarget
    obtain rfl := Except.ok.inj hw
    obtain ⟨hfree, hfile⟩ := (read_ok hq).mp hread
    refine (read_ok hq).mpr ⟨?_, ?_⟩
    · rw [put_isDir hdir]
      exact hfree
    · rw [put_file, if_neg hne]
      exact hfile

end FileTree

end Posix
