import AgentGrove.Coop.Machine
import AgentGrove.Model.Editor

namespace AgentGrove.Editor

open Coop (Machine)

/-- The world, with what the user has typed into which file and what other programs have left in the files. -/
structure Watched where
  world : World
  typed : List (Path × Text)
  others : Path → Option Text

def Watched.note (s : Watched) : Event → List (Path × Text) × (Path → Option Text)
  | .edit content =>
    (match s.world.pane.bufferPath with
      | some p => (p, lineFeeds content) :: s.typed
      | none => s.typed, s.others)
  | .outside p content => (s.typed, Function.update s.others p content)
  | _ => (s.typed, s.others)

def watching : Machine Watched Event where
  step s e := (s.world.step e).map fun w => ⟨w, (s.note e).1, (s.note e).2⟩

/-- The pane is mounted, and its effect runs for the first time. -/
def start (selected : Option Path) (disk : Path → Option Text) : Watched :=
  ⟨⟨(Pane.mount selected).effect, disk⟩, [], disk⟩

/-- The calls of a pane. -/
structure Honest (typed : List (Path × Text)) (s : Pane) : Prop where
  writes : ∀ c ∈ s.writes, (c.path, c.content) ∈ typed ∧ isPdf c.path = false
  reads : ∀ c ∈ s.reads, isPdf c.path = false

/-- What the buffer has in it is of the file that it belongs to. -/
structure Owned (typed : List (Path × Text)) (s : Pane) : Prop where
  text : ∀ p, s.bufferPath = some p → isPdf p = false
  edits : s.dirty = true → ∀ p, s.bufferPath = some p → (p, s.doc) ∈ typed
  source : ∀ p, s.bufferPath = some p →
    (p, s.doc) ∈ typed ∨ ∃ c ∈ s.reads, ∃ t, c.path = p ∧ c.served = some (some t) ∧ s.doc = lineFeeds t
  editable : s.editable = true → s.bufferPath.isSome = true

/-- What a run of the effect comes to. -/
inductive Effect (s : Pane) : Pane → Prop
  | rests (tracked : Bool) : Effect s { s with tracked }
  | flushes (p : Path) (next : Then) (hbuffer : s.bufferPath = some p) (hdirty : s.dirty = true) :
    Effect s { s with writes := s.writes ++ [⟨p, s.doc, next, none, true⟩], tracked := true }
  | reads (p : Path) (hp : isPdf p = false) (hopen : s.openPath ≠ some p)
    (hfree : s.dirty = false ∨ s.bufferPath = none ∨ s.bufferPath = some p) :
    Effect s { s with reads := s.reads ++ [⟨p, none, true⟩], tracked := true }
  | closes (openPath : Option Path) (hopen : s.openPath ≠ openPath)
    (hfree : s.dirty = false ∨ s.bufferPath = none ∨ s.bufferPath = openPath) :
    Effect s { s.closeBuffer with openPath, dirty := false, tracked := false }

/-- The buffer, once another text has been put into it. -/
def Pane.filled (s : Pane) (bufferPath : Option Path) (content : Text) (saveTimer : Bool) : Pane :=
  { s with
    bufferPath
    doc := lineFeeds content
    loading := false
    editable := bufferPath.isSome
    dirty := false
    saveTimer }

section Effects

variable {s : Pane} {next : Then} {p : Path}

theorem flush_some (hdirty : s.dirty = true) (hp : s.bufferPath = some p) :
    s.flush next = { s with writes := s.writes ++ [⟨p, s.doc, next, none, true⟩] } := by
  simp [Pane.flush, hp, hdirty]

theorem not_unsaved {q : Option Path} (h : ¬ (s.dirty && s.bufferPath.isSome && s.bufferPath ≠ q) = true) :
    s.dirty = false ∨ s.bufferPath = none ∨ s.bufferPath = q := by
  cases hdirty : s.dirty with
  | false => exact Or.inl rfl
  | true =>
    cases hbuffer : s.bufferPath with
    | none => exact Or.inr (Or.inl rfl)
    | some p =>
      right
      right
      simpa [hdirty, hbuffer] using h

theorem effect_cases (s : Pane) : Effect s s.effect := by
  unfold Pane.effect
  split
  · exact .rests s.tracked
  split
  · exact .rests false
  · rename_i hopen
    split
    · rename_i p hchosen
      rw [hchosen] at hopen
      unfold Pane.loadPath
      split
      · rename_i hunsaved
        simp only [Bool.and_eq_true, Option.isSome_iff_exists] at hunsaved
        obtain ⟨⟨hdirty, q, hq⟩, -⟩ := hunsaved
        rw [flush_some hdirty hq]
        exact .flushes q (.load p) hq hdirty
      · rename_i hsaved
        have hfree := not_unsaved hsaved
        split
        · exact .closes (some p) (fun h => hopen h.symm) hfree
        · rename_i hpdf
          exact .reads p (by simpa using hpdf) (fun h => hopen h.symm) hfree
    · rename_i hchosen
      rw [hchosen] at hopen
      unfold Pane.clearSelection
      split
      · rename_i hunsaved
        simp only [Bool.and_eq_true, Option.isSome_iff_exists] at hunsaved
        obtain ⟨hdirty, q, hq⟩ := hunsaved
        rw [flush_some hdirty hq]
        exact .flushes q .clear hq hdirty
      · rename_i hsaved
        refine .closes none (fun h => hopen h.symm) ?_
        cases hdirty : s.dirty with
        | false => exact Or.inl rfl
        | true =>
          right
          left
          simpa [hdirty] using hsaved

theorem setOpenPath_cases (opened : Option Path) (s : Pane) :
    s.setOpenPath opened = { s with openPath := opened } ∨ Effect { s with openPath := opened } (s.setOpenPath opened) := by
  unfold Pane.setOpenPath
  split
  · rename_i h
    left
    rw [← h]
  · exact Or.inr (effect_cases _)

theorem setDirty_cases (b : Bool) (s : Pane) :
    s.setDirty b = { s with dirty := b } ∨ Effect { s with dirty := b } (s.setDirty b) := by
  unfold Pane.setDirty
  split
  · rename_i h
    left
    rw [← h]
  split
  · exact Or.inr (effect_cases _)
  · exact Or.inl rfl

theorem Effect.tracked {s' : Pane} (h : Effect s s') (hs : s.loading = true) (hs' : s'.loading = false) :
    s'.tracked = false := by
  cases h with
  | rests tracked => simp [hs] at hs'
  | flushes q next hq hdirty => simp [hs] at hs'
  | reads q hq hopen hfree => simp [hs] at hs'
  | closes openPath hopen hfree => rfl

/-- The listener of the document makes the buffer dirty only for as long as it is being filled. -/
theorem dispatch_cases (content : Text) (h : s.loading = false → s.tracked = false) :
    s.dispatch content = { s with doc := lineFeeds content } ∨
      s.dispatch content = { s with doc := lineFeeds content, dirty := true, saveTimer := true } := by
  unfold Pane.dispatch
  split
  · rename_i hempty
    obtain ⟨hdoc, hcontent⟩ : s.doc = [] ∧ content = [] := by simpa using hempty
    left
    rw [hcontent, lineFeeds, ← hdoc]
  unfold Pane.docChanged
  dsimp only
  split
  · exact Or.inl rfl
  · rename_i hlistens
    simp only [Bool.or_eq_true, not_or, Bool.not_eq_true] at hlistens
    have htracked := h hlistens.1
    right
    unfold Pane.setDirty Pane.scheduleFlush
    dsimp only
    split
    · rename_i hdirty
      rw [hdirty]
    · simp [htracked]

/-- When a text is put into the buffer the effect may run before, for the path that is open, and after. -/
theorem openBuffer_cases (opened bufferPath : Option Path) (content : Text) (s : Pane) :
    ∃ s₁ saveTimer, (s₁ = { s with loading := true, openPath := opened } ∨
        Effect { s with loading := true, openPath := opened } s₁) ∧
      (s.openBuffer opened bufferPath content = s₁.filled bufferPath content saveTimer ∨
        Effect (s₁.filled bufferPath content saveTimer) (s.openBuffer opened bufferPath content)) := by
  have hfirst := setOpenPath_cases opened { s with loading := true }
  unfold Pane.openBuffer
  generalize Pane.setOpenPath opened { s with loading := true } = s₁ at hfirst ⊢
  have htracked : s₁.loading = false → s₁.tracked = false := by
    intro hloading
    rcases hfirst with rfl | hfirst
    · cases hloading
    · exact hfirst.tracked rfl hloading
  dsimp only
  rcases dispatch_cases (s := { s₁ with bufferPath }) content htracked with hdispatch | hdispatch
  · rw [hdispatch]
    exact ⟨s₁, s₁.saveTimer, hfirst, setDirty_cases false _⟩
  · rw [hdispatch]
    exact ⟨s₁, true, hfirst, setDirty_cases false _⟩

end Effects

section Keeping

variable {typed : List (Path × Text)} {s s' : Pane}

theorem Owned.append_reads (h : Owned typed s) (cs : List ReadCall) : Owned typed { s with reads := s.reads ++ cs } where
  text := h.text
  edits := h.edits
  source p hp := by
    obtain hsource | ⟨c, hc, hsource⟩ := h.source p hp
    · exact Or.inl hsource
    · exact Or.inr ⟨c, List.mem_append_left cs hc, hsource⟩
  editable := h.editable

theorem Honest.write (h : Honest typed s) (ho : Owned typed s) {p : Path} (hp : s.bufferPath = some p)
    (hdirty : s.dirty = true) (next : Then) :
    Honest typed { s with writes := s.writes ++ [⟨p, s.doc, next, none, true⟩] } where
  writes c hc := by
    rcases List.mem_append.mp hc with hc | hc
    · exact h.writes c hc
    · obtain rfl := List.mem_singleton.mp hc
      exact ⟨ho.edits hdirty p hp, ho.text p hp⟩
  reads := h.reads

theorem Honest.read (h : Honest typed s) {p : Path} (hp : isPdf p = false) :
    Honest typed { s with reads := s.reads ++ [⟨p, none, true⟩] } where
  writes := h.writes
  reads c hc := by
    rcases List.mem_append.mp hc with hc | hc
    · exact h.reads c hc
    · obtain rfl := List.mem_singleton.mp hc
      exact hp

theorem Effect.honest (he : Effect s s') (h : Honest typed s) (ho : Owned typed s) : Honest typed s' := by
  cases he with
  | rests tracked => exact ⟨h.writes, h.reads⟩
  | flushes p next hp hdirty => exact ⟨(h.write ho hp hdirty next).writes, h.reads⟩
  | reads p hp hopen hfree => exact ⟨h.writes, (h.read hp).reads⟩
  | closes openPath hopen hfree => exact ⟨h.writes, h.reads⟩

theorem Effect.owned (he : Effect s s') (h : Owned typed s) : Owned typed s' := by
  cases he with
  | rests tracked => exact ⟨h.text, h.edits, h.source, h.editable⟩
  | flushes p next hp hdirty => exact ⟨h.text, h.edits, h.source, h.editable⟩
  | reads p hp hopen hfree =>
    have hr := h.append_reads [⟨p, none, true⟩]
    exact ⟨hr.text, hr.edits, hr.source, hr.editable⟩
  | closes openPath hopen hfree => constructor <;> simp [Pane.closeBuffer]

theorem Effect.mem_reads (he : Effect s s') {c : ReadCall} (hc : c ∈ s.reads) : c ∈ s'.reads := by
  cases he with
  | rests tracked => exact hc
  | flushes p next hp hdirty => exact hc
  | reads p hp hopen hfree => exact List.mem_append_left _ hc
  | closes openPath hopen hfree => exact hc

theorem Effect.not_loading (he : Effect s s') (h : s.loading = false) : s'.loading = false := by
  cases he with
  | rests tracked => exact h
  | flushes p next hp hdirty => exact h
  | reads p hp hopen hfree => exact h
  | closes openPath hopen hfree => rfl

/-- What every step of the pane keeps. -/
structure Kept (typed : List (Path × Text)) (s : Pane) : Prop where
  honest : Honest typed s
  owned : Owned typed s
  rests : s.loading = false

/-- What is put into the buffer of a file is what a read of it has brought. -/
def Brought (s : Pane) (bufferPath : Option Path) (content : Text) : Prop :=
  ∀ p, bufferPath = some p → isPdf p = false ∧ ∃ c ∈ s.reads, c.path = p ∧ c.served = some (some content)

theorem Kept.effect (h : Kept typed s) (he : Effect s s') : Kept typed s' :=
  ⟨he.honest h.honest h.owned, he.owned h.owned, he.not_loading h.rests⟩

/-- The other fields do not matter. -/
theorem Kept.congr (h : Kept typed s) (hwrites : s'.writes = s.writes) (hreads : s'.reads = s.reads)
    (hbuffer : s'.bufferPath = s.bufferPath) (hdoc : s'.doc = s.doc) (hdirty : s'.dirty = true → s.dirty = true)
    (heditable : s'.editable = s.editable) (hloading : s'.loading = s.loading) : Kept typed s' where
  honest := ⟨by rw [hwrites]; exact h.honest.writes, by rw [hreads]; exact h.honest.reads⟩
  owned :=
    { text := by rw [hbuffer]; exact h.owned.text
      edits := by rw [hbuffer, hdoc]; exact fun hd => h.owned.edits (hdirty hd)
      source := by rw [hbuffer, hdoc, hreads]; exact h.owned.source
      editable := by rw [hbuffer, heditable]; exact h.owned.editable }
  rests := by rw [hloading]; exact h.rests

theorem Kept.clean (h : Kept typed s) : Kept typed (s.setDirty false) := by
  have hclean : Kept typed { s with dirty := false } :=
    h.congr rfl rfl rfl rfl (fun hd => (Bool.false_ne_true hd).elim) rfl rfl
  rcases setDirty_cases false s with hs | hs
  · rw [hs]
    exact hclean
  · exact hclean.effect hs

theorem Kept.select (h : Kept typed s) (p : Option Path) : Kept typed (s.setSelected p) := by
  unfold Pane.setSelected
  split
  · exact h
  · have hselected : Kept typed { s with selected := p } := h.congr rfl rfl rfl rfl id rfl rfl
    exact hselected.effect (effect_cases _)

theorem Kept.flush (h : Kept typed s) (next : Then) : Kept typed (s.flush next) := by
  unfold Pane.flush
  split
  · exact h
  · rename_i p hp
    split
    · rename_i hdirty
      exact
        { honest := h.honest.write h.owned hp hdirty next
          owned := ⟨h.owned.text, h.owned.edits, h.owned.source, h.owned.editable⟩
          rests := h.rests }
    · exact h

theorem Kept.openBuffer (h : Kept typed s) {bufferPath : Option Path} {content : Text} (opened : Option Path)
    (hb : Brought s bufferPath content) : Kept typed (s.openBuffer opened bufferPath content) := by
  obtain ⟨s₁, saveTimer, hfirst, hlast⟩ := openBuffer_cases opened bufferPath content s
  have hhonest : Honest typed { s with loading := true, openPath := opened } := ⟨h.honest.writes, h.honest.reads⟩
  have howned : Owned typed { s with loading := true, openPath := opened } :=
    ⟨h.owned.text, h.owned.edits, h.owned.source, h.owned.editable⟩
  obtain ⟨hhonest₁, hreads⟩ : Honest typed s₁ ∧ ∀ c ∈ s.reads, c ∈ s₁.reads := by
    rcases hfirst with rfl | hfirst
    · exact ⟨hhonest, fun c hc => hc⟩
    · exact ⟨hfirst.honest hhonest howned, fun c hc => hfirst.mem_reads hc⟩
  have hfilled : Kept typed (s₁.filled bufferPath content saveTimer) := by
    refine ⟨⟨hhonest₁.writes, hhonest₁.reads⟩, ⟨fun p hp => (hb p hp).1, fun hd => (Bool.false_ne_true hd).elim, ?_, id⟩, rfl⟩
    intro p hp
    obtain ⟨-, c, hc, hpath, hserved⟩ := hb p hp
    exact Or.inr ⟨c, hreads c hc, content, hpath, hserved, rfl⟩
  rcases hlast with hlast | hlast
  · rw [hlast]
    exact hfilled
  · exact hfilled.effect hlast

theorem Kept.resume (h : Kept typed s) {next : Then} : Kept typed (s.resume next) := by
  unfold Pane.resume
  split
  · exact h
  · rename_i p
    split
    · exact h.openBuffer _ fun q hq => by cases hq
    · rename_i hpdf
      have howned := h.owned.append_reads [⟨p, none, true⟩]
      exact ⟨h.honest.read (by simpa using hpdf), howned, h.rests⟩
  · exact h.openBuffer _ fun q hq => by cases hq

theorem Kept.flushed (h : Kept typed s) (c : WriteCall) (ok : Bool) : Kept typed (s.flushed c ok) := by
  unfold Pane.flushed
  split
  · exact h.clean.resume
  · exact h.resume

theorem Kept.loaded (h : Kept typed s) {c : ReadCall} {found : Option Text}
    (hc : ∀ t, found = some t → isPdf c.path = false ∧ ∃ c' ∈ s.reads, c'.path = c.path ∧ c'.served = some (some t)) :
    Kept typed (s.loaded c found) := by
  unfold Pane.loaded
  cases found with
  | none => exact h
  | some t =>
    refine h.openBuffer _ ?_
    intro p hp
    obtain rfl := Option.some.inj hp
    exact hc t rfl

theorem Kept.docChanged (h : Kept typed s) (hmounted : s.mounted = true) {p : Path} (hp : s.bufferPath = some p) (content : Text) :
    Kept ((p, lineFeeds content) :: typed) (s.docChanged content) := by
  have hchanged : Kept ((p, lineFeeds content) :: typed) { s with doc := lineFeeds content, dirty := true } := by
    refine ⟨⟨fun c hc => ?_, h.honest.reads⟩, ⟨h.owned.text, ?_, ?_, h.owned.editable⟩, h.rests⟩
    · exact ⟨List.mem_cons_of_mem _ (h.honest.writes c hc).1, (h.honest.writes c hc).2⟩
    · intro _ q hq
      obtain rfl := Option.some.inj (hp.symm.trans hq)
      exact List.mem_cons_self
    · intro q hq
      obtain rfl := Option.some.inj (hp.symm.trans hq)
      exact Or.inl List.mem_cons_self
  have hdirty : Kept ((p, lineFeeds content) :: typed) (Pane.setDirty true { s with doc := lineFeeds content }) := by
    rcases setDirty_cases true { s with doc := lineFeeds content } with hs | hs
    · rw [hs]
      exact hchanged
    · exact hchanged.effect hs
  have hlistens : ¬ (s.loading || !s.mounted) = true := by simp [h.rests, hmounted]
  unfold Pane.docChanged
  dsimp only
  rw [if_neg hlistens]
  exact hdirty.congr rfl rfl rfl rfl id rfl rfl

/-- Calls may be served and answered. -/
theorem Kept.calls (h : Kept typed s) {writes : List WriteCall} {reads : List ReadCall}
    (hwrites : ∀ c ∈ writes, ∃ c' ∈ s.writes, c.path = c'.path ∧ c.content = c'.content)
    (hreads : ∀ c ∈ reads, ∃ c' ∈ s.reads, c.path = c'.path)
    (hserved : ∀ c ∈ s.reads, c.served.isSome = true → ∃ c' ∈ reads, c'.path = c.path ∧ c'.served = c.served) :
    Kept typed { s with writes, reads } where
  honest :=
    { writes := by
        intro c hc
        obtain ⟨c', hc', hpath, hcontent⟩ := hwrites c hc
        rw [hpath, hcontent]
        exact h.honest.writes c' hc'
      reads := by
        intro c hc
        obtain ⟨c', hc', hpath⟩ := hreads c hc
        rw [hpath]
        exact h.honest.reads c' hc' }
  owned :=
    { text := h.owned.text
      edits := h.owned.edits
      source := by
        intro p hp
        obtain hsource | ⟨c, hc, t, hpath, ht, hdoc⟩ := h.owned.source p hp
        · exact Or.inl hsource
        · obtain ⟨c', hc', hpath', hserved'⟩ := hserved c hc (by rw [ht]; rfl)
          exact Or.inr ⟨c', hc', t, hpath'.trans hpath, hserved'.trans ht, hdoc⟩
      editable := h.owned.editable }
  rests := h.rests

end Keeping

section Files

variable {s s' : Watched} {e : Event} {selected : Option Path} {disk : Path → Option Text}

/-- The pane keeps to its own files, and every file has what another program or a user has put into it. -/
structure Watched.Sound (s : Watched) : Prop where
  pane : Kept s.typed s.world.pane
  files : ∀ p, s.world.disk p = s.others p ∨ ∃ content, (p, content) ∈ s.typed ∧ s.world.disk p = some content

theorem start_sound (selected : Option Path) (disk : Path → Option Text) : (start selected disk).Sound where
  pane := by
    have hmount : Kept [] (Pane.mount selected) := by
      refine ⟨⟨?_, ?_⟩, ⟨?_, ?_, ?_, ?_⟩, rfl⟩ <;> simp [Pane.mount]
    exact hmount.effect (effect_cases _)
  files _ := Or.inl rfl

/-- A step of the pane alone. -/
theorem Watched.Sound.onPane (h : s.Sound) {f : Pane → Pane} (hf : Kept s.typed (f s.world.pane)) :
    Watched.Sound ⟨s.world.onPane f, s.typed, s.others⟩ :=
  ⟨hf, h.files⟩

theorem mem_set_write {cs : List WriteCall} {i : Nat} {c d : WriteCall} (hi : cs[i]? = some c) (hpath : d.path = c.path)
    (hcontent : d.content = c.content) : ∀ x ∈ cs.set i d, ∃ c' ∈ cs, x.path = c'.path ∧ x.content = c'.content := by
  intro x hx
  rcases List.mem_or_eq_of_mem_set hx with hx | rfl
  · exact ⟨x, hx, rfl, rfl⟩
  · exact ⟨c, List.mem_of_getElem? hi, hpath, hcontent⟩

theorem mem_set_read {cs : List ReadCall} {i : Nat} {c d : ReadCall} (hi : cs[i]? = some c) (hpath : d.path = c.path) :
    ∀ x ∈ cs.set i d, ∃ c' ∈ cs, x.path = c'.path := by
  intro x hx
  rcases List.mem_or_eq_of_mem_set hx with hx | rfl
  · exact ⟨x, hx, rfl⟩
  · exact ⟨c, List.mem_of_getElem? hi, hpath⟩

/-- An answer that a read has got stays. -/
theorem served_set {cs : List ReadCall} {i : Nat} {c d : ReadCall} (hi : cs[i]? = some c) (hpath : d.path = c.path)
    (hserved : c.served.isSome = true → d.served = c.served) :
    ∀ x ∈ cs, x.served.isSome = true → ∃ c' ∈ cs.set i d, c'.path = x.path ∧ c'.served = x.served := by
  intro x hx hs
  obtain ⟨j, hj⟩ := List.mem_iff_getElem?.mp hx
  by_cases hij : i = j
  · subst hij
    obtain rfl := Option.some.inj (hi.symm.trans hj)
    have hlt : i < cs.length := (List.getElem?_eq_some_iff.mp hi).1
    exact ⟨d, List.mem_iff_getElem?.mpr ⟨i, List.getElem?_set_self hlt⟩, hpath, hserved hs⟩
  · exact ⟨x, List.mem_iff_getElem?.mpr ⟨j, by rw [List.getElem?_set_ne hij]; exact hj⟩, rfl, rfl⟩

theorem Watched.Sound.step (h : s.Sound) (hs : watching.step s e = some s') : s'.Sound := by
  simp only [watching, Option.map_eq_some_iff] at hs
  obtain ⟨w, hw, rfl⟩ := hs
  cases e with
  | select p =>
    obtain rfl := Option.some.inj hw
    exact h.onPane (h.pane.select p)
  | edit content =>
    simp only [World.step] at hw
    split at hw
    · rename_i hmounted
      obtain rfl := Option.some.inj hw
      rw [Bool.and_eq_true] at hmounted
      obtain ⟨p, hp⟩ := Option.isSome_iff_exists.mp (h.pane.owned.editable hmounted.2)
      simp only [Watched.note, hp]
      refine ⟨h.pane.docChanged hmounted.1 hp content, fun q => ?_⟩
      obtain hq | ⟨t, ht, hq⟩ := h.files q
      · exact Or.inl hq
      · exact Or.inr ⟨t, List.mem_cons_of_mem _ ht, hq⟩
    · cases hw
  | timer =>
    simp only [World.step] at hw
    split at hw
    · obtain rfl := Option.some.inj hw
      have hoff : Kept s.typed { s.world.pane with saveTimer := false } := h.pane.congr rfl rfl rfl rfl id rfl rfl
      exact h.onPane (hoff.flush _)
    · cases hw
  | save =>
    simp only [World.step] at hw
    split at hw
    · obtain rfl := Option.some.inj hw
      exact h.onPane (h.pane.flush _)
    · cases hw
  | blur =>
    simp only [World.step] at hw
    split at hw
    · obtain rfl := Option.some.inj hw
      exact h.onPane (h.pane.flush _)
    · cases hw
  | unmount =>
    simp only [World.step] at hw
    split at hw
    · obtain rfl := Option.some.inj hw
      have hoff : Kept s.typed { s.world.pane with saveTimer := false } := h.pane.congr rfl rfl rfl rfl id rfl rfl
      exact h.onPane ((hoff.flush .nothing).congr rfl rfl rfl rfl id rfl rfl)
    · cases hw
  | serveWrite i ok =>
    simp only [World.step] at hw
    split at hw
    · rename_i c hi
      split at hw
      · obtain rfl := Option.some.inj hw
        have hc := (h.pane.honest.writes c (List.mem_of_getElem? hi)).1
        refine ⟨h.pane.calls (mem_set_write hi rfl rfl) (fun c hc => ⟨c, hc, rfl⟩) (fun c hc _ => ⟨c, hc, rfl, rfl⟩),
          fun p => ?_⟩
        cases ok with
        | false => exact h.files p
        | true =>
          by_cases hp : p = c.path
          · subst hp
            exact Or.inr ⟨c.content, hc, by simp⟩
          · simpa [Watched.note, hp] using h.files p
      · cases hw
    · cases hw
  | answerWrite i lost =>
    simp only [World.step] at hw
    split at hw
    · rename_i c hi
      split at hw
      · obtain rfl := Option.some.inj hw
        have hanswered : Kept s.typed { s.world.pane with writes := s.world.pane.writes.set i { c with waiting := false } } :=
          h.pane.calls (mem_set_write hi rfl rfl) (fun c hc => ⟨c, hc, rfl⟩) (fun c hc _ => ⟨c, hc, rfl, rfl⟩)
        exact h.onPane (hanswered.flushed _ _)
      · cases hw
    · cases hw
  | serveRead i ok =>
    simp only [World.step] at hw
    split at hw
    · rename_i c hi
      split at hw
      · rename_i hnone
        obtain rfl := Option.some.inj hw
        refine h.onPane (h.pane.calls (fun c hc => ⟨c, hc, rfl, rfl⟩) (mem_set_read hi rfl) (served_set hi rfl ?_))
        intro hsome
        rw [Option.isNone_iff_eq_none.mp hnone] at hsome
        cases hsome
      · cases hw
    · cases hw
  | answerRead i lost =>
    simp only [World.step] at hw
    split at hw
    · rename_i c hi
      split at hw
      · obtain rfl := Option.some.inj hw
        have hanswered : Kept s.typed { s.world.pane with reads := s.world.pane.reads.set i { c with waiting := false } } :=
          h.pane.calls (fun c hc => ⟨c, hc, rfl, rfl⟩) (mem_set_read hi rfl) (served_set hi rfl fun _ => rfl)
        refine h.onPane (hanswered.loaded ?_)
        intro t ht
        have hmem := List.mem_of_getElem? hi
        cases lost with
        | true => cases ht
        | false =>
          have hserved : c.served = some (some t) := by simpa [Option.getD_eq_iff] using ht
          obtain ⟨c', hc', hpath, hserved'⟩ := served_set (d := { c with waiting := false }) hi rfl (fun _ => rfl) c hmem (by rw [hserved]; rfl)
          exact ⟨h.pane.honest.reads c hmem, c', hc', hpath, hserved'.trans hserved⟩
      · cases hw
    · cases hw
  | outside p content =>
    obtain rfl := Option.some.inj hw
    refine ⟨h.pane, fun q => ?_⟩
    by_cases hq : q = p
    · subst hq
      exact Or.inl (by simp [Watched.note])
    · simpa [Watched.note, hq] using h.files q

/-- A file, as it is read first. -/
def readme (p : Path) : Option Text := if p = "/a.md".toList then some "old".toList else none

end Files

section Settling

variable {typed : List (Path × Text)} {disk : Path → Option Text} {s s' : Pane} {p : Path}

theorem not_mem_lineFeeds (t : Text) : '\r' ∉ lineFeeds t := by
  induction t using lineFeeds.induct with
  | case1 => simp [lineFeeds]
  | case2 t ih => simpa [lineFeeds] using ih
  | case3 c t hc ih =>
    rw [lineFeeds]
    · split
      · simpa using ih
      · rename_i hne
        simpa using ⟨fun h => hne h.symm, ih⟩
    · exact hc

theorem lineFeeds_id {t : Text} (h : '\r' ∉ t) : lineFeeds t = t := by
  induction t with
  | nil => rfl
  | cons c t ih =>
    rw [List.mem_cons, not_or] at h
    rw [lineFeeds, ih h.2, if_neg fun hc => h.1 hc.symm]
    intro u hc
    exact absurd hc.symm h.1

theorem lineFeeds_idem (t : Text) : lineFeeds (lineFeeds t) = lineFeeds t := lineFeeds_id (not_mem_lineFeeds t)

/-- The text of the document ends its lines with line feeds, and no write of it has failed or is lost. -/
structure Basics (s : Pane) : Prop where
  feeds : lineFeeds s.doc = s.doc
  served : ∀ c ∈ s.writes, c.served ≠ some false ∧ (c.waiting = false → c.served = some true)

/-- Nothing is unsaved: what is on its way to or from the disk is what the disk has. -/
structure Clean (typed : List (Path × Text)) (disk : Path → Option Text) (s : Pane) : Prop extends Basics s where
  clean : s.dirty = false
  writes : ∀ c ∈ s.writes, c.waiting = true → disk c.path = some c.content
  reads : ∀ c ∈ s.reads, c.waiting = true → ∀ t, c.served = some (some t) → disk c.path = some t
  buffer : ∀ p, s.bufferPath = some p → ∃ t, disk p = some t ∧ s.doc = lineFeeds t
  typed : ∀ p t, typed.lookup p = some t → disk p = some t

/-- The text of one file is unsaved, and nothing else is on its way to the disk. -/
structure Unsaved (typed : List (Path × Text)) (disk : Path → Option Text) (p : Path) (s : Pane) : Prop extends Basics s where
  dirty : s.dirty = true
  buffer : s.bufferPath = some p
  opened : s.openPath = some p
  last : typed.lookup p = some s.doc
  reads : ∀ c ∈ s.reads, c.waiting = false
  writes : ∀ c ∈ s.writes, c.waiting = true → c.path = p ∧ c.content = s.doc ∧ (c.served.isSome = true → disk p = some s.doc)
  typed : ∀ q t, q ≠ p → typed.lookup q = some t → disk q = some t

/-- A save is due, or is on its way. -/
def Pending (s : Pane) : Prop := s.saveTimer = true ∨ ∃ c ∈ s.writes, c.waiting = true

theorem Basics.append (h : Basics s) (p : Path) (content : Text) (next : Then) :
    ∀ c ∈ s.writes ++ [⟨p, content, next, none, true⟩], c.served ≠ some false ∧ (c.waiting = false → c.served = some true) := by
  intro c hc
  rcases List.mem_append.mp hc with hc | hc
  · exact h.served c hc
  · obtain rfl := List.mem_singleton.mp hc
    exact ⟨by simp, by simp⟩

theorem Clean.congr (h : Clean typed disk s) (hwrites : s'.writes = s.writes) (hreads : s'.reads = s.reads)
    (hbuffer : s'.bufferPath = s.bufferPath) (hdoc : s'.doc = s.doc) (hdirty : s'.dirty = s.dirty) : Clean typed disk s' where
  feeds := by rw [hdoc]; exact h.feeds
  served := by rw [hwrites]; exact h.served
  clean := by rw [hdirty]; exact h.clean
  writes := by rw [hwrites]; exact h.writes
  reads := by rw [hreads]; exact h.reads
  buffer := by rw [hbuffer, hdoc]; exact h.buffer
  typed := h.typed

theorem Unsaved.congr (h : Unsaved typed disk p s) (hwrites : s'.writes = s.writes) (hreads : s'.reads = s.reads)
    (hbuffer : s'.bufferPath = s.bufferPath) (hopen : s'.openPath = s.openPath) (hdoc : s'.doc = s.doc)
    (hdirty : s'.dirty = s.dirty) : Unsaved typed disk p s' where
  feeds := by rw [hdoc]; exact h.feeds
  served := by rw [hwrites]; exact h.served
  dirty := by rw [hdirty]; exact h.dirty
  buffer := by rw [hbuffer]; exact h.buffer
  opened := by rw [hopen]; exact h.opened
  last := by rw [hdoc]; exact h.last
  reads := by rw [hreads]; exact h.reads
  writes := by rw [hwrites, hdoc]; exact h.writes
  typed := h.typed

theorem Clean.readFile (h : Clean typed disk s) (p : Path) : Clean typed disk (s.readFile p) := by
  refine ⟨⟨h.feeds, h.served⟩, h.clean, h.writes, ?_, h.buffer, h.typed⟩
  intro c hc hwaiting t ht
  rcases List.mem_append.mp hc with hc | hc
  · exact h.reads c hc hwaiting t ht
  · obtain rfl := List.mem_singleton.mp hc
    cases ht

theorem Effect.clean (he : Effect s s') (h : Clean typed disk s) : Clean typed disk s' := by
  cases he with
  | rests tracked => exact h.congr rfl rfl rfl rfl rfl
  | flushes p next hp hdirty =>
    rw [h.clean] at hdirty
    cases hdirty
  | reads p hp hopen hfree => exact (h.readFile p).congr rfl rfl rfl rfl rfl
  | closes openPath hopen hfree =>
    exact ⟨⟨rfl, h.served⟩, rfl, h.writes, h.reads, fun p hp => (by cases hp), h.typed⟩

theorem Unsaved.flushed (h : Unsaved typed disk p s) (next : Then) (tracked : Bool) :
    Unsaved typed disk p { s with writes := s.writes ++ [⟨p, s.doc, next, none, true⟩], tracked } := by
  refine ⟨⟨h.feeds, h.toBasics.append p s.doc next⟩, h.dirty, h.buffer, h.opened, h.last, h.reads, ?_, h.typed⟩
  intro c hc hwaiting
  rcases List.mem_append.mp hc with hc | hc
  · exact h.writes c hc hwaiting
  · obtain rfl := List.mem_singleton.mp hc
    exact ⟨rfl, rfl, by simp⟩

theorem Effect.unsaved (he : Effect s s') (h : Unsaved typed disk p s) : Unsaved typed disk p s' := by
  have hshown : ∀ q, ¬ (s.openPath ≠ q ∧ (s.dirty = false ∨ s.bufferPath = none ∨ s.bufferPath = q)) := by
    intro q hq
    rw [h.opened, h.dirty, h.buffer] at hq
    simp at hq
  cases he with
  | rests tracked => exact h.congr rfl rfl rfl rfl rfl rfl
  | flushes q next hq hdirty =>
    obtain rfl := Option.some.inj (h.buffer.symm.trans hq)
    exact h.flushed next true
  | reads q hq hopen hfree => exact (hshown _ ⟨hopen, hfree⟩).elim
  | closes openPath hopen hfree => exact (hshown _ ⟨hopen, hfree⟩).elim

theorem Effect.pending (he : Effect s s') (h : Pending s) : Pending s' := by
  cases he with
  | rests tracked => exact h
  | flushes p next hp hdirty => exact Or.inr ⟨_, List.mem_append_right _ List.mem_cons_self, rfl⟩
  | reads p hp hopen hfree => exact h
  | closes openPath hopen hfree => exact h

theorem Clean.openBuffer (h : Clean typed disk s) (opened : Option Path) {bufferPath : Option Path} {content : Text}
    (hb : ∀ p, bufferPath = some p → disk p = some content) : Clean typed disk (s.openBuffer opened bufferPath content) := by
  obtain ⟨s₁, saveTimer, hfirst, hlast⟩ := openBuffer_cases opened bufferPath content s
  have hopened : Clean typed disk { s with loading := true, openPath := opened } := h.congr rfl rfl rfl rfl rfl
  have h₁ : Clean typed disk s₁ := by
    rcases hfirst with rfl | hfirst
    · exact hopened
    · exact hfirst.clean hopened
  have hfilled : Clean typed disk (s₁.filled bufferPath content saveTimer) :=
    ⟨⟨lineFeeds_idem content, h₁.served⟩, rfl, h₁.writes, h₁.reads, fun p hp => ⟨content, hb p hp, rfl⟩, h₁.typed⟩
  rcases hlast with hlast | hlast
  · rw [hlast]
    exact hfilled
  · exact hlast.clean hfilled

theorem Clean.resume (h : Clean typed disk s) (next : Then) : Clean typed disk (s.resume next) := by
  cases next with
  | nothing => exact h
  | load p =>
    unfold Pane.resume
    dsimp only
    split
    · exact h.openBuffer _ fun q hq => (by cases hq)
    · exact h.readFile p
  | clear => exact h.openBuffer _ fun q hq => (by cases hq)

theorem Clean.flush (h : Clean typed disk s) (next : Then) : Clean typed disk (s.flush next) := by
  have hnothing : s.flush next = s := by
    unfold Pane.flush
    split
    · rfl
    · simp [h.clean]
  rw [hnothing]
  exact h

theorem Clean.setDirty (h : Clean typed disk s) : Clean typed disk (s.setDirty false) := by
  rw [Pane.setDirty, if_pos h.clean]
  exact h

theorem Clean.flushed (h : Clean typed disk s) (c : WriteCall) (ok : Bool) : Clean typed disk (s.flushed c ok) := by
  unfold Pane.flushed
  split
  · exact h.setDirty.resume c.next
  · exact h.resume c.next

theorem Unsaved.flush (h : Unsaved typed disk p s) (next : Then) :
    Unsaved typed disk p (s.flush next) ∧ Pending (s.flush next) := by
  rw [flush_some h.dirty h.buffer]
  exact ⟨(h.flushed next s.tracked).congr rfl rfl rfl rfl rfl rfl, Or.inr ⟨_, List.mem_append_right _ List.mem_cons_self, rfl⟩⟩

/-- A write that has been served comes back, and the text is saved. -/
theorem Unsaved.answered (h : Unsaved typed disk p s) {c : WriteCall} {i : Nat} (hi : s.writes[i]? = some c)
    (hwaiting : c.waiting = true) (hserved : c.served = some true) :
    Clean typed disk (Pane.flushed c true { s with writes := s.writes.set i { c with waiting := false } }) := by
  have hdisk : disk p = some s.doc := (h.writes c (List.mem_of_getElem? hi) hwaiting).2.2 (by rw [hserved]; rfl)
  have hsaved : Clean typed disk { s with writes := s.writes.set i { c with waiting := false }, dirty := false } := by
    refine ⟨⟨h.feeds, ?_⟩, rfl, ?_, ?_, ?_, ?_⟩
    · intro x hx
      rcases List.mem_or_eq_of_mem_set hx with hx | rfl
      · exact h.served x hx
      · simp [hserved]
    · intro x hx hwaiting'
      rcases List.mem_or_eq_of_mem_set hx with hx | rfl
      · obtain ⟨hpath, hcontent, -⟩ := h.writes x hx hwaiting'
        rw [hpath, hcontent]
        exact hdisk
      · cases hwaiting'
    · intro x hx hwaiting' t ht
      rw [h.reads x hx] at hwaiting'
      cases hwaiting'
    · intro q hq
      obtain rfl := Option.some.inj (h.buffer.symm.trans hq)
      exact ⟨s.doc, hdisk, h.feeds.symm⟩
    · intro q t ht
      by_cases hq : q = p
      · subst hq
        obtain rfl := Option.some.inj (h.last.symm.trans ht)
        exact hdisk
      · exact h.typed q t hq ht
  unfold Pane.flushed
  rw [if_pos rfl]
  rcases setDirty_cases false { s with writes := s.writes.set i { c with waiting := false } } with hs | hs
  · rw [hs]
    exact hsaved.resume c.next
  · exact (hs.clean hsaved).resume c.next

/-- Nothing is on its way. -/
def Idle (s : Pane) : Prop := (∀ c ∈ s.writes, c.waiting = false) ∧ ∀ c ∈ s.reads, c.waiting = false

/-- An edit, when nothing is on its way and the file of the buffer is the one that is shown. -/
theorem docChanged_unsaved (hbasics : Basics s) (hidle : Idle s) (hrests : s.loading = false) (hmounted : s.mounted = true)
    (hbuffer : s.bufferPath = some p) (hopen : s.openPath = some p) (content : Text)
    (htyped : ∀ q t, q ≠ p → typed.lookup q = some t → disk q = some t) :
    Unsaved ((p, lineFeeds content) :: typed) disk p (s.docChanged content) ∧ Pending (s.docChanged content) := by
  have hchanged : Unsaved ((p, lineFeeds content) :: typed) disk p { s with doc := lineFeeds content, dirty := true } := by
    refine ⟨⟨lineFeeds_idem content, hbasics.served⟩, rfl, hbuffer, hopen, by simp, hidle.2, ?_, ?_⟩
    · intro c hc hwaiting
      rw [hidle.1 c hc] at hwaiting
      cases hwaiting
    · intro q t hq ht
      rw [List.lookup_cons, beq_false_of_ne hq] at ht
      exact htyped q t hq ht
  have hdirty : Unsaved ((p, lineFeeds content) :: typed) disk p (Pane.setDirty true { s with doc := lineFeeds content }) := by
    rcases setDirty_cases true { s with doc := lineFeeds content } with hs | hs
    · rw [hs]
      exact hchanged
    · exact hs.unsaved hchanged
  have hlistens : ¬ (s.loading || !s.mounted) = true := by simp [hrests, hmounted]
  unfold Pane.docChanged
  dsimp only
  rw [if_neg hlistens]
  exact ⟨hdirty.congr rfl rfl rfl rfl rfl rfl, Or.inl rfl⟩

/-- The server carries out a write of what the disk has already. -/
theorem Clean.serveWrite (h : Clean typed disk s) {c : WriteCall} {i : Nat} (hi : s.writes[i]? = some c)
    (hnone : c.served = none) :
    Clean typed (Function.update disk c.path (some c.content))
      { s with writes := s.writes.set i { c with served := some true } } := by
  have hmem := List.mem_of_getElem? hi
  have hwaiting : c.waiting = true := by
    by_contra hdone
    rw [(h.served c hmem).2 (by simpa using hdone)] at hnone
    cases hnone
  have hsame : Function.update disk c.path (some c.content) = disk := by
    rw [← h.writes c hmem hwaiting, Function.update_eq_self]
  rw [hsame]
  refine ⟨⟨h.feeds, ?_⟩, h.clean, ?_, h.reads, h.buffer, h.typed⟩
  · intro x hx
    rcases List.mem_or_eq_of_mem_set hx with hx | rfl
    · exact h.served x hx
    · simp
  · intro x hx hw
    rcases List.mem_or_eq_of_mem_set hx with hx | rfl
    · exact h.writes x hx hw
    · exact h.writes c hmem hwaiting

/-- The server carries out a write of the unsaved text. -/
theorem Unsaved.serveWrite (h : Unsaved typed disk p s) {c : WriteCall} {i : Nat} (hi : s.writes[i]? = some c)
    (hnone : c.served = none) :
    Unsaved typed (Function.update disk c.path (some c.content)) p
      { s with writes := s.writes.set i { c with served := some true } } := by
  have hmem := List.mem_of_getElem? hi
  have hwaiting : c.waiting = true := by
    by_contra hdone
    rw [(h.served c hmem).2 (by simpa using hdone)] at hnone
    cases hnone
  obtain ⟨hpath, hcontent, -⟩ := h.writes c hmem hwaiting
  rw [hpath, hcontent]
  refine ⟨⟨h.feeds, ?_⟩, h.dirty, h.buffer, h.opened, h.last, h.reads, ?_, ?_⟩
  · intro x hx
    rcases List.mem_or_eq_of_mem_set hx with hx | rfl
    · exact h.served x hx
    · simp
  · intro x hx hw
    rcases List.mem_or_eq_of_mem_set hx with hx | rfl
    · obtain ⟨hpath', hcontent', -⟩ := h.writes x hx hw
      exact ⟨hpath', hcontent', fun _ => Function.update_self p _ disk⟩
    · exact ⟨rfl, rfl, fun _ => Function.update_self p _ disk⟩
  · intro q t hq ht
    rw [Function.update_of_ne hq]
    exact h.typed q t hq ht

theorem Pending.set_write (h : Pending s) {c d : WriteCall} {i : Nat} (hi : s.writes[i]? = some c)
    (hd : d.waiting = c.waiting) : Pending { s with writes := s.writes.set i d } := by
  rcases h with h | ⟨x, hx, hw⟩
  · exact Or.inl h
  · right
    obtain ⟨j, hj⟩ := List.mem_iff_getElem?.mp hx
    by_cases hij : i = j
    · subst hij
      obtain rfl := Option.some.inj (hi.symm.trans hj)
      have hlt : i < s.writes.length := (List.getElem?_eq_some_iff.mp hi).1
      exact ⟨d, List.mem_iff_getElem?.mpr ⟨i, List.getElem?_set_self hlt⟩, hd.trans hw⟩
    · exact ⟨x, List.mem_iff_getElem?.mpr ⟨j, by rw [List.getElem?_set_ne hij]; exact hj⟩, hw⟩

/-- The server looks a file up. -/
theorem Clean.serveRead (h : Clean typed disk s) (c : ReadCall) (i : Nat) (ok : Bool) :
    Clean typed disk { s with reads := s.reads.set i { c with served := some (if ok then disk c.path else none) } } := by
  refine ⟨⟨h.feeds, h.served⟩, h.clean, h.writes, ?_, h.buffer, h.typed⟩
  intro x hx hw t ht
  rcases List.mem_or_eq_of_mem_set hx with hx | rfl
  · exact h.reads x hx hw t ht
  · cases ok with
    | true => simpa using ht
    | false => simp at ht

theorem Clean.answered (h : Clean typed disk s) {c : WriteCall} (i : Nat) (ok : Bool)
    (hserved : c.served = some true) :
    Clean typed disk (Pane.flushed c ok { s with writes := s.writes.set i { c with waiting := false } }) := by
  have hback : Clean typed disk { s with writes := s.writes.set i { c with waiting := false } } := by
    refine ⟨⟨h.feeds, ?_⟩, h.clean, ?_, h.reads, h.buffer, h.typed⟩
    · intro x hx
      rcases List.mem_or_eq_of_mem_set hx with hx | rfl
      · exact h.served x hx
      · simp [hserved]
    · intro x hx hw
      rcases List.mem_or_eq_of_mem_set hx with hx | rfl
      · exact h.writes x hx hw
      · cases hw
  exact hback.flushed c ok

theorem Clean.loaded (h : Clean typed disk s) {c : ReadCall} {i : Nat} (lost : Bool) (hi : s.reads[i]? = some c)
    (hwaiting : c.waiting = true) :
    Clean typed disk (Pane.loaded c (if lost then none else c.served.getD none)
      { s with reads := s.reads.set i { c with waiting := false } }) := by
  have hback : Clean typed disk { s with reads := s.reads.set i { c with waiting := false } } := by
    refine ⟨⟨h.feeds, h.served⟩, h.clean, h.writes, ?_, h.buffer, h.typed⟩
    intro x hx hw t ht
    rcases List.mem_or_eq_of_mem_set hx with hx | rfl
    · exact h.reads x hx hw t ht
    · cases hw
  unfold Pane.loaded
  split
  · rename_i content hfound
    refine hback.openBuffer _ ?_
    intro p hp
    obtain rfl := Option.some.inj hp
    cases lost with
    | true => cases hfound
    | false =>
      have hserved : c.served = some (some content) := by simpa [Option.getD_eq_iff] using hfound
      exact h.reads c (List.mem_of_getElem? hi) hwaiting content hserved
  · exact hback

end Settling

section Saving

variable {s s' : Watched} {e : Event} {selected : Option Path} {disk : Path → Option Text}

/-- An edit comes when nothing is on its way and the file of the buffer is the one that is shown, the server carries
out every write and its answers to them come, and no other program writes to the files. -/
def Calm (s : Watched) : Event → Prop
  | .edit _ => Idle s.world.pane ∧ s.world.pane.openPath = s.world.pane.bufferPath
  | .serveWrite _ ok => ok = true
  | .answerWrite _ lost => lost = false
  | .outside _ _ => False
  | _ => True

instance (s : Watched) (e : Event) : Decidable (Calm s e) :=
  match e with
  | .edit _ => inferInstanceAs (Decidable (((∀ c ∈ s.world.pane.writes, c.waiting = false) ∧
      ∀ c ∈ s.world.pane.reads, c.waiting = false) ∧ s.world.pane.openPath = s.world.pane.bufferPath))
  | .serveWrite _ ok => inferInstanceAs (Decidable (ok = true))
  | .answerWrite _ lost => inferInstanceAs (Decidable (lost = false))
  | .outside _ _ => .isFalse id
  | .select _ | .timer | .save | .blur | .unmount | .serveRead _ _ | .answerRead _ _ => .isTrue trivial

/-- Everything is saved, or the text of one file is about to be. -/
structure Watched.Settles (s : Watched) : Prop where
  sound : s.Sound
  saves : Clean s.typed s.world.disk s.world.pane ∨
    ∃ p, Unsaved s.typed s.world.disk p s.world.pane ∧ Pending s.world.pane

theorem start_settles (selected : Option Path) (disk : Path → Option Text) : (start selected disk).Settles where
  sound := start_sound selected disk
  saves := by
    have hmount : Clean [] disk (Pane.mount selected) := by
      refine ⟨⟨rfl, ?_⟩, rfl, ?_, ?_, ?_, ?_⟩ <;> simp [Pane.mount]
    exact Or.inl ((effect_cases _).clean hmount)

theorem Watched.Settles.step (h : s.Settles) (hcalm : Calm s e) (hs : watching.step s e = some s') : s'.Settles := by
  refine ⟨h.sound.step hs, ?_⟩
  simp only [watching, Option.map_eq_some_iff] at hs
  obtain ⟨w, hw, rfl⟩ := hs
  cases e with
  | select p =>
    obtain rfl := Option.some.inj hw
    simp only [World.onPane, Pane.setSelected, Watched.note]
    split
    · exact h.saves
    · obtain hclean | ⟨q, hunsaved, hpending⟩ := h.saves
      · exact Or.inl ((effect_cases _).clean (hclean.congr rfl rfl rfl rfl rfl))
      · exact Or.inr ⟨q, (effect_cases _).unsaved (hunsaved.congr rfl rfl rfl rfl rfl rfl), (effect_cases _).pending hpending⟩
  | edit content =>
    simp only [World.step] at hw
    split at hw
    · rename_i hmounted
      obtain rfl := Option.some.inj hw
      rw [Bool.and_eq_true] at hmounted
      obtain ⟨hidle, hopen⟩ := hcalm
      obtain ⟨p, hp⟩ := Option.isSome_iff_exists.mp (h.sound.pane.owned.editable hmounted.2)
      rw [hp] at hopen
      simp only [Watched.note, hp, World.onPane]
      right
      obtain hclean | ⟨q, hunsaved, -⟩ := h.saves
      · exact ⟨p, docChanged_unsaved hclean.toBasics hidle h.sound.pane.rests hmounted.1 hp hopen content
          fun q t _ ht => hclean.typed q t ht⟩
      · obtain rfl := Option.some.inj (hunsaved.buffer.symm.trans hp)
        exact ⟨q, docChanged_unsaved hunsaved.toBasics hidle h.sound.pane.rests hmounted.1 hp hopen content hunsaved.typed⟩
    · cases hw
  | timer =>
    simp only [World.step] at hw
    split at hw
    · obtain rfl := Option.some.inj hw
      simp only [World.onPane, Watched.note]
      obtain hclean | ⟨q, hunsaved, -⟩ := h.saves
      · have hoff : Clean s.typed s.world.disk { s.world.pane with saveTimer := false } := hclean.congr rfl rfl rfl rfl rfl
        exact Or.inl (hoff.flush .nothing)
      · have hoff : Unsaved s.typed s.world.disk q { s.world.pane with saveTimer := false } :=
          hunsaved.congr rfl rfl rfl rfl rfl rfl
        exact Or.inr ⟨q, hoff.flush .nothing⟩
    · cases hw
  | save =>
    simp only [World.step] at hw
    split at hw
    · obtain rfl := Option.some.inj hw
      obtain hclean | ⟨q, hunsaved, -⟩ := h.saves
      · exact Or.inl (hclean.flush .nothing)
      · exact Or.inr ⟨q, hunsaved.flush .nothing⟩
    · cases hw
  | blur =>
    simp only [World.step] at hw
    split at hw
    · obtain rfl := Option.some.inj hw
      obtain hclean | ⟨q, hunsaved, -⟩ := h.saves
      · exact Or.inl (hclean.flush .nothing)
      · exact Or.inr ⟨q, hunsaved.flush .nothing⟩
    · cases hw
  | unmount =>
    simp only [World.step] at hw
    split at hw
    · obtain rfl := Option.some.inj hw
      simp only [World.onPane, Watched.note]
      obtain hclean | ⟨q, hunsaved, -⟩ := h.saves
      · have hoff : Clean s.typed s.world.disk { s.world.pane with saveTimer := false } := hclean.congr rfl rfl rfl rfl rfl
        exact Or.inl ((hoff.flush .nothing).congr rfl rfl rfl rfl rfl)
      · have hoff : Unsaved s.typed s.world.disk q { s.world.pane with saveTimer := false } :=
          hunsaved.congr rfl rfl rfl rfl rfl rfl
        obtain ⟨hflushed, hpending⟩ := hoff.flush .nothing
        exact Or.inr ⟨q, hflushed.congr rfl rfl rfl rfl rfl rfl, hpending⟩
    · cases hw
  | serveWrite i ok =>
    obtain rfl : ok = true := hcalm
    simp only [World.step] at hw
    split at hw
    · rename_i c hi
      split at hw
      · rename_i hnone
        obtain rfl := Option.some.inj hw
        rw [Option.isNone_iff_eq_none] at hnone
        simp only [Watched.note, if_true]
        obtain hclean | ⟨q, hunsaved, hpending⟩ := h.saves
        · exact Or.inl (hclean.serveWrite hi hnone)
        · exact Or.inr ⟨q, hunsaved.serveWrite hi hnone, hpending.set_write hi rfl⟩
      · cases hw
    · cases hw
  | answerWrite i lost =>
    obtain rfl : lost = false := hcalm
    simp only [World.step] at hw
    split at hw
    · rename_i c hi
      split at hw
      · rename_i hback
        obtain rfl := Option.some.inj hw
        simp only [Bool.and_eq_true, Bool.false_or] at hback
        have hserved (hb : Basics s.world.pane) : c.served = some true := by
          obtain ⟨ok, hok⟩ := Option.isSome_iff_exists.mp hback.2
          cases ok with
          | true => exact hok
          | false => exact ((hb.served c (List.mem_of_getElem? hi)).1 hok).elim
        left
        obtain hclean | ⟨q, hunsaved, -⟩ := h.saves
        · exact hclean.answered i _ (hserved hclean.toBasics)
        · have hback' := hunsaved.answered hi hback.1 (hserved hunsaved.toBasics)
          simpa only [World.onPane, Watched.note, hserved hunsaved.toBasics, Bool.not_false, decide_true, Bool.and_true] using hback'
      · cases hw
    · cases hw
  | serveRead i ok =>
    simp only [World.step] at hw
    split at hw
    · rename_i c hi
      split at hw
      · obtain rfl := Option.some.inj hw
        obtain hclean | ⟨q, hunsaved, hpending⟩ := h.saves
        · exact Or.inl (hclean.serveRead c i ok)
        · refine Or.inr ⟨q, ⟨⟨hunsaved.feeds, hunsaved.served⟩, hunsaved.dirty, hunsaved.buffer, hunsaved.opened, hunsaved.last, ?_,
            hunsaved.writes, hunsaved.typed⟩, hpending⟩
          intro x hx
          rcases List.mem_or_eq_of_mem_set hx with hx | rfl
          · exact hunsaved.reads x hx
          · exact hunsaved.reads c (List.mem_of_getElem? hi)
      · cases hw
    · cases hw
  | answerRead i lost =>
    simp only [World.step] at hw
    split at hw
    · rename_i c hi
      split at hw
      · rename_i hback
        obtain rfl := Option.some.inj hw
        rw [Bool.and_eq_true] at hback
        obtain hclean | ⟨q, hunsaved, -⟩ := h.saves
        · exact Or.inl (hclean.loaded lost hi hback.1)
        · rw [hunsaved.reads c (List.mem_of_getElem? hi)] at hback
          cases hback.1
      · cases hw
    · cases hw
  | outside p content => cases hcalm

/-- As long as edits come only when nothing is on its way, no write fails and no other program writes: every file has
what was typed into it last, apart from the one that is dirty, whose text the timer or a write is about to bring to the
disk; and a buffer that is not dirty shows what its file has. -/
theorem autosave_settles (h : watching.Reaches Calm (start selected disk) s) :
    (∀ p t, s.typed.lookup p = some t → s.world.disk p = some t ∨
      (s.world.pane.dirty = true ∧ s.world.pane.bufferPath = some p ∧ s.world.pane.doc = t)) ∧
    (s.world.pane.dirty = true →
      s.world.pane.saveTimer = true ∨ ∃ c ∈ s.world.pane.writes, c.waiting = true ∧ c.content = s.world.pane.doc) ∧
    (s.world.pane.dirty = false → ∀ p, s.world.pane.bufferPath = some p →
      ∃ t, s.world.disk p = some t ∧ s.world.pane.doc = lineFeeds t) := by
  have hsettles : s.Settles := h.keeps (start_settles selected disk) fun _ _ _ hs hcalm hstep => hs.step hcalm hstep
  obtain hclean | ⟨q, hunsaved, hpending⟩ := hsettles.saves
  · refine ⟨fun p t ht => Or.inl (hclean.typed p t ht), fun hdirty => ?_, fun _ => hclean.buffer⟩
    rw [hclean.clean] at hdirty
    cases hdirty
  · refine ⟨fun p t ht => ?_, fun _ => ?_, fun hclean => ?_⟩
    · by_cases hp : p = q
      · subst hp
        exact Or.inr ⟨hunsaved.dirty, hunsaved.buffer, Option.some.inj (hunsaved.last.symm.trans ht)⟩
      · exact Or.inl (hunsaved.typed p t hp ht)
    · rcases hpending with htimer | ⟨c, hc, hwaiting⟩
      · exact Or.inl htimer
      · exact Or.inr ⟨c, hc, hwaiting, (hunsaved.writes c hc hwaiting).2.1⟩
    · rw [hunsaved.dirty] at hclean
      cases hclean

theorem autosave_settles_typed :
    ∃ s, watching.play Calm (start (some "/a.md".toList) readme)
        [.serveRead 0 true, .answerRead 0 false, .edit "new".toList, .timer, .serveWrite 0 true] = some s ∧
      (∀ p t, s.typed.lookup p = some t → s.world.disk p = some t ∨
        (s.world.pane.dirty = true ∧ s.world.pane.bufferPath = some p ∧ s.world.pane.doc = t)) ∧
      (s.world.pane.dirty = true →
        s.world.pane.saveTimer = true ∨ ∃ c ∈ s.world.pane.writes, c.waiting = true ∧ c.content = s.world.pane.doc) ∧
      (s.world.pane.dirty = false → ∀ p, s.world.pane.bufferPath = some p →
        ∃ t, s.world.disk p = some t ∧ s.world.pane.doc = lineFeeds t) := by
  obtain ⟨s, hs⟩ : ∃ s, watching.play Calm (start (some "/a.md".toList) readme)
      [.serveRead 0 true, .answerRead 0 false, .edit "new".toList, .timer, .serveWrite 0 true] = some s := ⟨_, rfl⟩
  exact ⟨s, hs, autosave_settles (Coop.Machine.play_reaches hs)⟩

/-- The condition is needed: a text that is typed while a write of an earlier one is on its way stays unsaved. -/
example :
    (watching.play Coop.Machine.anyEvent (start (some "/a.md".toList) readme)
      [.serveRead 0 true, .answerRead 0 false, .edit "n".toList, .timer, .edit "ne".toList, .serveWrite 0 true,
        .answerWrite 0 false, .timer]).map (fun s =>
          (s.world.pane.dirty, s.world.pane.saveTimer, s.world.pane.doc, s.world.disk "/a.md".toList, s.world.pane.writes.length)) =
      some (false, false, "ne".toList, some "n".toList, 1) := by
  decide +kernel

end Saving

end AgentGrove.Editor
