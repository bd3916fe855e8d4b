import AgentGrove.Durable.Filing
import AgentGrove.Coop.Census
import Mathlib.Data.List.Perm.Basic
import Mathlib.Data.Countable.Basic
import Mathlib.Logic.Equiv.List

namespace AgentGrove

open Coop Protocol

abbrev FileServer := Pool FileSite SettingsRequest Bool Disk

abbrev FileEvent := Event Bool SettingsRequest

/-- What the file holds; `none` if it is missing or unreadable. -/
def stored (K : Codec) (d : Disk) : Option Settings := d.file.bind K.fromSlice

/-- The settings after requests one at a time. -/
def afterAll (start : Option Settings) (order : List SettingsRequest) : Option Settings :=
  order.foldl (fun settings r => r.effect settings) start

/-- The settings a sequential execution leaves, with the user's last put in them. -/
structure Sequential (start : Option Settings) (requests : List SettingsRequest)
    (final : Option Settings) : Prop where
  some_order : ∃ order, order.Perm requests ∧ final = afterAll start order ∧
    ∀ before body after, order = before ++ .put body :: after → (∀ r ∈ after, r.isPut = false) →
      ∃ s, final = some s ∧ Preserves body s

/-- Once all requests have finished the file is that of a sequential execution. -/
def Durable (K : Codec) (start : Disk) (p : FileServer) : Prop :=
  (∀ t ∈ p.threads, t.finished = true) →
    Sequential (stored K start) (p.threads.map Thread.tag) (stored K p.shared)

/-- No operation on the file fails. -/
def Working (_ : FileServer) : FileEvent → Prop
  | .run _ ok => ok = true
  | .arrive _ => True

/-- Nobody reads or truncates while another request is between its truncate and
its write, and nobody truncates while another has read and not written back yet. -/
def Exclusive (p : FileServer) : FileEvent → Prop
  | .run i ok => ok = true ∧ ∀ other ∈ p.sites.eraseIdx i,
      (p.At i .read → other.2 ≠ some .write) ∧
      (p.At i .truncate → other.2 ≠ some .write ∧
        (other.2 = some .truncate → other.1.isPut = true))
  | .arrive _ => True

/-- Requests whose effect has taken place, if only in the order. -/
def FilePhase.over : FilePhase → Bool
  | .done => true
  | .opened _ .done => true
  | _ => false

def overs (roles : List FileRole) : List SettingsRequest :=
  (roles.filter (fun r => r.phase.over)).map FileRole.request

def FileRole.counted (r : FileRole) : List SettingsRequest :=
  if r.phase.over then [r.request] else []

theorem overs_eq (roles : List FileRole) : overs roles = roles.flatMap FileRole.counted := by
  induction roles with
  | nil => rfl
  | cons r roles ih =>
    rw [List.flatMap_cons, ← ih]
    unfold overs FileRole.counted
    rw [List.filter_cons]
    split <;> rfl

theorem overs_append (roles roles' : List FileRole) :
    overs (roles ++ roles') = overs roles ++ overs roles' := by
  simp [overs]

theorem overs_set {roles : List FileRole} {i : Nat} {r : FileRole} (r' : FileRole)
    (hi : roles[i]? = some r) :
    (overs (roles.set i r') ++ r.counted).Perm (overs roles ++ r'.counted) := by
  rw [overs_eq, overs_eq]
  exact flatMap_set_perm hi _ _

/-- Settings a request holds ready to write: its whole effect, or the seed pass
that comes before it. -/
def Fits (r : SettingsRequest) (s : Settings) (next : FilePhase) (now : Option Settings) : Prop :=
  (next = .done ∧ r.effect now = some s) ∨
    (r.reads = true ∧ r.saves s = true ∧ next = .held (r.edit s) .done ∧ s = seeded (now.getD {}))

/-- The same once the file has been truncated for it. -/
def Wrote (r : SettingsRequest) (s : Settings) (next : FilePhase) (now : Option Settings) : Prop :=
  (next = .done ∧ now = some s) ∨
    (r.reads = true ∧ r.saves s = true ∧ next = .held (r.edit s) .done ∧ s = seeded (now.getD {}))

theorem Fits.after_load {r : SettingsRequest} (h : r.reads = true) (now : Option Settings) :
    Fits r (seeded (now.getD {})) (afterLoad r (seeded (now.getD {}))) now := by
  unfold afterLoad
  split
  · rename_i hs
    exact .inr ⟨h, hs, rfl, rfl⟩
  · rename_i hs
    refine .inl ⟨rfl, ?_⟩
    rw [effect_reads h, edit_of_not_saves (Bool.eq_false_iff.mpr hs)]

theorem Fits.of_put {r : SettingsRequest} {s : Settings} {next : FilePhase} {now now' : Option Settings}
    (h : Fits r s next now) (hp : r.isPut = true) : Fits r s next now' := by
  cases r with
  | put body =>
    obtain ⟨hn, he⟩ | ⟨hr, _⟩ := h
    · exact .inl ⟨hn, he⟩
    · cases hr
  | _ => cases hp

theorem Fits.of_seeded {r : SettingsRequest} {s : Settings} {next : FilePhase} {now : Option Settings}
    (h : Fits r s next now) (hr : r.reads = true) : Fits r s next (some (seeded (now.getD {}))) := by
  obtain ⟨hn, he⟩ | ⟨_, hs, hn, he⟩ := h
  · exact .inl ⟨hn, (effect_seeded hr now).trans he⟩
  · refine .inr ⟨hr, hs, hn, ?_⟩
    rw [Option.getD_some, seeded_seeded, he]

def FilePhase.isOpened : FilePhase → Bool
  | .opened _ _ => true
  | _ => false

def FilePhase.isHeld : FilePhase → Bool
  | .held _ _ => true
  | _ => false

/-- The invariant: the file is what the requests that have taken place make of
the start, but for a request in the middle of its writing or between its seed
pass and its edit. -/
structure Filed (K : Codec) (start : Option Settings) (order : List SettingsRequest) (d : Disk)
    (roles : List FileRole) : Prop where
  perm : order.Perm (overs roles)
  ready : ∀ r ∈ roles, r.phase = .ready → r.request.reads = true
  held : ∀ r ∈ roles, ∀ s next, r.phase = .held s next →
    (r.request.isPut = true ∨ r.request.reads = true) ∧
      Fits r.request s next (afterAll start order)
  opened : ∀ (i : Nat) r s next, roles[i]? = some r → r.phase = .opened s next →
    d.file = some [] ∧ Wrote r.request s next (afterAll start order) ∧
      ∀ j r', roles[j]? = some r' → r'.phase.isOpened = true → j = i
  settled : (∀ r ∈ roles, r.phase.isOpened = false) →
    stored K d = afterAll start order ∨
      (stored K d = some (seeded ((afterAll start order).getD {})) ∧
        ∃ r ∈ roles, r.request.isPut = false ∧ r.phase.isHeld = true)

theorem afterAll_concat (start : Option Settings) (order : List SettingsRequest)
    (r : SettingsRequest) : afterAll start (order ++ [r]) = r.effect (afterAll start order) := by
  simp [afterAll]

variable {K : Codec} {start : Option Settings} {order : List SettingsRequest} {d : Disk}
  {roles : List FileRole} {i : Nat} {r : FileRole}

/-- A phase that takes place with this step joins the order. -/
theorem perm_joins (h : order.Perm (overs roles)) (hi : roles[i]? = some r) {next : FilePhase}
    (hr : r.phase.over = false) (hn : next.over = true) :
    (order ++ [r.request]).Perm (overs (roles.set i ⟨r.request, next⟩)) := by
  have hs := overs_set ⟨r.request, next⟩ hi
  simp only [FileRole.counted, hr, hn, Bool.false_eq_true, if_false, if_true, List.append_nil] at hs
  exact (h.append_right _).trans hs.symm

theorem perm_stays (h : order.Perm (overs roles)) (hi : roles[i]? = some r) {next : FilePhase}
    (he : r.phase.over = next.over) :
    order.Perm (overs (roles.set i ⟨r.request, next⟩)) := by
  have hs := overs_set ⟨r.request, next⟩ hi
  simp only [FileRole.counted, he] at hs
  exact h.trans ((List.perm_append_right_iff _).mp hs).symm

/-- The pass over the file's content is the pass over the settings that count. -/
theorem Filed.seeded_file (h : Filed K start order d roles)
    (hno : ∀ r ∈ roles, r.phase.isOpened = false) :
    seeded ((stored K d).getD {}) = seeded ((afterAll start order).getD {}) := by
  obtain he | ⟨he, _⟩ := h.settled hno
  · rw [he]
  · rw [he, Option.getD_some, seeded_seeded]

/-- The settled clause survives as long as whoever is between two writes stays. -/
theorem still_held {roles' : List FileRole} (hi : roles[i]? = some r) (hr : r.phase.isHeld = false)
    (hkeep : ∀ j, j ≠ i → roles'[j]? = roles[j]?)
    (h : ∃ r ∈ roles, r.request.isPut = false ∧ r.phase.isHeld = true) :
    ∃ r ∈ roles', r.request.isPut = false ∧ r.phase.isHeld = true := by
  obtain ⟨r₁, hm, hp, hh⟩ := h
  obtain ⟨j, hj⟩ := List.getElem?_of_mem hm
  have hne : j ≠ i := by
    intro he
    rw [he, hi] at hj
    cases hj
    rw [hr] at hh
    cases hh
  exact ⟨r₁, List.mem_of_getElem? ((hkeep j hne).trans hj), hp, hh⟩

theorem set_other (roles : List FileRole) (i : Nat) (r' : FileRole) {j : Nat} (h : j ≠ i) :
    (roles.set i r')[j]? = roles[j]? :=
  List.getElem?_set_ne (Ne.symm h)

theorem not_opened_of_mem {r' : FileRole} (hno : ∀ r ∈ roles, r.phase.isOpened = false)
    (hr : r'.phase.isOpened = false) : ∀ r ∈ roles.set i r', r.phase.isOpened = false := by
  intro r₁ hm
  rcases List.mem_or_eq_of_mem_set hm with ho | he
  · exact hno r₁ ho
  · exact he ▸ hr

theorem nobody_opened (hno : ∀ r ∈ roles, r.phase.isOpened = false) {j : Nat} {s : Settings}
    {next : FilePhase} (hj : roles[j]? = some r) : r.phase ≠ .opened s next := by
  intro he
  have := hno r (List.mem_of_getElem? hj)
  rw [he] at this
  cases this

/-- A reader that has to save its settings takes them along. -/
theorem Filed.holds (h : Filed K start order d roles) (hi : roles[i]? = some r)
    (hr : r.phase = .ready) (hno : ∀ r ∈ roles, r.phase.isOpened = false) {s : Settings}
    {next : FilePhase} (hf : Fits r.request s next (afterAll start order)) :
    Filed K start order d (roles.set i ⟨r.request, .held s next⟩) where
  perm := perm_stays h.perm hi (by rw [hr]; rfl)
  ready r₁ hm he := by
    rcases List.mem_or_eq_of_mem_set hm with ho | hn
    · exact h.ready r₁ ho he
    · rw [hn] at he
      cases he
  held r₁ hm s₁ next₁ he := by
    rcases List.mem_or_eq_of_mem_set hm with ho | hn
    · exact h.held r₁ ho s₁ next₁ he
    · rw [hn] at he ⊢
      cases he
      exact ⟨.inr (h.ready r (List.mem_of_getElem? hi) hr), hf⟩
  opened j r₁ s₁ next₁ hj he := absurd he (nobody_opened (not_opened_of_mem hno rfl) hj)
  settled _ := by
    obtain he | ⟨he, hex⟩ := h.settled hno
    · exact .inl he
    · exact .inr ⟨he, still_held hi (by rw [hr]; rfl) (fun j hj => set_other _ _ _ hj) hex⟩

/-- A reader with nothing to write has taken place. -/
theorem Filed.finds (h : Filed K start order d roles) (hi : roles[i]? = some r)
    (hr : r.phase = .ready) (hno : ∀ r ∈ roles, r.phase.isOpened = false)
    (he : r.request.effect (afterAll start order) = some (seeded ((afterAll start order).getD {})))
    (hd : stored K d = some (seeded ((afterAll start order).getD {}))) :
    Filed K start (order ++ [r.request]) d (roles.set i ⟨r.request, .done⟩) where
  perm := perm_joins h.perm hi (by rw [hr]; rfl) rfl
  ready r₁ hm he := by
    rcases List.mem_or_eq_of_mem_set hm with ho | hn
    · exact h.ready r₁ ho he
    · rw [hn] at he
      cases he
  held r₁ hm s₁ next₁ hp := by
    rcases List.mem_or_eq_of_mem_set hm with ho | hn
    · obtain ⟨hor, hf⟩ := h.held r₁ ho s₁ next₁ hp
      rw [afterAll_concat, he]
      refine ⟨hor, ?_⟩
      obtain hput | hreads := hor
      · exact hf.of_put hput
      · exact hf.of_seeded hreads
    · rw [hn] at hp
      cases hp
  opened j r₁ s₁ next₁ hj hp := absurd hp (nobody_opened (not_opened_of_mem hno rfl) hj)
  settled _ := .inl (by rw [afterAll_concat, he, hd])

theorem Filed.read (h : Filed K start order d roles) (hi : roles[i]? = some r)
    (hr : r.phase = .ready) (hno : ∀ r ∈ roles, r.phase.isOpened = false) :
    ∃ order', Filed K start order' d
      (roles.set i ⟨r.request, afterRead r.request (parseSettings K d.file)⟩) := by
  have hreads := h.ready r (List.mem_of_getElem? hi) hr
  have hparse : parseSettings K d.file = (stored K d).getD {} := rfl
  have hseed := h.seeded_file hno
  have hfits := Fits.after_load hreads (afterAll start order)
  rw [hparse]
  unfold afterRead
  rw [hseed]
  cases hd : (applySeeds ((stored K d).getD {})).2 with
  | true =>
    simp only [if_true]
    exact ⟨order, h.holds hi hr hno hfits⟩
  | false =>
    simp only [Bool.false_eq_true, if_false]
    -- Nothing to seed, so the file was there and is seeded.
    have hfile : stored K d = some (seeded ((afterAll start order).getD {})) := by
      cases hs : stored K d with
      | none =>
        rw [hs] at hd
        exact absurd hd (by rw [Option.getD_none, default_dirty]; decide)
      | some s =>
        rw [hs, Option.getD_some] at hd hseed
        rw [← hseed, seeded_of_clean hd]
    unfold afterLoad
    split
    · exact ⟨order, h.holds hi hr hno (.inl ⟨rfl, effect_reads hreads _⟩)⟩
    · rename_i hs
      refine ⟨_, h.finds hi hr hno ?_ hfile⟩
      rw [effect_reads hreads, edit_of_not_saves (Bool.eq_false_iff.mpr hs)]

/-- A truncate while nobody else depends on what was there. -/
theorem Filed.truncate (h : Filed K start order d roles) (hi : roles[i]? = some r) {s : Settings}
    {next : FilePhase} (hr : r.phase = .held s next)
    (hno : ∀ j r', j ≠ i → roles[j]? = some r' → r'.phase.isOpened = false ∧
      (r'.phase.isHeld = true → r'.request.isPut = true)) :
    ∃ order', Filed K start order' { file := some [] }
      (roles.set i ⟨r.request, .opened s next⟩) := by
  have hmem : ∀ r₁ ∈ roles.set i ⟨r.request, .opened s next⟩,
      r₁ = ⟨r.request, .opened s next⟩ ∨ ∃ j, j ≠ i ∧ roles[j]? = some r₁ := by
    intro r₁ hm
    obtain ⟨j, hj⟩ := List.getElem?_of_mem hm
    by_cases he : j = i
    · rw [he, List.getElem?_set_self (List.getElem?_eq_some_iff.mp hi).1] at hj
      exact .inl (Option.some.inj hj).symm
    · rw [set_other _ _ _ he] at hj
      exact .inr ⟨j, he, hj⟩
  have hself : (roles.set i ⟨r.request, .opened s next⟩)[i]? = some ⟨r.request, .opened s next⟩ :=
    List.getElem?_set_self (List.getElem?_eq_some_iff.mp hi).1
  have hfits := (h.held r (List.mem_of_getElem? hi) s next hr).2
  have hkey : ∀ order', order'.Perm (overs (roles.set i ⟨r.request, .opened s next⟩)) →
      Wrote r.request s next (afterAll start order') →
      Filed K start order' { file := some [] } (roles.set i ⟨r.request, .opened s next⟩) := by
    intro order' hperm hval
    refine ⟨hperm, fun r₁ hm he => ?_, fun r₁ hm s₁ next₁ he => ?_, fun j r₁ s₁ next₁ hj he => ?_,
      fun hnone => ?_⟩
    · obtain hn | ⟨j, _, hj⟩ := hmem r₁ hm
      · rw [hn] at he
        cases he
      · exact h.ready r₁ (List.mem_of_getElem? hj) he
    · obtain hn | ⟨j, hne, hj⟩ := hmem r₁ hm
      · rw [hn] at he
        cases he
      · have hput := (hno j r₁ hne hj).2 (by rw [he]; rfl)
        exact ⟨.inl hput, (h.held r₁ (List.mem_of_getElem? hj) s₁ next₁ he).2.of_put hput⟩
    · have hwho : ∀ j r', (roles.set i ⟨r.request, .opened s next⟩)[j]? = some r' →
          r'.phase.isOpened = true → j = i := by
        intro j r' hj ho
        by_contra hne
        rw [set_other _ _ _ hne] at hj
        rw [(hno j r' hne hj).1] at ho
        cases ho
      have hji : j = i := hwho j r₁ hj (by rw [he]; rfl)
      rw [hji, hself] at hj
      cases hj
      cases he
      exact ⟨rfl, hval, fun j r' hj ho => (hwho j r' hj ho).trans hji.symm⟩
    · cases hnone _ (List.mem_of_getElem? hself)
  obtain ⟨rfl, he⟩ | ⟨hreads, hs, rfl, he⟩ := hfits
  · refine ⟨order ++ [r.request], hkey _ (perm_joins h.perm hi (by rw [hr]; rfl) rfl) (.inl ⟨rfl, ?_⟩)⟩
    rw [afterAll_concat]
    exact he
  · exact ⟨order, hkey order (perm_stays h.perm hi (by rw [hr]; rfl)) (.inr ⟨hreads, hs, rfl, he⟩)⟩

/-- The write that ends a replacement of the file. -/
theorem Filed.write (h : Filed K start order d roles) (hi : roles[i]? = some r) {s : Settings}
    {next : FilePhase} (hr : r.phase = .opened s next) :
    Filed K start order (d.write (K.toVecPretty s)) (roles.set i ⟨r.request, next⟩) := by
  obtain ⟨hfile, hval, honly⟩ := h.opened i r s next hi hr
  have hstored : stored K (d.write (K.toVecPretty s)) = some s := by
    unfold stored Disk.write
    rw [hfile]
    simp [K.fromSlice_toVecPretty]
  have hself : (roles.set i ⟨r.request, next⟩)[i]? = some ⟨r.request, next⟩ :=
    List.getElem?_set_self (List.getElem?_eq_some_iff.mp hi).1
  have hopen : next.isOpened = false := by
    obtain ⟨rfl, _⟩ | ⟨_, _, rfl, _⟩ := hval <;> rfl
  have hno : ∀ r₁ ∈ roles.set i ⟨r.request, next⟩, r₁.phase.isOpened = false := by
    intro r₁ hm
    obtain ⟨j, hj⟩ := List.getElem?_of_mem hm
    by_cases he : j = i
    · rw [he, hself] at hj
      cases hj
      exact hopen
    · rw [set_other _ _ _ he] at hj
      cases ho : r₁.phase.isOpened with
      | false => rfl
      | true => exact absurd (honly j r₁ hj ho) he
  refine ⟨perm_stays h.perm hi ?_, fun r₁ hm he => ?_, fun r₁ hm s₁ next₁ he => ?_,
    fun j r₁ s₁ next₁ hj he => absurd he (nobody_opened hno hj), fun _ => ?_⟩
  · rw [hr]
    obtain ⟨rfl, _⟩ | ⟨_, _, rfl, _⟩ := hval <;> rfl
  · rcases List.mem_or_eq_of_mem_set hm with ho | hn
    · exact h.ready r₁ ho he
    · rw [hn] at he
      obtain ⟨rfl, _⟩ | ⟨_, _, rfl, _⟩ := hval <;> cases he
  · rcases List.mem_or_eq_of_mem_set hm with ho | hn
    · exact h.held r₁ ho s₁ next₁ he
    · rw [hn] at he ⊢
      obtain ⟨rfl, _⟩ | ⟨hreads, _, rfl, hs⟩ := hval
      · cases he
      · cases he
        refine ⟨.inr hreads, .inl ⟨rfl, ?_⟩⟩
        rw [effect_reads hreads, hs]
  · obtain ⟨rfl, hs⟩ | ⟨hreads, _, rfl, hs⟩ := hval
    · exact .inl (hstored.trans hs.symm)
    · refine .inr ⟨by rw [hstored, hs], _, List.mem_of_getElem? hself, ?_, rfl⟩
      cases hq : r.request with
      | put body =>
        rw [hq] at hreads
        cases hreads
      | _ => rfl

/-- A new role that has not touched the file. -/
theorem Filed.concat (h : Filed K start order d roles) {order' : List SettingsRequest} {x : FileRole}
    (hperm : order'.Perm (overs (roles ++ [x]))) (hval : afterAll start order' = afterAll start order)
    (hopen : x.phase.isOpened = false) (hready : x.phase = .ready → x.request.reads = true)
    (hheld : ∀ s next, x.phase = .held s next →
      x.request.isPut = true ∧ Fits x.request s next (afterAll start order)) :
    Filed K start order' d (roles ++ [x]) := by
  refine ⟨hperm, fun r hm he => ?_, fun r hm s next he => ?_, fun j r s next hj he => ?_,
    fun hno => ?_⟩
  · rcases List.mem_append.mp hm with ho | hn
    · exact h.ready r ho he
    · rw [List.mem_singleton.mp hn] at he ⊢
      exact hready he
  · rw [hval]
    rcases List.mem_append.mp hm with ho | hn
    · exact h.held r ho s next he
    · rw [List.mem_singleton.mp hn] at he ⊢
      exact ⟨.inl (hheld s next he).1, (hheld s next he).2⟩
  · obtain ho | ⟨-, rfl⟩ := get_concat hj
    · obtain ⟨hfile, hw, honly⟩ := h.opened j r s next ho he
      refine ⟨hfile, hval ▸ hw, fun k r' hk hop => ?_⟩
      obtain ho' | ⟨-, rfl⟩ := get_concat hk
      · exact honly k r' ho' hop
      · rw [hopen] at hop
        cases hop
    · rw [he] at hopen
      cases hopen
  · rw [hval]
    have hold : ∀ r ∈ roles, r.phase.isOpened = false :=
      fun r hr => hno r (List.mem_append_left _ hr)
    obtain he | ⟨he, r, hm, hp⟩ := h.settled hold
    · exact .inl he
    · exact .inr ⟨he, r, List.mem_append_left _ hm, hp⟩

/-- A request arrives; one that is rejected at once is over. -/
theorem Filed.arrive (h : Filed K start order d roles) (q : SettingsRequest) :
    ∃ order', Filed K start order' d (roles ++ [⟨q, firstPhase q⟩]) := by
  have hperm : order.Perm (overs roles ++ []) := (List.append_nil (overs roles)).symm ▸ h.perm
  cases hr : q.reads with
  | true =>
    have hphase : firstPhase q = .ready := by
      cases q with
      | put body => cases hr
      | _ =>
        unfold firstPhase
        dsimp only
        rw [if_pos hr]
    rw [hphase]
    refine ⟨order, h.concat ?_ rfl rfl (fun _ => hr) (fun _ _ he => nomatch he)⟩
    rw [overs_append]
    exact hperm
  | false =>
    cases hp : q.isPut with
    | true =>
      cases q with
      | put body =>
        refine ⟨order, h.concat ?_ rfl rfl (fun he => nomatch he) (fun s next he => ?_)⟩
        · rw [overs_append]
          exact hperm
        · cases he
          exact ⟨rfl, .inl ⟨rfl, rfl⟩⟩
      | _ => cases hp
    | false =>
      have hphase : firstPhase q = .done := by
        cases q with
        | put body => cases hp
        | importTheme t =>
          unfold firstPhase
          dsimp only
          rw [hr]
          rfl
        | _ => cases hr
      rw [hphase]
      refine ⟨order ++ [q], h.concat ?_ ?_ rfl (fun he => nomatch he) (fun _ _ he => nomatch he)⟩
      · rw [overs_append]
        exact h.perm.append_right _
      · rw [afterAll_concat, effect_rejected hr hp]

/-- With all requests over the file is as the order says. -/
theorem Filed.sequential (h : Filed K start order d roles)
    (hall : ∀ r ∈ roles, r.phase = .done) :
    Sequential start (roles.map FileRole.request) (stored K d) := by
  have hovers : overs roles = roles.map FileRole.request := by
    unfold overs
    rw [List.filter_eq_self.mpr]
    intro r hm
    rw [hall r hm]
    rfl
  have hfinal : stored K d = afterAll start order := by
    obtain he | ⟨_, r, hm, _, hh⟩ := h.settled (fun r hm => by rw [hall r hm]; rfl)
    · exact he
    · rw [hall r hm] at hh
      cases hh
  refine ⟨order, hovers ▸ h.perm, hfinal, fun before body after he hafter => ?_⟩
  obtain ⟨s, hs, hp⟩ := preserves_fold after hafter (Preserves.refl body)
  refine ⟨s, ?_, hp⟩
  rw [hfinal, he]
  unfold afterAll
  rw [List.foldl_append, List.foldl_cons]
  exact hs

theorem filed_kept : (filing K).Kept (fun d roles => ∃ order, Filed K start order d roles) where
  sees _ _ _ _ _ _ := trivial
  sync _ _ _ _ _ _ _ _ hm := hm.elim
  fork _ _ _ _ _ _ _ _ _ hf := hf.elim

/-- One operation on the file, kept apart from the others. -/
theorem filed_await {p : FileServer} {x : FileSite} {ok : Bool} {r' : FileRole} {d' : Disk}
    (hc : (filing K).Coupled p roles) (h : Filed K start order p.shared roles)
    (hg : Exclusive p (.run i ok)) (hat : p.At i x) (hi : roles[i]? = some r)
    (hm : (filing K).move (some (x, ok)) r p.shared r' d') :
    ∃ order', Filed K start order' d' (roles.set i r') := by
  obtain ⟨hok, hothers⟩ := hg
  have hok' : ok = true := hok
  subst hok'
  have hapart : ∀ j t, j ≠ i → p.threads[j]? = some t →
      (p.At i .read → t.site ≠ some .write) ∧ (p.At i .truncate → t.site ≠ some .write ∧
        (t.site = some .truncate → t.tag.isPut = true)) := by
    intro j t hj ht
    refine hothers (t.tag, t.site) (List.mem_eraseIdx_iff_getElem?.mpr ⟨j, hj, ?_⟩)
    simp only [Pool.sites, List.getElem?_map, ht, Option.map_some]
  have hthread : ∀ (j : Nat) (r₁ : FileRole), roles[j]? = some r₁ →
      ∃ t : Thread FileSite SettingsRequest Bool Disk, p.threads[j]? = some t ∧
        t.tag = r₁.request ∧ t.site = r₁.phase.site := by
    intro j r₁ hj
    obtain ⟨t, ht, hr⟩ := hc.thread hj
    exact ⟨t, ht, hr.1.symm, hr.2.symm⟩
  cases x with
  | read =>
    obtain ⟨hr, rfl, rfl⟩ := hm
    refine h.read hi hr (fun r₁ hmem => ?_)
    obtain ⟨j, hj⟩ := List.getElem?_of_mem hmem
    by_cases he : j = i
    · rw [he, hi] at hj
      cases hj
      rw [hr]
      rfl
    · obtain ⟨t, ht, _, hsite⟩ := hthread j r₁ hj
      have hnot := (hapart j t he ht).1 hat
      rw [hsite] at hnot
      cases hp : r₁.phase with
      | opened s next =>
        rw [hp] at hnot
        exact absurd rfl hnot
      | _ => rfl
  | truncate =>
    obtain ⟨s, next, hr, hd⟩ := hm
    rw [if_pos rfl] at hd
    obtain ⟨rfl, rfl⟩ := hd
    refine h.truncate hi hr (fun j r₁ he hj => ?_)
    obtain ⟨t, ht, htag, hsite⟩ := hthread j r₁ hj
    obtain ⟨hnot, hput⟩ := (hapart j t he ht).2 hat
    rw [hsite] at hnot hput
    rw [htag] at hput
    cases hp : r₁.phase with
    | opened s next =>
      rw [hp] at hnot
      exact absurd rfl hnot
    | held s next =>
      rw [hp] at hput
      exact ⟨rfl, fun _ => hput rfl⟩
    | ready => exact ⟨rfl, fun hh => nomatch hh⟩
    | done => exact ⟨rfl, fun hh => nomatch hh⟩
  | write =>
    obtain ⟨s, next, hr, rfl, rfl⟩ := hm
    exact ⟨order, h.write hi hr⟩

/-- Requests whose operations on the file are kept apart so leave the file of a
sequential execution. -/
theorem settings_durable {K : Codec} {d : Disk} {p : FileServer}
    (h : Pool.Reaches (settingsEntry K) Exclusive ⟨d, []⟩ p) : Durable K d p := by
  have hstart : Filed K (stored K d) [] d [] :=
    ⟨.refl _, fun _ hm => (nomatch hm), fun _ hm => (nomatch hm), fun _ _ _ _ hj => (nomatch hj),
      fun _ => .inl rfl⟩
  have hc : (filing K).Coupled (⟨d, []⟩ : FileServer) [] := ⟨rfl, fun _ _ hi => nomatch hi⟩
  obtain ⟨roles, hc, order, hf⟩ := (@filed_kept K (stored K d)).reaches
    (fun p roles q _ ⟨order, hv⟩ _ => ⟨_, answerSettings_follows q, hv.arrive q⟩)
    (fun p roles i w x r r' s' hc ⟨order, hv⟩ hg hat hi hm => filed_await hc hv hg hat hi hm)
    h hc ⟨[], hstart⟩
  intro hall
  have hdone : ∀ r ∈ roles, r.phase = .done := by
    intro r hm
    obtain ⟨i, hi⟩ := List.getElem?_of_mem hm
    obtain ⟨t, ht, hr⟩ := hc.thread hi
    have hnone : r.phase.site = none :=
      hr.2.trans (Thread.site_of_finished (hall t (List.mem_of_getElem? ht)))
    cases hp : r.phase with
    | done => rfl
    | _ =>
      rw [hp] at hnone
      cases hnone
  have htags : p.threads.map Thread.tag = roles.map FileRole.request := by
    apply List.ext_getElem (by simp only [List.length_map, hc.1])
    intro i hi hi'
    rw [List.length_map] at hi
    obtain ⟨r, hr, hrest⟩ := hc.role (List.getElem?_eq_getElem hi)
    obtain ⟨_, he⟩ := List.getElem?_eq_some_iff.mp hr
    rw [List.getElem_map, List.getElem_map, he]
    exact hrest.1.symm
  rw [htags]
  exact hf.sequential hdone

instance (p : FileServer) (i : Nat) (x : FileSite) : Decidable (p.At i x) :=
  inferInstanceAs (Decidable (_ = _))

instance (p : FileServer) : (e : FileEvent) → Decidable (Working p e)
  | .run _ ok => inferInstanceAs (Decidable (ok = true))
  | .arrive _ => .isTrue trivial

instance (p : FileServer) : (e : FileEvent) → Decidable (Exclusive p e)
  | .run _ _ => inferInstanceAs (Decidable (_ ∧ _))
  | .arrive _ => .isTrue trivial

/-- What is left of a load once the file has been read. -/
def loaded (K : Codec) (bytes : Option (List UInt8)) : FileProg Unit :=
  if (applySeeds (parseSettings K bytes)).2 then
    ((writeSettings K (seeded (parseSettings K bytes))).bind
      (fun _ => .ret (seeded (parseSettings K bytes)))).bind (fun _ => .ret ())
  else .ret ()

theorem load_resumes (d : Disk) :
    ((readSettings K).bind (fun _ => .ret ())).resume true d = some ((loaded K d.file).settle d) := by
  refine congrArg (fun p : FileProg Unit => some (p.settle d)) ?_
  simp only [loaded, seeded, Prog.bind, ↓reduceIte]
  split <;> rfl

/-- A load that finds seeded settings is over at once. -/
theorem load_clean {p : FileServer} {i : Nat} {q : SettingsRequest}
    (ht : p.threads[i]? = some ⟨q, (readSettings K).bind (fun _ => .ret ())⟩)
    (hs : (applySeeds (parseSettings K p.shared.file)).2 = false) :
    p.fire (settingsEntry K) (.run i true) =
      some { p with threads := p.threads.set i ⟨q, .ret ()⟩ } := by
  have hl : loaded K p.shared.file = .ret () := if_neg (by rw [hs]; decide)
  simp only [Pool.fire, ht, load_resumes, hl, Prog.settle, Option.map_some, List.map_nil,
    List.append_nil]

/-- A load that is about to write the defaults. -/
def defaultsHeld (K : Codec) : FileProg Unit :=
  ((writeSettings K (seeded {})).bind (fun _ => .ret (seeded {}))).bind (fun _ => .ret ())

/-- And once it has truncated the file. -/
def defaultsOpened (K : Codec) : FileProg Unit :=
  (fsWriteAll (K.toVecPretty (seeded {}))).bind (fun _ => .ret ())

/-- A put that has truncated the file. -/
def putOpened (K : Codec) (body : Settings) : FileProg Unit :=
  (fsWriteAll (K.toVecPretty body)).bind (fun ok =>
    (if ok then .ret (.ok body) else .ret (.error .io) : FileProg (Except SettingsError Settings)).bind
      (fun _ => .ret ()))

/-- A load that finds nothing readable is about to write the defaults. -/
theorem load_torn {p : FileServer} {i : Nat} {q : SettingsRequest}
    (ht : p.threads[i]? = some ⟨q, (readSettings K).bind (fun _ => .ret ())⟩)
    (hs : stored K p.shared = none) :
    p.fire (settingsEntry K) (.run i true) =
      some { p with threads := p.threads.set i ⟨q, defaultsHeld K⟩ } := by
  have hparse : parseSettings K p.shared.file = {} := by
    unfold stored at hs
    rw [parseSettings, hs]
    rfl
  have hl : loaded K p.shared.file = defaultsHeld K := by
    unfold loaded
    rw [hparse]
    exact if_pos default_dirty
  have hsettle : (defaultsHeld K).settle p.shared = (p.shared, defaultsHeld K, []) := rfl
  simp only [Pool.fire, ht, load_resumes, hl, hsettle, Option.map_some, List.map_nil, List.append_nil]

/-- The write of a task that finds the file truncated. -/
theorem write_truncated {p : FileServer} {i : Nat} {q : SettingsRequest} {bytes : List UInt8}
    {next : Bool → FileProg Unit}
    (ht : p.threads[i]? = some ⟨q, (fsWriteAll bytes).bind next⟩) (hf : p.shared.file = some [])
    (hn : next true = .ret ()) :
    p.fire (settingsEntry K) (.run i true) =
      some ⟨⟨some bytes⟩, p.threads.set i ⟨q, .ret ()⟩⟩ := by
  have hresume : ((fsWriteAll bytes).bind next).resume true p.shared = some ((next true).settle
      ⟨p.shared.file.map (fun old => bytes ++ old.drop bytes.length)⟩) := rfl
  simp only [Pool.fire, ht, hresume, hn, hf, Prog.settle, Option.map_some, List.map_nil,
    List.append_nil, List.drop_nil]

section Codecs

theorem string_countable : Countable String := by
  have hc : Countable Char :=
    Function.Injective.countable (f := Char.toNat) (fun _ _ h => Char.toNat_inj.mp h)
  exact Function.Injective.countable (f := String.toList) (fun _ _ h => String.toList_inj.mp h)

theorem settings_countable : Countable Settings := by
  have hs := string_countable
  have hc : Countable ThemeColors := by
    apply Function.Injective.countable (f := fun c : ThemeColors => (c.bg, c.fg, c.muted, c.accent))
    intro a b h
    cases a
    simp_all
  have ht : Countable Theme := by
    apply Function.Injective.countable
      (f := fun t : Theme => (t.id, t.name, t.kind, t.custom, t.colors))
    intro a b h
    cases a
    simp_all
  have hp : Countable PromptTemplate := by
    apply Function.Injective.countable (f := fun p : PromptTemplate => (p.id, p.name, p.body))
    intro a b h
    cases a
    simp_all
  have hd : Countable DbConnection := by
    apply Function.Injective.countable (f := fun d : DbConnection => (d.id, d.name, d.url))
    intro a b h
    cases a
    simp_all
  apply Function.Injective.countable (f := fun s : Settings => (s.theme, s.customThemes, s.uiFont,
    s.monoFont, s.fontSize, s.defaultProvider, s.defaultModel, s.prompts, s.dbConnections,
    s.promptsSeeded, s.appliedPromptSeeds, s.autoApproveTools))
  intro a b h
  cases a
  simp_all

/-- Settings of a user who picked a theme and deleted every template. -/
def picked : Settings where
  theme := some "tokyo-night"
  promptsSeeded := true
  appliedPromptSeeds := ["v1", "v2"]

/-- What `to_vec_pretty` prints of them, from the opening brace on. -/
def pickedJson : String :=
  "\n  \"theme\": \"tokyo-night\",\n  \"custom_themes\": [],\n  \"ui_font\": null,\n" ++
  "  \"mono_font\": null,\n  \"font_size\": null,\n  \"default_provider\": null,\n" ++
  "  \"default_model\": null,\n  \"prompts\": [],\n  \"db_connections\": [],\n" ++
  "  \"prompts_seeded\": true,\n  \"applied_prompt_seeds\": [\n    \"v1\",\n    \"v2\"\n  ],\n" ++
  "  \"auto_approve_tools\": null\n\x7d"

def pickedBytes : List UInt8 := 0x7b :: pickedJson.toList.map (fun c => c.toNat.toUInt8)

theorem pickedBytes_ne (n : Nat) : pickedBytes ≠ List.replicate (n + 1) 0 := by
  intro he
  have hhead := (List.cons.inj he).1
  revert hhead
  decide

/-- A number for every value of settings. -/
noncomputable def settingsNumber : Settings → Nat := settings_countable.exists_injective_nat.choose

theorem settingsNumber_injective : Function.Injective settingsNumber :=
  settings_countable.exists_injective_nat.choose_spec

/-- Any printer of settings that prints those of the runs below as `serde_json` does:
what it makes of all others does not matter there. -/
noncomputable def printSettings (s : Settings) : List UInt8 :=
  if s = picked then pickedBytes else List.replicate (settingsNumber s + 1) 0

theorem printSettings_injective : Function.Injective printSettings := by
  intro s s' h
  unfold printSettings at h
  split at h
  · split at h
    · rename_i hs hs'
      exact hs.trans hs'.symm
    · exact absurd h (pickedBytes_ne _)
  · split at h
    · exact absurd h.symm (pickedBytes_ne _)
    · apply settingsNumber_injective
      simpa using congrArg List.length h

theorem printSettings_ne_nil (s : Settings) : printSettings s ≠ [] := by
  unfold printSettings
  split
  · intro h
    cases h
  · intro h
    cases h

noncomputable def pickedCodec : Codec where
  toVecPretty := printSettings
  fromSlice := Function.partialInv printSettings
  fromSlice_toVecPretty := Function.partialInv_left printSettings_injective
  fromSlice_empty := dif_neg (fun ⟨s, hs⟩ => printSettings_ne_nil s hs)

end Codecs

/-- A get that reads between a put's truncate and its write, and writes the defaults
over what the user has put there. -/
theorem torn_read_resets_settings :
    ¬ ∀ (K : Codec) (d : Disk) (p : FileServer),
      Pool.Reaches (settingsEntry K) Working ⟨d, []⟩ p → Durable K d p := by
  intro hall
  let K := pickedCodec
  let load : FileProg Unit := (readSettings K).bind (fun _ => .ret ())
  have htorn : (⟨⟨none⟩, []⟩ : FileServer).play (settingsEntry K) Working
      [.arrive (.put picked), .run 0 true, .arrive .get] =
        some ⟨⟨some []⟩, [⟨.put picked, putOpened K picked⟩, ⟨.get, load⟩]⟩ := rfl
  have hread : (⟨⟨some []⟩, [⟨.put picked, putOpened K picked⟩, ⟨.get, load⟩]⟩ : FileServer).fire
      (settingsEntry K) (.run 1 true) =
        some ⟨⟨some []⟩, [⟨.put picked, putOpened K picked⟩, ⟨.get, defaultsHeld K⟩]⟩ :=
    load_torn rfl K.fromSlice_empty
  have hput : (⟨⟨some []⟩, [⟨.put picked, putOpened K picked⟩, ⟨.get, defaultsHeld K⟩]⟩ :
      FileServer).fire (settingsEntry K) (.run 0 true) =
        some ⟨⟨some (K.toVecPretty picked)⟩, [⟨.put picked, .ret ()⟩, ⟨.get, defaultsHeld K⟩]⟩ :=
    write_truncated rfl rfl rfl
  have hopen : (⟨⟨some (K.toVecPretty picked)⟩, [⟨.put picked, .ret ()⟩, ⟨.get, defaultsHeld K⟩]⟩ :
      FileServer).fire (settingsEntry K) (.run 1 true) =
        some ⟨⟨some []⟩, [⟨.put picked, .ret ()⟩, ⟨.get, defaultsOpened K⟩]⟩ := rfl
  have hreset : (⟨⟨some []⟩, [⟨.put picked, .ret ()⟩, ⟨.get, defaultsOpened K⟩]⟩ :
      FileServer).fire (settingsEntry K) (.run 1 true) =
        some ⟨⟨some (K.toVecPretty (seeded {}))⟩, [⟨.put picked, .ret ()⟩, ⟨.get, .ret ()⟩]⟩ :=
    write_truncated rfl rfl rfl
  have hrun := ((((Pool.play_reaches htorn).tail ⟨.run 1 true, rfl, hread⟩).tail
    ⟨.run 0 true, rfl, hput⟩).tail ⟨.run 1 true, rfl, hopen⟩).tail ⟨.run 1 true, rfl, hreset⟩
  obtain ⟨order, hperm, -, hkept⟩ := (hall K _ _ hrun (by simp [Thread.finished])).some_order
  have hmem : SettingsRequest.put picked ∈ order := hperm.symm.subset (by simp)
  obtain ⟨before, after, horder⟩ := List.append_of_mem hmem
  have hafter : ∀ r ∈ after, r.isPut = false := by
    have hperm' : (before ++ .put picked :: after).Perm [.put picked, .get] := horder ▸ hperm
    have hrest : (before ++ after).Perm [.get] :=
      (List.perm_cons _).mp (List.perm_middle.symm.trans hperm')
    intro r hr
    have := hrest.subset (List.mem_append_right before hr)
    rw [List.mem_singleton.mp this]
    rfl
  obtain ⟨s, hs, hp⟩ := hkept before picked after horder hafter
  have hstored : stored K ⟨some (K.toVecPretty (seeded {}))⟩ = some (seeded {}) :=
    K.fromSlice_toVecPretty _
  obtain rfl := Option.some.inj (hs.symm.trans hstored)
  have hlost : (none : Option String) = picked.theme :=
    (Preserves.refl {}).seeded.theme.symm.trans hp.theme
  cases hlost

/-- A put, and then a load that finds it. -/
theorem settings_durable_put :
    ∃ p : FileServer, Pool.Reaches (settingsEntry pickedCodec) Exclusive ⟨⟨none⟩, []⟩ p ∧
      stored pickedCodec p.shared = some picked ∧ Durable pickedCodec ⟨none⟩ p := by
  let K := pickedCodec
  let load : FileProg Unit := (readSettings K).bind (fun _ => .ret ())
  have hopen : (⟨⟨none⟩, []⟩ : FileServer).play (settingsEntry K) Exclusive
      [.arrive (.put picked), .arrive .load, .run 0 true] =
        some ⟨⟨some []⟩, [⟨.put picked, putOpened K picked⟩, ⟨.load, load⟩]⟩ := rfl
  have hput : (⟨⟨some []⟩, [⟨.put picked, putOpened K picked⟩, ⟨.load, load⟩]⟩ : FileServer).fire
      (settingsEntry K) (.run 0 true) =
        some ⟨⟨some (K.toVecPretty picked)⟩, [⟨.put picked, .ret ()⟩, ⟨.load, load⟩]⟩ :=
    write_truncated rfl rfl rfl
  have hclean : (applySeeds picked).2 = false := by decide
  have hload : (⟨⟨some (K.toVecPretty picked)⟩, [⟨.put picked, .ret ()⟩, ⟨.load, load⟩]⟩ :
      FileServer).fire (settingsEntry K) (.run 1 true) =
        some ⟨⟨some (K.toVecPretty picked)⟩, [⟨.put picked, .ret ()⟩, ⟨.load, .ret ()⟩]⟩ := by
    have hparse : parseSettings K (some (K.toVecPretty picked)) = picked :=
      congrArg (fun s : Option Settings => s.getD {}) (K.fromSlice_toVecPretty picked)
    apply load_clean rfl
    rw [hparse]
    exact hclean
  have hrun := ((Pool.play_reaches hopen).tail ⟨.run 0 true, by decide, hput⟩).tail
    ⟨.run 1 true, by decide, hload⟩
  exact ⟨_, hrun, K.fromSlice_toVecPretty picked, settings_durable hrun⟩

end AgentGrove
