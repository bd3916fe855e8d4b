import AgentGrove.Model.BaseBranch

namespace AgentGrove.Git

section Counting

variable {h : History} {a b : Commit}

theorem History.count_pos (hmem : b ∉ h.reachable a) : 0 < h.count a b :=
  Finset.card_pos.mpr ⟨b, Finset.mem_sdiff.mpr ⟨h.self_mem b, hmem⟩⟩

theorem History.count_self : h.count a a = 0 := by
  unfold History.count
  rw [Finset.sdiff_self, Finset.card_empty]

/-- Two commits differ if one of them has a commit that the other has not. -/
theorem History.count_pos_iff : (0 < h.count a b ∨ 0 < h.count b a) ↔ a ≠ b := by
  constructor
  · rintro hcount rfl
    simp [History.count_self] at hcount
  · intro hne
    by_cases hmem : b ∈ h.reachable a
    · right
      exact History.count_pos fun hmem' => hne (h.antisymm a b hmem' hmem)
    · left
      exact History.count_pos hmem

end Counting

/-- A count that is read as zero. -/
def Lost (n : Nat) : Prop := n = 0 ∨ 2 ^ 32 ≤ n

theorem parseU32_pos {n : Nat} : 0 < parseU32 n ↔ ¬ Lost n := by
  unfold parseU32 Lost
  split <;> omega

section Agreement

variable (w : Network) (baseRef : Text) (c : Clone)

/-- The two reports name the same tracking ref, and agree on whether the branch has drifted from it. -/
def Agree (quick full : DriftInfo) : Prop := quick.tracking = full.tracking ∧ quick.diverged = full.diverged

/-- The first head that is listed under the name has another commit. -/
def ListedApart (tracking : Text) (sha : Commit) : Prop :=
  ∃ remote, w.remotes (remoteOf tracking) = some remote ∧
    ∃ first, (lsRemote remote (refToCheck baseRef tracking)).head? = some first ∧ first.2 ≠ [] ∧ first.2 ≠ sha

/-- The tracking ref stands for another commit, and they are not so far apart that no count tells. -/
def TrackedApart (refs : Refs) (tracking : Text) (sha : Commit) : Prop :=
  ∃ t, w.resolve refs tracking = some t ∧ t ≠ sha ∧
    ¬ (Lost (w.history.count sha t) ∧ Lost (w.history.count t sha))

/-- The tracking ref is the same before and after the fetch, and the first head listed under its name tells the
same as what the tracking ref has then. -/
def Faithful : Prop :=
  ∀ head sha, currentHead c = some (head, sha) →
    trackingOf w baseRef c.refs head = trackingOf w baseRef (fetchOrigin w c.refs) head ∧
    (ListedApart w baseRef (trackingOf w baseRef c.refs head) sha ↔
      TrackedApart w (fetchOrigin w c.refs) (trackingOf w baseRef (fetchOrigin w c.refs) head) sha)

variable {w baseRef c} {head : Text} {sha : Commit}

theorem quick_tracking (hhead : currentHead c = some (head, sha)) :
    (checkDriftQuick w baseRef c).tracking = some (trackingOf w baseRef c.refs head) := by
  unfold checkDriftQuick
  rw [hhead]
  dsimp only
  cases w.remotes (remoteOf (trackingOf w baseRef c.refs head)) <;> rfl

theorem quick_diverged (hhead : currentHead c = some (head, sha)) :
    (checkDriftQuick w baseRef c).diverged = true ↔ ListedApart w baseRef (trackingOf w baseRef c.refs head) sha := by
  unfold checkDriftQuick ListedApart
  rw [hhead]
  dsimp only
  cases hremote : w.remotes (remoteOf (trackingOf w baseRef c.refs head)) with
  | none => simp
  | some remote =>
    cases hfirst : (lsRemote remote (refToCheck baseRef (trackingOf w baseRef c.refs head))).head? with
    | none => simp [hfirst]
    | some first =>
      obtain ⟨name, commit⟩ := first
      simp [hfirst, bne_iff_ne]

theorem full_tracking (hhead : currentHead c = some (head, sha)) :
    (checkDriftFull w baseRef c).tracking = some (trackingOf w baseRef (fetchOrigin w c.refs) head) := by
  unfold checkDriftFull
  rw [hhead]

theorem full_diverged (hhead : currentHead c = some (head, sha)) :
    (checkDriftFull w baseRef c).diverged = true ↔
      TrackedApart w (fetchOrigin w c.refs) (trackingOf w baseRef (fetchOrigin w c.refs) head) sha := by
  unfold checkDriftFull TrackedApart
  rw [hhead]
  dsimp only
  rw [Bool.or_eq_true, decide_eq_true_eq, decide_eq_true_eq, parseU32_pos, parseU32_pos, ← not_and_or]
  cases w.resolve (fetchOrigin w c.refs) (trackingOf w baseRef (fetchOrigin w c.refs) head) with
  | none => simp [Lost]
  | some t =>
    have hne : ¬ (Lost (w.history.count sha t) ∧ Lost (w.history.count t sha)) → t ≠ sha := by
      rintro hcount rfl
      simp [History.count_self, Lost] at hcount
    simpa using hne

theorem agree_iff (hhead : currentHead c = some (head, sha)) :
    Agree (checkDriftQuick w baseRef c) (checkDriftFull w baseRef c) ↔
      trackingOf w baseRef c.refs head = trackingOf w baseRef (fetchOrigin w c.refs) head ∧
      (ListedApart w baseRef (trackingOf w baseRef c.refs head) sha ↔
        TrackedApart w (fetchOrigin w c.refs) (trackingOf w baseRef (fetchOrigin w c.refs) head) sha) := by
  have hdiverged : (checkDriftQuick w baseRef c).diverged = (checkDriftFull w baseRef c).diverged ↔ _ :=
    Bool.eq_iff_iff.trans (iff_congr (quick_diverged hhead) (full_diverged hhead))
  unfold Agree
  rw [quick_tracking hhead, full_tracking hhead, hdiverged, Option.some.injEq]

/-- They do, if the first head that is listed is the one that the tracking ref stands for after the fetch. -/
theorem drift_agree_of_tracked {remote : Remote} {name : Text} {t : Commit}
    (hhead : currentHead c = some (head, sha)) (ht : t ≠ [])
    (htracking : trackingOf w baseRef c.refs head = trackingOf w baseRef (fetchOrigin w c.refs) head)
    (hremote : w.remotes (remoteOf (trackingOf w baseRef c.refs head)) = some remote)
    (hfirst : (lsRemote remote (refToCheck baseRef (trackingOf w baseRef c.refs head))).head? = some (name, t))
    (hresolve : w.resolve (fetchOrigin w c.refs) (trackingOf w baseRef c.refs head) = some t)
    (hcounts : w.history.count sha t < 2 ^ 32 ∧ w.history.count t sha < 2 ^ 32) :
    Agree (checkDriftQuick w baseRef c) (checkDriftFull w baseRef c) := by
  rw [agree_iff hhead]
  refine ⟨htracking, ?_⟩
  rw [← htracking]
  constructor
  · rintro ⟨remote', hremote', first, hfirst', -, hne⟩
    obtain rfl := Option.some.inj (hremote.symm.trans hremote')
    obtain rfl := Option.some.inj (hfirst.symm.trans hfirst')
    refine ⟨t, hresolve, hne, ?_⟩
    have hpos : 0 < w.history.count sha t ∨ 0 < w.history.count t sha := History.count_pos_iff.mpr hne.symm
    unfold Lost
    omega
  · rintro ⟨t', hresolve', hne, -⟩
    obtain rfl := Option.some.inj (hresolve.symm.trans hresolve')
    exact ⟨remote, hremote, _, hfirst, ht, hne⟩

end Agreement

/-- Every commit has only itself. -/
def rootCommits : History where
  reachable c := {c}
  self_mem c := Finset.mem_singleton_self c
  antisymm _ _ h _ := Finset.mem_singleton.mp h

end AgentGrove.Git
