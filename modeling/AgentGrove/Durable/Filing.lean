import AgentGrove.Durable.Effects
import AgentGrove.Coop.Protocol

namespace AgentGrove

open Coop Protocol

/-- How far a request is with the file: about to read, about to replace it by
given settings, or in the middle of that. What comes after a replacement is part
of the phase. -/
inductive FilePhase where
  | ready
  | held (s : Settings) (next : FilePhase)
  | opened (s : Settings) (next : FilePhase)
  | done

structure FileRole where
  request : SettingsRequest
  phase : FilePhase

def FilePhase.site : FilePhase → Option FileSite
  | .ready => some .read
  | .held _ _ => some .truncate
  | .opened _ _ => some .write
  | .done => none

def afterLoad (r : SettingsRequest) (s : Settings) : FilePhase :=
  if r.saves s then .held (r.edit s) .done else .done

def afterRead (r : SettingsRequest) (s : Settings) : FilePhase :=
  if (applySeeds s).2 then .held (seeded s) (afterLoad r (seeded s)) else afterLoad r (seeded s)

def firstPhase (r : SettingsRequest) : FilePhase :=
  match r with
  | .put body => .held body .done
  | r => if r.reads then .ready else .done

/-- The bytes over the start of what is there. -/
def Disk.write (d : Disk) (bytes : List UInt8) : Disk :=
  { file := d.file.map (fun old => bytes ++ old.drop bytes.length) }

/-- What the operations on the file do. -/
def filing (K : Codec) : Protocol FileSite SettingsRequest Bool Disk FileRole where
  rest t x r := r.request = t ∧ r.phase.site = x
  sees _ _ := True
  move
    | some (.read, ok), r, d, r', d' => r.phase = .ready ∧ d' = d ∧
        r' = ⟨r.request, afterRead r.request (parseSettings K (if ok then d.file else none))⟩
    | some (.truncate, ok), r, d, r', d' => ∃ s next, r.phase = .held s next ∧
        if ok then d' = { file := some [] } ∧ r' = ⟨r.request, .opened s next⟩
        else d' = d ∧ r' = ⟨r.request, next⟩
    | some (.write, ok), r, d, r', d' => ∃ s next, r.phase = .opened s next ∧
        r' = ⟨r.request, next⟩ ∧ d' = if ok then d.write (K.toVecPretty s) else d
    | none, _, _, _, _ => False
  fork _ _ _ _ := False

variable {K : Codec} {t : SettingsRequest}

theorem writeSettings_follows (s : Settings) (next : FilePhase) :
    (filing K).Follows t (writeSettings K s) ⟨t, .held s next⟩ (fun _ r => r = ⟨t, next⟩) := by
  refine ⟨⟨rfl, rfl⟩, fun ok d d' b _ ha => ?_⟩
  cases ha
  cases ok with
  | false => exact ⟨_, ⟨s, next, rfl, rfl, rfl⟩, rfl⟩
  | true =>
    refine ⟨_, ⟨s, next, rfl, rfl, rfl⟩, ⟨rfl, rfl⟩, fun ok d d' b _ ha => ?_⟩
    cases ha
    exact ⟨_, ⟨s, next, rfl, rfl, rfl⟩, rfl⟩

theorem readSettings_follows :
    (filing K).Follows t (readSettings K) ⟨t, .ready⟩ (fun s r => r = ⟨t, afterLoad t s⟩) := by
  refine ⟨⟨rfl, rfl⟩, fun ok d d' b _ ha => ?_⟩
  cases ha
  refine ⟨_, ⟨rfl, rfl, rfl⟩, ?_⟩
  dsimp only [Prog.bind]
  generalize parseSettings K (if ok = true then d.file else none) = s
  unfold afterRead seeded
  cases hd : (applySeeds s).2 with
  | true =>
    simp only [if_true, Prog.bind_eq, Prog.pure_eq]
    rw [follows_bind]
    refine follows_mono (writeSettings_follows _ _) ?_
    intro _ r hr
    exact hr
  | false => exact rfl

/-- What comes after a read, whatever it found. -/
theorem read_then {α : Type} (f : Settings → FileProg α)
    {Q : α → FileRole → Prop}
    (h : ∀ s, (filing K).Follows t (f s) ⟨t, afterLoad t s⟩ Q) :
    (filing K).Follows t ((readSettings K).bind f) ⟨t, .ready⟩ Q := by
  rw [follows_bind]
  refine follows_mono readSettings_follows ?_
  intro s r hr
  rw [hr]
  exact h s

theorem write_then {α : Type} {s : Settings} (f : Bool → FileProg α) {Q : α → FileRole → Prop}
    (h : ∀ ok, (filing K).Follows t (f ok) ⟨t, .done⟩ Q) :
    (filing K).Follows t ((writeSettings K s).bind f) ⟨t, .held s .done⟩ Q := by
  rw [follows_bind]
  refine follows_mono (writeSettings_follows _ _) ?_
  intro ok r hr
  rw [hr]
  exact h ok

theorem importTheme_follows (theme : Theme) (h : themeError theme = none) :
    (filing K).Follows (.importTheme theme) (importTheme K theme) ⟨.importTheme theme, .ready⟩
      (fun _ r => r = ⟨.importTheme theme, .done⟩) := by
  unfold importTheme
  rw [h]
  refine read_then _ (fun s => write_then _ (fun ok => ?_))
  cases ok <;> exact rfl

theorem deleteTheme_follows (id : String) :
    (filing K).Follows (.deleteTheme id) (deleteTheme K id) ⟨.deleteTheme id, .ready⟩
      (fun _ r => r = ⟨.deleteTheme id, .done⟩) := by
  refine read_then _ (fun s => ?_)
  unfold afterLoad
  split
  · rename_i hl
    simp only [SettingsRequest.saves, hl, ne_eq, not_true, decide_false, Bool.false_eq_true, if_false]
    exact rfl
  · rename_i hl
    simp only [SettingsRequest.saves, hl, ne_eq, not_false_eq_true, decide_true, if_true]
    refine write_then _ (fun ok => ?_)
    cases ok <;> exact rfl

theorem putSettings_follows (body : Settings) :
    (filing K).Follows (.put body) (putSettings K body) ⟨.put body, .held body .done⟩
      (fun _ r => r = ⟨.put body, .done⟩) := by
  refine write_then _ (fun ok => ?_)
  cases ok <;> exact rfl

/-- Every request keeps to the account from its first phase on. -/
theorem answerSettings_follows (r : SettingsRequest) :
    (filing K).Follows r (answerSettings K r) ⟨r, firstPhase r⟩
      (fun _ r' => (filing K).rest r none r') := by
  have hend : ∀ {α : Type} (p : FileProg α),
      (filing K).Follows r p ⟨r, firstPhase r⟩ (fun _ r' => r' = ⟨r, .done⟩) →
      (filing K).Follows r (p.bind (fun _ => .ret ())) ⟨r, firstPhase r⟩
        (fun _ r' => (filing K).rest r none r') := by
    intro α p hp
    rw [follows_bind]
    refine follows_mono hp ?_
    intro _ r' hr
    rw [hr]
    exact ⟨rfl, rfl⟩
  have hread : (filing K).Follows r (readSettings K) ⟨r, .ready⟩
      (fun s r' => r' = ⟨r, afterLoad r s⟩) := readSettings_follows
  cases r with
  | get => exact hend _ hread
  | load => exact hend _ hread
  | listThemes => exact hend _ hread
  | put body => exact hend _ (putSettings_follows body)
  | importTheme theme =>
    apply hend
    cases h : themeError theme with
    | none =>
      have hf : firstPhase (.importTheme theme) = .ready := by
        simp [firstPhase, SettingsRequest.reads, h]
      rw [hf]
      exact importTheme_follows theme h
    | some e =>
      have hf : firstPhase (.importTheme theme) = .done := by
        simp [firstPhase, SettingsRequest.reads, h]
      unfold importTheme
      rw [hf, h]
      exact rfl
  | deleteTheme id => exact hend _ (deleteTheme_follows id)

end AgentGrove
