import AgentGrove.Model.Providers
import Mathlib.Data.List.Chain

namespace AgentGrove.Agents.Opencode

open Wire

/-- The part of a text line, with its text. -/
def partText (v : Value) : Option (Text × Text) :=
  if text "type" v = some "text".toList then textPart v else none

/-- A text line of this part. -/
def ofPart (p : Text) (v : Value) : Bool := (partText v).any (fun x => x.1 = p)

/-- The texts that a part has had. -/
def texts (p : Text) (vs : List Value) : List Text :=
  ((vs.filterMap partText).filter (fun x => x.1 = p)).map (fun x => x.2)

def tokenText : AgentEvent → Text
  | .token t => t
  | _ => []

/-- The tokens of the lines of a part, in one. -/
def said (p : Text) (lines : List (Value × List AgentEvent)) : Text :=
  (lines.filter (fun e => ofPart p e.1)).flatMap (fun e => e.2.flatMap tokenText)

section Lines

variable {v : Value} {vs : List Value} {s s' : State} {p q full prev : Text}

theorem delta_append (h : prev <+: full) : prev ++ delta prev full = full := by
  obtain ⟨new, rfl⟩ := h
  simp [delta, sliceFrom_append]

theorem delta_repeated (full : Text) : delta full full = [] := by
  have h := delta_append (List.prefix_refl full)
  simpa using h

theorem translate_text (h : partText v = some (p, full)) : translate v s =
    (if (delta ((s.lastTextPerPart p).getD []) full).isEmpty then []
      else [.token (delta ((s.lastTextPerPart p).getD []) full)],
      { s with lastTextPerPart := Function.update s.lastTextPerPart p (some full) }) := by
  unfold partText at h
  split at h
  · rename_i htype
    have hstart : "text".toList ≠ "step_start".toList := by decide
    simp only [translate, htype, hstart, if_false, if_true, translateText, h]
  · cases h

/-- A line that is no text leaves the texts alone. -/
theorem translate_aside (h : partText v = none) :
    (translate v s).2.lastTextPerPart = s.lastTextPerPart := by
  unfold translate
  split
  · rfl
  rename_i kind htype
  split
  · split
    · rfl
    · split <;> rfl
  split
  · rename_i hkind
    have hpart : textPart v = none := by simpa [partText, htype, hkind] using h
    simp only [translateText, hpart]
  split
  · split <;> rfl
  split
  · rfl
  split <;> rfl

theorem texts_own (h : partText v = some (p, full)) : texts p (v :: vs) = full :: texts p vs := by
  simp [texts, h]

theorem texts_other (h : ofPart p v = false) : texts p (v :: vs) = texts p vs := by
  cases hv : partText v with
  | none => simp [texts, hv]
  | some x =>
    have hne : x.1 ≠ p := by simpa [ofPart, hv] using h
    simp [texts, hv, hne]

theorem ofPart_iff : ofPart p v = true ↔ ∃ full, partText v = some (p, full) := by
  cases h : partText v with
  | none => simp [ofPart, h]
  | some x =>
    obtain ⟨q, full⟩ := x
    simp [ofPart, h]

/-- A line of its own gives a part its text, and any other leaves it. -/
theorem last_own (h : partText v = some (p, full)) :
    (translate v s).2.lastTextPerPart p = some full := by
  simp [translate_text h]

theorem last_other (h : ofPart p v = false) :
    (translate v s).2.lastTextPerPart p = s.lastTextPerPart p := by
  cases hv : partText v with
  | none => rw [translate_aside hv]
  | some x =>
    obtain ⟨q, full⟩ := x
    have hne : p ≠ q := by
      intro he
      simp [ofPart, hv, he] at h
    simp [translate_text hv, Function.update_of_ne hne]

theorem tokens_own (h : partText v = some (p, full)) :
    (translate v s).1.flatMap tokenText = delta ((s.lastTextPerPart p).getD []) full := by
  rw [translate_text h]
  split
  · rename_i hempty
    rw [List.isEmpty_iff.mp hempty]
    rfl
  · simp [tokenText]

theorem run_after (v : Value) (vs : List Value) (s : State) :
    (translator.run (v :: vs) s).2 = (translator.run vs (translate v s).2).2 := rfl

theorem emissions_cons (v : Value) (vs : List Value) (s : State) : translator.emissions (v :: vs) s =
    (v, (translate v s).1) :: translator.emissions vs (translate v s).2 := rfl

/-- The text a part has after some lines. -/
theorem last_run (p : Text) (vs : List Value) (s : State) :
    State.lastTextPerPart (translator.run vs s).2 p = (texts p vs).getLast?.or (s.lastTextPerPart p) := by
  induction vs generalizing s with
  | nil => rfl
  | cons v vs ih =>
    rw [run_after, ih]
    cases hv : ofPart p v with
    | true =>
      obtain ⟨full, hfull⟩ := ofPart_iff.mp hv
      rw [texts_own hfull, last_own hfull, List.getLast?_cons]
      cases (texts p vs).getLast? <;> rfl
    | false => rw [texts_other hv, last_other hv]

theorem said_own (h : partText v = some (p, full)) : said p (translator.emissions (v :: vs) s) =
    delta ((s.lastTextPerPart p).getD []) full ++ said p (translator.emissions vs (translate v s).2) := by
  have hown : ofPart p v = true := ofPart_iff.mpr ⟨full, h⟩
  simp [said, emissions_cons, hown, tokens_own h]

theorem said_other (h : ofPart p v = false) : said p (translator.emissions (v :: vs) s) =
    said p (translator.emissions vs (translate v s).2) := by
  simp [said, emissions_cons, h]

/-- What a part says continues the text that it has. The induction is on the lines, each of
which either is of another part or appends to that text. -/
theorem said_onward (p : Text) (vs : List Value) (s : State)
    (h : List.IsChain (· <+: ·) ((s.lastTextPerPart p).getD [] :: texts p vs)) :
    (s.lastTextPerPart p).getD [] ++ said p (translator.emissions vs s) =
      (texts p vs).getLast?.getD ((s.lastTextPerPart p).getD []) := by
  induction vs generalizing s with
  | nil => simp [Translator.emissions, said, texts]
  | cons v vs ih =>
    cases hv : ofPart p v with
    | true =>
      obtain ⟨full, hfull⟩ := ofPart_iff.mp hv
      rw [texts_own hfull] at h ⊢
      obtain ⟨hgrown, hrest⟩ := List.isChain_cons_cons.mp h
      have hlast := last_own (s := s) hfull
      have honward := ih (translate v s).2 (by rw [hlast]; exact hrest)
      rw [hlast] at honward
      rw [said_own hfull, ← List.append_assoc, delta_append hgrown, List.getLast?_cons]
      exact honward
    | false =>
      have hlast := last_other (s := s) hv
      rw [texts_other hv] at h ⊢
      rw [said_other hv, ← hlast]
      exact ih (translate v s).2 (by rw [hlast]; exact h)

/-- The events on a part's lines depend on the rest of the output in nothing but the text the
part has. -/
theorem emissions_own (p : Text) (vs : List Value) (s s' : State)
    (h : s.lastTextPerPart p = s'.lastTextPerPart p) :
    (translator.emissions vs s).filter (fun e => ofPart p e.1) =
      translator.emissions (vs.filter (ofPart p)) s' := by
  induction vs generalizing s s' with
  | nil => rfl
  | cons v vs ih =>
    rw [emissions_cons]
    cases hv : ofPart p v with
    | true =>
      obtain ⟨full, hfull⟩ := ofPart_iff.mp hv
      have hrest := ih (translate v s).2 (translate v s').2 (by rw [last_own hfull, last_own hfull])
      rw [List.filter_cons_of_pos (by exact hv), List.filter_cons_of_pos hv, emissions_cons, hrest]
      simp only [translate_text hfull, h]
    | false =>
      rw [List.filter_cons_of_neg (by simp [hv]), List.filter_cons_of_neg (by simp [hv])]
      exact ih (translate v s).2 s' (by rw [last_other hv, h])

end Lines

/-- Over any output: what the tokens of a part whose text only grows add up to, that an update
which repeats a text emits nothing, and that a part's events are those of its own lines alone. -/
theorem part_tokens (vs : List Value) (p : Text) (hgrow : List.IsChain (· <+: ·) (texts p vs)) :
    said p (translator.emissions vs State.start) = (texts p vs).getLast?.getD [] ∧
      (∀ before v after t, vs = before ++ v :: after → partText v = some (p, t) →
        (texts p before).getLast? = some t → (translate v (translator.run before State.start).2).1 = []) ∧
      (translator.emissions vs State.start).filter (fun e => ofPart p e.1) =
        translator.emissions (vs.filter (ofPart p)) State.start := by
  refine ⟨?_, fun before v after t _ hv hlast => ?_, emissions_own p vs .start .start rfl⟩
  · have hchain : List.IsChain (· <+: ·) (([] : Text) :: texts p vs) := by
      cases htexts : texts p vs with
      | nil => exact .singleton _
      | cons t ts =>
        rw [htexts] at hgrow
        exact List.isChain_cons_cons.mpr ⟨List.nil_prefix, hgrow⟩
    exact said_onward p vs .start hchain
  · have hheld : State.lastTextPerPart (translator.run before State.start).2 p = some t := by
      rw [last_run, hlast]
      rfl
    rw [translate_text hv, hheld, Option.getD_some, delta_repeated]
    rfl

def textLine (partId full : String) : Value :=
  .object [("part".toList, .object [("id".toList, .string partId.toList),
    ("text".toList, .string full.toList)]), ("type".toList, .string "text".toList)]

/-- Two parts that grow in turn, one of them told twice. -/
def dialogue : List Value :=
  [textLine "a" "né", textLine "b" "x", textLine "a" "née", textLine "a" "née", textLine "b" "xy"]

theorem part_tokens_dialogue :
    texts ['a'] dialogue = ["né".toList, "née".toList, "née".toList] ∧
    (translator.emissions dialogue State.start).map (fun e => e.2) =
      [[.token "né".toList], [.token ['x']], [.token ['e']], [], [.token ['y']]] ∧
    said ['a'] (translator.emissions dialogue State.start) = "née".toList := by
  have hgrow : List.IsChain (· <+: ·) (texts ['a'] dialogue) := by decide
  refine ⟨by decide, by decide, ?_⟩
  rw [(part_tokens dialogue ['a'] hgrow).1]
  decide

end AgentGrove.Agents.Opencode
