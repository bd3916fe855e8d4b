import AgentGrove.Translating.Closings

namespace AgentGrove.Agents.Claude

open Wire

/-- The two kinds of content that are text for the user. -/
inductive Kind where
  | text
  | thinking
deriving DecidableEq

/-- How a block of a kind and its member are called. -/
def Kind.name : Kind → String
  | .text => "text"
  | .thinking => "thinking"

def delta (k : Kind) (inner : Value) : Text :=
  if text "type" inner = some "content_block_delta".toList then
    match inner.get "delta".toList with
    | none => []
    | some d => if text "type" d = some (k.name ++ "_delta").toList then (text k.name d).getD [] else []
  else []

/-- What a line brings of a message that is being written. -/
def piece (k : Kind) (v : Value) : Text :=
  if text "type" v = some "stream_event".toList then ((v.get "event".toList).map (delta k)).getD [] else []

def block (k : Kind) (b : Value) : Text :=
  if text "type" b = some k.name.toList then (text k.name b).getD [] else []

/-- What a line brings of a message that is complete. -/
def whole (k : Kind) (v : Value) : Text :=
  if text "type" v = some "assistant".toList then (content v).flatMap (block k) else []

/-- What the messages say. -/
def said (k : Kind) (vs : List Value) : Text := vs.flatMap (whole k)

/-- The content of a message comes as it is written, and again when it is complete. -/
def ArrivesTwice (message : List Value) : Prop := ∀ k, message.flatMap (piece k) = said k message

def emitted : Kind → AgentEvent → Text
  | .text, .token t => t
  | .thinking, .thinking t => t
  | _, _ => []

section Lines

variable {v : Value} {vs : List Value} {k : Kind}

theorem getD_eq_iff {o : Option Text} {t : Text} (ht : t ≠ []) : o.getD [] = t ↔ o = some t := by
  cases o with
  | none => simpa using ht.symm
  | some u => simp

/-- One event for a text, or none: what it emits is the text. -/
theorem emitted_optional (t : Option Text) (f : Text → AgentEvent) (hf : ∀ t, emitted k (f t) = t) :
    List.flatMap (emitted k) (match nonEmpty t with | some t => [f t] | none => []) = t.getD [] := by
  match t with
  | none | some [] => rfl
  | some (c :: t) =>
    change List.flatMap (emitted k) [f (c :: t)] = c :: t
    rw [List.flatMap_singleton, hf]

theorem emitted_other (t : Option Text) (f : Text → AgentEvent) (hf : ∀ t, emitted k (f t) = []) :
    List.flatMap (emitted k) (match nonEmpty t with | some t => [f t] | none => []) = [] := by
  cases nonEmpty t with
  | none => rfl
  | some t => simp [hf]

theorem streamEvent_emitted (k : Kind) (v : Value) :
    (translateStreamEvent v).flatMap (emitted k) = ((v.get "event".toList).map (delta k)).getD [] := by
  unfold translateStreamEvent
  cases v.get "event".toList with
  | none => rfl
  | some inner =>
    simp only [Option.map_some, Option.getD_some, delta]
    split
    · cases inner.get "delta".toList with
      | none => rfl
      | some d =>
        have htext : (text "type" d).getD [] = "text_delta".toList ↔ _ := getD_eq_iff (by decide)
        have hthink : (text "type" d).getD [] = "thinking_delta".toList ↔ _ := getD_eq_iff (by decide)
        simp only [htext, hthink]
        cases k with
        | text =>
          change _ = if text "type" d = some "text_delta".toList then (text "text" d).getD [] else []
          split
          · exact emitted_optional _ .token fun _ => rfl
          split
          · exact emitted_other _ .thinking fun _ => rfl
          · rfl
        | thinking =>
          change _ = if text "type" d = some "thinking_delta".toList then (text "thinking" d).getD [] else []
          split
          · rename_i htype
            rw [htype, if_neg (by decide)]
            exact emitted_other _ .token fun _ => rfl
          split
          · exact emitted_optional _ .thinking fun _ => rfl
          · rfl
    · rfl

/-- The text of a complete message is not emitted again, and its thinking is. -/
theorem block_emitted (k : Kind) (b : Value) :
    (translateBlock b).flatMap (emitted k) = if k = .thinking then block .thinking b else [] := by
  unfold translateBlock
  split
  · rename_i htype
    have hother : text "type" b ≠ some "thinking".toList := by
      rw [htype]
      decide
    cases k with
    | text => rfl
    | thinking => exact (if_neg hother).symm
  split
  · rename_i htype
    cases k with
    | text => exact emitted_other _ .thinking fun _ => rfl
    | thinking =>
      rw [if_pos rfl, show block .thinking b = (text "thinking" b).getD [] from if_pos htype]
      exact emitted_optional _ .thinking fun _ => rfl
  · rename_i htype
    cases k with
    | text => rfl
    | thinking => exact (if_neg htype).symm

theorem assistant_emitted (k : Kind) (v : Value) : (translateAssistant v).flatMap (emitted k) =
    if k = .thinking then (content v).flatMap (block .thinking) else [] := by
  rw [translateAssistant, List.flatMap_assoc]
  simp only [block_emitted]
  cases k with
  | text => exact List.flatMap_eq_nil_iff.mpr fun _ _ => rfl
  | thinking => rfl

/-- No other line emits content. -/
theorem quiet_emitted (k : Kind) {evs : List AgentEvent}
    (h : ∀ e ∈ evs, (∀ t, e ≠ .token t) ∧ ∀ t, e ≠ .thinking t) : evs.flatMap (emitted k) = [] := by
  refine List.flatMap_eq_nil_iff.mpr fun e he => ?_
  cases e with
  | token t => exact absurd rfl ((h _ he).1 t)
  | thinking t => exact absurd rfl ((h _ he).2 t)
  | _ => cases k <;> rfl

theorem system_quiet (k : Kind) (v : Value) : (translateSystem v).flatMap (emitted k) = [] := by
  refine quiet_emitted k fun e he => ?_
  unfold translateSystem at he
  split at he
  · split at he
    · rw [List.mem_singleton.mp he]
      simp
    · cases he
  · cases he

theorem user_quiet (k : Kind) (v : Value) : (translateUser v).flatMap (emitted k) = [] := by
  refine quiet_emitted k fun e he => ?_
  obtain ⟨b, _, hb⟩ := List.mem_flatMap.mp he
  unfold translateToolResult at hb
  split at hb
  · rw [List.mem_singleton.mp hb]
    simp
  · cases hb

theorem result_quiet (k : Kind) (v : Value) : (translateResult v).flatMap (emitted k) = [] := by
  unfold translateResult
  split
  · cases k <;> rfl
  · cases k <;> rfl

theorem piece_other (h : text "type" v ≠ some "stream_event".toList) : piece k v = [] := if_neg h

theorem whole_other (h : text "type" v ≠ some "assistant".toList) : whole k v = [] := if_neg h

/-- What one line emits of a kind: its piece of it, and of thinking what is complete in it too. -/
theorem line_emitted (k : Kind) (v : Value) : (translate v).flatMap (emitted k) =
    piece k v ++ if k = .thinking then whole .thinking v else [] := by
  by_cases hstream : text "type" v = some "stream_event".toList
  · have hassistant : text "type" v ≠ some "assistant".toList := by
      rw [hstream]
      decide
    have hline : translate v = translateStreamEvent v := by
      unfold translate
      rw [hstream]
      rfl
    rw [hline, streamEvent_emitted, whole_other hassistant, ite_self, List.append_nil]
    exact (if_pos hstream).symm
  rw [piece_other hstream, List.nil_append]
  by_cases hassistant : text "type" v = some "assistant".toList
  · have hline : translate v = translateAssistant v := by
      unfold translate
      rw [hassistant]
      rfl
    rw [hline, assistant_emitted, show whole .thinking v = (content v).flatMap (block .thinking) from
      if_pos hassistant]
  rw [whole_other hassistant, ite_self]
  unfold translate
  split
  · rfl
  rename_i kind htype
  split
  · exact system_quiet k v
  split
  · rename_i hkind
    exact absurd (hkind ▸ htype) hstream
  split
  · rename_i hkind
    exact absurd (hkind ▸ htype) hassistant
  split
  · exact user_quiet k v
  split
  · exact result_quiet k v
  · rfl

theorem events_eq (vs : List Value) : translator.events vs = vs.flatMap translate := by
  show (translator.run vs ()).1 = _
  induction vs with
  | nil => rfl
  | cons v vs ih =>
    show translate v ++ (translator.run vs ()).1 = _
    rw [ih, List.flatMap_cons]

theorem events_emitted (k : Kind) (vs : List Value) : (translator.events vs).flatMap (emitted k) =
    vs.flatMap (fun v => piece k v ++ if k = .thinking then whole .thinking v else []) := by
  rw [events_eq, List.flatMap_assoc]
  simp only [line_emitted]

/-- The standard error and the exit only add errors. -/
theorem sends_emitted {parse : Text → Option Value} {run : CliRun} {evs : List AgentEvent} (k : Kind)
    (h : Sends parse .claude run evs) :
    evs.flatMap (emitted k) = (translator.events (run.values parse)).flatMap (emitted k) := by
  obtain ⟨mid, hmid, rfl⟩ := h
  have hstderr : ∀ e ∈ stderrEvents run .claude, emitted k e = [] := by
    intro e he
    obtain ⟨l, _, rfl⟩ := List.mem_map.mp he
    cases k <;> rfl
  have hclosing : (closing parse run .claude).flatMap (emitted k) = [] := by
    change List.flatMap (emitted k) (if run.status.success then [] else _) = []
    split
    · rfl
    · cases k <;> rfl
  rw [List.flatMap_append, hclosing, List.append_nil, interleaves_flatMap hmid hstderr]
  rfl

theorem said_flatten (k : Kind) {ms : List (List Value)} (h : ∀ m ∈ ms, ArrivesTwice m) :
    ms.flatten.flatMap (piece k) = said k ms.flatten := by
  induction ms with
  | nil => simp [said]
  | cons m ms ih =>
    have hm := h m List.mem_cons_self k
    rw [List.flatten_cons, List.flatMap_append, hm, ih fun m hm => h m (List.mem_cons_of_mem _ hm)]
    simp [said]

theorem length_flatMap_append {α β : Type} (xs : List α) (f g : α → List β) :
    (xs.flatMap (fun x => f x ++ g x)).length = (xs.flatMap f).length + (xs.flatMap g).length := by
  induction xs with
  | nil => rfl
  | cons x xs ih =>
    simp only [List.flatMap_cons, List.length_append, ih]
    omega

end Lines

/-- What a run of the CLI comes to, if each of its messages arrives in pieces and again when it
is complete: its text once, and its thinking twice, a line's own part of it with the line. -/
theorem content_emitted {parse : Text → Option Value} {run : CliRun} {evs : List AgentEvent}
    {ms : List (List Value)} (hsends : Sends parse .claude run evs) (hlines : run.values parse = ms.flatten)
    (htwice : ∀ m ∈ ms, ArrivesTwice m) :
    evs.flatMap (emitted .text) = said .text ms.flatten ∧
    evs.flatMap (emitted .thinking) = ms.flatten.flatMap (fun v => piece .thinking v ++ whole .thinking v) ∧
    ms.flatten.flatMap (piece .thinking) = said .thinking ms.flatten ∧
    (evs.flatMap (emitted .thinking) = said .thinking ms.flatten ↔ said .thinking ms.flatten = []) := by
  have htext : evs.flatMap (emitted .text) = said .text ms.flatten := by
    rw [sends_emitted .text hsends, hlines, events_emitted, ← said_flatten .text htwice]
    simp
  have hthinking : evs.flatMap (emitted .thinking) =
      ms.flatten.flatMap (fun v => piece .thinking v ++ whole .thinking v) := by
    rw [sends_emitted .thinking hsends, hlines, events_emitted]
    rfl
  have hpieces := said_flatten .thinking htwice
  have hlength := length_flatMap_append ms.flatten (piece .thinking) (whole .thinking)
  rw [← hthinking, hpieces, show ms.flatten.flatMap (whole .thinking) = said .thinking ms.flatten from rfl]
    at hlength
  refine ⟨htext, hthinking, hpieces, fun h => ?_, fun h => ?_⟩
  · rw [h] at hlength
    exact List.eq_nil_of_length_eq_zero (by omega)
  · rw [h] at hlength ⊢
    exact List.eq_nil_of_length_eq_zero hlength

def pieceLine (kind said : String) : Value :=
  .object [("event".toList, .object [
      ("delta".toList, .object [(kind.toList, .string said.toList), ("type".toList, .string (kind ++ "_delta").toList)]),
      ("type".toList, .string "content_block_delta".toList)]),
    ("type".toList, .string "stream_event".toList)]

def blockOf (kind said : String) : Value :=
  .object [(kind.toList, .string said.toList), ("type".toList, .string kind.toList)]

def messageLine (blocks : List Value) : Value :=
  .object [("message".toList, .object [("content".toList, .array blocks)]),
    ("type".toList, .string "assistant".toList)]

/-- A message that thinks and then answers. -/
def answer : List Value :=
  [pieceLine "thinking" "h", pieceLine "thinking" "m", pieceLine "text" "ok",
    messageLine [blockOf "thinking" "hm", blockOf "text" "ok"]]

def answerRun : CliRun := ⟨answer.map (fun v => some v.print), [], ⟨true, "0".toList⟩⟩

def parseAnswer (line : Text) : Option Value := answer.find? (fun v => v.print = line)

theorem answer_values : answerRun.values parseAnswer = answer := by rfl

theorem answer_twice : ArrivesTwice answer := by
  intro k
  cases k <;> decide

theorem answer_sends : Sends parseAnswer .claude answerRun (translator.events answer) := by
  refine ⟨_, interleaves_after _ _, ?_⟩
  change _ = [] ++ translator.events (answerRun.values parseAnswer) ++ []
  rw [answer_values, List.append_nil, List.nil_append]

theorem content_emitted_answer : (translator.events answer).flatMap (emitted .text) = "ok".toList ∧
    (translator.events answer).flatMap (emitted .thinking) = "hmhm".toList := by
  have hflat : answerRun.values parseAnswer = [answer].flatten := by
    rw [answer_values, List.flatten_singleton]
  have h := content_emitted answer_sends hflat fun m hm => List.mem_singleton.mp hm ▸ answer_twice
  rw [h.1, h.2.1]
  decide

/-- The thinking of a message comes out once more when the message is complete. -/
theorem thinking_doubled : ¬ ∀ (parse : Text → Option Value) (run : CliRun) (evs : List AgentEvent)
    (ms : List (List Value)), Sends parse .claude run evs → run.values parse = ms.flatten →
      (∀ m ∈ ms, ArrivesTwice m) → ∀ k, evs.flatMap (emitted k) = said k ms.flatten := by
  intro hall
  have hflat : answerRun.values parseAnswer = [answer].flatten := by
    rw [answer_values, List.flatten_singleton]
  have honce := hall parseAnswer answerRun _ [answer] answer_sends hflat
    (fun m hm => List.mem_singleton.mp hm ▸ answer_twice) .thinking
  revert honce
  decide

end AgentGrove.Agents.Claude
