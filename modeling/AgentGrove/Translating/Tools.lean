import AgentGrove.Translating.Lines

namespace AgentGrove.Agents

open Wire

/-- What a CLI reports of a tool. -/
inductive Phase where
  | called
  | running
  | completed
  | failed
deriving DecidableEq

def Phase.finished : Phase → Bool
  | .completed | .failed => true
  | _ => false

/-- The phase of a tool that has an id. -/
def report (id : Option Text) (phase : Phase) : List (Text × Phase) := (id.map (fun i => (i, phase))).toList

namespace Claude

def reportBlock (block : Value) : List (Text × Phase) :=
  if text "type" block = some "tool_use".toList then report (text "id" block) .called else []

def reportResult (block : Value) : List (Text × Phase) :=
  if text "type" block = some "tool_result".toList then
    report (text "tool_use_id" block) (if isError block then .failed else .completed)
  else []

def reports (v : Value) : List (Text × Phase) :=
  match text "type" v with
  | none => []
  | some kind =>
    if kind = "assistant".toList then (content v).flatMap reportBlock
    else if kind = "user".toList then (content v).flatMap reportResult
    else []

end Claude

namespace Codex

def reportItem (envelope : Text) (item : Value) : List (Text × Phase) :=
  if text "type" item = some "command_execution".toList then
    if envelope = "item.started".toList then report (text "id" item) .called
    else report (text "id" item) (if text "status" item = some "failed".toList then .failed else .completed)
  else []

def reports (v : Value) : List (Text × Phase) :=
  match text "type" v with
  | none => []
  | some ty =>
    if ty = "item.started".toList ∨ ty = "item.completed".toList then
      ((v.get "item".toList).map (reportItem ty)).getD []
    else []

end Codex

namespace Opencode

/-- Any status but these two says that the tool is still at work. -/
def phase (status : Text) : Phase :=
  if status = "completed".toList then .completed
  else if status = "error".toList then .failed
  else .running

def reportTool (part : Value) : List (Text × Phase) := report (toolId part) (phase (toolStatus part))

def reports (v : Value) : List (Text × Phase) :=
  match text "type" v with
  | none => []
  | some kind =>
    if kind = "tool".toList ∨ kind = "tool_use".toList then
      ((v.get "part".toList).map reportTool).getD []
    else []

end Opencode

namespace Kimi

def reports (v : Value) : List (Text × Phase) :=
  match text "role" v with
  | none => []
  | some role =>
    if role = "assistant".toList then
      (items "tool_calls" v).flatMap (fun call => report (text "id" call) .called)
    else if role = "tool".toList then report (text "tool_call_id" v) .completed
    else []

end Kimi

namespace Kiro

def phase (status : Text) : Phase :=
  if status = "completed".toList then .completed
  else if status = "failed".toList then .failed
  else .running

def reportUpdate (update : Value) : List (Text × Phase) :=
  let kind := (text "sessionUpdate" update).getD []
  if kind = "tool_call".toList then report (text "toolCallId" update) .called
  else if kind = "tool_call_update".toList then
    report (text "toolCallId" update) (phase ((text "status" update).getD []))
  else []

def reports (v : Value) : List (Text × Phase) :=
  match text "type" v with
  | none => []
  | some ty =>
    if ty = "sessionUpdate".toList then
      ((v.pointer ["data".toList, "update".toList]).map reportUpdate).getD []
    else []

end Kiro

namespace ProviderId

def reports : ProviderId → Value → List (Text × Phase)
  | .claude => Claude.reports
  | .codex => Codex.reports
  | .opencode => Opencode.reports
  | .kimi => Kimi.reports
  | .kiro => Kiro.reports

/-- The phases that an output reports of a tool, in order. -/
def phases (p : ProviderId) (id : Text) (vs : List Value) : List Phase :=
  ((vs.flatMap p.reports).filter (fun r => r.1 = id)).map (fun r => r.2)

/-- Opencode tells of a tool by its status alone. -/
def announces : ProviderId → Bool
  | .opencode => false
  | _ => true

/-- A tool is announced, where the CLI does that, may be at work for any number of updates,
and finishes once at most. -/
def life (p : ProviderId) (n : Nat) (last : Option Phase) : List Phase :=
  (if p.announces then [.called] else []) ++ List.replicate n .running ++ last.toList

def Lives (p : ProviderId) (phases : List Phase) : Prop :=
  ∃ n, ∃ last : Option Phase, last.all Phase.finished ∧ phases = p.life n last

def WellFormed (p : ProviderId) (vs : List Value) : Prop :=
  ∀ id, p.phases id vs ≠ [] → p.Lives (p.phases id vs)

/-- Opencode tells just once that a tool is at work, and with kiro no tool fails. -/
def Tells : ProviderId → List Phase → Prop
  | .opencode, phases => phases.count .running = 1
  | .kiro, phases => .failed ∉ phases
  | _, _ => True

end ProviderId

inductive Mark where
  | call
  | result
deriving DecidableEq

/-- The call or the result that an event is, of the tool with this id. -/
def markOf (id : Text) : AgentEvent → Option Mark
  | .toolCall _ _ i => if i = some id then some .call else none
  | .toolResult _ _ i => if i = some id then some .result else none
  | _ => none

def marks (id : Text) (evs : List AgentEvent) : List Mark := evs.filterMap (markOf id)

/-- One call and after it one result at most, and the result if the tool has finished. -/
def Paired (phases : List Phase) (ms : List Mark) : Prop :=
  (ms = [.call] ∨ ms = [.call, .result]) ∧
    ∀ phase ∈ phases, phase.finished → ms = [.call, .result]

/-- The calls and results of each tool of an output come in pairs. -/
def ToolsPaired (parse : Text → Option Value) (p : ProviderId) (vs : List Value) : Prop :=
  ∀ id, p.phases id vs ≠ [] →
    Paired (p.phases id vs) (marks id ((p.translator parse).events vs))

/-- What a translator makes of a phase. -/
def ProviderId.marked : ProviderId → Phase → List Mark
  | .opencode, .called | .opencode, .running => [.call]
  | .opencode, .completed | .opencode, .failed => [.result]
  | .kiro, .failed => []
  | _, .called => [.call]
  | _, .running => []
  | _, .completed | _, .failed => [.result]

section Lines

variable {parse : Text → Option Value} {p : ProviderId} {v : Value} {vs : List Value} {id : Text}
  {evs evs' : List AgentEvent}

@[simp] theorem marks_nil : marks id [] = [] := rfl

@[simp] theorem marks_append : marks id (evs ++ evs') = marks id evs ++ marks id evs' :=
  List.filterMap_append

theorem marks_flatMap (id : Text) (f : Value → List AgentEvent) (vs : List Value) :
    marks id (vs.flatMap f) = vs.flatMap (fun v => marks id (f v)) := by
  induction vs with
  | nil => rfl
  | cons v vs ih => simp [ih]

/-- The marks that a report makes. -/
def ProviderId.told (p : ProviderId) (id : Text) (rs : List (Text × Phase)) : List Mark :=
  ((rs.filter (fun r => r.1 = id)).map (fun r => r.2)).flatMap p.marked

theorem told_append (rs rs' : List (Text × Phase)) :
    p.told id (rs ++ rs') = p.told id rs ++ p.told id rs' := by
  simp [ProviderId.told]

theorem told_flatMap (f : Value → List (Text × Phase)) (vs : List Value) :
    p.told id (vs.flatMap f) = vs.flatMap (fun v => p.told id (f v)) := by
  induction vs with
  | nil => rfl
  | cons v vs ih => simp [told_append, ih]

theorem told_report (i : Option Text) (phase : Phase) :
    p.told id (report i phase) = if i = some id then p.marked phase else [] := by
  cases i with
  | none => rfl
  | some i => by_cases h : i = id <;> simp [ProviderId.told, report, h]

theorem marks_call (name : Text) (args : Json) (i : Option Text) :
    marks id [.toolCall name args i] = if i = some id then [.call] else [] := by
  by_cases h : i = some id <;> simp [marks, markOf, h]

theorem marks_result (name : Text) (result : Json) (i : Option Text) :
    marks id [.toolResult name result i] = if i = some id then [.result] else [] := by
  by_cases h : i = some id <;> simp [marks, markOf, h]

theorem marks_plain (h : Plain evs) : marks id evs = [] := by
  refine List.filterMap_eq_nil_iff.mpr fun e he => ?_
  have hplain := h e he
  cases e <;> simp_all [plain, markOf]

theorem Claude.marks_block (block : Value) :
    marks id (Claude.translateBlock block) = ProviderId.claude.told id (Claude.reportBlock block) := by
  unfold Claude.translateBlock Claude.reportBlock
  split
  · rw [marks_call, told_report]
    rfl
  · split
    · exact marks_plain (plain_optional _ .thinking fun _ => rfl)
    · rfl

theorem Claude.marks_toolResult (block : Value) :
    marks id (Claude.translateToolResult block) = ProviderId.claude.told id (Claude.reportResult block) := by
  unfold Claude.translateToolResult Claude.reportResult
  split
  · rw [marks_result, told_report]
    cases Claude.isError block <;> rfl
  · rfl

theorem Claude.marks_line (v : Value) :
    marks id (Claude.translate v) = ProviderId.claude.told id (Claude.reports v) := by
  unfold Claude.translate Claude.reports
  cases htype : text "type" v with
  | none => rfl
  | some kind =>
    dsimp only
    by_cases hassistant : kind = "assistant".toList
    · subst hassistant
      simp [Claude.translateAssistant, marks_flatMap, told_flatMap, Claude.marks_block]
    by_cases huser : kind = "user".toList
    · subst huser
      simp [Claude.translateUser, marks_flatMap, told_flatMap, Claude.marks_toolResult]
    simp only [hassistant, huser, if_false]
    split
    · exact marks_plain (Claude.system_plain v)
    split
    · exact marks_plain (Claude.streamEvent_plain v)
    split
    · unfold Claude.translateResult
      split <;> rfl
    · rfl

theorem Codex.marks_item (envelope : Text) (item : Value) (names : ToolNames) :
    marks id (Codex.translateItem envelope (some item) names).1 =
      ProviderId.codex.told id (Codex.reportItem envelope item) := by
  unfold Codex.reportItem Codex.translateItem
  dsimp only
  by_cases hkind : text "type" item = some "command_execution".toList
  · rw [if_pos hkind, hkind, Option.getD_some]
    rw [if_neg (by simp), if_neg (by simp), if_pos rfl]
    split
    · rw [marks_call, told_report]
      rfl
    · rw [marks_result, told_report]
      split
      · split <;> rfl
      · rfl
  · have hother : (text "type" item).getD [] ≠ "command_execution".toList := by
      cases hitem : text "type" item with
      | none => simp
      | some kind =>
        rw [hitem] at hkind
        exact fun he => hkind (congrArg some he)
    rw [if_neg hkind, if_neg hother]
    split
    · split <;> rfl
    split
    · split <;> rfl
    split
    · split <;> rfl
    · rfl

theorem Codex.marks_line (v : Value) (names : ToolNames) :
    marks id (Codex.translate v names).1 = ProviderId.codex.told id (Codex.reports v) := by
  unfold Codex.translate Codex.reports
  cases htype : text "type" v with
  | none => rfl
  | some ty =>
    dsimp only
    by_cases hitem : ty = "item.started".toList ∨ ty = "item.completed".toList
    · have hthread : ty ≠ "thread.started".toList := by
        rcases hitem with rfl | rfl <;> simp
      rw [if_neg hthread, if_pos hitem, if_pos hitem]
      cases v.get "item".toList with
      | none => rfl
      | some item => exact Codex.marks_item ty item names
    · rw [if_neg hitem, if_neg hitem]
      split
      · split <;> rfl
      split
      · rfl
      split
      · rfl
      split <;> rfl

theorem Opencode.marks_tool (v : Value) : marks id (Opencode.translateTool v) =
    ProviderId.opencode.told id (((v.get "part".toList).map Opencode.reportTool).getD []) := by
  unfold Opencode.translateTool
  cases v.get "part".toList with
  | none => rfl
  | some part =>
    simp only [Option.map_some, Option.getD_some, Opencode.reportTool, told_report]
    split
    · rename_i hdone
      rw [marks_result]
      rcases hdone with hdone | hdone <;> simp [Opencode.phase, hdone, ProviderId.marked]
    · rename_i hopen
      rw [not_or] at hopen
      rw [marks_call, Opencode.phase, if_neg hopen.1, if_neg hopen.2]
      rfl

theorem Opencode.marks_line (v : Value) (s : Opencode.State) :
    marks id (Opencode.translate v s).1 = ProviderId.opencode.told id (Opencode.reports v) := by
  unfold Opencode.translate Opencode.reports
  cases htype : text "type" v with
  | none => rfl
  | some kind =>
    dsimp only
    by_cases htool : kind = "tool".toList ∨ kind = "tool_use".toList
    · have hother : kind ≠ "step_start".toList ∧ kind ≠ "text".toList ∧ kind ≠ "reasoning".toList := by
        rcases htool with rfl | rfl <;> simp
      rw [if_neg hother.1, if_neg hother.2.1, if_neg hother.2.2, if_pos htool, if_pos htool]
      exact Opencode.marks_tool v
    · rw [if_neg htool, if_neg htool]
      split
      · split
        · rfl
        · split <;> rfl
      split
      · exact marks_plain (Opencode.text_plain v s)
      split
      · split <;> rfl
      split <;> rfl

theorem Kimi.marks_line (v : Value) (names : ToolNames) :
    marks id (Kimi.translate parse v names).1 = ProviderId.kimi.told id (Kimi.reports v) := by
  unfold Kimi.translate Kimi.reports
  cases hrole : text "role" v with
  | none => rfl
  | some role =>
    dsimp only
    by_cases hassistant : role = "assistant".toList
    · have hparts : marks id ((Kimi.items "content" v).flatMap Kimi.translatePart) = [] := by
        rw [marks_flatMap]
        exact List.flatMap_eq_nil_iff.mpr fun part _ => marks_plain (Kimi.part_plain part)
      have hcalls : marks id ((Kimi.items "tool_calls" v).map (Kimi.translateCall parse)) =
          (Kimi.items "tool_calls" v).flatMap
            (fun call => ProviderId.kimi.told id (report (text "id" call) .called)) := by
        rw [List.map_eq_flatMap, marks_flatMap]
        refine List.flatMap_congr fun call _ => ?_
        rw [Kimi.translateCall, marks_call, told_report]
        rfl
      rw [if_pos hassistant, if_pos hassistant, marks_append, hparts, hcalls, told_flatMap]
      rfl
    rw [if_neg hassistant, if_neg hassistant]
    split
    · rw [marks_result, told_report]
      rfl
    · rfl

theorem Kiro.marks_update (update : Value) :
    marks id (Kiro.translateSessionUpdate (some update)) =
      ProviderId.kiro.told id (Kiro.reportUpdate update) := by
  unfold Kiro.translateSessionUpdate Kiro.reportUpdate
  dsimp only
  generalize (text "sessionUpdate" update).getD [] = kind
  by_cases hcall : kind = "tool_call".toList
  · have hother : kind ≠ "agent_message_chunk".toList ∧ kind ≠ "agent_thought_chunk".toList := by
      subst hcall
      simp
    rw [if_neg hother.1, if_neg hother.2, if_pos hcall, if_pos hcall, marks_call, told_report]
    rfl
  by_cases hupdate : kind = "tool_call_update".toList
  · have hother : kind ≠ "agent_message_chunk".toList ∧ kind ≠ "agent_thought_chunk".toList := by
      subst hupdate
      simp
    rw [if_neg hother.1, if_neg hother.2, if_neg hcall, if_neg hcall, if_pos hupdate, if_pos hupdate,
      told_report]
    generalize (text "status" update).getD [] = status
    by_cases hdone : status = "completed".toList
    · rw [if_pos hdone, marks_result, Kiro.phase, if_pos hdone]
      rfl
    · rw [if_neg hdone, Kiro.phase, if_neg hdone]
      split
      · split <;> rfl
      · rfl
  rw [if_neg hcall, if_neg hupdate, if_neg hcall, if_neg hupdate]
  split
  · exact marks_plain (plain_optional _ .token fun _ => rfl)
  split
  · exact marks_plain (plain_optional _ .thinking fun _ => rfl)
  · rfl

theorem Kiro.marks_line (v : Value) (announced : Bool) :
    marks id (Kiro.translate v announced).1 = ProviderId.kiro.told id (Kiro.reports v) := by
  unfold Kiro.translate Kiro.reports
  cases htype : text "type" v with
  | none => rfl
  | some ty =>
    dsimp only
    by_cases hupdate : ty = "sessionUpdate".toList
    · have hmeta : ty ≠ "metadata".toList := by simp [hupdate]
      rw [if_neg hmeta, if_pos hupdate, if_pos hupdate]
      dsimp only
      cases v.pointer ["data".toList, "update".toList] with
      | none => rfl
      | some update => exact Kiro.marks_update update
    · rw [if_neg hupdate, if_neg hupdate]
      split
      · split
        · rfl
        · split <;> rfl
      split
      · rfl
      split <;> rfl

/-- Whatever a translator keeps, the marks of a line are those of what it reports. -/
theorem marks_translate (p : ProviderId) (v : Value) (s : (p.translator parse).State) :
    marks id ((p.translator parse).translate v s).1 = p.told id (p.reports v) := by
  cases p with
  | claude => exact Claude.marks_line v
  | codex => exact Codex.marks_line v s
  | opencode => exact Opencode.marks_line v s
  | kimi => exact Kimi.marks_line v s
  | kiro => exact Kiro.marks_line v s

theorem marks_run (p : ProviderId) (vs : List Value) (s : (p.translator parse).State) :
    marks id ((p.translator parse).run vs s).1 = (p.phases id vs).flatMap p.marked := by
  have htold : (p.phases id vs).flatMap p.marked = p.told id (vs.flatMap p.reports) := rfl
  rw [htold]
  induction vs generalizing s with
  | nil => rfl
  | cons v vs ih =>
    rw [Translator.run, marks_append, marks_translate, ih _ rfl, List.flatMap_cons, told_append]

/-- The marks of a tool that is at work for `n` updates. -/
theorem marked_running (p : ProviderId) (n : Nat) : (List.replicate n Phase.running).flatMap p.marked =
    if p.announces then [] else List.replicate n .call := by
  induction n with
  | zero => cases p <;> rfl
  | succ n ih =>
    rw [List.replicate_succ, List.flatMap_cons, ih]
    cases p <;> rfl

/-- A tool finishes in its last phase. -/
theorem finished_life {n : Nat} {last : Option Phase} {phase : Phase} (h : phase ∈ p.life n last)
    (hf : phase.finished = true) : last = some phase := by
  simp only [ProviderId.life, List.mem_append, Option.mem_toList] at h
  rcases h with (h | h) | h
  · split at h
    · rw [List.mem_singleton.mp h] at hf
      cases hf
    · cases h
  · rw [List.eq_of_mem_replicate h] at hf
    cases hf
  · exact h

/-- A tool that is announced has its call from that, and is paired unless its end makes no mark. -/
theorem paired_announced (n : Nat) {last : Option Phase} (hp : p.announces = true)
    (hcalled : p.marked .called = [.call]) (hlast : ∀ phase ∈ last, phase.finished) :
    Paired (p.life n last) ((p.life n last).flatMap p.marked) ↔ ∀ phase ∈ last, p.marked phase = [.result] := by
  have hmarks : (p.life n last).flatMap p.marked = .call :: last.toList.flatMap p.marked := by
    rw [ProviderId.life, List.flatMap_append, List.flatMap_append, marked_running, hp]
    simp [hcalled]
  rw [hmarks]
  refine ⟨fun h phase hm => ?_, fun h => ⟨?_, fun phase hm hf => ?_⟩⟩
  · have hin : phase ∈ p.life n last := List.mem_append_right _ (Option.mem_toList.mpr hm)
    have hboth := h.2 phase hin (hlast phase hm)
    rw [Option.mem_def.mp hm, Option.toList_some, List.flatMap_singleton] at hboth
    exact (List.cons.inj hboth).2
  · cases last with
    | none => exact .inl rfl
    | some phase =>
      right
      rw [Option.toList_some, List.flatMap_singleton, h phase rfl]
  · have he := finished_life hm hf
    rw [he, Option.toList_some, List.flatMap_singleton, h phase he]

/-- Opencode's tool is called once for each update that it is at work. -/
theorem Opencode.paired {n : Nat} {last : Option Phase} (hlast : ∀ phase ∈ last, phase.finished) :
    Paired (ProviderId.opencode.life n last)
      ((ProviderId.opencode.life n last).flatMap ProviderId.opencode.marked) ↔ n = 1 := by
  have hmarks : (ProviderId.opencode.life n last).flatMap ProviderId.opencode.marked =
      List.replicate n .call ++ last.toList.map (fun _ => .result) := by
    rw [ProviderId.life, List.flatMap_append, List.flatMap_append, marked_running]
    cases last with
    | none => rfl
    | some phase =>
      have hfinished := hlast phase rfl
      cases phase <;> first | rfl | cases hfinished
  have hcount : (List.replicate n Mark.call ++ last.toList.map (fun _ => Mark.result)).count .call = n := by
    cases last <;> simp
  rw [hmarks]
  refine ⟨fun h => ?_, fun hn => ⟨?_, fun phase hm hf => ?_⟩⟩
  · rcases h.1 with h | h
    all_goals
      rw [h] at hcount
      exact hcount.symm
  · subst hn
    cases last with
    | none => exact .inl rfl
    | some phase => exact .inr rfl
  · rw [hn, finished_life hm hf]
    rfl

theorem paired_iff_tells {phases : List Phase} (h : p.Lives phases) :
    Paired phases (phases.flatMap p.marked) ↔ p.Tells phases := by
  obtain ⟨n, last, hall, rfl⟩ := h
  have hlast : ∀ phase ∈ last, phase.finished := by
    intro phase hm
    rw [hm] at hall
    exact hall
  cases p with
  | opencode =>
    refine (Opencode.paired hlast).trans ?_
    have hcount : last.toList.count .running = 0 := by
      refine List.count_eq_zero.mpr fun hm => ?_
      cases hlast .running (Option.mem_toList.mp hm)
    simp [ProviderId.Tells, ProviderId.life, ProviderId.announces, hcount]
  | kiro =>
    refine (paired_announced n rfl rfl hlast).trans ⟨fun h hm => ?_, fun h phase hm => ?_⟩
    · cases h .failed (finished_life hm rfl)
    · have hin : phase ∈ ProviderId.kiro.life n last :=
        List.mem_append_right _ (Option.mem_toList.mpr hm)
      cases phase with
      | completed => rfl
      | failed => exact absurd hin h
      | called | running => cases hlast _ hm
  | claude | codex | kimi =>
    refine (paired_announced n rfl rfl hlast).trans ⟨fun _ => trivial, fun _ phase hm => ?_⟩
    cases phase <;> first | rfl | cases hlast _ hm

end Lines

/-- For every output in which a CLI tells of its tools as it should, calls and results come
out in pairs just if opencode tells once that a tool is at work and no tool of kiro fails. -/
theorem tools_paired_iff (parse : Text → Option Value) (p : ProviderId) (vs : List Value)
    (hwell : p.WellFormed vs) :
    ToolsPaired parse p vs ↔ ∀ id, p.phases id vs ≠ [] → p.Tells (p.phases id vs) := by
  have hmarks : ∀ id, marks id ((p.translator parse).events vs) = (p.phases id vs).flatMap p.marked :=
    fun id => marks_run p vs _
  refine forall_congr' fun id => ?_
  refine imp_congr_right fun hne => ?_
  rw [hmarks id]
  exact paired_iff_tells (hwell id hne)

/-- A status update of opencode. -/
def toolUse (callId status : String) : Value :=
  .object [("part".toList, .object [("callID".toList, .string callId.toList),
      ("state".toList, .object [("status".toList, .string status.toList)]), ("tool".toList, .string "bash".toList)]),
    ("type".toList, .string "tool_use".toList)]

/-- An output about one tool. -/
theorem wellFormed_of_one {p : ProviderId} {vs : List Value} {i : Text}
    (hone : ∀ r ∈ vs.flatMap p.reports, r.1 = i) (hlives : p.Lives (p.phases i vs)) : p.WellFormed vs := by
  intro id hne
  obtain ⟨r, hr⟩ := List.exists_mem_of_ne_nil _ (fun he => hne (List.map_eq_nil_iff.mpr he))
  obtain ⟨hm, hid⟩ := List.mem_filter.mp hr
  rw [← of_decide_eq_true hid, hone r hm]
  exact hlives

def oneUpdate : List Value := [toolUse "t" "running", toolUse "t" "completed"]

theorem tools_paired_iff_oneUpdate : ToolsPaired (fun _ => none) .opencode oneUpdate ↔
    ∀ id, ProviderId.opencode.phases id oneUpdate ≠ [] →
      ProviderId.opencode.Tells (ProviderId.opencode.phases id oneUpdate) :=
  tools_paired_iff _ _ _ (wellFormed_of_one (i := ['t']) (by decide) ⟨1, some .completed, rfl, by decide⟩)

def twoUpdates : List Value := [toolUse "t" "pending", toolUse "t" "running", toolUse "t" "completed"]

/-- A second update that the tool is at work is a second call. -/
theorem called_twice : ¬ ∀ (parse : Text → Option Value) (p : ProviderId) (vs : List Value),
    p.WellFormed vs → ToolsPaired parse p vs := by
  intro hall
  have hwell : ProviderId.opencode.WellFormed twoUpdates :=
    wellFormed_of_one (i := ['t']) (by decide) ⟨2, some .completed, rfl, by decide⟩
  have hmarks : marks ['t'] ((ProviderId.opencode.translator (fun _ => none)).events twoUpdates) =
      [.call, .call, .result] := by decide
  have hpaired := hall (fun _ => none) .opencode twoUpdates hwell ['t'] (by decide)
  rw [hmarks] at hpaired
  rcases hpaired.1 with h | h <;> cases h

end AgentGrove.Agents
