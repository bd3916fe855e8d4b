import AgentGrove.Model.Providers

namespace AgentGrove.Agents

open Wire

/-- An event that is about no tool and ends no turn. -/
def plain : AgentEvent → Bool
  | .sessionStart _ | .token _ | .thinking _ => true
  | _ => false

/-- Every event is plain. -/
def Plain (evs : List AgentEvent) : Prop := ∀ e ∈ evs, plain e = true

/-- One event for a text, or none. -/
theorem plain_optional (t : Option Text) (f : Text → AgentEvent) (hf : ∀ t, plain (f t) = true) :
    Plain (match t with | some t => [f t] | none => []) := by
  cases t with
  | none => simp [Plain]
  | some t => simp [Plain, hf]

theorem plain_nil : Plain [] := by simp [Plain]

theorem Claude.system_plain (v : Value) : Plain (Claude.translateSystem v) := by
  unfold Claude.translateSystem
  split
  · exact plain_optional _ .sessionStart fun _ => rfl
  · exact plain_nil

theorem Claude.streamEvent_plain (v : Value) : Plain (Claude.translateStreamEvent v) := by
  unfold Claude.translateStreamEvent
  split
  · exact plain_nil
  split
  · split
    · exact plain_nil
    dsimp only
    split
    · exact plain_optional _ .token fun _ => rfl
    split
    · exact plain_optional _ .thinking fun _ => rfl
    · exact plain_nil
  · exact plain_nil

theorem Kimi.part_plain (part : Value) : Plain (Kimi.translatePart part) := by
  unfold Kimi.translatePart
  split
  · exact plain_optional _ .token fun _ => rfl
  split
  · exact plain_optional _ .thinking fun _ => rfl
  · exact plain_nil

theorem Opencode.text_plain (v : Value) (s : Opencode.State) : Plain (Opencode.translateText v s).1 := by
  unfold Opencode.translateText
  split
  · exact plain_nil
  · dsimp only
    split
    · exact plain_nil
    · simp [Plain, plain]

end AgentGrove.Agents
