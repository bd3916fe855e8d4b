import AgentGrove.Model.Arguments
import AgentGrove.Wire.Getopt

namespace AgentGrove.Agents

open Getopt

/-- The options of a CLI that take a value. -/
def Cli.valued : Cli → List Text
  | .claude => words ["--output-format", "--model", "--resume", "--effort"]
  | .codex => words ["--sandbox", "-C", "--model"]
  | .opencode => words ["--format", "-m", "--session"]
  | .kiro => words ["--output-format", "--model", "--effort", "--resume-id"]

def Cli.takes (c : Cli) (w : Text) : Bool := c.valued.contains w

abbrev Parsed := List (Text × Option Text)

def given (name : String) (value : Option Text) : Parsed :=
  match value with
  | some v => [(name.toList, some v)]
  | none => []

def bare (holds : Bool) (name : String) : Parsed := if holds then [(name.toList, none)] else []

/-- The options that a provider puts there. -/
def Cli.options (opts : SpawnOptions) : Cli → Parsed
  | .claude => bare true "--print" ++ given "--output-format" (some "stream-json".toList) ++
      bare true "--verbose" ++ bare true "--include-partial-messages" ++
      given "--model" (some (opts.model.getD Claude.defaultModel)) ++
      given "--resume" opts.resumeSessionId ++ given "--effort" opts.effort ++
      bare opts.autoApproveTools "--dangerously-skip-permissions"
  | .codex => bare true "--json" ++ bare true "--skip-git-repo-check" ++
      (if opts.autoApproveTools then bare true "--dangerously-bypass-approvals-and-sandbox"
        else given "--sandbox" (some "read-only".toList)) ++
      given "-C" (some opts.cwd) ++ given "--model" (filled opts.model)
  | .opencode => given "--format" (some "json".toList) ++
      given "-m" (some (opts.model.getD Opencode.defaultModel)) ++ bare opts.effort.isSome "--thinking" ++
      given "--session" opts.resumeSessionId ++ bare opts.autoApproveTools "--auto"
  | .kiro => bare true "--no-interactive" ++ given "--output-format" (some "stream-json".toList) ++
      (if opts.autoApproveTools then bare true "--trust-all-tools" else bare true "--trust-tools=") ++
      given "--model" (filled opts.model) ++ given "--effort" (filled opts.effort) ++
      given "--resume-id" (filled opts.resumeSessionId)

/-- The body reaches the CLI as its last operand, and the options are the provider's own. -/
def Delivers (c : Cli) (body : Text) (opts : SpawnOptions) : Prop :=
  ∃ before, read c.takes (c.args body opts) = ⟨c.options opts, before ++ [body]⟩

/-- The body comes behind a separator, or has no dash and nor has the session that is resumed by a
subcommand. -/
def Undashed (c : Cli) (body : Text) (opts : SpawnOptions) : Prop :=
  match c with
  | .claude | .opencode => True
  | .codex =>
    match filled opts.resumeSessionId with
    | none => dashed body = false
    | some session => session = separator ∨ (dashed session = false ∧ dashed body = false)
  | .kiro => dashed body = false

section Builders

variable {takes : Text → Bool} {ws ws' : List Text} {o o' : Parsed} {p : List Text}

/-- A name that is read as an option, with a value or without one. -/
def Own (takes : Text → Bool) (value : Bool) (name : String) : Prop :=
  name.toList ≠ separator ∧ dashed name.toList = true ∧ takes name.toList = value

instance (takes : Text → Bool) (value : Bool) (name : String) : Decidable (Own takes value name) :=
  inferInstanceAs (Decidable (_ ∧ _ ∧ _))

theorem reads_valued (name : String) (h : Own takes true name) (value : Option Text) :
    Reads takes (valued name value) (given name value) [] := by
  cases value with
  | none => exact .nil
  | some v => exact .valued h.1 h.2.1 h.2.2 v

theorem reads_flag (name : String) (h : Own takes false name) (holds : Bool) :
    Reads takes (flag holds name) (bare holds name) [] := by
  cases holds with
  | false => exact .nil
  | true => exact .flag h.1 h.2.1 h.2.2

end Builders

section Providers

variable (body : Text) (opts : SpawnOptions)

theorem claude_delivers : Delivers .claude body opts := by
  have hhead : Reads Cli.claude.takes (words ["--print", "--output-format", "stream-json", "--verbose",
      "--include-partial-messages", "--model"] ++ [opts.model.getD Claude.defaultModel])
      (bare true "--print" ++ given "--output-format" (some "stream-json".toList) ++
        bare true "--verbose" ++ bare true "--include-partial-messages" ++
        given "--model" (some (opts.model.getD Claude.defaultModel))) [] := rfl
  have hall := ((hhead.append (reads_valued "--resume" (by decide) opts.resumeSessionId)).append
    (reads_valued "--effort" (by decide) opts.effort)).append
    (reads_flag "--dangerously-skip-permissions" (by decide) opts.autoApproveTools)
  refine ⟨[], ?_⟩
  rw [Cli.args, Claude.args, List.append_assoc]
  exact hall.separated body

theorem opencode_delivers : Delivers .opencode body opts := by
  have hhead : Reads Cli.opencode.takes (words ["run", "--format", "json", "-m"] ++
      [opts.model.getD Opencode.defaultModel]) (given "--format" (some "json".toList) ++
        given "-m" (some (opts.model.getD Opencode.defaultModel))) ["run".toList] := rfl
  have hall := ((hhead.append (reads_flag "--thinking" (by decide) opts.effort.isSome)).append
    (reads_valued "--session" (by decide) opts.resumeSessionId)).append
    (reads_flag "--auto" (by decide) opts.autoApproveTools)
  refine ⟨["run".toList], ?_⟩
  rw [Cli.args, Opencode.args, List.append_assoc]
  exact hall.separated body

theorem kiro_delivers_iff : Delivers .kiro body opts ↔ dashed body = false := by
  have hhead : Reads Cli.kiro.takes (words ["chat", "--no-interactive", "--output-format", "stream-json"] ++
      (if opts.autoApproveTools then words ["--trust-all-tools"] else words ["--trust-tools="]))
      (bare true "--no-interactive" ++ given "--output-format" (some "stream-json".toList) ++
        (if opts.autoApproveTools then bare true "--trust-all-tools" else bare true "--trust-tools="))
      ["chat".toList] := by
    cases opts.autoApproveTools <;> rfl
  have hall := ((hhead.append (reads_valued "--model" (by decide) (filled opts.model))).append
    (reads_valued "--effort" (by decide) (filled opts.effort))).append
    (reads_valued "--resume-id" (by decide) (filled opts.resumeSessionId))
  exact hall.last_iff body

/-- Everything codex is told in front of the session. -/
theorem codex_reads : ∃ ws, Reads Cli.codex.takes ws (Cli.codex.options opts) ["exec".toList] ∧
    Cli.codex.args body opts = ws ++ valued "resume" (filled opts.resumeSessionId) ++ [body] := by
  have hhead : Reads Cli.codex.takes (words ["exec", "--json", "--skip-git-repo-check"] ++
      (if opts.autoApproveTools then words ["--dangerously-bypass-approvals-and-sandbox"]
        else words ["--sandbox", "read-only"]) ++ words ["-C"] ++ [opts.cwd])
      (bare true "--json" ++ bare true "--skip-git-repo-check" ++
        (if opts.autoApproveTools then bare true "--dangerously-bypass-approvals-and-sandbox"
          else given "--sandbox" (some "read-only".toList)) ++ given "-C" (some opts.cwd)) ["exec".toList] := by
    cases opts.autoApproveTools <;> rfl
  exact ⟨_, hhead.append (reads_valued "--model" (by decide) (filled opts.model)), rfl⟩

theorem codex_delivers_iff : Delivers .codex body opts ↔ Undashed .codex body opts := by
  obtain ⟨ws, hws, hargs⟩ := codex_reads body opts
  unfold Delivers Undashed
  rw [hargs]
  cases filled opts.resumeSessionId with
  | none =>
    simp only [valued, List.append_nil]
    exact hws.last_iff body
  | some session =>
    have hresume : Reads Cli.codex.takes (ws ++ ["resume".toList]) (Cli.codex.options opts)
        ["exec".toList, "resume".toList] := by
      simpa using hws.append (.operand (w := "resume".toList) (by decide))
    have heq : ws ++ valued "resume" (some session) ++ [body] = ws ++ ["resume".toList] ++ [session, body] := by
      simp [valued]
    rw [heq]
    dsimp only
    by_cases hsep : session = separator
    · subst hsep
      exact ⟨fun _ => .inl rfl, fun _ => ⟨_, hresume.separated body⟩⟩
    by_cases hdash : dashed session = true
    · simp only [hsep, hdash, Bool.true_eq_false, false_and, or_self, iff_false]
      rintro ⟨before, hread⟩
      exact hresume.intruder hdash hsep [body] (congrArg Reading.options hread)
    · have hdash : dashed session = false := by simpa using hdash
      have hsession := hresume.append (.operand hdash)
      simp only [hsep, hdash, true_and, false_or]
      rw [List.append_nil, List.append_assoc] at hsession
      simpa using hsession.last_iff body

end Providers

/-- Claude and opencode separate the prompt from the options. Codex and kiro do not, and take a prompt
with a dash for an option. -/
theorem prompt_delivered_iff (c : Cli) (body : Text) (opts : SpawnOptions) :
    Delivers c body opts ↔ Undashed c body opts := by
  cases c with
  | claude => exact iff_of_true (claude_delivers body opts) trivial
  | codex => exact codex_delivers_iff body opts
  | opencode => exact iff_of_true (opencode_delivers body opts) trivial
  | kiro => exact kiro_delivers_iff body opts

/-- A list in markdown is no prompt for codex. -/
theorem list_read_as_option : ¬ ∀ c body opts, Delivers c body opts := by
  intro hall
  have h : dashed "- one".toList = false :=
    (codex_delivers_iff "- one".toList { cwd := "/w".toList }).mp (hall _ _ _)
  cases h

end AgentGrove.Agents
