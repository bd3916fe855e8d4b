import AgentGrove.Model.Records

namespace AgentGrove.Agents

/-- The CLIs that take the prompt as a positional argument. -/
inductive Cli where
  | claude
  | codex
  | opencode
  | kiro
deriving DecidableEq

structure SpawnOptions where
  cwd : Text
  model : Option Text := none
  resumeSessionId : Option Text := none
  effort : Option Text := none
  autoApproveTools : Bool := false
deriving DecidableEq

def words (ws : List String) : List Text := ws.map String.toList

/-- An option with its value, if there is one. -/
def valued (name : String) (value : Option Text) : List Text :=
  match value with
  | some v => [name.toList, v]
  | none => []

/-- A word, if this holds. -/
def flag (holds : Bool) (name : String) : List Text := if holds then [name.toList] else []

def filled (value : Option Text) : Option Text := value.filter (fun v => !v.isEmpty)

namespace Claude

def defaultModel : Text := "sonnet".toList

/-- `--` ends the parsing of flags, and the prompt is taken verbatim. -/
def args (prompt : Text) (opts : SpawnOptions) : List Text :=
  words ["--print", "--output-format", "stream-json", "--verbose", "--include-partial-messages", "--model"] ++
    [opts.model.getD defaultModel] ++ valued "--resume" opts.resumeSessionId ++
    valued "--effort" opts.effort ++ flag opts.autoApproveTools "--dangerously-skip-permissions" ++
    words ["--"] ++ [prompt]

end Claude

namespace Codex

def args (prompt : Text) (opts : SpawnOptions) : List Text :=
  words ["exec", "--json", "--skip-git-repo-check"] ++
    (if opts.autoApproveTools then words ["--dangerously-bypass-approvals-and-sandbox"]
      else words ["--sandbox", "read-only"]) ++
    words ["-C"] ++ [opts.cwd] ++ valued "--model" (filled opts.model) ++
    valued "resume" (filled opts.resumeSessionId) ++ [prompt]

end Codex

namespace Opencode

def defaultModel : Text := "opencode/big-pickle".toList

def args (prompt : Text) (opts : SpawnOptions) : List Text :=
  words ["run", "--format", "json", "-m"] ++ [opts.model.getD defaultModel] ++
    flag opts.effort.isSome "--thinking" ++ valued "--session" opts.resumeSessionId ++
    flag opts.autoApproveTools "--auto" ++ words ["--"] ++ [prompt]

end Opencode

namespace Kiro

def args (prompt : Text) (opts : SpawnOptions) : List Text :=
  words ["chat", "--no-interactive", "--output-format", "stream-json"] ++
    (if opts.autoApproveTools then words ["--trust-all-tools"] else words ["--trust-tools="]) ++
    valued "--model" (filled opts.model) ++ valued "--effort" (filled opts.effort) ++
    valued "--resume-id" (filled opts.resumeSessionId) ++ [prompt]

end Kiro

def Cli.args : Cli → Text → SpawnOptions → List Text
  | .claude => Claude.args
  | .codex => Codex.args
  | .opencode => Opencode.args
  | .kiro => Kiro.args

end AgentGrove.Agents
