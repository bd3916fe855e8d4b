import AgentGrove.Model.Agents

namespace AgentGrove.Agents

open Wire

/-- The providers that run a CLI. -/
inductive ProviderId where
  | claude
  | codex
  | opencode
  | kimi
  | kiro
deriving DecidableEq

/-- How the values of an output become events, with what is kept from one value to the next. -/
structure Translator where
  State : Type
  start : State
  translate : Value → State → List AgentEvent × State

namespace Translator

def run (T : Translator) : List Value → T.State → List AgentEvent × T.State
  | [], s => ([], s)
  | v :: vs, s => ((T.translate v s).1 ++ (run T vs (T.translate v s).2).1, (run T vs (T.translate v s).2).2)

def events (T : Translator) (vs : List Value) : List AgentEvent := (T.run vs T.start).1

/-- Each value with the events it became. -/
def emissions (T : Translator) : List Value → T.State → List (Value × List AgentEvent)
  | [], _ => []
  | v :: vs, s => (v, (T.translate v s).1) :: emissions T vs (T.translate v s).2

/-- Their events are those of the run. -/
theorem emissions_events (T : Translator) (vs : List Value) (s : T.State) :
    (T.emissions vs s).flatMap (fun e => e.2) = (T.run vs s).1 := by
  induction vs generalizing s with
  | nil => rfl
  | cons v vs ih => simp [run, emissions, ih]

end Translator

abbrev Claude.translator : Translator := ⟨Unit, (), fun v s => (Claude.translate v, s)⟩

abbrev Codex.translator : Translator := ⟨ToolNames, fun _ => none, Codex.translate⟩

abbrev Opencode.translator : Translator := ⟨Opencode.State, .start, Opencode.translate⟩

/-- `parse` is `serde_json::from_str`. -/
abbrev Kimi.translator (parse : Text → Option Value) : Translator := ⟨ToolNames, fun _ => none, Kimi.translate parse⟩

abbrev Kiro.translator : Translator := ⟨Bool, false, Kiro.translate⟩

def ProviderId.translator (parse : Text → Option Value) : ProviderId → Translator
  | .claude => Claude.translator
  | .codex => Codex.translator
  | .opencode => Opencode.translator
  | .kimi => Kimi.translator parse
  | .kiro => Kiro.translator

structure ExitStatus where
  success : Bool
  display : Text

/-- What a CLI did: the lines of its two outputs, of which one may be unreadable, and its exit. -/
structure CliRun where
  stdout : List (Option Text)
  stderr : List (Option Text)
  status : ExitStatus

/-- A task reads its lines up to the first that cannot be read. -/
def readLines (lines : List (Option Text)) : List Text := (lines.takeWhile Option.isSome).filterMap id

/-- The lines that are not blank. -/
def fullLines (lines : List (Option Text)) : List Text :=
  (readLines lines).filter (fun l => !(trim l).isEmpty)

namespace CliRun

variable (parse : Text → Option Value) (run : CliRun)

/-- The values on the lines that can be parsed. -/
def values : List Value := (fullLines run.stdout).filterMap parse

def stdoutEvents (p : ProviderId) : List AgentEvent := (p.translator parse).events (run.values parse)

end CliRun

def resumeHint : Text := "kimi -r ".toList

/-- The text after the first place where this pattern stands. -/
def textAfter (pat : Text) : Text → Option Text
  | [] => if pat.isEmpty then some [] else none
  | c :: t => if pat.isPrefixOf (c :: t) then some ((c :: t).drop pat.length) else textAfter pat t

/-- A session id, guarded against a partial one. -/
def parseResumeHint (line : Text) : Option Text :=
  match textAfter resumeHint line with
  | none => none
  | some rest =>
    let id := rest.takeWhile (fun c => c.isAlphanum || c == '-')
    if 32 ≤ byteLen id then some id else none

/-- The first resume hint on the standard error. -/
def announced (lines : List Text) : Option Text := lines.findSome? parseResumeHint

/-- The lines kept of kimi's standard error: all but the first resume hint. -/
def keptByKimi (lines : List Text) : List Text :=
  (lines.takeWhile (fun l => (parseResumeHint l).isNone) ++
    (lines.dropWhile (fun l => (parseResumeHint l).isNone)).drop 1).map trim

/-- What the task of the standard error sends itself. -/
def stderrEvents (run : CliRun) : ProviderId → List AgentEvent
  | .claude => (fullLines run.stderr).map (fun l => .error (trim l))
  | .kimi =>
    match announced (fullLines run.stderr) with
    | some id => [.sessionStart id]
    | none => []
  | _ => []

def isError : AgentEvent → Bool
  | .error _ => true
  | _ => false

def exited (name : String) (status : ExitStatus) : Text :=
  name.toList ++ " exited with status ".toList ++ status.display

/-- The last four lines, if there is something in them. -/
def tail (lines : List Text) : Option Text :=
  nonEmpty (some (joinLines [' '] (lines.drop (lines.length - 4))))

def failure (name : String) (message : Option Text) (status : ExitStatus) : Text :=
  match message with
  | some s => name.toList ++ " failed: ".toList ++ s
  | none => exited name status

namespace Opencode

/-- A line that is no frame of a stack trace. -/
def meaningful (l : Text) : Bool :=
  byteLen l < 200 && !"    at ".toList.isPrefixOf l && !"\tat ".toList.isPrefixOf l &&
    !"  cause:".toList.isPrefixOf l && !containsText l "/chunk-".toList && !containsText l "native:".toList

def message (lines : List Text) (status : ExitStatus) : Text :=
  match lines.find? meaningful with
  | some s =>
    if containsText s "SQLiteError".toList || containsText s "no such column".toList then
      "The opencode CLI has a stale internal database. Run `opencode upgrade` or `rm -rf ~/.local/share/opencode/data` and try again.".toList
    else failure "opencode" (some s) status
  | none => failure "opencode" none status

end Opencode

namespace Kimi

def pick (lines : List Text) : Option Text :=
  let meaningful := (lines.filter (fun l => !"Traceback".toList.isPrefixOf l &&
    !"  ".toList.isPrefixOf l && !containsText l resumeHint)).take 4
  if meaningful.isEmpty then none else some (joinLines [' '] meaningful)

/-- The lines of the standard output that are no JSON. -/
def plainLines (parse : Text → Option Value) (run : CliRun) : List Text :=
  ((fullLines run.stdout).filter (fun l => (parse l).isNone)).map trim

def message (parse : Text → Option Value) (run : CliRun) : Text :=
  failure "kimi" (((pick (keptByKimi (fullLines run.stderr))).or (pick (plainLines parse run))).map
    (fun s => s.take 300)) run.status

end Kimi

/-- Codex does not keep the warning about its models' cache. -/
def keptByCodex (lines : List Text) : List Text :=
  (lines.map trim).filter (fun l => !containsText l "Reading additional input".toList)

def cut (message : Option Text) : Option Text := message.map (fun s => s.take 300)

/-- What `spawn` sends when the CLI has exited and both outputs are read. -/
def closing (parse : Text → Option Value) (run : CliRun) : ProviderId → List AgentEvent
  | .claude => if run.status.success then [] else [.error (exited "claude" run.status)]
  | .codex =>
    if (run.stdoutEvents parse .codex).any AgentEvent.terminal then []
    else if run.status.success then [.done none none]
    else [.error (failure "codex" (cut (tail (keptByCodex (fullLines run.stderr)))) run.status)]
  | .opencode =>
    if run.status.success then [.done none none]
    else if (run.stdoutEvents parse .opencode).any isError then []
    else [.error (Opencode.message ((fullLines run.stderr).map trim) run.status)]
  | .kimi => if run.status.success then [.done none none] else [.error (Kimi.message parse run)]
  | .kiro =>
    if (run.stdoutEvents parse .kiro).any AgentEvent.terminal then []
    else if run.status.success then [.done none none]
    else [.error (failure "kiro-cli" (cut (tail ((fullLines run.stderr).map trim))) run.status)]

/-- Two lists in one, each in its order. -/
inductive Interleaves {α : Type} : List α → List α → List α → Prop
  | nil : Interleaves [] [] []
  | left (a : α) {xs ys zs : List α} : Interleaves xs ys zs → Interleaves (a :: xs) ys (a :: zs)
  | right (a : α) {xs ys zs : List α} : Interleaves xs ys zs → Interleaves xs (a :: ys) (a :: zs)

/-- The events of a turn. The two outputs are read side by side. -/
def Sends (parse : Text → Option Value) (p : ProviderId) (run : CliRun) (evs : List AgentEvent) : Prop :=
  ∃ mid, Interleaves (run.stdoutEvents parse p) (stderrEvents run p) mid ∧
    evs = mid ++ closing parse run p

end AgentGrove.Agents
