import AgentGrove.Coop.Pool
import AgentGrove.Model.Records

namespace AgentGrove

open Coop

structure DbConnection where
  id : String
  name : String
  url : String
deriving DecidableEq

/-- A reusable prompt template. -/
structure PromptTemplate where
  id : String
  name : String
  body : String
deriving DecidableEq

structure ThemeColors where
  bg : String
  fg : String
  muted : String
  accent : String
deriving DecidableEq

structure Theme where
  id : String
  name : String
  kind : String
  custom : Bool
  colors : ThemeColors
deriving DecidableEq

structure Settings where
  theme : Option String := none
  customThemes : List Theme := []
  uiFont : Option String := none
  monoFont : Option String := none
  fontSize : Option Nat := none
  defaultProvider : Option String := none
  defaultModel : Option String := none
  prompts : List PromptTemplate := []
  dbConnections : List DbConnection := []
  promptsSeeded : Bool := false
  appliedPromptSeeds : List String := []
  autoApproveTools : Option Bool := none
deriving DecidableEq

def defaultPrompts : List PromptTemplate := [
  { id := "00000000-0000-4000-8000-000000000001"
    name := "Create PR"
    body := "Open a pull request for the current branch.\n\n" ++
      "Please:\n" ++
      "- Inspect `git status`, `git diff`, and the latest commits to understand the change.\n" ++
      "- Push the current branch to its tracking remote (create one with `-u` if missing).\n" ++
      "- Create the PR against the repo's default branch using `gh pr create`.\n" ++
      "- Title: short, imperative, no trailing period. Match the repo's style.\n" ++
      "- Body: short summary, bullet list of changes, and a `Test plan` section listing the " ++
      "commands you ran (lint, typecheck, tests).\n" ++
      "- Reply with only the PR URL when done." },
  { id := "00000000-0000-4000-8000-000000000002"
    name := "Code review"
    body := "Review the changes on this branch as if you were a senior engineer on the team.\n\n" ++
      "Please cover, in order:\n" ++
      "- Correctness — does each change do what the commit message claims?\n" ++
      "- Edge cases — null/empty/error paths, race conditions, off-by-ones.\n" ++
      "- Tests — coverage gaps, brittle assertions, missing failure-mode tests.\n" ++
      "- Readability — naming, dead code, oversized functions, leaked abstractions.\n" ++
      "- Performance — obvious N+1s, unnecessary allocations, blocking I/O on hot paths.\n" ++
      "- Security — input validation, secret handling, auth boundaries.\n\n" ++
      "Format: grouped headings above, with file:line citations for every finding." },
  { id := "00000000-0000-4000-8000-000000000003"
    name := "Explain this code"
    body := "Explain the highlighted code (or the file currently open in the editor) the way you'd " ++
      "explain it to a teammate new to this codebase.\n\n" ++
      "Please:\n" ++
      "- Start with one sentence on what the code is for.\n" ++
      "- Walk through the data flow — what comes in, what goes out, what side effects " ++
      "occur.\n" ++
      "- Call out any non-obvious invariants or assumptions.\n" ++
      "- Flag the trickiest 1-2 lines and explain *why* they exist (not just what they do)." },
  { id := "00000000-0000-4000-8000-000000000004"
    name := "Write tests"
    body := "Write tests for the change on this branch (or the file/function I have open).\n\n" ++
      "Please:\n" ++
      "- First locate the existing test setup in this repo (framework, helpers, fixtures) " ++
      "and follow it. Do NOT introduce a new framework.\n" ++
      "- Cover the happy path plus at least two edge cases (empty input, error path, " ++
      "boundary).\n" ++
      "- Prefer pure unit tests where possible; only reach for integration/e2e style when " ++
      "behaviour spans multiple modules.\n" ++
      "- After writing, run the test command and paste the output." },
  { id := "00000000-0000-4000-8000-000000000005"
    name := "Refactor for clarity"
    body := "Refactor the file (or selection) for clarity without changing behaviour.\n\n" ++
      "Constraints:\n" ++
      "- Behaviour MUST be preserved — every existing test must still pass.\n" ++
      "- Prefer small, named functions over inline blocks.\n" ++
      "- Reduce nesting; prefer early returns.\n" ++
      "- Tighten naming — variables that lie should be renamed.\n" ++
      "- No drive-by formatting changes outside the area being refactored.\n" ++
      "- After the refactor, run lint + typecheck + tests and report the result." },
  { id := "00000000-0000-4000-8000-000000000006"
    name := "Debug failing test"
    body := "A test is failing. Help me find the root cause.\n\n" ++
      "Please:\n" ++
      "- Re-run the failing test in isolation and capture the actual vs expected output.\n" ++
      "- Bisect the change — narrow which commit/file introduced the regression.\n" ++
      "- Read the implementation under test and the test setup; look for shared mutable " ++
      "state, ordering assumptions, and timing bugs first.\n" ++
      "- Propose the minimum diff that makes the test pass without weakening its " ++
      "assertions.\n" ++
      "- If the test is wrong (not the code), say so and justify it." },
  { id := "00000000-0000-4000-8000-000000000007"
    name := "Generate commit message"
    body := "Generate a commit message for the currently-staged changes.\n\n" ++
      "Format:\n" ++
      "- Subject: ≤ 72 chars, imperative mood, no trailing period.\n" ++
      "- Body (only if the change isn't self-explanatory): wrap at 72 cols, explain *why* " ++
      "not *what*.\n" ++
      "- Match the repo's existing commit style (check `git log --oneline -10`).\n" ++
      "- Do NOT mention tools or AI in the message.\n\n" ++
      "Reply with only the commit message — no preamble." },
  { id := "00000000-0000-4000-8000-000000000008"
    name := "Summarise recent changes"
    body := "Summarise what's changed on this branch relative to its base.\n\n" ++
      "Please:\n" ++
      "- Run `git log --oneline <base>..HEAD` and `git diff --stat <base>..HEAD`.\n" ++
      "- Group changes by area (e.g. \"API\", \"UI\", \"tests\", \"docs\").\n" ++
      "- For each group give a one-line summary + the affected files.\n" ++
      "- Flag anything user-visible (new endpoints, schema changes, breaking renames) at the " ++
      "top.\n" ++
      "- Keep the whole summary under ~25 lines." }]

def v2Prompts : List PromptTemplate := [
  { id := "00000000-0000-4000-8000-000000000009"
    name := "Merge latest from remote"
    body := "Merge the latest changes from the remote tracking branch into the current branch and " ++
      "resolve all merge conflicts.\n\n" ++
      "Steps:\n" ++
      "1. Run `git fetch origin` to pull the latest remote state.\n" ++
      "2. Identify the remote tracking branch for the current branch (typically " ++
      "`origin/<current-branch>` or `origin/main`).\n" ++
      "3. Run `git merge <tracking-branch>` to start the merge.\n" ++
      "4. If there are conflicts, inspect each conflicted file, resolve them by keeping the " ++
      "correct combination of both sides, then `git add` the resolved files.\n" ++
      "5. Complete the merge with `git commit`.\n" ++
      "6. Push the result with `git push`.\n\n" ++
      "If the merge is clean (no conflicts), just push. If conflicts are complex, explain " ++
      "what you changed and why for each file." }]

/-- Every seed batch by its id, in the order in which they are applied. -/
def seedBatches : List (String × List PromptTemplate) :=
  [("v1", defaultPrompts), ("v2", v2Prompts)]

/-- Add the templates whose ids are not in the list, at its end. -/
def mergeTemplates (prompts templates : List PromptTemplate) : List PromptTemplate :=
  templates.foldl (fun ps tpl =>
    if ps.any (fun existing => existing.id = tpl.id) then ps else ps ++ [tpl]) prompts

/-- One batch, unless it has been applied before. The flag says whether there is
something to write. -/
def applyBatch (s : Settings × Bool) (batch : String × List PromptTemplate) : Settings × Bool :=
  if batch.1 ∈ s.1.appliedPromptSeeds then s
  else
    ({ s.1 with
        prompts := mergeTemplates s.1.prompts batch.2
        appliedPromptSeeds := s.1.appliedPromptSeeds ++ [batch.1]
        promptsSeeded := true }, true)

/-- The seed pass of `read_settings`. -/
def applySeeds (s : Settings) : Settings × Bool := seedBatches.foldl applyBatch (s, false)

/-- What the settings code relies on of `serde_json`. -/
structure Codec where
  toVecPretty : Settings → List UInt8
  fromSlice : List UInt8 → Option Settings
  fromSlice_toVecPretty : ∀ s, fromSlice (toVecPretty s) = some s
  fromSlice_empty : fromSlice [] = none

/-- Why a settings or theme route failed: with a text of its own or the file's error. -/
inductive SettingsError where
  | rejected (status : StatusCode) (message : String)
  | io
deriving DecidableEq

/-- The state directory, as far as `settings.json` goes. -/
structure Disk where
  file : Option (List UInt8)

inductive FileSite where
  | read
  | truncate
  | write
deriving DecidableEq

inductive SettingsRequest where
  | get
  /-- The load of a turn's dispatch. -/
  | load
  | listThemes
  | put (body : Settings)
  | importTheme (t : Theme)
  | deleteTheme (id : String)
deriving DecidableEq

/-- A task on the settings file. The world decides of each operation whether it
succeeds. -/
abbrev FileProg := Prog FileSite SettingsRequest Bool Disk

/-- `fs::read`, with `none` for its error. -/
def fsRead : FileProg (Option (List UInt8)) :=
  .await .read (fun ok d => some (d, if ok then d.file else none)) .ret

/-- The first half of `fs::write`, which opens the file and truncates it. -/
def fsTruncate : FileProg Bool :=
  .await .truncate (fun ok d => some (if ok then { file := some [] } else d, ok)) .ret

/-- The second half: the bytes go over what is there, from the file's start on. -/
def fsWriteAll (bytes : List UInt8) : FileProg Bool :=
  .await .write (fun ok d => some
    (if ok then { file := d.file.map (fun old => bytes ++ old.drop bytes.length) } else d, ok)) .ret

def fsWrite (bytes : List UInt8) : FileProg Bool := do
  if ← fsTruncate then fsWriteAll bytes else return false

section

variable (K : Codec)

def writeSettings (s : Settings) : FileProg Bool := fsWrite (K.toVecPretty s)

/-- What a read makes of the file: the defaults if it is missing or unreadable. -/
def parseSettings (bytes : Option (List UInt8)) : Settings := (bytes.bind K.fromSlice).getD {}

def readSettings : FileProg Settings := do
  let bytes ← fsRead
  let (s, dirty) := applySeeds (parseSettings K bytes)
  -- best effort: the result of the write is ignored
  if dirty then
    let _ ← writeSettings K s
    return s
  else return s

def putSettings (body : Settings) : FileProg (Except SettingsError Settings) := do
  if ← writeSettings K body then return .ok body else return .error .io

/-- What `import_theme` rejects before it looks at the file. -/
def themeError (t : Theme) : Option SettingsError :=
  if (trim t.id.toList).isEmpty then some (.rejected .badRequest "id is empty")
  else if t.kind ≠ "light" ∧ t.kind ≠ "dark" then
    some (.rejected .badRequest "kind must be light or dark")
  else none

/-- The settings with a theme in place of any other of its id. -/
def addTheme (t : Theme) (s : Settings) : Settings :=
  { s with customThemes :=
      s.customThemes.filter (fun x => x.id ≠ t.id) ++ [{ t with custom := true }] }

def dropTheme (id : String) (s : Settings) : Settings :=
  { s with customThemes := s.customThemes.filter (fun x => x.id ≠ id) }

def importTheme (t : Theme) : FileProg (Except SettingsError Theme) := do
  match themeError t with
  | some e => return .error e
  | none =>
    let settings ← readSettings K
    if ← writeSettings K (addTheme t settings) then return .ok { t with custom := true }
    else return .error .io

def deleteTheme (id : String) : FileProg (Except SettingsError StatusCode) := do
  let settings ← readSettings K
  if (dropTheme id settings).customThemes.length = settings.customThemes.length then
    return .error (.rejected .notFound "theme not found")
  else if ← writeSettings K (dropTheme id settings) then return .ok .noContent
  else return .error .io

def answerSettings : SettingsRequest → FileProg Unit
  | .get => do let _ ← readSettings K
  | .load => do let _ ← readSettings K
  | .listThemes => do let _ ← readSettings K
  | .put body => do let _ ← putSettings K body
  | .importTheme t => do let _ ← importTheme K t
  | .deleteTheme id => do let _ ← deleteTheme K id

/-- A request's task, tagged with the request. -/
def settingsEntry (request : SettingsRequest) : Thread FileSite SettingsRequest Bool Disk :=
  ⟨request, answerSettings K request⟩

end

end AgentGrove
