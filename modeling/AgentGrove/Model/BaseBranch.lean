import AgentGrove.Model.WorktreeRestore
import Mathlib.Algebra.Group.Nat.Defs
import Mathlib.Data.Finset.Card

namespace AgentGrove.Git

open Worktrees (GitError)

/-- A checkout with the state of a merge: the commit that is being merged, if any. -/
structure MergeTree (C : Type) where
  commit : Commit
  head : Tree C
  index : Tree (Staged C)
  work : Tree C
  mergeHead : Option Commit

/-- The index has what HEAD has. -/
def MergeTree.Committed {C : Type} (t : MergeTree C) (path : Text) : Prop :=
  t.index.lookup path = (t.head.lookup path).map .blob

instance {C : Type} [DecidableEq C] (t : MergeTree C) (path : Text) : Decidable (t.Committed path) :=
  inferInstanceAs (Decidable (_ = _))

/-- What a merge leaves that stops, on a conflict or before its commit. Git starts it only if the index has what
HEAD has, and the paths that the merge touches have it in the working tree as well. -/
structure Stopped {C : Type} (t : MergeTree C) where
  left : MergeTree C
  touched : List Text
  commit : left.commit = t.commit
  head : left.head = t.head
  merging : left.mergeHead.isSome = true
  committed : ∀ path, t.Committed path
  clean : ∀ path ∈ touched, t.work.lookup path = t.head.lookup path
  kept : ∀ path, path ∉ touched →
    left.index.lookup path = t.index.lookup path ∧ left.work.lookup path = t.work.lookup path
  /-- What is merged without a conflict is in the index and in the working tree. -/
  merged : ∀ path content, left.index.lookup path = some (.blob content) → path ∈ touched →
    left.work.lookup path = some content
  removed : ∀ path, left.index.lookup path = none → path ∈ touched → left.work.lookup path = none

/-- What becomes of a merge when none is in progress. -/
inductive Merge {C : Type} (t : MergeTree C) where
  | merged (out : Text) (result : MergeTree C)
  /-- Nothing is changed: the target is unknown, or something is in the way. -/
  | refused (e : GitError)
  | stopped (e : GitError) (s : Stopped t)
  /-- It fails while it writes, with no record of the merge. -/
  | died (e : GitError) (left : MergeTree C) (path : Text) (changed : left.work.lookup path ≠ t.work.lookup path)
    (unrecorded : left.mergeHead = none)

section Commands

variable {C : Type} [DecidableEq C] (t : MergeTree C)

/-- `git merge --no-edit <target>`, which refuses to start when a merge is in progress. -/
def gitMerge (becomes : Merge t) : Except GitError Text × MergeTree C :=
  if t.mergeHead.isSome then (refused, t)
  else
    match becomes with
    | .merged out result => (.ok out, result)
    | .refused e => (.error e, t)
    | .stopped e s => (.error e, s.left)
    | .died e left _ _ _ => (.error e, left)

/-- `git reset --merge` gives up if a path that is staged has more changes that are not. -/
def resettable : Bool :=
  (t.head.map Prod.fst ++ t.index.map Prod.fst).all (fun path =>
    match t.index.lookup path with
    | some (.unmerged _) => true
    | some (.blob content) => t.Committed path || t.work.lookup path == some content
    | none => t.Committed path || t.work.lookup path == none)

/-- The paths whose index differs from HEAD have in the working tree what HEAD has, too. -/
def resetMerge : MergeTree C :=
  { t with
    index := t.head.map (fun e => (e.1, .blob e.2))
    work := t.head.filter (fun e => ¬ t.Committed e.1) ++ t.work.filter (fun e => t.Committed e.1)
    mergeHead := none }

/-- `git merge --abort`. Without a merge there is nothing to abort. -/
def mergeAbort (runs : Bool) : MergeTree C :=
  if runs && t.mergeHead.isSome && resettable t then resetMerge t else t

/-- `fetch` and `abort` tell whether these commands run. -/
def mergeBaseIntoWorktree (fetch : Except GitError Unit) (becomes : Merge t) (abort : Bool) :
    Except GitError Text × MergeTree C :=
  match fetch with
  | .error e => (.error e, t)
  | .ok () =>
    match gitMerge t becomes with
    | (.ok out, t) => (.ok out, t)
    | (.error e, t) => (.error e, mergeAbort t abort)

end Commands

/-- Commits, and which are reached from one by its parents. No two commits reach each other. -/
structure History where
  reachable : Commit → Finset Commit
  self_mem : ∀ c, c ∈ reachable c
  antisymm : ∀ c d, c ∈ reachable d → d ∈ reachable c → c = d

/-- `rev-list --count <a>..<b>`. -/
def History.count (h : History) (a b : Commit) : Nat := (h.reachable b \ h.reachable a).card

/-- The heads of a remote, as it lists them. -/
structure Remote where
  heads : RefTable
  sorted : heads.Pairwise (fun a b => a.1 < b.1)

/-- What `rev-parse` prints for HEAD, abbreviated and not, if there is a commit; and all local refs. -/
structure Clone where
  head : Option (Text × Commit)
  refs : Refs

/-- What the two checks find outside. `upstream` is what `rev-parse --abbrev-ref <branch>@{upstream}` prints, which
fails if the ref is not there, and `covers` tells which heads are fetched from origin. -/
structure Network where
  history : History
  remotes : Text → Option Remote
  upstream : Refs → Text → Option Text
  resolve : Refs → Text → Option Commit
  covers : Text → Bool

structure DriftInfo where
  behind : Nat := 0
  ahead : Nat := 0
  tracking : Option Text := none
  diverged : Bool := false
deriving DecidableEq

def originPrefix : Text := "origin/".toList

/-- The tracking ref of a head that is fetched from origin. -/
def Network.tracks (w : Network) (name : Text) : Bool :=
  originPrefix.isPrefixOf name && w.covers (name.drop originPrefix.length)

/-- `git fetch origin --prune`. -/
def fetchOrigin (w : Network) (refs : Refs) : Refs :=
  match w.remotes "origin".toList with
  | none => refs
  | some origin =>
    { refs with
      tracking := (origin.heads.filter (fun e => w.covers e.1)).map (fun e => (originPrefix ++ e.1, e.2)) ++
        refs.tracking.filter (fun e => !w.tracks e.1) }

/-- The pattern is made of the last components of the name of the ref. -/
def tailMatch (pattern ref : Text) : Bool := ('/' :: pattern).isSuffixOf ('/' :: ref)

/-- `git ls-remote --heads <remote> <pattern>`. -/
def lsRemote (remote : Remote) (pattern : Text) : RefTable :=
  remote.heads.filter (fun e => tailMatch pattern ("refs/heads/".toList ++ e.1))

section Checks

variable (w : Network) (baseRef : Text)

/-- The branch and the commit of HEAD, unless it is detached. -/
def currentHead (c : Clone) : Option (Text × Commit) :=
  c.head.filter (fun h => h.1 ≠ [] ∧ h.1 ≠ "HEAD".toList)

/-- The configured upstream first; else `origin/<base_ref>`. -/
def trackingOf (refs : Refs) (head : Text) : Text :=
  ((w.upstream refs head).filter (· ≠ [])).getD (originPrefix ++ baseRef)

def remoteOf (tracking : Text) : Text := tracking.takeWhile (· ≠ '/')

def refToCheck (tracking : Text) : Text :=
  if tracking.contains '/' then (tracking.dropWhile (· ≠ '/')).tail else baseRef

def checkDriftQuick (c : Clone) : DriftInfo :=
  match currentHead c with
  | none => {}
  | some (head, localSha) =>
    let tracking := trackingOf w baseRef c.refs head
    match w.remotes (remoteOf tracking) with
    | none => { tracking := some tracking }
    | some remote =>
      let remoteSha := ((lsRemote remote (refToCheck baseRef tracking)).head?.map Prod.snd).getD []
      { tracking := some tracking, diverged := !remoteSha.isEmpty && remoteSha != localSha }

/-- `parse::<u32>().unwrap_or(0)`. -/
def parseU32 (n : Nat) : Nat := if n < 2 ^ 32 then n else 0

def checkDriftFull (c : Clone) : DriftInfo :=
  let refs := fetchOrigin w c.refs
  match currentHead c with
  | none => {}
  | some (head, localSha) =>
    let tracking := trackingOf w baseRef refs head
    let counts := (w.resolve refs tracking).map (fun t => (w.history.count localSha t, w.history.count t localSha))
    let behind := parseU32 ((counts.map Prod.fst).getD 0)
    let ahead := parseU32 ((counts.map Prod.snd).getD 0)
    { behind, ahead, tracking := some tracking, diverged := decide (0 < behind) || decide (0 < ahead) }

end Checks

end AgentGrove.Git
