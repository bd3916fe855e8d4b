import AgentGrove.Model.WorkTree

namespace AgentGrove.Git

open Worktrees (GitError)

abbrev Commit := Text

/-- Names and what they stand for; the first one holds. -/
abbrev RefTable := List (Text × Commit)

structure Refs where
  branches : RefTable
  tracking : RefTable
deriving DecidableEq

inductive Checkout where
  | branch (name : Text)
  | detached (commit : Commit)
deriving DecidableEq

/-- What is at a path. A directory may be inside some working tree. -/
inductive Place where
  | missing
  | file
  | dir (insideWorkTree : Bool)
deriving DecidableEq

/-- A repository, with all worktrees that it has registered, and the disk. -/
structure Site where
  refs : Refs
  worktrees : List (Text × Checkout)
  place : Text → Place

/-- What a fetch writes. Local branches are written by a refspec that names one. -/
structure Fetched where
  tracking : RefTable
  branches : RefTable

/-- What becomes of a `git worktree add` that is not refused. -/
inductive Adding where
  | done
  /-- It fails on its way, with or without the new branch. -/
  | failed (branchLeft : Bool)
  /-- All is in place, but the post-checkout hook fails. -/
  | hookFailed
deriving DecidableEq

/-- What restoring a worktree finds outside: how git resolves a revision and which names it takes for a branch,
whether it starts at all, what the remote has, and what becomes of the three additions. -/
structure Surroundings where
  resolve : Refs → Text → Option Commit
  validBranch : Text → Bool
  start : Except GitError Unit := .ok ()
  fetch : Text → Except GitError Fetched
  existing : Adding := .done
  remote : Adding := .done
  fallback : Adding := .done

def Site.registered (s : Site) (path : Text) : Bool := (s.worktrees.lookup path).isSome

def Site.checkedOut (s : Site) (branch : Text) : Bool := s.worktrees.any (fun e => e.2 == .branch branch)

def Site.hasBranch (s : Site) (branch : Text) : Bool := (s.refs.branches.lookup branch).isSome

def Site.install (s : Site) (path : Text) (checkout : Checkout) : Site :=
  { s with
    worktrees := (path, checkout) :: s.worktrees
    place := Function.update s.place path (.dir true) }

def Site.withBranch (s : Site) (branch : Text) (commit : Commit) : Site :=
  { s with refs := { s.refs with branches := (branch, commit) :: s.refs.branches } }

def Site.fetched (s : Site) (f : Fetched) : Site :=
  { s with refs := ⟨f.branches ++ s.refs.branches, f.tracking ++ s.refs.tracking⟩ }

def refused {α : Type} : Except GitError α := .error (.nonZero 128 [])

section Commands

variable (env : Surroundings) (s : Site)

/-- What `git worktree add <path> <name>` checks out: a branch that no other worktree has, or a commit. -/
def checkoutOf (name : Text) : Option Checkout :=
  if s.hasBranch name then
    if s.checkedOut name then none else some (.branch name)
  else (env.resolve s.refs name).map .detached

/-- `git worktree add <path> <name>`. The path is free on disk. -/
def worktreeAdd (adding : Adding) (path name : Text) : Except GitError Unit × Site :=
  match checkoutOf env s name with
  | none => (refused, s)
  | some checkout =>
    if s.registered path then (refused, s)
    else
      match adding with
      | .done => (.ok (), s.install path checkout)
      | .failed _ => (refused, s)
      | .hookFailed => (.error (.nonZero 1 []), s.install path checkout)

/-- The commit of a new branch, if there can be one. -/
def newBranch (branch start : Text) : Option Commit :=
  if env.validBranch branch && !s.hasBranch branch then env.resolve s.refs start else none

/-- The path or the branch is taken by a worktree, which may be gone from disk. -/
def Site.taken (path branch : Text) : Bool := s.registered path || s.checkedOut branch

/-- `git worktree add -b <branch> <path> <start>`: the branch is made first. -/
def worktreeAddNew (adding : Adding) (path branch start : Text) : Except GitError Unit × Site :=
  match newBranch env s branch start with
  | none => (refused, s)
  | some commit =>
    let made := s.withBranch branch commit
    if s.taken path branch then (refused, made)
    else
      match adding with
      | .done => (.ok (), made.install path (.branch branch))
      | .failed branchLeft => (refused, if branchLeft then made else s)
      | .hookFailed => (.error (.nonZero 1 []), made.install path (.branch branch))

def isWorktreePath (path : Text) : Except GitError Bool :=
  match s.place path with
  | .missing => .ok false
  | .file => env.start.bind (fun _ => .error (.io "Not a directory (os error 20)".toList))
  | .dir insideWorkTree => env.start.map (fun _ => insideWorkTree)

def branchRef (branch : Text) : Text := "refs/heads/".toList ++ branch

def branchExists (branch : Text) : Except GitError Bool :=
  env.start.map (fun _ => (env.resolve s.refs (branchRef branch)).isSome)

def fetchRef (baseRef : Text) : Site :=
  match env.start, env.fetch baseRef with
  | .ok (), .ok f => s.fetched f
  | _, _ => s

def remoteRef (baseRef : Text) : Text := "origin/".toList ++ baseRef

/-- Recreate the branch from the base ref, of the remote or else the local one. -/
def recreate (path branch baseRef : Text) : Except GitError Unit × Site :=
  match worktreeAddNew env (fetchRef env s baseRef) env.remote path branch (remoteRef baseRef) with
  | (.ok (), s) => (.ok (), s)
  | (.error _, s) => worktreeAddNew env s env.fallback path branch baseRef

def restoreWorktree (path branch baseRef : Text) : Except GitError Unit × Site :=
  match isWorktreePath env s path with
  | .error e => (.error e, s)
  | .ok true => (.ok (), s)
  | .ok false =>
    if s.place path ≠ .missing then
      (.error (.nonZero 1 ("path exists but is not a git worktree: ".toList ++ path)), s)
    else
      match branchExists env s branch with
      | .error e => (.error e, s)
      | .ok true => worktreeAdd env s env.existing path branch
      | .ok false => recreate env s path branch baseRef

end Commands

end AgentGrove.Git
