import AgentGrove.Coop.Pool
import AgentGrove.Model.Records
import Mathlib.Logic.Function.Basic

namespace AgentGrove.ModelsCache

open Coop

/-- `DEFAULT_TTL`, in milliseconds. -/
def defaultTtl : Nat := 300000

/-- A cached list. The last field records how often its provider had been invalidated when the
fetch of the list began. -/
structure Entry where
  models : List Text
  fetchedAt : Nat
  fetchedOf : Nat
deriving DecidableEq

/-- What `get_or_fetch` answers, with the same record of the list if there is one. -/
structure Listed where
  models : List Text
  fetchedOf : Option Nat
deriving DecidableEq

/-- An answer, with how often the provider had been invalidated when it was asked for. -/
structure Answer (P : Type) where
  id : P
  owed : Nat
  listed : Listed
deriving DecidableEq

/-- A fetch that begins, with the fresh entry that there is of the provider all the same. -/
structure Fetch (P : Type) where
  id : P
  owed : Nat
  fresh : Option Entry
deriving DecidableEq

/-- The process: its clock and the cache. The last three fields record what happened: how often
each provider has been invalidated, the answers, and the fetches that began. -/
structure Cache (P : Type) where
  now : Nat
  entries : P → Option Entry
  drops : P → Nat
  answers : List (Answer P)
  fetches : List (Fetch P)

/-- The places between which another thread may run. -/
inductive Site (P : Type) where
  | lookup
  | begin (id : P)
  | fetch
  | store (id : P) (fetchedOf : Nat)
  | cached
  | invalidate
deriving DecidableEq

/-- What the world decides at one of them: the time that has passed, and how a fetch went. -/
structure Choice where
  elapsed : Nat := 0
  fetched : Except Text (List Text) := .ok []

inductive Request (P : Type) where
  | models (id : P) (ttl : Nat)
  | invalidate (id : P)
  | refresh (id : P)

abbrev CacheProg (P α : Type) := Prog (Site P) Unit Choice (Cache P) α

variable {P : Type} [DecidableEq P]

def Cache.tick (s : Cache P) (elapsed : Nat) : Cache P := { s with now := s.now + elapsed }

def call {β : Type} (site : Site P) (act : Choice → Cache P → Cache P × β) : CacheProg P β :=
  .await site (fun w s => some (act w (s.tick w.elapsed))) .ret

def atOnce {β : Type} (act : Cache P → Cache P × β) : CacheProg P β := .sync act .ret

/-- The entry of a provider, if it is younger than that. -/
def Cache.fresh (s : Cache P) (id : P) (ttl : Nat) : Option Entry :=
  (s.entries id).filter (fun e => s.now - e.fetchedAt < ttl)

def Entry.listed (e : Entry) : Listed := ⟨e.models, some e.fetchedOf⟩

/-- The fast path: a read under the lock. -/
def lookup (id : P) (ttl : Nat) : CacheProg P (Option Listed) :=
  call .lookup (fun _ s => (s, (s.fresh id ttl).map Entry.listed))

/-- `fetch()` begins, outside the lock. -/
def beginFetch (id : P) (ttl owed : Nat) : CacheProg P Nat :=
  call (.begin id) (fun _ s => ({ s with fetches := s.fetches ++ [⟨id, owed, s.fresh id ttl⟩] }, s.drops id))

def fetched : CacheProg P (Except Text (List Text)) := call .fetch (fun w s => (s, w.fetched))

def store (id : P) (models : List Text) (fetchedOf : Nat) : CacheProg P Unit :=
  call (.store id fetchedOf) (fun _ s =>
    ({ s with entries := Function.update s.entries id (some ⟨models, s.now, fetchedOf⟩) }, ()))

/-- The last known list, stale or not. -/
def cached (id : P) : CacheProg P Listed :=
  call .cached (fun _ s => (s, ((s.entries id).map Entry.listed).getD ⟨[], none⟩))

def getOrFetch (id : P) (ttl owed : Nat) : CacheProg P Listed := do
  match ← lookup id ttl with
  | some listed => return listed
  | none =>
    let fetchedOf ← beginFetch id ttl owed
    match ← fetched with
    | .ok [] => cached id
    | .ok (m :: models) =>
      store id (m :: models) fetchedOf
      return ⟨m :: models, some fetchedOf⟩
    | .error _ => cached id

def invalidate (id : P) : CacheProg P Unit :=
  call .invalidate (fun _ s => ({ s with
    entries := Function.update s.entries id none
    drops := Function.update s.drops id (s.drops id + 1) }, ()))

/-- A request for the models of a provider, from its start to its answer. -/
def models (id : P) (ttl : Nat) : CacheProg P Unit := do
  let owed ← atOnce (fun s => (s, s.drops id))
  let listed ← getOrFetch id ttl owed
  atOnce (fun s => ({ s with answers := s.answers ++ [⟨id, owed, listed⟩] }, ()))

def handle : Request P → CacheProg P Unit
  | .models id ttl => models id ttl
  | .invalidate id => invalidate id
  | .refresh id => do
    invalidate id
    models id defaultTtl

def entry (request : Request P) : Thread (Site P) Unit Choice (Cache P) := ⟨(), handle request⟩

/-- A process that has just started. -/
def boot : Cache P where
  now := 0
  entries _ := none
  drops _ := 0
  answers := []
  fetches := []

end AgentGrove.ModelsCache
