import Mathlib.Algebra.GroupWithZero.Nat
import Mathlib.Data.List.Infix
import Mathlib.Tactic.Common

namespace Coop

variable {α : Type} {mark : Nat → α} {dropped : α → Option Nat} {cap keep n : Nat} {x : α}
  {history : List α}

/-- The last `n` entries of a history. -/
def latest (n : Nat) (history : List α) : List α := history.drop (history.length - n)

/-- A history cut to size. One within the cap is kept as it is; of a longer one a mark
counts the entries over the cap, and behind it come the last `keep` entries. -/
def digest (mark : Nat → α) (cap keep : Nat) (history : List α) : List α :=
  if history.length ≤ cap then history
  else mark (history.length - cap) :: latest keep history

/-- How many entries a cut history speaks for: a mark for those it counts, and any other
entry for itself. -/
def account (dropped : α → Option Nat) (entries : List α) : Nat :=
  (entries.map (fun a => (dropped a).getD 1)).sum

theorem length_latest (n : Nat) (history : List α) :
    (latest n history).length = min n history.length := by
  rw [latest, List.length_drop]
  omega

theorem latest_short (h : history.length ≤ n) : latest n history = history := by
  rw [latest, Nat.sub_eq_zero_of_le h, List.drop_zero]

theorem latest_suffix (n : Nat) (history : List α) : latest n history <:+ history :=
  List.drop_suffix _ _

theorem latest_append (front : List α) (h : n ≤ history.length) :
    latest n (front ++ history) = latest n history := by
  have hsub : (front ++ history).length - n = front.length + (history.length - n) := by
    rw [List.length_append]
    omega
  rw [latest, hsub, List.drop_length_add_append]
  rfl

theorem latest_cons (h : n ≤ history.length) : latest n (x :: history) = latest n history :=
  latest_append [x] h

theorem latest_latest {m : Nat} (h : n ≤ m) (history : List α) :
    latest n (latest m history) = latest n history := by
  by_cases hl : history.length ≤ m
  · rw [latest_short hl]
  · obtain ⟨front, hfront⟩ := latest_suffix m history
    have hlen : n ≤ (latest m history).length := by
      rw [length_latest]
      omega
    have happend := latest_append front hlen
    rw [hfront] at happend
    exact happend.symm

/-- The entry that comes in pushes out the oldest of those kept. -/
theorem latest_concat (hn : 0 < n) (h : n ≤ history.length) :
    latest n (history ++ [x]) = (latest n history).tail ++ [x] := by
  have hsub : (history ++ [x]).length - n = history.length - n + 1 := by
    rw [List.length_append, List.length_singleton]
    omega
  have hle : history.length - n + 1 ≤ history.length := by omega
  rw [latest, latest, hsub, List.drop_append_of_le_length hle, List.tail_drop]

theorem digest_short (h : history.length ≤ cap) : digest mark cap keep history = history :=
  if_pos h

theorem digest_long (h : cap < history.length) :
    digest mark cap keep history = mark (history.length - cap) :: latest keep history :=
  if_neg (Nat.not_le.mpr h)

theorem digest_concat_short (h : history.length < cap) :
    digest mark cap keep (history ++ [x]) = digest mark cap keep history ++ [x] := by
  have hle : (history ++ [x]).length ≤ cap := by
    simp only [List.length_append, List.length_singleton]
    omega
  rw [digest_short (Nat.le_of_lt h), digest_short hle]

/-- The first eviction: the mark appears. -/
theorem digest_concat_full (hkeep : 0 < keep) (hle : keep ≤ cap) (h : history.length = cap) :
    digest mark cap keep (history ++ [x]) = mark 1 :: (latest keep history).tail ++ [x] := by
  have hcap : cap < (history ++ [x]).length := by
    simp [h]
  have hone : (history ++ [x]).length - cap = 1 := by
    simp [h]
  rw [digest_long hcap, hone, latest_concat hkeep (h ▸ hle), List.cons_append]

/-- Every later one: the mark counts on. -/
theorem digest_concat_long (hkeep : 0 < keep) (hle : keep ≤ cap) (h : cap < history.length) :
    digest mark cap keep (history ++ [x]) =
      mark (history.length - cap + 1) :: (latest keep history).tail ++ [x] := by
  have hcap : cap < (history ++ [x]).length := by
    simp only [List.length_append, List.length_singleton]
    omega
  have hcount : (history ++ [x]).length - cap = history.length - cap + 1 := by
    simp only [List.length_append, List.length_singleton]
    omega
  rw [digest_long hcap, hcount, latest_concat hkeep (by omega), List.cons_append]

theorem length_digest (hle : keep ≤ cap) :
    (digest mark cap keep history).length =
      if history.length ≤ cap then history.length else keep + 1 := by
  unfold digest
  split
  · rfl
  · rename_i h
    rw [List.length_cons, length_latest]
    omega

/-- The last entries of a cut history are those of the whole one. -/
theorem latest_digest (hn : n ≤ keep) (hle : keep ≤ cap) :
    latest n (digest mark cap keep history) = latest n history := by
  unfold digest
  split
  · rfl
  · rename_i h
    have hlen : n ≤ (latest keep history).length := by
      rw [length_latest]
      omega
    rw [latest_cons hlen, latest_latest hn]

@[simp] theorem account_nil : account dropped [] = 0 := rfl

@[simp] theorem account_cons (a : α) (entries : List α) :
    account dropped (a :: entries) = (dropped a).getD 1 + account dropped entries := rfl

/-- Without a mark every entry speaks for itself. -/
theorem account_plain {entries : List α} (h : ∀ a ∈ entries, dropped a = none) :
    account dropped entries = entries.length := by
  induction entries with
  | nil => rfl
  | cons a entries ih =>
    rw [account_cons, h a List.mem_cons_self, ih fun b hb => h b (List.mem_cons_of_mem _ hb),
      List.length_cons]
    exact Nat.add_comm _ _

theorem account_latest (h : ∀ a ∈ history, dropped a = none) :
    account dropped (latest n history) = min n history.length := by
  rw [account_plain fun a ha => h a ((latest_suffix n history).subset ha), length_latest]

/-- A cut history speaks for what the mark counts and what is kept behind it. -/
theorem account_digest (hmark : ∀ k, dropped (mark k) = some k) (hle : keep ≤ cap)
    (h : ∀ a ∈ history, dropped a = none) :
    account dropped (digest mark cap keep history) =
      if history.length ≤ cap then history.length else history.length - cap + keep := by
  unfold digest
  split
  · exact account_plain h
  · rename_i hlong
    rw [account_cons, hmark, Option.getD_some, account_latest h]
    omega

end Coop
