import AgentGrove.Model.Socket
import AgentGrove.Coop.Machine
import Mathlib.Data.List.Nodup
import Mathlib.Data.List.Range

namespace AgentGrove

open Coop

/-- A message with its place in the order of its topic's ring. The text alone
would not tell two equal messages apart. -/
structure Stamped where
  no : Nat
  data : String
deriving DecidableEq

/-- The bus with the `publish` calls in progress. -/
structure Feed where
  bus : LogBus Stamped
  /-- Everything a topic's ring ever took, in that order. -/
  published : String → List Stamped
  /-- What calls on a topic have put in the ring and not sent yet. -/
  unsent : String → List Stamped

namespace Feed

def start : Feed where
  bus := LogBus.default
  published _ := []
  unsent _ := []

def next (f : Feed) (topic data : String) : Stamped := ⟨(f.published topic).length, data⟩

/-- A call of `publish` up to the release of the mutex. -/
def append (f : Feed) (topic data : String) : Feed where
  bus := f.bus.publishAppend topic (f.next topic data)
  published := Function.update f.published topic (f.published topic ++ [f.next topic data])
  unsent := Function.update f.unsent topic (f.unsent topic ++ [f.next topic data])

/-- Any call in progress may be the next to send. -/
def send (f : Feed) (topic : String) (i : Nat) : Option Feed :=
  (f.unsent topic)[i]?.map (fun m =>
    { f with
      bus := f.bus.publishSend topic m
      unsent := Function.update f.unsent topic ((f.unsent topic).eraseIdx i) })

def ring (f : Feed) (topic : String) : List Stamped := (f.bus.topicMut topic).history

def channel (f : Feed) (topic : String) : Channel Stamped := (f.bus.topicMut topic).tx

def subscribe (f : Feed) (topic : String) : Feed := { f with bus := (f.bus.subscribe topic).1 }

section

variable (f : Feed) (t t' data : String)

theorem append_published : (f.append t data).published t' =
    f.published t' ++ if t' = t then [f.next t data] else [] := by
  simp only [append, Function.update_apply]
  split
  · rename_i h
    rw [h]
  · exact (List.append_nil _).symm

theorem append_unsent : (f.append t data).unsent t' =
    f.unsent t' ++ if t' = t then [f.next t data] else [] := by
  simp only [append, Function.update_apply]
  split
  · rename_i h
    rw [h]
  · exact (List.append_nil _).symm

@[simp] theorem append_channel : (f.append t data).channel t' = f.channel t' := by
  simp only [channel, append, LogBus.publishAppend_topicMut]
  split
  · rename_i h
    rw [h]
  · rfl

theorem append_ring : (f.append t data).ring t' = if t' = t
    then pushBounded f.bus.historyCapacity (f.ring t) (f.next t data) else f.ring t' := by
  simp only [ring, append, LogBus.publishAppend_topicMut]
  split <;> rfl

@[simp] theorem subscribe_channel : (f.subscribe t).channel t' = f.channel t' := by
  simp only [channel, subscribe, LogBus.subscribe_topicMut]

@[simp] theorem subscribe_ring : (f.subscribe t).ring t' = f.ring t' := by
  simp only [ring, subscribe, LogBus.subscribe_topicMut]

end

/-- What a send does: one call is over and its message at the channel's end. -/
structure Sent (f : Feed) (topic : String) (i : Nat) (m : Stamped) (f' : Feed) : Prop where
  mine : (f.unsent topic)[i]? = some m
  published : f'.published = f.published
  unsent : f'.unsent = Function.update f.unsent topic ((f.unsent topic).eraseIdx i)
  ring : ∀ t, f'.ring t = f.ring t
  channel : ∀ t, (f'.channel t).sent = (f.channel t).sent ++ if t = topic then [m] else []
  capacity : ∀ t, (f'.channel t).capacity = (f.channel t).capacity

theorem send_sent {f f' : Feed} {topic : String} {i : Nat} (h : f.send topic i = some f') :
    ∃ m, f.Sent topic i m f' := by
  obtain ⟨m, hm, rfl⟩ := Option.map_eq_some_iff.mp h
  refine ⟨m, hm, rfl, rfl, fun t => ?_, fun t => ?_, fun t => ?_⟩
  · simp only [Feed.ring, LogBus.publishSend_topicMut]
    split
    · rename_i ht
      rw [ht]
    · rfl
  · simp only [Feed.channel, LogBus.publishSend_topicMut]
    split
    · rename_i ht
      rw [ht, Channel.send_sent]
    · exact (List.append_nil _).symm
  · simp only [Feed.channel, LogBus.publishSend_topicMut]
    split
    · rename_i ht
      rw [ht, Channel.send_capacity]
    · rfl

/-- The ring is the end of what was published, and stamps count from zero. -/
structure Ordered (f : Feed) : Prop where
  suffix : ∀ t, f.ring t <:+ f.published t
  stamps : ∀ t, (f.published t).map Stamped.no = List.range (f.published t).length
  unsent : ∀ t, f.unsent t ⊆ f.published t

theorem Ordered.start : Feed.start.Ordered where
  suffix _ := List.suffix_rfl
  stamps _ := rfl
  unsent _ := List.Subset.refl _

theorem Ordered.append {f : Feed} (h : f.Ordered) (t data : String) : (f.append t data).Ordered where
  suffix t' := by
    rw [append_ring, append_published]
    split
    · rename_i ht
      rw [ht]
      exact pushBounded_suffix (h.suffix t) _
    · rw [List.append_nil]
      exact h.suffix t'
  stamps t' := by
    rw [append_published]
    split
    · rename_i ht
      rw [List.map_append, h.stamps, List.length_append, List.length_singleton, List.range_succ, ht]
      rfl
    · rw [List.append_nil]
      exact h.stamps t'
  unsent t' := by
    rw [append_unsent, append_published]
    exact List.append_subset.mpr ⟨List.subset_append_of_subset_left _ (h.unsent t'),
      List.subset_append_right _ _⟩

theorem Ordered.send {f f' : Feed} (h : f.Ordered) {t : String} {i : Nat}
    (hs : f.send t i = some f') : f'.Ordered := by
  obtain ⟨m, hm⟩ := send_sent hs
  refine ⟨fun t' => ?_, fun t' => ?_, fun t' => ?_⟩
  · rw [hm.ring, hm.published]
    exact h.suffix t'
  · rw [hm.published]
    exact h.stamps t'
  · rw [hm.published, hm.unsent, Function.update_apply]
    split
    · rename_i ht
      rw [ht]
      exact List.Subset.trans (List.eraseIdx_sublist _ _).subset (h.unsent t)
    · exact h.unsent t'

theorem Ordered.subscribe {f : Feed} (h : f.Ordered) (t : String) : (f.subscribe t).Ordered where
  suffix t' := by
    rw [subscribe_ring]
    exact h.suffix t'
  stamps := h.stamps
  unsent := h.unsent

theorem Ordered.nodup {f : Feed} (h : f.Ordered) (t : String) : (f.published t).Nodup := by
  apply List.Nodup.of_map Stamped.no
  rw [h.stamps]
  exact List.nodup_range

/-- A message's stamp is its place. -/
theorem Ordered.place {f : Feed} (h : f.Ordered) {t : String} {m : Stamped}
    (hm : m ∈ f.published t) : (f.published t)[m.no]? = some m := by
  obtain ⟨i, hi, he⟩ := List.getElem_of_mem hm
  have hno : m.no = i := by
    have hg : ((f.published t).map Stamped.no)[i]? = (List.range (f.published t).length)[i]? := by
      rw [h.stamps]
    rw [List.getElem?_map, List.getElem?_eq_getElem hi, List.getElem?_range hi, he] at hg
    exact Option.some.inj hg
  rw [hno, List.getElem?_eq_getElem hi, he]

/-- From a place on there are the messages with at least that stamp. -/
theorem Ordered.mem_drop {f : Feed} (h : f.Ordered) {t : String} {m : Stamped} {n : Nat}
    (hm : m ∈ f.published t) : m ∈ (f.published t).drop n ↔ n ≤ m.no := by
  rw [List.mem_drop_iff_getElem]
  have hp := h.place hm
  constructor
  · rintro ⟨j, hj, he⟩
    have hp' : (f.published t)[n + j]? = some m := by
      rw [List.getElem?_eq_getElem (by omega), he]
    have hlt : m.no < (f.published t).length := (List.getElem?_eq_some_iff.mp hp).1
    have := (List.getElem?_inj hlt (h.nodup t)).mp (hp.trans hp'.symm)
    omega
  · intro hn
    obtain ⟨hl, he⟩ := List.getElem?_eq_some_iff.mp hp
    refine ⟨m.no - n, by omega, ?_⟩
    simp only [Nat.add_sub_cancel' hn, he]

end Feed

end AgentGrove
