import Mathlib
import WorkAgent.Library.Executions

namespace WorkAgent.Harness.Replay

open Library

/-- The numbers of `nextEventSequence` under the session's name, alone or behind one of three words. -/
inductive Kind
  | plain
  | interaction
  | queue
  | input
  deriving DecidableEq

inductive EventId
  | numbered (kind : Kind) (n : ℕ)
  | inbox (receiptId : String)
  deriving DecidableEq

structure PublicEvent where
  eventId : EventId
  data : String

structure SessionRecord where
  events : List PublicEvent
  nextEventSequence : ℕ

def SessionRecord.new : SessionRecord := ⟨[], 1⟩

def eventsAfterLastId (events : List PublicEvent) (lastEventId : Option EventId) : List PublicEvent :=
  match lastEventId with
  | none => events
  | some id =>
    match events.findIdx? (·.eventId = id) with
    | none => events
    | some lastIndex => events.drop (lastIndex + 1)

/-- A session: `seq` is the next number its engine can give, `published` all its events and `earlier` the ids given before its record
was made. -/
structure World where
  harness : Bool
  record : SessionRecord
  seq : ℕ
  published : List PublicEvent
  earlier : List EventId

def World.start (harness : Bool) : World := ⟨harness, .new, 0, [], []⟩

def World.ids (w : World) : List EventId := w.published.map PublicEvent.eventId

def World.publish (w : World) (event : PublicEvent) : World :=
  let events := w.record.events ++ [event]
  { w with
    record := { w.record with events := if 2000 < events.length then events.drop 1 else events }
    published := w.published ++ [event] }

def World.count (w : World) : World := { w with record := { w.record with nextEventSequence := w.record.nextEventSequence + 1 } }

inductive Event
  /-- An event numbered by the record: of a native engine, an interaction, the queue, an input or a rejected shared turn. -/
  | counted (kind : Kind) (data : String)
  | harness (seq : ℕ) (data : String)
  | inboxFailed (receiptId data : String)
  /-- An event of an engine whose session is not stored (any more). -/
  | late
  /-- A restart, or a delivery to a session that was deleted. -/
  | renewed

def World.next (w : World) : Event → World
  | .counted kind data => (w.publish ⟨.numbered kind w.record.nextEventSequence, data⟩).count
  | .harness seq data => { w.publish ⟨.numbered .plain seq, data⟩ with seq := seq + 1 }
  | .inboxFailed receiptId data => w.publish ⟨.inbox receiptId, data⟩
  | .late => w.count
  | .renewed => { w with record := .new, earlier := w.ids }

/-- An engine's own numbers grow, over the restarts as well. -/
def Event.Possible (w : World) : Event → Prop
  | .harness seq _ => w.harness = true ∧ w.seq ≤ seq
  | _ => True

def Step (w : World) (e : Event) (t : World) : Prop := e.Possible w ∧ t = w.next e

/-- The counter gives no number that an event of the kind had in an earlier record; where the engine numbers events too, a rejected shared
turn and an event of the engine get different numbers; and no receipt fails twice. -/
def Event.Careful (w : World) : Event → Prop
  | .counted kind _ =>
    .numbered kind w.record.nextEventSequence ∉ w.earlier ∧
      (w.harness = true → kind = .plain → .numbered kind w.record.nextEventSequence ∉ w.ids)
  | .harness seq _ => .numbered .plain seq ∉ w.ids
  | .inboxFailed receiptId _ => .inbox receiptId ∉ w.ids
  | _ => True

def CarefulStep (w : World) (e : Event) (t : World) : Prop := e.Careful w ∧ Step w e t

/-- Ids are not shared, and a client that has the `i`-th event gets all buffered ones after it. -/
structure Lossless (w : World) : Prop where
  unique : ∀ (i j : ℕ) x y, w.published[i]? = some x → w.published[j]? = some y → x.eventId = y.eventId → i = j
  replayed : ∃ k, w.record.events = w.published.drop k ∧ ∀ (i : ℕ) x, w.published[i]? = some x →
    eventsAfterLastId w.record.events (some x.eventId) = w.published.drop (max k (i + 1))

section Laws

variable {w t : World} {e : Event} {events : List PublicEvent} {x : PublicEvent} {i k : ℕ}

theorem eq_of_eventId (h : (events.map PublicEvent.eventId).Nodup) {j : ℕ} {y : PublicEvent} (hx : events[i]? = some x)
    (hy : events[j]? = some y) (heq : x.eventId = y.eventId) : i = j := by
  apply (List.getElem?_inj _ h).mp
  · rw [List.getElem?_map, List.getElem?_map, hx, hy, Option.map_some, Option.map_some, heq]
  · rw [List.length_map]
    exact (List.getElem?_eq_some_iff.mp hx).1

theorem eventsAfterLastId_drop (h : (events.map PublicEvent.eventId).Nodup) (hx : events[i]? = some x) :
    eventsAfterLastId (events.drop k) (some x.eventId) = events.drop (max k (i + 1)) := by
  unfold eventsAfterLastId
  dsimp only
  by_cases hki : k ≤ i
  · have hat : (events.drop k)[i - k]? = some x := by
      rw [List.getElem?_drop, Nat.add_sub_cancel' hki, hx]
    have hfind : (events.drop k).findIdx? (·.eventId = x.eventId) = some (i - k) := by
      obtain ⟨hlt, hget⟩ := List.getElem?_eq_some_iff.mp hat
      refine List.findIdx?_eq_some_iff_getElem.mpr ⟨hlt, by simp [hget], ?_⟩
      intro j hj hsame
      rw [decide_eq_true_eq] at hsame
      have hother : events[k + j]? = some (events.drop k)[j] := by
        rw [← List.getElem?_drop]
        exact List.getElem?_eq_getElem _
      have heq := eq_of_eventId h hother hx hsame
      omega
    rw [hfind]
    dsimp only
    rw [List.drop_drop]
    congr 1
    omega
  · have hfind : (events.drop k).findIdx? (·.eventId = x.eventId) = none := by
      rw [List.findIdx?_eq_none_iff]
      intro y hy
      obtain ⟨j, hj⟩ := List.mem_iff_getElem?.mp hy
      rw [List.getElem?_drop] at hj
      apply decide_eq_false
      intro hsame
      have heq := eq_of_eventId h hj hx hsame
      omega
    rw [hfind, max_eq_left (by omega)]

structure Sound (w : World) : Prop where
  nodup : w.ids.Nodup
  suffix : ∃ k, w.record.events = w.published.drop k
  counted : ∀ kind n, .numbered kind n ∈ w.ids →
    n < w.record.nextEventSequence ∨ .numbered kind n ∈ w.earlier ∨ (w.harness = true ∧ kind = .plain)

theorem Sound.lossless (h : Sound w) : Lossless w := by
  refine ⟨fun i j x y => eq_of_eventId h.nodup, ?_⟩
  obtain ⟨k, hk⟩ := h.suffix
  refine ⟨k, hk, fun i x hx => ?_⟩
  rw [hk]
  exact eventsAfterLastId_drop h.nodup hx

theorem ids_publish : (w.publish x).ids = w.ids ++ [x.eventId] := by simp [World.ids, World.publish]

theorem Sound.publish (h : Sound w) (hx : x.eventId ∉ w.ids) (hcounted : ∀ kind n, x.eventId = .numbered kind n →
    n < w.record.nextEventSequence ∨ .numbered kind n ∈ w.earlier ∨ (w.harness = true ∧ kind = .plain)) : Sound (w.publish x) := by
  refine ⟨?_, ?_, ?_⟩
  · rw [ids_publish, List.nodup_append]
    refine ⟨h.nodup, by simp, ?_⟩
    intro a ha b hb heq
    rw [List.mem_singleton.mp hb] at heq
    exact hx (heq ▸ ha)
  · obtain ⟨k, hk⟩ := h.suffix
    have hdrop : w.record.events ++ [x] = (w.published ++ [x]).drop (min k w.published.length) := by
      rw [hk]
      rcases Nat.le_total k w.published.length with hle | hle
      · rw [min_eq_left hle, List.drop_append_of_le_length hle]
      · simp [min_eq_right hle, List.drop_eq_nil_of_le hle]
    unfold World.publish
    dsimp only
    split
    · exact ⟨_, by rw [hdrop, List.drop_drop]⟩
    · exact ⟨_, hdrop⟩
  · intro kind n hn
    rw [ids_publish] at hn
    rcases List.mem_append.mp hn with hn | hn
    · exact h.counted kind n hn
    · exact hcounted kind n (List.mem_singleton.mp hn).symm

theorem Sound.count (h : Sound w) : Sound w.count :=
  { h with counted := fun kind n hn => (h.counted kind n hn).imp_left Nat.lt_succ_of_lt }

theorem Sound.next (h : Sound w) (hcareful : e.Careful w) (hstep : Step w e t) : Sound t := by
  obtain ⟨hpossible, rfl⟩ := hstep
  cases e with
  | counted kind data =>
    obtain ⟨hearlier, hplain⟩ := hcareful
    change Sound (w.count.publish ⟨.numbered kind w.record.nextEventSequence, data⟩)
    apply h.count.publish
    · intro hin
      rcases h.counted kind _ hin with hlt | hin' | ⟨hharness, hkind⟩
      · exact Nat.lt_irrefl _ hlt
      · exact hearlier hin'
      · exact hplain hharness hkind hin
    · rintro _ _ ⟨⟩
      exact .inl (Nat.lt_succ_self _)
  | harness seq data =>
    refine { h.publish (x := ⟨.numbered .plain seq, data⟩) hcareful ?_ with }
    rintro kind n ⟨⟩
    exact .inr (.inr ⟨hpossible.1, rfl⟩)
  | inboxFailed receiptId data =>
    refine h.publish (x := ⟨.inbox receiptId, data⟩) hcareful ?_
    rintro kind n ⟨⟩
  | late => exact h.count
  | renewed =>
    refine ⟨h.nodup, ⟨w.published.length, by simp [World.next, SessionRecord.new]⟩, ?_⟩
    intro kind n hn
    exact .inr (.inl hn)

theorem Sound.start (harness : Bool) : Sound (.start harness) :=
  ⟨List.nodup_nil, ⟨0, rfl⟩, fun _ _ hn => by cases hn⟩

end Laws

namespace ReplayExample

def queued : Event := .counted .queue "changed"

end ReplayExample

end WorkAgent.Harness.Replay
