import WorkAgent.PublishedApps.Revisions

namespace WorkAgent.PublishedApps.Gateway

open Library List Table
open Quota (Time)

variable {parse : String → Option URL}
  {w w' : World} {event : Event} {history : List Event} {q q' : Request} {stage : Stage} {a : App} {id ticket : String} {key : ℕ} {revision : ℤ}
  {closing : Closing} {cstage : ClosingStage}

def Event.Disconnects (id : String) : Event → Prop
  | .watched id' => id' = id
  | .changed id' _ => id' = id
  | .stopping id' _ => id' = id
  | .deleting id' => id' = id
  | _ => False

inductive Moved (w : World) (q : Request) : Stage → Prop
  | advance {stage : Stage} (h : Advance w q stage) : Moved w q stage
  | shared {a : App} (h : q.stage = .sharing a) : Moved w q (.answered a)
  | took {a : App} {pass : Pass} (h : q.stage = .allowed a) (hpass : pass ∈ w.tickets) : Moved w q (.exchanging a pass.token pass.grant)
  | exchanged {a : App} {ticket : String} {grant : AppGrant} (h : q.stage = .exchanged a ticket grant) : Moved w q (.answered a)
  | proxied {a : App} {viewer : Option AppGrant} (h : q.stage = .admitted a viewer) : Moved w q (.proxied a viewer)

inductive Origin (w : World) (event : Event) : Request → Prop
  | stays {q : Request} (hq : q ∈ w.requests) : Origin w event q
  | begins {id : String} {preview : Bool} : Origin w event ⟨w.nextRequest, id, preview, .begun, false, true⟩
  | moves {q : Request} {stage : Stage} (hq : q ∈ w.requests) (h : Moved w q stage) : Origin w event { q with stage := stage }
  | cancelled {q : Request} (hq : q ∈ w.requests) : Origin w event { q with cancelled := true }
  | dropped {q : Request} (hq : q ∈ w.requests) (hregistered : q.registered = true) (hevent : event.Disconnects q.appID) :
      Origin w event { q with cancelled := true, registered := false }

theorem mem_disconnect : q ∈ (w.disconnect id).requests ↔
    (∃ r ∈ w.requests, r.appID = id ∧ r.registered = true ∧ q = { r with cancelled := true, registered := false }) ∨
      (q ∈ w.requests ∧ ¬ (q.appID = id ∧ q.registered = true)) := by
  unfold World.disconnect
  rw [mem_update]
  constructor
  · rintro ⟨r, hr, rfl⟩
    by_cases hmine : r.appID = id ∧ r.registered = true
    · rw [if_pos hmine]
      exact .inl ⟨r, hr, hmine.1, hmine.2, rfl⟩
    · rw [if_neg hmine]
      exact .inr ⟨hr, hmine⟩
  · rintro (⟨r, hr, hid, hregistered, rfl⟩ | ⟨hq, hmine⟩)
    · exact ⟨r, hr, (if_pos ⟨hid, hregistered⟩).symm⟩
    · exact ⟨q, hq, (if_neg hmine).symm⟩

theorem disconnect_origin (hevent : event.Disconnects id) (h : q ∈ (w.disconnect id).requests) : Origin w event q := by
  rcases mem_disconnect.mp h with ⟨r, hr, rfl, hregistered, rfl⟩ | ⟨hq, -⟩
  · exact .dropped hr hregistered hevent
  · exact .stays hq

theorem progress_origin (hq : q ∈ w.requests) (h : Moved w q stage) (hmem : q' ∈ w.requests.set { q with stage := stage }) : Origin w event q' := by
  rcases Table.mem_set.mp hmem with rfl | ⟨hq', -⟩
  · exact .moves hq h
  · exact .stays hq'

theorem mem_prune {pass : Pass} (h : pass ∈ w.prune.tickets) : pass ∈ w.tickets := (mem_delete.mp h).1

theorem step_requests (hstep : Step parse w event w') (h : q ∈ w'.requests) : Origin w event q := by
  cases hstep with
  | restarts => exact absurd h (not_mem_empty q)
  | changed | stopDisconnects | deleteDisconnects | watches => exact disconnect_origin rfl h
  | begins =>
    rcases mem_insertOrIgnore.mp h with hq | ⟨rfl, -⟩
    · exact .stays hq
    · exact .begins
  | advances hq hadvance => exact progress_origin hq (.advance hadvance) h
  | shares hq hstage => exact progress_origin hq (.shared hstage) h
  | takes hq hstage hpass => exact progress_origin hq (.took hstage (mem_prune hpass)) h
  | exchanges hq hstage => exact progress_origin hq (.exchanged hstage) h
  | proxies hq hstage => exact progress_origin hq (.proxied hstage) h
  | leaves hq =>
    rcases Table.mem_set.mp h with rfl | ⟨hq', -⟩
    · exact .cancelled hq
    · exact .stays hq'
  | ends => exact .stays (mem_delete.mp h).1
  | _ => exact .stays h

theorem step_later (h : w.store.db.Ident) (hstep : Step parse w event w') : w.store.db.Later w'.store.db := by
  cases hstep with
  | manages hcall => exact manages_later h hcall
  | restarts hstart => exact start_later h hstart
  | changes _ _ hupdate | stopUpdates _ hupdate => exact (update_later h hupdate).1
  | deleted _ _ hdelete => exact delete_later h hdelete
  | _ => exact .refl h

def Event.Saved (id : String) (revision : ℤ) : Event → Prop
  | .changed id' revision' => id' = id ∧ revision' = revision
  | .stopping id' revision' => id' = id ∧ revision' = revision
  | .stopped id' revision' => id' = id ∧ revision' = revision
  | _ => False

def ClosingStage.Saved (revision : ℤ) : ClosingStage → Prop
  | .updated revision' => revision' = revision
  | .draining revision' _ _ => revision' = revision
  | _ => False

inductive Opening (w : World) (store : Store) (event : Event) : Closing → Prop
  | stays {closing : Closing} (h : closing ∈ w.closings) : Opening w store event closing
  | stops {a : App} : Opening w store event ⟨a.id, .stopping a⟩
  | updates {id : String} {a updated : App} (h : ⟨id, .stopping a⟩ ∈ w.closings) (hupdate : w.store.update a a.revision = .ok (updated, store)) :
      Opening w store event ⟨id, .updated updated.revision⟩
  | drains {id : String} {revision : ℤ} {deadline : Time} (h : ⟨id, .updated revision⟩ ∈ w.closings) (hevent : event = .stopping id revision) :
      Opening w store event ⟨id, .draining revision (w.pending id) deadline⟩
  | deletes {id : String} {a : App} : Opening w store event ⟨id, .deleting a⟩
  | empties {id : String} {a : App} {pending : List ℕ} {deadline : Time} : Opening w store event ⟨id, .emptying a pending deadline⟩

theorem mem_close (h : closing ∈ (w.close ⟨id, cstage⟩).closings) : closing = ⟨id, cstage⟩ ∨ closing ∈ w.closings := by
  rcases Table.mem_set.mp h with rfl | ⟨hmem, -⟩
  · exact .inl rfl
  · exact .inr hmem

theorem step_closings (hstep : Step parse w event w') (h : closing ∈ w'.closings) : Opening w w'.store event closing := by
  cases hstep with
  | restarts => exact absurd h (not_mem_empty closing)
  | @stops read =>
    rcases mem_close h with rfl | h
    · exact .stops (a := { read with enabled := false, previewVersion := "" })
    · exact .stays h
  | stopUpdates hmem hupdate =>
    rcases mem_close h with rfl | h
    · exact .updates hmem hupdate
    · exact .stays h
  | stopDisconnects hmem =>
    rcases mem_close h with rfl | h
    · exact .drains hmem rfl
    · exact .stays h
  | deletes =>
    rcases mem_close h with rfl | h
    · exact .deletes
    · exact .stays h
  | deleteDisconnects =>
    rcases mem_close h with rfl | h
    · exact .empties
    · exact .stays h
  | stopRefused | stopPending | stopFailed | stopped | deletePending | deleteFailed | deleted => exact .stays (mem_delete.mp h).1
  | _ => exact .stays h

/-- The revisions that are saved are in the database; the app of a closing is the one it names. -/
structure Recorded (history : List Event) (w : World) : Prop where
  ident : w.store.db.Ident
  changes : ∀ a ∈ w.changes, w.store.db.Reached a.id a.revision
  stopping : ∀ closing ∈ w.closings, ∀ a, closing.stage = .stopping a → a.id = closing.id
  closings : ∀ closing ∈ w.closings, ∀ revision, closing.stage.Saved revision → w.store.db.Reached closing.id revision
  events : ∀ event ∈ history, ∀ id revision, event.Saved id revision → w.store.db.Reached id revision
  unsaid : ∀ closing ∈ w.closings, ∀ revision, closing.stage = .updated revision → .stopping closing.id revision ∉ history

theorem step_changes (h : w.store.db.Ident) (hstep : Step parse w event w') (ha : a ∈ w'.changes) :
    a ∈ w.changes ∨ w'.store.db.Reached a.id a.revision := by
  cases hstep with
  | restarts => exact absurd ha not_mem_nil
  | changes _ _ hupdate =>
    rcases mem_append.mp ha with ha | ha
    · exact .inl ha
    · obtain rfl := mem_singleton.mp ha
      obtain ⟨-, hid, -, hreached, -⟩ := update_later h hupdate
      rw [hid]
      exact .inr hreached
  | changed => exact .inl (mem_of_mem_erase ha)
  | _ => exact .inl ha

theorem step_saved (hstep : Step parse w event w') (hsaved : event.Saved id revision) :
    (∃ a ∈ w.changes, a.id = id ∧ a.revision = revision) ∨ ∃ closing ∈ w.closings, closing.id = id ∧ closing.stage.Saved revision := by
  cases hstep with
  | changed ha => exact .inl ⟨_, ha, hsaved⟩
  | stopDisconnects hmem | stopped hmem =>
    obtain ⟨rfl, rfl⟩ := hsaved
    exact .inr ⟨_, hmem, rfl, rfl⟩
  | _ => cases hsaved

theorem stopping_closes (hstep : Step parse w (.stopping closing.id revision) w') (hold : closing ∈ w.closings) (hclosing : closing ∈ w'.closings)
    (hstage : closing.stage = .updated revision) : False := by
  obtain ⟨id, cstage⟩ := closing
  obtain rfl : cstage = .updated revision := hstage
  generalize hevent : Event.stopping id revision = event at hstep
  cases hstep with
  | @stopDisconnects =>
    obtain ⟨rfl, rfl⟩ := Event.stopping.inj hevent
    rcases Table.mem_set.mp hclosing with hsame | ⟨-, hne⟩
    · cases hsame
    · exact hne rfl
  | _ => cases hevent

theorem Recorded.step (h : Recorded history w) (hstep : Step parse w event w') : Recorded (history ++ [event]) w' := by
  have hlater := step_later h.ident hstep
  have hevents : ∀ e ∈ history ++ [event], ∀ id revision, e.Saved id revision → w.store.db.Reached id revision := by
    intro e he id revision hsaved
    rcases mem_append.mp he with he | he
    · exact h.events e he id revision hsaved
    · obtain rfl := mem_singleton.mp he
      rcases step_saved hstep hsaved with ⟨a, ha, rfl, rfl⟩ | ⟨closing, hclosing, rfl, hstage⟩
      · exact h.changes a ha
      · exact h.closings closing hclosing revision hstage
  constructor
  · exact hlater.ident
  · intro a ha
    rcases step_changes h.ident hstep ha with ha | hreached
    · exact hlater.move (h.changes a ha)
    · exact hreached
  · intro closing hclosing a hstage
    cases step_closings hstep hclosing with
    | stays hmem => exact h.stopping closing hmem a hstage
    | stops =>
      obtain rfl := ClosingStage.stopping.inj hstage
      rfl
    | _ => cases hstage
  · intro closing hclosing revision hsaved
    cases step_closings hstep hclosing with
    | stays hmem => exact hlater.move (h.closings closing hmem revision hsaved)
    | @updates _ a updated hmem hupdate =>
      obtain rfl : updated.revision = revision := hsaved
      have hid := h.stopping _ hmem a rfl
      obtain ⟨-, -, -, hreached, -⟩ := update_later h.ident hupdate
      rw [hid] at hreached
      exact hreached
    | drains hmem => exact hlater.move (h.closings _ hmem revision hsaved)
    | _ => cases hsaved
  · intro e he id revision hsaved
    exact hlater.move (hevents e he id revision hsaved)
  · intro closing hclosing revision hstage hmem
    cases step_closings hstep hclosing with
    | stays hold =>
      rcases mem_append.mp hmem with hmem | hmem
      · exact h.unsaid closing hold revision hstage hmem
      · obtain rfl := mem_singleton.mp hmem
        exact stopping_closes hstep hold hclosing hstage
    | @updates id a updated hold hupdate =>
      obtain rfl := ClosingStage.updated.inj hstage
      obtain ⟨-, -, _, -, hbound⟩ := update_later h.ident hupdate
      have hreached : w.store.db.Reached id updated.revision := hevents _ hmem id updated.revision ⟨rfl, rfl⟩
      have hid : a.id = id := h.stopping _ hold a rfl
      rw [← hid] at hreached
      have hle := hbound _ hreached
      omega
    | _ => cases hstage

def Request.Old (q : Request) (revision : ℤ) : Prop := ∃ a, q.stage.app = some a ∧ a.revision < revision

def Cut (parse : String → Option URL) (s : World) (history : List Event) (w : World) (q : Request) (event : Event) : Prop :=
  Execution.Crosses (Step parse) s history w event (fun u => ∃ r ∈ u.requests, r.key = q.key ∧ r.registered = true) ∧ event.Disconnects q.appID

theorem Moved.app (h : Moved w q stage) (happ : stage.app = some a) : q.stage.app = some a ∨ w.store.db.get q.appID = .ok a := by
  cases h with
  | advance h =>
    cases h with
    | reads _ hget =>
      cases happ
      exact .inr hget
    | findsOwner hstage | allowsOwner hstage | allowsProject hstage | shares hstage | checks hstage | admits hstage
    | shows hstage | admitsAnonymous hstage | admitsViewer hstage => exact .inl (hstage ▸ happ)
  | shared h | took h | exchanged h | proxied h => exact .inl (h ▸ happ)

theorem step_old (hstep : Step parse w event w') (hreached : w.store.db.Reached q'.appID revision) (hq' : q' ∈ w'.requests) (hold : q'.Old revision) :
    ∃ q ∈ w.requests, q.key = q'.key ∧ q.appID = q'.appID ∧ q.Old revision ∧ (q.cancelled = true → q'.cancelled = true) := by
  obtain ⟨a, happ, hlt⟩ := hold
  cases step_requests hstep hq' with
  | stays hq => exact ⟨q', hq, rfl, rfl, ⟨a, happ, hlt⟩, id⟩
  | begins => cases happ
  | @moves q _ hq hmoved =>
    rcases hmoved.app happ with happ | hget
    · exact ⟨q, hq, rfl, rfl, ⟨a, happ, hlt⟩, id⟩
    · have hle := le_of_get hget hreached
      omega
  | @cancelled q hq | @dropped q hq => exact ⟨q, hq, rfl, rfl, ⟨a, happ, hlt⟩, fun _ => rfl⟩

theorem mem_pending (hq : q ∈ w.requests) (happ : q.appID = id) (hregistered : q.registered = true) : q.key ∈ w.pending id := by
  apply mem_map_of_mem
  apply mem_filter.mpr
  simp [happ, hregistered, mem_rows, hq]

structure Tracked (parse : String → Option URL) (s : World) (history : List Event) (w : World) : Prop where
  dropped : ∀ q ∈ w.requests, q.registered = false → q.cancelled = true ∧ ∃ event, Cut parse s history w q event
  cancelled : ∀ q ∈ w.requests, ∀ revision, .changed q.appID revision ∈ history ∨ .stopping q.appID revision ∈ history → q.Old revision →
    q.cancelled = true
  draining : ∀ closing ∈ w.closings, ∀ revision pending deadline, closing.stage = .draining revision pending deadline →
    ∀ q ∈ w.requests, q.appID = closing.id → q.Old revision → q.cancelled = true ∧
      (q.key ∈ pending ∨ ∃ event, event ≠ .stopping closing.id revision ∧ Cut parse s history w q event)
  stopped : ∀ q ∈ w.requests, ∀ revision, .stopped q.appID revision ∈ history → q.Old revision → q.cancelled = true ∧
    ∃ event, event ≠ .stopping q.appID revision ∧ Cut parse s history w q event

theorem Cut.step {s : World} {event' : Event} (h : Cut parse s history w q event') (hstep : Step parse w event w') (hkey : q.key = q'.key)
    (happ : q.appID = q'.appID) : Cut parse s (history ++ [event]) w' q' event' := by
  unfold Cut
  rw [← hkey, ← happ]
  exact ⟨h.1.step hstep, h.2⟩

theorem disconnected {s : World} (h : Tracked parse s history w) (hq : q ∈ (w.disconnect id).requests) (happ : q.appID = id) : q.cancelled = true := by
  rcases mem_disconnect.mp hq with ⟨r, -, -, -, rfl⟩ | ⟨hq, hnot⟩
  · rfl
  · cases hregistered : q.registered with
    | true => exact absurd ⟨happ, hregistered⟩ hnot
    | false => exact (h.dropped q hq hregistered).1

theorem disconnect_step (hstep : Step parse w event w') (hevent : event = .changed id revision ∨ event = .stopping id revision) :
    w'.requests = (w.disconnect id).requests := by
  cases hstep with
  | changed =>
    rcases hevent with hevent | hevent
    · obtain ⟨rfl, -⟩ := Event.changed.inj hevent
      rfl
    · cases hevent
  | stopDisconnects =>
    rcases hevent with hevent | hevent
    · cases hevent
    · obtain ⟨rfl, -⟩ := Event.stopping.inj hevent
      rfl
  | _ => rcases hevent with hevent | hevent <;> cases hevent

theorem stopped_step (hstep : Step parse w (.stopped id revision) w') : w'.requests = w.requests ∧
    ∃ pending deadline, ⟨id, .draining revision pending deadline⟩ ∈ w.closings ∧ ∀ key ∈ pending, w.requests.find? key = none := by
  generalize hevent : Event.stopped id revision = event at hstep
  cases hstep with
  | stopped hmem hdone =>
    obtain ⟨rfl, rfl⟩ := Event.stopped.inj hevent
    exact ⟨rfl, _, _, hmem, hdone⟩
  | _ => cases hevent

theorem Tracked.step {s : World} (h : Tracked parse s history w) (hrecorded : Recorded history w) (hrun : Execution (Step parse) s history w)
    (hstep : Step parse w event w') : Tracked parse s (history ++ [event]) w' := by
  constructor
  · intro q hq hregistered
    cases step_requests hstep hq with
    | stays hmem =>
      obtain ⟨hcancelled, event', hcut⟩ := h.dropped q hmem hregistered
      exact ⟨hcancelled, event', hcut.step hstep rfl rfl⟩
    | begins => cases hregistered
    | @moves r _ hmem =>
      obtain ⟨hcancelled, event', hcut⟩ := h.dropped r hmem hregistered
      exact ⟨hcancelled, event', hcut.step hstep rfl rfl⟩
    | @cancelled r hmem =>
      obtain ⟨-, event', hcut⟩ := h.dropped r hmem hregistered
      exact ⟨rfl, event', hcut.step hstep rfl rfl⟩
    | @dropped r hmem hold hevent => exact ⟨rfl, event, Execution.crosses_now hrun ⟨r, hmem, rfl, hold⟩ hstep, hevent⟩
  · intro q hq revision hmem hold
    by_cases hbefore : .changed q.appID revision ∈ history ∨ .stopping q.appID revision ∈ history
    · have hreached : w.store.db.Reached q.appID revision := by
        rcases hbefore with hmem | hmem
        · exact hrecorded.events _ hmem _ _ ⟨rfl, rfl⟩
        · exact hrecorded.events _ hmem _ _ ⟨rfl, rfl⟩
      obtain ⟨r, hr, -, happ, hold', hcancelled⟩ := step_old hstep hreached hq hold
      exact hcancelled (h.cancelled r hr revision (happ ▸ hbefore) hold')
    · have hevent : event = .changed q.appID revision ∨ event = .stopping q.appID revision := by
        simp only [mem_append, mem_singleton] at hmem
        rcases hmem with (hmem | hmem) | (hmem | hmem)
        · exact absurd (.inl hmem) hbefore
        · exact .inl hmem.symm
        · exact absurd (.inr hmem) hbefore
        · exact .inr hmem.symm
      rw [disconnect_step hstep hevent] at hq
      exact disconnected h hq rfl
  · intro closing hclosing revision pending deadline hstage q hq happ hold
    cases step_closings hstep hclosing with
    | stays hmem =>
      have hreached : w.store.db.Reached q.appID revision := by
        rw [happ]
        apply hrecorded.closings closing hmem revision
        rw [hstage]
        exact rfl
      obtain ⟨r, hr, hkey, hrapp, hold', hcancelled⟩ := step_old hstep hreached hq hold
      obtain ⟨hdone, hrest⟩ := h.draining closing hmem revision pending deadline hstage r hr (hrapp.trans happ) hold'
      refine ⟨hcancelled hdone, ?_⟩
      rcases hrest with hpending | ⟨event', hne, hcut⟩
      · exact .inl (hkey ▸ hpending)
      · exact .inr ⟨event', hne, hcut.step hstep hkey hrapp⟩
    | @drains id revision' _ hmem hevent =>
      obtain ⟨rfl, rfl, -⟩ := ClosingStage.draining.inj hstage
      have happ' : q.appID = id := happ
      have hreached : w.store.db.Reached q.appID revision' := by
        rw [happ']
        exact hrecorded.closings _ hmem revision' rfl
      obtain ⟨r, hr, hkey, hrapp, -, -⟩ := step_old hstep hreached hq hold
      refine ⟨disconnected h (disconnect_step hstep (.inr hevent) ▸ hq) happ', ?_⟩
      cases hregistered : r.registered with
      | true => exact .inl (hkey ▸ mem_pending hr (hrapp.trans happ') hregistered)
      | false =>
        obtain ⟨-, event', hcut⟩ := h.dropped r hr hregistered
        refine .inr ⟨event', ?_, hcut.step hstep hkey hrapp⟩
        intro hsame
        rw [hsame] at hcut
        exact hrecorded.unsaid _ hmem revision' rfl hcut.1.mem
    | _ => cases hstage
  · intro q hq revision hmem hold
    rcases mem_append.mp hmem with hmem | hmem
    · obtain ⟨r, hr, hkey, happ, hold', hcancelled⟩ := step_old hstep (hrecorded.events _ hmem _ _ ⟨rfl, rfl⟩) hq hold
      obtain ⟨hdone, event', hne, hcut⟩ := h.stopped r hr revision (happ ▸ hmem) hold'
      exact ⟨hcancelled hdone, event', happ ▸ hne, hcut.step hstep hkey happ⟩
    · obtain rfl := mem_singleton.mp hmem
      obtain ⟨hrequests, pending, deadline, hclosing, hdone⟩ := stopped_step hstep
      rw [hrequests] at hq
      obtain ⟨hcancelled, hrest⟩ := h.draining _ hclosing revision pending deadline rfl q hq rfl hold
      refine ⟨hcancelled, ?_⟩
      rcases hrest with hpending | ⟨event', hne, hcut⟩
      · exact absurd rfl (Table.find?_eq_none.mp (hdone _ hpending) q hq)
      · exact ⟨event', hne, hcut.step hstep rfl rfl⟩

end WorkAgent.PublishedApps.Gateway
