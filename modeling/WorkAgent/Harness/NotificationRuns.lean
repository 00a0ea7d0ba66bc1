import Mathlib.Data.List.Induction
import WorkAgent.Harness.CompletionNotifications

namespace WorkAgent.Harness.Notifications

open Library List

variable {w : World} {acts more : List Action} {id : String} {d : Delivery} {item : Item} {guarded : Bool} {view : View}

def Delivery.Done (d : Delivery) : Item → Prop
  | .part k => k < d.next
  | .file k => k < d.nextFile

def Delivery.Sends (d : Delivery) : Item → Prop
  | .part k => k = d.next ∧ d.next < d.messages.length
  | .file k => k = d.nextFile ∧ d.nextFile < d.files.length ∧ d.next = d.messages.length

def Phase.Fits (d : Delivery) : Phase → Prop
  | accessing => d.next < d.messages.length
  | sending k => d.Sends (.part k)
  | reading k => d.Sends (.file k) ∧ d.status = .sending
  | sendingFile k => d.Sends (.file k)

def Item.Before (parts : ℕ) : Item → Item → Prop
  | part j, part k => j < k
  | part j, file _ => j < parts
  | file j, file k => j < k
  | file _, part _ => False

def Ordered (acts : List Action) : Prop :=
  ∀ before id parts item after, acts = before ++ .started id parts item :: after →
    .acknowledged id item true ∉ before ∧ ∀ earlier, earlier.Before parts item → .acknowledged id earlier true ∈ before

structure Sound (acts : List Action) (w : World) : Prop where
  synced : w.alive = true → w.memory = w.file
  idle : w.alive = false → w.running = [] ∧ w.composing = [] ∧ w.loops = []
  ids : (w.file.deliveries.map Delivery.id).Nodup
  bounds : ∀ d ∈ w.file.deliveries, d.next ≤ d.messages.length ∧ d.nextFile ≤ d.files.length ∧
    (0 < d.nextFile → d.next = d.messages.length)
  composing : (w.composing.map Composing.id).Nodup
  composes : ∀ c ∈ w.composing, c.id ∈ w.running ∧ ∀ d ∈ w.file.deliveries, d.id ≠ c.id
  loops : (w.loops.map Loop.delivery).Nodup
  runs : ∀ loop ∈ w.loops, ∃ d ∈ w.file.deliveries, d.id = loop.delivery ∧ (d.status = .sending ∨ d.status = .cancelled) ∧
    loop.phase.Fits d
  done : ∀ d ∈ w.file.deliveries, ∀ item, d.Done item → .acknowledged d.id item true ∈ acts
  acknowledged : ∀ id item, .acknowledged id item true ∈ acts → ∃ d ∈ w.file.deliveries, d.id = id ∧ d.Done item
  ordered : Ordered acts

def Status.final : Status → Bool
  | sent => true
  | cancelled => true
  | _ => false

structure Respects (old new : List Delivery) (acts : List Action) : Prop where
  kept : ∀ d ∈ old, d.status.final = true → ∃ d' ∈ new, d'.id = d.id ∧ d'.status = d.status
  quiet : ∀ id parts item, .started id parts item ∈ acts → ∀ d ∈ old, d.id = id → d.status.final = false

structure Goes (acts : List Action) (w : World) (r : World × List Action) : Prop where
  sound : Sound (acts ++ r.2) r.1
  alive : r.1.alive = true
  respects : Respects w.file.deliveries r.1.file.deliveries r.2

structure Leads (acts : List Action) (w : World) (more : List Action) (t : World) : Prop where
  sound : Sound (acts ++ more) t
  respects : Respects w.file.deliveries t.file.deliveries more

theorem Respects.refl (ds : List Delivery) : Respects ds ds [] where
  kept := fun d hd _ => ⟨d, hd, rfl, rfl⟩
  quiet := fun _ _ _ hmem => by cases hmem

theorem Respects.trans {old mid new : List Delivery} (h : Respects old mid acts) (h' : Respects mid new more) :
    Respects old new (acts ++ more) where
  kept := by
    intro d hd hfinal
    obtain ⟨d', hd', hid, hstatus⟩ := h.kept d hd hfinal
    obtain ⟨d'', hd'', hid', hstatus'⟩ := h'.kept d' hd' (by rw [hstatus]; exact hfinal)
    exact ⟨d'', hd'', hid'.trans hid, hstatus'.trans hstatus⟩
  quiet := by
    intro id parts item hmem d hd hid
    rcases mem_append.mp hmem with hmem | hmem
    · exact h.quiet id parts item hmem d hd hid
    · by_contra hfinal
      obtain ⟨d', hd', hid', hstatus⟩ := h.kept d hd (by simpa using hfinal)
      have hquiet := h'.quiet id parts item hmem d' hd' (hid'.trans hid)
      rw [hstatus] at hquiet
      exact hfinal hquiet

theorem Goes.trans {r s : World × List Action} (h : Goes acts w r) (h' : Goes (acts ++ r.2) r.1 s) : Goes acts w (s.1, r.2 ++ s.2) where
  sound := by
    rw [← append_assoc]
    exact h'.sound
  alive := h'.alive
  respects := h.respects.trans h'.respects

theorem Goes.refl (h : Sound acts w) (halive : w.alive = true) : Goes acts w (w, []) where
  sound := by
    rw [append_nil]
    exact h
  alive := halive
  respects := Respects.refl _

variable {d' : Delivery}

theorem eq_of_id (h : Sound acts w) (hd : d ∈ w.file.deliveries) (hd' : d' ∈ w.file.deliveries) (hid : d.id = d'.id) :
    d = d' :=
  inj_on_of_nodup_map h.ids hd hd' hid

theorem Ordered.snoc {act : Action} (h : Ordered acts)
    (hnew : ∀ id parts item, act = .started id parts item → .acknowledged id item true ∉ acts ∧
      ∀ earlier, earlier.Before parts item → .acknowledged id earlier true ∈ acts) : Ordered (acts ++ [act]) := by
  intro before id parts item after heq
  rcases eq_nil_or_concat after with rfl | ⟨after, _, rfl⟩
  · obtain ⟨rfl, hact⟩ := append_inj' heq rfl
    exact hnew id parts item (List.cons.inj hact).1
  · rw [concat_eq_append, ← cons_append, ← append_assoc] at heq
    obtain ⟨rfl, -⟩ := append_inj' heq rfl
    exact h before id parts item after rfl

theorem Sound.start (h : Sound acts w) (hd : d ∈ w.file.deliveries) (hitem : d.Sends item) :
    Sound (acts ++ [.started d.id d.messages.length item]) w := by
  have hacts : ∀ act ∈ acts ++ [Action.started d.id d.messages.length item], act ∈ acts ∨ act = .started d.id d.messages.length item := by
    intro _ hact
    simpa using hact
  refine { h with done := ?_, acknowledged := ?_, ordered := ?_ }
  · exact fun x hx other hdone => mem_append_left _ (h.done x hx other hdone)
  · intro id other hmem
    rcases hacts _ hmem with hmem | heq
    · exact h.acknowledged id other hmem
    · cases heq
  · apply h.ordered.snoc
    intro _ _ _ heq
    obtain ⟨rfl, rfl, rfl⟩ := Action.started.inj heq
    constructor
    · intro hmem
      obtain ⟨x, hx, hid, hdone⟩ := h.acknowledged _ _ hmem
      obtain rfl := eq_of_id h hx hd hid
      cases item with
      | part =>
        obtain ⟨rfl, -⟩ := hitem
        change x.next < x.next at hdone
        omega
      | file =>
        obtain ⟨rfl, -⟩ := hitem
        change x.nextFile < x.nextFile at hdone
        omega
    · intro earlier hbefore
      apply h.done d hd
      cases item with
      | part =>
        obtain ⟨rfl, -⟩ := hitem
        cases earlier with
        | part => exact hbefore
        | file => exact hbefore.elim
      | file =>
        obtain ⟨rfl, -, hparts⟩ := hitem
        cases earlier with
        | part j =>
          change j < d.next
          rw [hparts]
          exact hbefore
        | file => exact hbefore

variable {phase : Phase}

theorem Sound.await (h : Sound acts w) (halive : w.alive = true) (hd : d ∈ w.file.deliveries)
    (hfree : ∀ loop ∈ w.loops, loop.delivery ≠ d.id) (hstatus : d.status = .sending ∨ d.status = .cancelled)
    (hfits : phase.Fits d) : Sound acts (w.await d.id guarded phase) :=
  { h with
    idle := fun hidle => by
      change w.alive = false at hidle
      rw [halive] at hidle
      cases hidle
    loops := by
      refine nodup_cons.mpr ⟨fun hmem => ?_, h.loops⟩
      obtain ⟨loop, hloop, heq⟩ := mem_map.mp hmem
      exact hfree loop hloop heq
    runs := by
      intro loop hloop
      rcases mem_cons.mp hloop with rfl | hloop
      · exact ⟨d, hd, rfl, hstatus, hfits⟩
      · exact h.runs loop hloop }

theorem Sound.leave (h : Sound acts w) (hid : ∀ c ∈ w.composing, c.id ≠ id) : Sound acts (w.leave id guarded) := by
  cases guarded with
  | false => exact h
  | true =>
    refine { h with idle := fun hidle => ?_, composes := fun c hc => ?_ }
    · obtain ⟨hrunning, hrest⟩ := h.idle hidle
      refine ⟨?_, hrest⟩
      change w.running.filter _ = []
      rw [hrunning]
      rfl
    · obtain ⟨hrunning, hnew⟩ := h.composes c hc
      exact ⟨mem_filter.mpr ⟨hrunning, by simpa using hid c hc⟩, hnew⟩

structure Same (d d' : Delivery) : Prop where
  id : d'.id = d.id
  messages : d'.messages = d.messages
  files : d'.files = d.files
  next : d'.next = d.next
  nextFile : d'.nextFile = d.nextFile

theorem Same.done (h : Same d d') : d'.Done item ↔ d.Done item := by
  cases item with
  | part =>
    unfold Delivery.Done
    rw [h.next]
  | file =>
    unfold Delivery.Done
    rw [h.nextFile]

theorem Same.sends (h : Same d d') : d'.Sends item ↔ d.Sends item := by
  cases item with
  | part =>
    unfold Delivery.Sends
    rw [h.next, h.messages]
  | file =>
    unfold Delivery.Sends
    rw [h.nextFile, h.next, h.messages, h.files]

theorem Same.fits (h : Same d d') (hstatus : ∀ k, phase = .reading k → d'.status = .sending)
    (hfits : phase.Fits d) : phase.Fits d' := by
  cases phase with
  | accessing =>
    change d'.next < d'.messages.length
    rw [h.next, h.messages]
    exact hfits
  | sending k =>
    change d.Sends (.part k) at hfits
    exact h.sends.mpr hfits
  | reading k => exact ⟨h.sends.mpr hfits.1, hstatus k rfl⟩
  | sendingFile k =>
    change d.Sends (.file k) at hfits
    exact h.sends.mpr hfits

variable {memory : Saved}

theorem Sound.edit {g : Delivery → Delivery} (h : Sound acts w) (halive : w.alive = true) (hg : ∀ d, Same d (g d))
    (hmemory : memory.deliveries = w.file.deliveries.map g)
    (hloops : ∀ loop ∈ w.loops, ∀ d ∈ w.file.deliveries, d.id = loop.delivery → (d.status = .sending ∨ d.status = .cancelled) →
      ((g d).status = .sending ∨ (g d).status = .cancelled) ∧ ∀ k, loop.phase = .reading k → d.status = .sending → (g d).status = .sending) :
    Sound acts (w.save memory) := by
  have hmem : ∀ x ∈ memory.deliveries, ∃ d ∈ w.file.deliveries, x = g d := by
    intro x hx
    rw [hmemory] at hx
    obtain ⟨d, hd, rfl⟩ := mem_map.mp hx
    exact ⟨d, hd, rfl⟩
  have hnew : ∀ d ∈ w.file.deliveries, g d ∈ memory.deliveries := by
    intro d hd
    rw [hmemory]
    exact mem_map_of_mem hd
  refine ⟨fun _ => rfl, fun hidle => ?_, ?_, ?_, h.composing, ?_, h.loops, ?_, ?_, ?_, h.ordered⟩
  · change w.alive = false at hidle
    rw [halive] at hidle
    cases hidle
  · have hids : memory.deliveries.map Delivery.id = w.file.deliveries.map Delivery.id := by
      rw [hmemory, map_map]
      exact map_congr_left (fun d _ => (hg d).id)
    change (memory.deliveries.map Delivery.id).Nodup
    rw [hids]
    exact h.ids
  · intro x hx
    obtain ⟨d, hd, rfl⟩ := hmem x hx
    rw [(hg d).next, (hg d).messages, (hg d).nextFile, (hg d).files]
    exact h.bounds d hd
  · intro c hc
    obtain ⟨hrunning, hfree⟩ := h.composes c hc
    refine ⟨hrunning, fun x hx => ?_⟩
    obtain ⟨d, hd, rfl⟩ := hmem x hx
    rw [(hg d).id]
    exact hfree d hd
  · intro loop hloop
    obtain ⟨d, hd, hid, hstatus, hfits⟩ := h.runs loop hloop
    obtain ⟨hstatus', hreading⟩ := hloops loop hloop d hd hid hstatus
    refine ⟨g d, hnew d hd, (hg d).id.trans hid, hstatus', (hg d).fits (fun k hk => hreading k hk ?_) hfits⟩
    rw [hk] at hfits
    exact hfits.2
  · intro x hx item hdone
    obtain ⟨d, hd, rfl⟩ := hmem x hx
    rw [(hg d).id]
    exact h.done d hd item ((hg d).done.mp hdone)
  · intro id item hacknowledged
    obtain ⟨d, hd, hid, hdone⟩ := h.acknowledged id item hacknowledged
    exact ⟨g d, hnew d hd, (hg d).id.trans hid, (hg d).done.mpr hdone⟩

structure Ready (acts : List Action) (w : World) (d : Delivery) : Prop where
  sound : Sound acts w
  alive : w.alive = true
  mem : d ∈ w.file.deliveries
  free : ∀ loop ∈ w.loops, loop.delivery ≠ d.id
  status : d.status = .sending ∨ d.status = .cancelled

theorem Ready.not_composing (h : Ready acts w d) : ∀ c ∈ w.composing, c.id ≠ d.id :=
  fun c hc heq => (h.sound.composes c hc).2 d h.mem heq.symm

theorem leave_alive (w : World) (id : String) (guarded : Bool) : (w.leave id guarded).alive = w.alive := by
  cases guarded <;> rfl

theorem leave_file (w : World) (id : String) (guarded : Bool) : (w.leave id guarded).file = w.file := by
  cases guarded <;> rfl

theorem Ready.leave (h : Ready acts w d) : Goes acts w (w.leave d.id guarded, []) where
  sound := by
    rw [append_nil]
    exact h.sound.leave h.not_composing
  alive := (leave_alive w d.id guarded).trans h.alive
  respects := by
    rw [leave_file]
    exact Respects.refl _

theorem Ready.await (h : Ready acts w d) (hfits : phase.Fits d) : Goes acts w (w.await d.id guarded phase, []) where
  sound := by
    rw [append_nil]
    exact h.sound.await h.alive h.mem h.free h.status hfits
  alive := h.alive
  respects := Respects.refl _

def only (id : String) (f : Delivery → Delivery) (d : Delivery) : Delivery := if d.id = id then f d else d

theorem Same.refl (d : Delivery) : Same d d := ⟨rfl, rfl, rfl, rfl, rfl⟩

variable {f : Delivery → Delivery}

theorem Same.only (hf : ∀ d, Same d (f d)) (d : Delivery) : Same d (only id f d) := by
  unfold Notifications.only
  split
  · exact hf d
  · exact Same.refl d

theorem Sound.modify (h : Sound acts w) (halive : w.alive = true) (hf : ∀ d, Same d (f d))
    (hfree : ∀ loop ∈ w.loops, loop.delivery ≠ id) : Sound acts (w.modify id f) := by
  apply h.edit halive (Same.only hf)
  · change w.memory.deliveries.map _ = _
    rw [h.synced halive]
    rfl
  · intro loop hloop x _ hid hstatus
    have hne : x.id ≠ id := fun heq => hfree loop hloop (hid.symm.trans heq)
    rw [only, if_neg hne]
    exact ⟨hstatus, fun _ _ hsending => hsending⟩

theorem mem_modify (hsynced : w.memory = w.file) (hd : d ∈ w.file.deliveries) :
    only id f d ∈ (w.modify id f).file.deliveries := by
  change _ ∈ w.memory.deliveries.map _
  rw [hsynced]
  exact mem_map_of_mem hd

theorem respects_modify (hsynced : w.memory = w.file)
    (hf : ∀ d ∈ w.file.deliveries, d.id = id → (f d).id = d.id ∧ (d.status.final = true → (f d).status = d.status)) :
    Respects w.file.deliveries (w.modify id f).file.deliveries [] where
  kept := by
    intro x hx hfinal
    refine ⟨only id f x, mem_modify hsynced hx, ?_⟩
    unfold only
    split
    · rename_i hid
      exact ⟨(hf x hx hid).1, (hf x hx hid).2 hfinal⟩
    · exact ⟨rfl, rfl⟩
  quiet := fun _ _ _ hmem => by cases hmem

section

variable (h : Ready acts w d)
include h

theorem Ready.modify (hf : ∀ d, Same d (f d))
    (hfinal : d.status.final = true → (f d).status = d.status) : Goes acts w ((w.modify d.id f).leave d.id guarded, []) where
  sound := by
    rw [append_nil]
    apply (h.sound.modify h.alive hf h.free).leave
    exact h.not_composing
  alive := (leave_alive _ d.id guarded).trans h.alive
  respects := by
    rw [leave_file]
    apply respects_modify (h.sound.synced h.alive)
    intro x hx hid
    obtain rfl := eq_of_id h.sound hx h.mem hid
    exact ⟨(hf x).id, hfinal⟩

theorem Ready.fail : Goes acts w (w.fail d.id guarded, []) := by
  apply h.modify
  · intro x
    split
    · exact Same.refl x
    · exact ⟨rfl, rfl, rfl, rfl, rfl⟩
  · intro hfinal
    rcases h.status with hstatus | hstatus
    · rw [hstatus] at hfinal
      cases hfinal
    · rw [if_pos hstatus]

theorem Ready.finish : Goes acts w (w.finish d guarded, []) := by
  apply h.modify
  · intro x
    split
    · exact Same.refl x
    · exact ⟨rfl, rfl, rfl, rfl, rfl⟩
  · intro hfinal
    have hcancelled : d.status = .cancelled := by
      rcases h.status with hstatus | hstatus
      · rw [hstatus] at hfinal
        cases hfinal
      · exact hstatus
    rw [if_pos (by simp [World.stopped, hcancelled])]

theorem Ready.sending (hgoes : ¬ w.stopped d = true) : d.status = .sending := by
  rcases h.status with hstatus | hstatus
  · exact hstatus
  · exact absurd (by simp [World.stopped, hstatus]) hgoes

theorem Ready.sendPart (hnext : d.next < d.messages.length) :
    Goes acts w (w.sendPart d guarded view) := by
  unfold World.sendPart
  split
  · exact h.leave
  · rename_i hgoes
    split
    · exact h.fail
    · have hsending := h.sending hgoes
      have hstart : Sound (acts ++ [.started d.id d.messages.length (.part d.next)]) w := h.sound.start h.mem ⟨rfl, hnext⟩
      refine ⟨hstart.await h.alive h.mem h.free h.status ⟨rfl, hnext⟩, h.alive, ?_⟩
      constructor
      · exact (Respects.refl _).kept
      · intro _ _ _ hmem x hx hid
        obtain ⟨rfl, -, -⟩ := Action.started.inj (mem_singleton.mp hmem)
        rw [eq_of_id h.sound hx h.mem hid, hsending]
        rfl

theorem Ready.readFile (hnext : d.next = d.messages.length) (hfile : d.nextFile < d.files.length) :
    Goes acts w (w.readFile d guarded view, []) := by
  unfold World.readFile
  split
  · exact h.leave
  · rename_i hgoes
    split
    · exact h.fail
    · exact h.await ⟨⟨rfl, hfile, hnext⟩, h.sending hgoes⟩

theorem Ready.proceed : Goes acts w (w.proceed d guarded view) := by
  obtain ⟨_, _, -⟩ := h.sound.bounds d h.mem
  unfold World.proceed
  split
  · rename_i hnext
    split
    · exact h.await hnext
    · exact h.sendPart hnext
  · rename_i hnext
    split
    · rename_i hfile
      exact h.readFile (by omega) hfile
    · exact h.finish

end

theorem Sound.send (h : Sound acts w) (halive : w.alive = true) (hd : d ∈ w.file.deliveries)
    (hfree : ∀ loop ∈ w.loops, loop.delivery ≠ d.id) (hopen : d.status.final = false) : Goes acts w (w.send d guarded view) := by
  have hcomposing : ∀ c ∈ w.composing, c.id ≠ d.id := fun c hc heq => (h.composes c hc).2 d hd heq.symm
  unfold World.send
  split
  · refine ⟨?_, (leave_alive w d.id guarded).trans halive, ?_⟩
    · rw [append_nil]
      exact h.leave hcomposing
    · rw [leave_file]
      exact Respects.refl _
  · have hmem : only d.id World.began d ∈ (w.modify d.id World.began).file.deliveries := mem_modify (h.synced halive) hd
    rw [only, if_pos rfl] at hmem
    have hready : Ready acts (w.modify d.id World.began) (World.began d) :=
      ⟨h.modify halive (fun _ => ⟨rfl, rfl, rfl, rfl, rfl⟩) hfree, halive, hmem, hfree, .inl rfl⟩
    have hbegins : Goes acts w (w.modify d.id World.began, []) := by
      refine ⟨?_, halive, ?_⟩
      · rw [append_nil]
        exact hready.sound
      · apply respects_modify (h.synced halive)
        intro x hx hid
        refine ⟨rfl, fun hfinal => ?_⟩
        rw [eq_of_id h hx hd hid, hopen] at hfinal
        cases hfinal
    have hproceeds : Goes (acts ++ []) (w.modify d.id World.began) ((w.modify d.id World.began).proceed (World.began d) guarded view) := by
      rw [append_nil]
      exact hready.proceed
    exact hbegins.trans hproceeds

theorem Sound.free_of_status (h : Sound acts w) (hd : d ∈ w.file.deliveries) (hstatus : d.status = .pending ∨ d.status = .failed) :
    ∀ loop ∈ w.loops, loop.delivery ≠ d.id := by
  intro loop hloop heq
  obtain ⟨x, hx, hid, hrunning, -⟩ := h.runs loop hloop
  rw [eq_of_id h hx hd (hid.trans heq)] at hrunning
  rcases hstatus with hstatus | hstatus <;> rcases hrunning with hrunning | hrunning <;> rw [hstatus] at hrunning <;> cases hrunning

theorem Sound.sendPending (h : Sound acts w) (halive : w.alive = true) (ids : List String) :
    Goes acts w (World.sendPending view ids w) := by
  induction ids generalizing acts w with
  | nil => exact Goes.refl h halive
  | cons _ _ ih =>
    unfold World.sendPending
    split
    · exact ih h halive
    · rename_i d hfind
      split
      · rename_i hpending
        have hd : d ∈ w.file.deliveries := by
          rw [← h.synced halive]
          exact mem_of_find?_eq_some hfind
        have hsend : Goes acts w (w.send d false view) :=
          h.send halive hd (h.free_of_status hd (.inl hpending)) (by rw [hpending]; rfl)
        exact hsend.trans (ih hsend.sound hsend.alive)
      · exact ih h halive

theorem Sound.calm (h : Sound acts w) (hstarted : ∀ id parts item, .started id parts item ∉ more)
    (hacknowledged : ∀ id item, .acknowledged id item true ∉ more) : Sound (acts ++ more) w :=
  { h with
    done := fun x hx item hdone => mem_append_left _ (h.done x hx item hdone)
    acknowledged := by
      intro id item hmem
      rcases mem_append.mp hmem with hmem | hmem
      · exact h.acknowledged id item hmem
      · exact absurd hmem (hacknowledged id item)
    ordered := by
      induction more using List.reverseRecOn with
      | nil =>
        rw [append_nil]
        exact h.ordered
      | append_singleton _ _ ih =>
        rw [← append_assoc]
        refine (ih (fun id parts item hmem => hstarted id parts item (mem_append_left _ hmem))
          (fun id item hmem => hacknowledged id item (mem_append_left _ hmem))).snoc ?_
        rintro id parts item rfl
        exact absurd (mem_append_right _ (mem_singleton.mpr rfl)) (hstarted id parts item) }

variable {loop : Loop}

theorem Sound.drop (h : Sound acts w) (hloop : loop ∈ w.loops) :
    Sound acts (w.drop loop) ∧ ∀ other ∈ (w.drop loop).loops, other.delivery ≠ loop.delivery := by
  have hsub : ∀ other ∈ w.loops.erase loop, other ∈ w.loops := fun other hother => mem_of_mem_erase hother
  constructor
  · refine { h with idle := fun hidle => ?_, loops := ?_, runs := fun other hother => h.runs other (hsub other hother) }
    · obtain ⟨-, -, hnone⟩ := h.idle hidle
      rw [hnone] at hloop
      cases hloop
    · exact h.loops.sublist (erase_sublist.map Loop.delivery)
  · intro _ hother heq
    have hnodup : w.loops.Nodup := h.loops.of_map Loop.delivery
    have hne := (List.Nodup.mem_erase_iff hnodup).mp hother
    exact hne.1 (inj_on_of_nodup_map h.loops hne.2 hloop heq)

theorem Sound.alive_of_loop (h : Sound acts w) (hloop : loop ∈ w.loops) : w.alive = true := by
  by_contra hidle
  obtain ⟨-, -, hnone⟩ := h.idle (by simpa using hidle)
  rw [hnone] at hloop
  cases hloop

variable {c : Composing}

theorem Sound.alive_of_composing (h : Sound acts w) (hc : c ∈ w.composing) : w.alive = true := by
  by_contra hidle
  obtain ⟨-, hnone, -⟩ := h.idle (by simpa using hidle)
  rw [hnone] at hc
  cases hc

theorem Sound.ready (h : Sound acts w) (hloop : loop ∈ w.loops) (hd : d ∈ w.file.deliveries) (hid : d.id = loop.delivery) :
    Ready acts (w.drop loop) d ∧ loop.phase.Fits d := by
  obtain ⟨x, hx, hxid, hstatus, hfits⟩ := h.runs loop hloop
  obtain rfl := eq_of_id h hx hd (hxid.trans hid.symm)
  obtain ⟨hdropped, hfree⟩ := h.drop hloop
  exact ⟨⟨hdropped, h.alive_of_loop hloop, hd, fun other hother => hid ▸ hfree other hother, hstatus⟩, hfits⟩

def Delivery.checked (d : Delivery) : Item → Delivery
  | .part _ => { d with next := d.next + 1 }
  | .file _ => { d with nextFile := d.nextFile + 1 }

theorem checkpoint_eq (w : World) (id : String) (item : Item) : w.checkpoint id item = w.modify id (Delivery.checked · item) := by
  cases item <;> rfl

theorem done_checked {other : Item} (hsends : d.Sends item) : (d.checked item).Done other ↔ d.Done other ∨ other = item := by
  cases item with
  | part =>
    obtain ⟨rfl, -⟩ := hsends
    cases other with
    | part j =>
      change j < d.next + 1 ↔ j < d.next ∨ _
      rw [Item.part.injEq]
      omega
    | file j =>
      change j < d.nextFile ↔ j < d.nextFile ∨ _
      simp
  | file =>
    obtain ⟨rfl, -⟩ := hsends
    cases other with
    | part j =>
      change j < d.next ↔ j < d.next ∨ _
      simp
    | file j =>
      change j < d.nextFile + 1 ↔ j < d.nextFile ∨ _
      rw [Item.file.injEq]
      omega

theorem checked_id : (d.checked item).id = d.id := by
  cases item <;> rfl

theorem checked_status : (d.checked item).status = d.status := by
  cases item <;> rfl

theorem bounds_checked (hsends : d.Sends item) (hbounds : d.next ≤ d.messages.length ∧ d.nextFile ≤ d.files.length ∧
    (0 < d.nextFile → d.next = d.messages.length)) :
    (d.checked item).next ≤ (d.checked item).messages.length ∧ (d.checked item).nextFile ≤ (d.checked item).files.length ∧
      (0 < (d.checked item).nextFile → (d.checked item).next = (d.checked item).messages.length) := by
  obtain ⟨hnext, hfile, hparts⟩ := hbounds
  cases item with
  | part =>
    obtain ⟨rfl, hlt⟩ := hsends
    refine ⟨hlt, hfile, fun hpos => ?_⟩
    have hfull := hparts hpos
    omega
  | file =>
    obtain ⟨rfl, hlt, hfull⟩ := hsends
    exact ⟨hnext, hlt, fun _ => hfull⟩

theorem Ready.checkpoint (h : Ready acts w d) (hsends : d.Sends item) :
    Ready (acts ++ [.acknowledged d.id item true]) (w.checkpoint d.id item) (d.checked item) ∧
      Respects w.file.deliveries (w.checkpoint d.id item).file.deliveries [] := by
  have hsynced := h.sound.synced h.alive
  have hmem : ∀ x ∈ w.file.deliveries, only d.id (Delivery.checked · item) x ∈ (w.checkpoint d.id item).file.deliveries := by
    intro x hx
    rw [checkpoint_eq]
    exact mem_modify hsynced hx
  have hself : d.checked item ∈ (w.checkpoint d.id item).file.deliveries := by
    have hin := hmem d h.mem
    rw [only, if_pos rfl] at hin
    exact hin
  have hother : ∀ x ∈ w.file.deliveries, x.id ≠ d.id → x ∈ (w.checkpoint d.id item).file.deliveries := by
    intro x hx hne
    have hin := hmem x hx
    rw [only, if_neg hne] at hin
    exact hin
  have hcases : ∀ x ∈ (w.checkpoint d.id item).file.deliveries, x = d.checked item ∨ (x ∈ w.file.deliveries ∧ x.id ≠ d.id) := by
    intro x hx
    rw [checkpoint_eq] at hx
    change x ∈ w.memory.deliveries.map _ at hx
    rw [hsynced] at hx
    obtain ⟨y, hy, rfl⟩ := mem_map.mp hx
    split
    · rename_i hid
      rw [eq_of_id h.sound hy h.mem hid]
      exact .inl rfl
    · rename_i hid
      exact .inr ⟨hy, hid⟩
  have hids : (w.checkpoint d.id item).file.deliveries.map Delivery.id = w.file.deliveries.map Delivery.id := by
    rw [checkpoint_eq]
    change (w.memory.deliveries.map _).map Delivery.id = _
    rw [hsynced, map_map]
    refine map_congr_left (fun x _ => ?_)
    change (if x.id = d.id then x.checked item else x).id = x.id
    split
    · exact checked_id
    · rfl
  have hsame : ∀ x : World, x = w.checkpoint d.id item → x.alive = w.alive ∧ x.memory = x.file ∧ x.running = w.running ∧
      x.composing = w.composing ∧ x.loops = w.loops := by
    rintro x rfl
    rw [checkpoint_eq]
    exact ⟨rfl, rfl, rfl, rfl, rfl⟩
  obtain ⟨halive, hmemory, hrunning, hcomposing, hloops⟩ := hsame _ rfl
  refine ⟨⟨⟨fun _ => hmemory, fun hidle => ?_, ?_, ?_, ?_, ?_, ?_, ?_, ?_, ?_, ?_⟩, halive.trans h.alive, hself, ?_, ?_⟩, ?_⟩
  · rw [halive, h.alive] at hidle
    cases hidle
  · rw [hids]
    exact h.sound.ids
  · intro x hx
    rcases hcases x hx with rfl | ⟨hx, -⟩
    · exact bounds_checked hsends (h.sound.bounds d h.mem)
    · exact h.sound.bounds x hx
  · rw [hcomposing]
    exact h.sound.composing
  · rw [hcomposing, hrunning]
    intro c hc
    refine ⟨(h.sound.composes c hc).1, fun x hx => ?_⟩
    rcases hcases x hx with rfl | ⟨hx, -⟩
    · rw [checked_id]
      exact (h.sound.composes c hc).2 d h.mem
    · exact (h.sound.composes c hc).2 x hx
  · rw [hloops]
    exact h.sound.loops
  · rw [hloops]
    intro loop hloop
    obtain ⟨x, hx, hid, hstatus, hfits⟩ := h.sound.runs loop hloop
    refine ⟨x, hother x hx (fun heq => ?_), hid, hstatus, hfits⟩
    exact h.free loop hloop (hid.symm.trans heq)
  · intro x hx other hdone
    rcases hcases x hx with rfl | ⟨hx, -⟩
    · rw [checked_id]
      rcases (done_checked hsends).mp hdone with hdone | rfl
      · exact mem_append_left _ (h.sound.done d h.mem other hdone)
      · exact mem_append_right _ (mem_singleton.mpr rfl)
    · exact mem_append_left _ (h.sound.done x hx other hdone)
  · intro id other hin
    rcases mem_append.mp hin with hin | hin
    · obtain ⟨x, hx, hid, hdone⟩ := h.sound.acknowledged id other hin
      by_cases heq : x.id = d.id
      · obtain rfl := eq_of_id h.sound hx h.mem heq
        exact ⟨_, hself, checked_id.trans hid, (done_checked hsends).mpr (.inl hdone)⟩
      · exact ⟨x, hother x hx heq, hid, hdone⟩
    · obtain ⟨rfl, rfl, -⟩ := Action.acknowledged.inj (mem_singleton.mp hin)
      exact ⟨_, hself, checked_id, (done_checked hsends).mpr (.inr rfl)⟩
  · apply h.sound.ordered.snoc
    intro _ _ _ heq
    cases heq
  · rw [hloops, checked_id]
    exact h.free
  · rw [checked_status]
    exact h.status
  · rw [checkpoint_eq]
    apply respects_modify hsynced
    intro x _ _
    exact ⟨checked_id, fun _ => checked_status⟩

section

variable (h : Sound acts w)
include h

theorem Sound.dead : Sound acts w.dead :=
  { h with
    synced := fun halive => by cases halive
    idle := fun _ => ⟨rfl, rfl, rfl⟩
    composing := nodup_nil
    composes := fun c hc => by cases hc
    loops := nodup_nil
    runs := fun loop hloop => by cases hloop }

theorem Sound.started (hidle : w.alive = false) :
    Leads acts w [] { w with memory := w.file.recovered, file := w.file.recovered, alive := true } := by
  obtain ⟨_, _, hloops⟩ := h.idle hidle
  have hawake : Sound acts { w with memory := w.file, alive := true } := by
    refine { h with synced := fun _ => rfl, idle := ?_ }
    intro hdead
    cases hdead
  constructor
  · have hrecovered : w.file.recovered.deliveries = w.file.deliveries.map fun delivery =>
        if delivery.status = .sending then { delivery with status := .failed, error := restartError } else delivery := rfl
    rw [List.append_nil]
    apply hawake.edit rfl _ hrecovered
    · intro loop hloop
      change loop ∈ w.loops at hloop
      rw [hloops] at hloop
      cases hloop
    · intro x
      split
      · exact ⟨rfl, rfl, rfl, rfl, rfl⟩
      · exact Same.refl x
  · constructor
    · intro x hx hfinal
      refine ⟨x, mem_map.mpr ⟨x, hx, if_neg (fun hsending => ?_)⟩, rfl, rfl⟩
      rw [hsending] at hfinal
      cases hfinal
    · intro _ _ _ hmem
      cases hmem

theorem Sound.enabled (halive : w.alive = true) (hmemory : memory.deliveries = w.memory.deliveries) :
    Leads acts w [] (w.save memory) := by
  have hsame : memory.deliveries = w.file.deliveries := by
    rw [hmemory, h.synced halive]
  constructor
  · rw [List.append_nil]
    apply h.edit halive Same.refl
    · rw [hsame, map_id']
    · exact fun _ _ _ _ _ hstatus => ⟨hstatus, fun _ _ hsending => hsending⟩
  · change Respects w.file.deliveries memory.deliveries []
    rw [hsame]
    exact Respects.refl _

theorem Sound.disabled {sessionId : Option String} (halive : w.alive = true)
    (hmemory : memory.deliveries = w.memory.deliveries.map fun delivery =>
      if delivery.covered sessionId ∧ (delivery.status = .pending ∨ delivery.status = .sending) then
        { delivery with status := .cancelled }
      else delivery)
    (hcareful : ∀ loop ∈ w.loops, ∀ k, loop.phase = .reading k → ∀ d ∈ w.memory.deliveries, d.id = loop.delivery →
      d.covered sessionId = false) :
    Leads acts w [.disabled sessionId] (w.save memory) := by
  have hsynced := h.synced halive
  rw [hsynced] at hmemory hcareful
  have hcalm : Sound (acts ++ [.disabled sessionId]) w := h.calm (by simp) (by simp)
  constructor
  · apply hcalm.edit halive _ hmemory
    · intro loop hloop x hx hid hstatus
      split
      · rename_i hcovered
        refine ⟨.inr rfl, fun k hk _ => ?_⟩
        rw [hcareful loop hloop k hk x hx hid] at hcovered
        cases hcovered.1
      · exact ⟨hstatus, fun _ _ hsending => hsending⟩
    · intro x
      split
      · exact ⟨rfl, rfl, rfl, rfl, rfl⟩
      · exact Same.refl x
  · constructor
    · intro x hx hfinal
      change ∃ d' ∈ memory.deliveries, _
      rw [hmemory]
      refine ⟨x, mem_map.mpr ⟨x, hx, if_neg ?_⟩, rfl, rfl⟩
      rintro ⟨-, hstatus | hstatus⟩
      · rw [hstatus] at hfinal
        cases hfinal
      · rw [hstatus] at hfinal
        cases hfinal
    · intro _ _ _ hmem
      simp at hmem

theorem Sound.uncompose (hc : c ∈ w.composing) :
    Sound acts { w with composing := w.composing.erase c } ∧ (∀ other ∈ w.composing.erase c, other.id ≠ c.id) := by
  have hsub : ∀ other ∈ w.composing.erase c, other ∈ w.composing := fun other hother => mem_of_mem_erase hother
  constructor
  · refine { h with idle := fun hidle => ?_, composing := ?_, composes := fun other hother => h.composes other (hsub other hother) }
    · obtain ⟨-, hnone, -⟩ := h.idle hidle
      rw [hnone] at hc
      cases hc
    · exact h.composing.sublist (erase_sublist.map Composing.id)
  · intro _ hother heq
    have hnodup : w.composing.Nodup := h.composing.of_map Composing.id
    have hne := (List.Nodup.mem_erase_iff hnodup).mp hother
    exact hne.1 (inj_on_of_nodup_map h.composing hne.2 hc heq)

theorem Sound.pushed (halive : w.alive = true) (hnew : ∀ x ∈ w.file.deliveries, x.id ≠ d.id)
    (hcomposing : ∀ c ∈ w.composing, c.id ≠ d.id) (hnext : d.next = 0) (hfile : d.nextFile = 0) :
    Sound acts (w.pushed d) ∧ Respects w.file.deliveries (w.pushed d).file.deliveries [] ∧ d ∈ (w.pushed d).file.deliveries ∧
      ∀ loop ∈ w.loops, loop.delivery ≠ d.id := by
  have hdeliveries : (w.pushed d).file.deliveries = w.file.deliveries ++ [d] := by
    rw [← h.synced halive]
    rfl
  have hcases : ∀ x ∈ (w.pushed d).file.deliveries, x ∈ w.file.deliveries ∨ x = d := by
    intro x hx
    rw [hdeliveries] at hx
    simpa using hx
  have hold : ∀ x ∈ w.file.deliveries, x ∈ (w.pushed d).file.deliveries := by
    intro x hx
    rw [hdeliveries]
    exact mem_append_left _ hx
  refine ⟨⟨fun _ => rfl, fun hidle => ?_, ?_, ?_, h.composing, ?_, h.loops, ?_, ?_, ?_, h.ordered⟩, ⟨?_, ?_⟩, ?_, ?_⟩
  · change w.alive = false at hidle
    rw [halive] at hidle
    cases hidle
  · rw [hdeliveries, map_append]
    refine nodup_append.mpr ⟨h.ids, by simp, ?_⟩
    intro id hid _ hother heq
    obtain ⟨x, hx, rfl⟩ := mem_map.mp hid
    exact hnew x hx (heq.trans (by simpa using hother))
  · intro x hx
    rcases hcases x hx with hx | rfl
    · exact h.bounds x hx
    · rw [hnext, hfile]
      exact ⟨Nat.zero_le _, Nat.zero_le _, fun hpos => absurd hpos (Nat.lt_irrefl 0)⟩
  · intro c hc
    refine ⟨(h.composes c hc).1, fun x hx => ?_⟩
    rcases hcases x hx with hx | rfl
    · exact (h.composes c hc).2 x hx
    · exact Ne.symm (hcomposing c hc)
  · intro loop hloop
    obtain ⟨x, hx, hrest⟩ := h.runs loop hloop
    exact ⟨x, hold x hx, hrest⟩
  · intro x hx item hdone
    rcases hcases x hx with hx | rfl
    · exact h.done x hx item hdone
    · cases item with
      | part k =>
        change k < x.next at hdone
        omega
      | file k =>
        change k < x.nextFile at hdone
        omega
  · intro id item hmem
    obtain ⟨x, hx, hrest⟩ := h.acknowledged id item hmem
    exact ⟨x, hold x hx, hrest⟩
  · exact fun x hx _ => ⟨x, hold x hx, rfl, rfl⟩
  · intro _ _ _ hmem
    cases hmem
  · rw [hdeliveries]
    exact mem_append_right _ (mem_singleton.mpr rfl)
  · intro loop hloop heq
    obtain ⟨x, hx, hid, -⟩ := h.runs loop hloop
    exact hnew x hx (hid.trans heq)

theorem Sound.claimed (halive : w.alive = true) : Sound acts { w with running := id :: w.running } :=
  { h with
    idle := fun hidle => by
      change w.alive = false at hidle
      rw [halive] at hidle
      cases hidle
    composes := fun c hc => ⟨mem_cons_of_mem _ (h.composes c hc).1, (h.composes c hc).2⟩ }

theorem Sound.composes_new (halive : w.alive = true) (hrunning : c.id ∉ w.running)
    (hnew : ∀ x ∈ w.memory.deliveries, x.id ≠ c.id) :
    Sound acts { w with running := c.id :: w.running, composing := c :: w.composing } := by
  rw [h.synced halive] at hnew
  have hclaimed : Sound acts { w with running := c.id :: w.running } := h.claimed halive
  refine { h with idle := fun hidle => ?_, composing := ?_, composes := ?_ }
  · change w.alive = false at hidle
    rw [halive] at hidle
    cases hidle
  · refine nodup_cons.mpr ⟨fun hmem => ?_, h.composing⟩
    obtain ⟨other, hother, heq⟩ := mem_map.mp hmem
    exact hrunning (heq ▸ (h.composes other hother).1)
  · intro other hother
    rcases mem_cons.mp hother with rfl | hother
    · exact ⟨mem_cons_self, hnew⟩
    · exact hclaimed.composes other hother

theorem Sound.handed {transport : Option ℕ} : Sound acts { w with transport := transport } where
  synced := h.synced
  idle := h.idle
  ids := h.ids
  bounds := h.bounds
  composing := h.composing
  composes := h.composes
  loops := h.loops
  runs := h.runs
  done := h.done
  acknowledged := h.acknowledged
  ordered := h.ordered

end

end WorkAgent.Harness.Notifications
