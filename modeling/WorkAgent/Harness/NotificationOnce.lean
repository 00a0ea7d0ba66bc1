import WorkAgent.Harness.NotificationRuns

namespace WorkAgent.Harness.Notifications

open Library List

variable {w t : World} {acts more : List Action} {runs : List (List Action)} {publicBaseURL : String}

def Careful (w : World) (acts : List Action) : Prop :=
  ∀ sessionId, .disabled sessionId ∈ acts → ∀ loop ∈ w.loops, ∀ k, loop.phase = .reading k →
    ∀ d ∈ w.memory.deliveries, d.id = loop.delivery → d.covered sessionId = false

def CarefulStep (publicBaseURL : String) (w : World) (acts : List Action) (t : World) : Prop :=
  Step publicBaseURL w acts t ∧ Careful w acts

theorem Goes.leads {v : World} {r : World × List Action} (h : Goes acts v r) (hfile : v.file = w.file) : Leads acts w r.2 r.1 :=
  ⟨h.sound, hfile ▸ h.respects⟩

section

variable (h : Sound acts w)
include h

theorem Sound.nil : Sound (acts ++ []) w := by
  rw [append_nil]
  exact h

theorem Sound.configure {input : Settings} (halive : w.alive = true)
    (hcareful : Careful w (if input.enabled then [] else [.disabled none])) :
    Leads acts w (if input.enabled then [] else [.disabled none]) (w.save (w.memory.configure input)) := by
  by_cases henabled : input.enabled = true
  · simp only [if_pos henabled]
    have hsame : (w.memory.configure input).deliveries = w.memory.deliveries := by
      simp [Saved.configure, henabled]
    exact h.enabled halive hsame
  · simp only [if_neg henabled] at hcareful ⊢
    apply h.disabled halive
    · simp [Saved.configure, henabled, Saved.cancel]
    · exact hcareful none (mem_singleton.mpr rfl)

theorem Sound.configureSession {sessionId targetId : String} {enabled : Bool} (halive : w.alive = true)
    (hcareful : Careful w (if enabled then [] else [.disabled (some sessionId)])) :
    Leads acts w (if enabled then [] else [.disabled (some sessionId)])
      (w.save (w.memory.configureSession sessionId enabled targetId)) := by
  by_cases henabled : enabled = true
  · simp only [if_pos henabled]
    have hsame : (w.memory.configureSession sessionId enabled targetId).deliveries = w.memory.deliveries := by
      simp [Saved.configureSession, henabled]
    exact h.enabled halive hsame
  · simp only [if_neg henabled] at hcareful ⊢
    apply h.disabled halive
    · simp [Saved.configureSession, henabled, Saved.cancel]
    · exact hcareful (some sessionId) (mem_singleton.mpr rfl)

theorem Sound.leaves {c : Composing} (hc : c ∈ w.composing) :
    Leads acts w [] ({ w with composing := w.composing.erase c }.leave c.id true) := by
  obtain ⟨hsound, hother⟩ := h.uncompose hc
  constructor
  · exact (hsound.leave hother).nil
  · rw [leave_file]
    exact Respects.refl _

section

variable {c : Composing} {messages : List String} {files : List DeliveryFile} {view : View} (hc : c ∈ w.composing)
include hc

theorem Sound.composed : Goes acts w (({ w with composing := w.composing.erase c }.pushed (w.push c messages files view)).send
      (w.push c messages files view) true view) := by
  have halive := h.alive_of_composing hc
  obtain ⟨hsound, hother⟩ := h.uncompose hc
  obtain ⟨hpushed, hrespects, hmem, hfree⟩ :=
    hsound.pushed (d := w.push c messages files view) halive (h.composes c hc).2 hother rfl rfl
  have hpush : Goes acts w ({ w with composing := w.composing.erase c }.pushed (w.push c messages files view), []) :=
    ⟨hpushed.nil, halive, hrespects⟩
  exact hpush.trans (hpushed.nil.send halive hmem hfree rfl)

theorem Sound.composedDies : Leads acts w [] (w.pushed (w.push c messages files view)).dead := by
  have halive := h.alive_of_composing hc
  obtain ⟨hsound, hother⟩ := h.uncompose hc
  obtain ⟨hpushed, hrespects, -, -⟩ :=
    hsound.pushed (d := w.push c messages files view) halive (h.composes c hc).2 hother rfl rfl
  exact ⟨hpushed.dead.nil, hrespects⟩

end

theorem Sound.fileRead {loop : Loop} {k : ℕ} {d : Delivery} (hloop : loop ∈ w.loops)
    (hphase : loop.phase = .reading k) (hd : d ∈ w.file.deliveries) (hid : d.id = loop.delivery) :
    Leads acts w [.started loop.delivery d.messages.length (.file k)]
      ((w.drop loop).await loop.delivery loop.guarded (.sendingFile k)) := by
  obtain ⟨hready, hfits⟩ := h.ready hloop hd hid
  rw [hphase] at hfits
  obtain ⟨hsends, hsending⟩ := hfits
  rw [← hid]
  constructor
  · exact (hready.sound.start hd hsends).await hready.alive hd hready.free hready.status hsends
  · refine ⟨(Respects.refl _).kept, fun id parts item hmem x hx hxid => ?_⟩
    obtain ⟨rfl, -, -⟩ := Action.started.inj (mem_singleton.mp hmem)
    rw [eq_of_id h hx hd hxid, hsending]
    rfl

end

theorem Phase.Fits.sends {phase : Phase} {d : Delivery} {item : Item} (h : phase.Fits d) (hitem : phase.item = some item) :
    d.Sends item := by
  cases phase with
  | accessing | reading => cases hitem
  | sending | sendingFile =>
    cases hitem
    exact h

theorem Sound.acknowledges {loop : Loop} {item : Item} {d : Delivery} {view : View} (h : Sound acts w) (hloop : loop ∈ w.loops)
    (hitem : loop.phase.item = some item)
    (hd : d ∈ ((w.drop loop).checkpoint loop.delivery item).memory.deliveries) (hid : d.id = loop.delivery) :
    Leads acts w
      (.acknowledged loop.delivery item true :: (((w.drop loop).checkpoint loop.delivery item).proceed d loop.guarded view).2)
      (((w.drop loop).checkpoint loop.delivery item).proceed d loop.guarded view).1 := by
  obtain ⟨x, hx, hxid, -⟩ := h.runs loop hloop
  obtain ⟨hready, hfits⟩ := h.ready hloop hx hxid
  obtain ⟨hchecked, hrespects⟩ := hready.checkpoint (hfits.sends hitem)
  rw [hxid] at hchecked hrespects
  have hsame : d = x.checked item := by
    apply eq_of_id hchecked.sound _ hchecked.mem
    · rw [hid, checked_id, hxid]
    · rw [← hchecked.sound.synced hchecked.alive]
      exact hd
  subst hsame
  have hgoes : Goes (acts ++ [.acknowledged loop.delivery item true]) ((w.drop loop).checkpoint loop.delivery item)
      (((w.drop loop).checkpoint loop.delivery item).proceed (x.checked item) loop.guarded view) := hchecked.proceed
  constructor
  · rw [append_cons]
    exact hgoes.sound
  · have hquiet : Respects w.file.deliveries ((w.drop loop).checkpoint loop.delivery item).file.deliveries
        [.acknowledged loop.delivery item true] := ⟨hrespects.kept, fun _ _ _ hmem => by simp at hmem⟩
    exact hquiet.trans hgoes.respects

theorem Sound.step (h : Sound acts w) (hstep : CarefulStep publicBaseURL w more t) : Leads acts w more t := by
  obtain ⟨hstep, hcareful⟩ := hstep
  cases hstep with
  | configure _ _ halive => exact h.configure halive hcareful
  | configureSession _ _ _ _ halive => exact h.configureSession halive hcareful
  | attach transport view halive =>
    have hhanded : Sound acts { w with transport := some transport } := h.handed
    have hgoes : Goes acts { w with transport := some transport } (World.sendPending view (w.memory.deliveries.map Delivery.id) _) :=
      hhanded.sendPending halive _
    exact hgoes.leads rfl
  | attachDies transport view k halive =>
    have hhanded : Sound acts { w with transport := some transport } := h.handed
    have hgoes : Goes acts { w with transport := some transport }
        (World.sendPending view ((w.memory.deliveries.map Delivery.id).take k) _) := hhanded.sendPending halive _
    exact ⟨hgoes.sound.dead, hgoes.respects⟩
  | detach => exact ⟨h.handed.nil, Respects.refl _⟩
  | complete completion settings scope halive _ _ _ _ _ hnew hrunning =>
    have hcomposes := h.composes_new
      (c := ⟨completion.id, completion.sessionId, completion.title, settings.targetId, settings.attachFiles, scope⟩)
      halive hrunning hnew
    exact ⟨hcomposes.nil, Respects.refl _⟩
  | composeFails _ hc | composedLate _ hc => exact h.leaves hc
  | composed _ _ _ _ hc => exact (h.composed hc).leads rfl
  | composedDies _ _ _ _ hc => exact h.composedDies hc
  | retry _ _ halive hd hfailed =>
    rw [h.synced halive] at hd
    have hfree := h.free_of_status hd (.inr hfailed)
    exact ((h.claimed halive).send halive hd hfree (by rw [hfailed]; rfl)).leads rfl
  | accessed _ _ _ hloop hphase hd hid =>
    rw [h.synced (h.alive_of_loop hloop)] at hd
    obtain ⟨hready, hfits⟩ := h.ready hloop hd hid
    rw [hphase] at hfits
    exact (hready.sendPart hfits).leads rfl
  | waitFails loop hloop =>
    obtain ⟨d, hd, hid, -⟩ := h.runs loop hloop
    obtain ⟨hready, -⟩ := h.ready hloop hd hid
    rw [← hid]
    exact hready.fail.leads rfl
  | fileRead _ _ _ hloop hphase _ hd hid =>
    rw [h.synced (h.alive_of_loop hloop)] at hd
    exact h.fileRead hloop hphase hd hid
  | acknowledged _ _ _ _ hloop hitem hd hid => exact h.acknowledges hloop hitem hd hid
  | acknowledgedDies loop item =>
    have hcalm : Sound (acts ++ [.acknowledged loop.delivery item false]) w := h.calm (by simp) (by simp)
    exact ⟨hcalm.dead, (Respects.refl _).kept, fun _ _ _ hmem => by simp at hmem⟩
  | died => exact ⟨h.dead.nil, Respects.refl _⟩
  | started hidle => exact h.started hidle

theorem sound_start : Sound [] .start where
  synced := fun _ => rfl
  idle := fun _ => ⟨rfl, rfl, rfl⟩
  ids := nodup_nil
  bounds := fun d hd => by cases hd
  composing := nodup_nil
  composes := fun c hc => by cases hc
  loops := nodup_nil
  runs := fun loop hloop => by cases hloop
  done := fun d hd => by cases hd
  acknowledged := fun _ _ hmem => by cases hmem
  ordered := by
    intro before _ _ _ _ heq
    cases before <;> cases heq

theorem Sound.run (h : Sound acts w) (hrun : Execution (CarefulStep publicBaseURL) w runs t) : Leads acts w runs.flatten t := by
  induction hrun with
  | start => exact ⟨h.nil, Respects.refl _⟩
  | step _ hlast ih =>
    obtain ⟨hsound, hrespects⟩ := ih
    obtain ⟨hsound', hrespects'⟩ := hsound.step hlast
    rw [append_assoc] at hsound'
    rw [flatten_append, flatten_singleton]
    exact ⟨hsound', hrespects.trans hrespects'⟩

structure DeliveredOnce (S : World → List Action → World → Prop) (runs : List (List Action)) (w : World) : Prop where
  inFlight : ∀ id, w.loops.countP (fun loop => loop.delivery = id && loop.phase.item.isSome) ≤ 1
  ordered : Ordered runs.flatten
  ids : (w.file.deliveries.map Delivery.id).Nodup
  saved : w.alive = true → w.memory = w.file
  final : ∀ more t, Execution S w more t → ∀ d ∈ w.file.deliveries, d.status.final = true →
    (∃ d' ∈ t.file.deliveries, d'.id = d.id ∧ d'.status = d.status) ∧ ∀ parts item, .started d.id parts item ∉ more.flatten

theorem countP_le_one_of_nodup {loops : List Loop} {p : Loop → Bool} (h : (loops.map Loop.delivery).Nodup) (id : String) :
    loops.countP (fun loop => loop.delivery = id && p loop) ≤ 1 := by
  have hcount : loops.countP (fun loop => loop.delivery = id && p loop) ≤ loops.countP (fun loop => loop.delivery = id) := by
    apply countP_mono_left
    intro _ _ hloop
    exact (Bool.and_eq_true_iff.mp hloop).1
  apply Nat.le_trans hcount
  have hone := nodup_iff_count_le_one.mp h id
  rw [List.count, countP_map] at hone
  exact hone

/-- In every run of careful steps the notices are delivered one part after the other, and no part
again that is acknowledged and saved. -/
theorem notices_delivered_once (publicBaseURL : String) (runs : List (List Action)) (w : World)
    (h : Execution (CarefulStep publicBaseURL) .start runs w) : DeliveredOnce (CarefulStep publicBaseURL) runs w := by
  obtain ⟨hsound, -⟩ := sound_start.run h
  rw [nil_append] at hsound
  refine ⟨fun id => countP_le_one_of_nodup hsound.loops id, hsound.ordered, hsound.ids, hsound.synced, ?_⟩
  intro _ t hmore d hd hfinal
  obtain ⟨-, hrespects⟩ := hsound.run hmore
  refine ⟨hrespects.kept d hd hfinal, fun parts item hmem => ?_⟩
  rw [hrespects.quiet d.id parts item hmem d hd rfl] at hfinal
  cases hfinal

namespace ReportExample

def base : String := "https://host"

def view : View := ⟨[⟨"chat", "Chat", true, true⟩], true⟩

def settings (enabled : Bool) : Settings := ⟨enabled, "chat", true⟩

def completion : Completion := ⟨false, "session", "turn", "Report", none⟩

def composing : Composing := ⟨completion.id, "session", "Report", "chat", true, .global⟩

def awake : World := { World.start with
  memory := World.start.file.recovered, file := World.start.file.recovered, alive := true }

def attached : World := (World.sendPending view (awake.memory.deliveries.map Delivery.id) { awake with transport := some 0 }).1

def enabled : World := attached.save (attached.memory.configure (settings true))

def waiting : World := { enabled with running := completion.id :: enabled.running, composing := composing :: enabled.composing }

def report : Delivery := waiting.push composing ["Done"] [⟨"workspace", "report.md", "report.md"⟩] view

def sending : World := (({ waiting with composing := waiting.composing.erase composing }.pushed report).send report true view).1

def partLoop : Loop := ⟨completion.id, true, .sending 0⟩

def acknowledged : World := (sending.drop partLoop).checkpoint partLoop.delivery (.part 0)

def reading : World := (acknowledged.proceed ((World.began report).checked (.part 0)) partLoop.guarded view).1

def readLoop : Loop := ⟨completion.id, true, .reading 0⟩

def readingRuns : List (List Action) :=
  [[], [], [], [], [.started completion.id 1 (.part 0)], [.acknowledged completion.id (.part 0) true]]

theorem careful_of_calm {w : World} {acts : List Action} (h : ∀ sessionId, .disabled sessionId ∉ acts) : Careful w acts :=
  fun sessionId hmem => absurd hmem (h sessionId)

theorem sent_part : (({ waiting with composing := waiting.composing.erase composing }.pushed report).send report true view).2 =
    [.started completion.id 1 (.part 0)] := by
  decide

theorem acknowledges (w : World) (loop : Loop) (item : Item) (d : Delivery) (hloop : loop ∈ w.loops)
    (hitem : loop.phase.item = some item)
    (hdelivery : d ∈ ((w.drop loop).checkpoint loop.delivery item).memory.deliveries) (hid : d.id = loop.delivery)
    (hlast : (((w.drop loop).checkpoint loop.delivery item).proceed d loop.guarded view).2 = []) :
    CarefulStep base w [.acknowledged loop.delivery item true]
      (((w.drop loop).checkpoint loop.delivery item).proceed d loop.guarded view).1 := by
  refine ⟨?_, careful_of_calm (by simp)⟩
  rw [← hlast]
  exact .acknowledged loop item d view hloop hitem hdelivery hid

theorem report_reading : Execution (CarefulStep base) .start readingRuns reading := by
  have h : Execution (CarefulStep base) .start [[]] awake := .single ⟨.started rfl, careful_of_calm (by simp)⟩
  have h : Execution (CarefulStep base) .start [[], []] attached :=
    h.step ⟨.attach 0 view rfl, careful_of_calm (by simp)⟩
  have h : Execution (CarefulStep base) .start [[], [], []] enabled :=
    h.step ⟨.configure (settings true) view rfl (by decide), careful_of_calm (by simp)⟩
  have h : Execution (CarefulStep base) .start [[], [], [], []] waiting :=
    h.step ⟨.complete completion (settings true) .global rfl (by decide) rfl rfl rfl (by decide)
      (by decide) (by decide), careful_of_calm (by simp)⟩
  have h : Execution (CarefulStep base) .start [[], [], [], [], [.started completion.id 1 (.part 0)]] sending := by
    rw [← sent_part]
    refine h.step ⟨.composed composing ["Done"] [⟨"workspace", "report.md", "report.md"⟩] view (by decide)
      (by decide), careful_of_calm ?_⟩
    rw [sent_part]
    simp
  exact h.step (acknowledges sending partLoop (.part 0) ((World.began report).checked (.part 0)) (by decide) rfl (by decide) rfl (by decide))

def sendingFile : World := (reading.drop readLoop).await completion.id true (.sendingFile 0)

def fileLoop : Loop := ⟨completion.id, true, .sendingFile 0⟩

def sentFile : World := (sendingFile.drop fileLoop).checkpoint fileLoop.delivery (.file 0)

def sent : World := (sentFile.proceed (((World.began report).checked (.part 0)).checked (.file 0)) fileLoop.guarded view).1

theorem report_sent : Execution (CarefulStep base) .start
    (readingRuns ++ [[.started completion.id 1 (.file 0)]] ++ [[.acknowledged completion.id (.file 0) true]]) sent := by
  have h : Execution (CarefulStep base) .start (readingRuns ++ [[.started completion.id 1 (.file 0)]]) sendingFile :=
    report_reading.step ⟨.fileRead readLoop 0 ((World.began report).checked (.part 0)) (by decide) rfl rfl
      (by decide) rfl, careful_of_calm (by simp)⟩
  exact h.step (acknowledges sendingFile fileLoop (.file 0) (((World.began report).checked (.part 0)).checked (.file 0))
    (by decide) rfl (by decide) rfl (by decide))

theorem report_delivered_once : DeliveredOnce (CarefulStep base)
    (readingRuns ++ [[.started completion.id 1 (.file 0)]] ++ [[.acknowledged completion.id (.file 0) true]]) sent :=
  notices_delivered_once base _ sent report_sent

def disabled : World := reading.save (reading.memory.configure (settings false))

theorem cancelled_file_sent : ¬ ∀ publicBaseURL runs w, Execution (Step publicBaseURL) .start runs w →
    DeliveredOnce (Step publicBaseURL) runs w := by
  intro hall
  have h : Execution (Step base) .start readingRuns reading := report_reading.mono (fun _ _ _ h => h.1)
  have h : Execution (Step base) .start (readingRuns ++ [[.disabled none]]) disabled :=
    h.step (.configure (settings false) view rfl (by intro henabled; cases henabled))
  have hsent : Execution (Step base) disabled [[.started completion.id 1 (.file 0)]]
      ((disabled.drop readLoop).await completion.id true (.sendingFile 0)) :=
    .single (.fileRead readLoop 0 { (World.began report).checked (.part 0) with status := .cancelled } (by decide) rfl rfl
      (by decide) rfl)
  obtain ⟨-, hquiet⟩ := (hall base _ _ h).final _ _ hsent { (World.began report).checked (.part 0) with status := .cancelled }
    (by decide) rfl
  exact hquiet 1 (.file 0) (mem_singleton.mpr rfl)

end ReportExample

end WorkAgent.Harness.Notifications
