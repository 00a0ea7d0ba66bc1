import WorkAgent.Library.Table
import WorkAgent.Library.Executions

namespace WorkAgent.Harness.Notifications

open Library

structure NotificationTarget where
  id : String
  label : String
  connected : Bool
  supportsFiles : Bool

inductive Scope
  | global
  | session
  | automation
  deriving DecidableEq

inductive Status
  | pending
  | sending
  | sent
  | failed
  | cancelled
  deriving DecidableEq

structure Settings where
  enabled : Bool
  targetId : String
  attachFiles : Bool

structure SessionSettings where
  sessionId : String
  enabled : Bool
  targetId : String

structure DeliveryFile where
  workspaceId : String
  path : String
  name : String
  deriving DecidableEq

structure Delivery where
  id : String
  title : String
  sessionId : String
  targetId : String
  targetLabel : String
  messages : List String
  next : ℕ
  status : Status
  error : String
  files : List DeliveryFile
  nextFile : ℕ
  scope : Scope
  deriving DecidableEq

structure Saved where
  settings : Settings
  lastTargetId : String
  deliveries : List Delivery
  mutedSessions : List String
  sessionSettings : Table SessionSettings.sessionId

def Saved.empty : Saved := ⟨⟨false, "", false⟩, "", [], [], .empty⟩

inductive Phase
  | accessing
  | sending (k : ℕ)
  | reading (k : ℕ)
  | sendingFile (k : ℕ)
  deriving DecidableEq

structure Loop where
  delivery : String
  guarded : Bool
  phase : Phase
  deriving DecidableEq

structure Composing where
  id : String
  sessionId : String
  title : String
  targetId : String
  attachFiles : Bool
  scope : Scope
  deriving DecidableEq

structure World where
  memory : Saved
  file : Saved
  alive : Bool
  transport : Option ℕ
  running : List String
  composing : List Composing
  loops : List Loop

def World.start : World := ⟨.empty, .empty, false, none, [], [], []⟩

inductive Item
  | part (k : ℕ)
  | file (k : ℕ)
  deriving DecidableEq

/-- `started` tells how many parts the delivery has, and `acknowledged` whether the acknowledgement
has reached its checkpoint. The notices are `disabled` for all or for one session. -/
inductive Action
  | started (id : String) (parts : ℕ) (item : Item)
  | acknowledged (id : String) (item : Item) (saved : Bool)
  | disabled (sessionId : Option String)
  deriving DecidableEq

structure View where
  targets : List NotificationTarget
  canSendFile : Bool

structure Completion where
  im : Bool
  sessionId : String
  turnId : String
  title : String
  notification : Option Settings

def sendError : String := "发送失败，请检查渠道连接、机器人主动发送权限及接收聊天后重试。"

def restartError : String := "运行环境重启，发送结果未确认，请检查聊天后重试。"

def shared (sessionId : String) : Bool := "collaboration:".toList.isPrefixOf sessionId.toList && 14 < sessionId.length

def Delivery.covered (delivery : Delivery) : Option String → Bool
  | none => delivery.scope = .global
  | some sessionId => delivery.sessionId = sessionId

namespace Saved

variable (saved : Saved)

def deliveryEnabled (sessionId : String) : Scope → Bool
  | .automation => true
  | .session => (saved.sessionSettings.find? sessionId).any (fun settings => settings.enabled)
  | .global => saved.settings.enabled && sessionId ∉ saved.mutedSessions

def modify (id : String) (f : Delivery → Delivery) : Saved :=
  { saved with deliveries := saved.deliveries.map fun delivery => if delivery.id = id then f delivery else delivery }

def cancel (sessionId : Option String) : Saved :=
  { saved with deliveries := saved.deliveries.map fun delivery =>
      if delivery.covered sessionId ∧ (delivery.status = .pending ∨ delivery.status = .sending) then
        { delivery with status := .cancelled }
      else delivery }

def configure (input : Settings) : Saved :=
  let set : Saved := { saved with
    settings := input
    lastTargetId := if input.targetId ≠ "" then input.targetId else saved.lastTargetId }
  if input.enabled then set else set.cancel none

def configureSession (sessionId : String) (enabled : Bool) (targetId : String) : Saved :=
  if enabled then
    let selectedTargetId := if targetId ≠ "" then targetId else saved.settings.targetId
    { saved with
      sessionSettings := saved.sessionSettings.set ⟨sessionId, true, selectedTargetId⟩
      lastTargetId := selectedTargetId
      mutedSessions := saved.mutedSessions.filter (· ≠ sessionId) }
  else
    { saved with
      sessionSettings := saved.sessionSettings.delete (fun settings => settings.sessionId = sessionId)
      mutedSessions := if sessionId ∈ saved.mutedSessions then saved.mutedSessions else saved.mutedSessions ++ [sessionId] }.cancel
        (some sessionId)

def recovered : Saved :=
  { saved with deliveries := saved.deliveries.map fun delivery =>
      if delivery.status = .sending then { delivery with status := .failed, error := restartError } else delivery }

def selected (completion : Completion) : Option (Settings × Scope) :=
  match completion.notification with
  | some notification => some (notification, .automation)
  | none =>
    match saved.sessionSettings.find? completion.sessionId with
    | some session =>
      if session.enabled then some (⟨true, session.targetId, saved.settings.attachFiles⟩, .session)
      else if completion.sessionId ∈ saved.mutedSessions then none
      else some (saved.settings, .global)
    | none => if completion.sessionId ∈ saved.mutedSessions then none else some (saved.settings, .global)

end Saved

def Completion.id (completion : Completion) : String := completion.sessionId ++ ":" ++ completion.turnId

namespace World

variable (w : World)

def deliveryEnabled (delivery : Delivery) : Bool := w.memory.deliveryEnabled delivery.sessionId delivery.scope

def stopped (delivery : Delivery) : Bool := ¬ w.deliveryEnabled delivery ∨ delivery.status = .cancelled

def save (memory : Saved) : World := { w with memory := memory, file := memory }

def modify (id : String) (f : Delivery → Delivery) : World := w.save (w.memory.modify id f)

def await (id : String) (guarded : Bool) (phase : Phase) : World := { w with loops := ⟨id, guarded, phase⟩ :: w.loops }

def leave (id : String) (guarded : Bool) : World :=
  if guarded then { w with running := w.running.filter (· ≠ id) } else w

def reaches (view : View) (p : NotificationTarget → Bool) : Bool := w.transport.isSome && view.targets.any p

def fail (id : String) (guarded : Bool) : World :=
  (w.modify id fun delivery =>
    if delivery.status = .cancelled then delivery else { delivery with status := .failed, error := sendError }).leave id guarded

def sendPart (delivery : Delivery) (guarded : Bool) (view : View) : World × List Action :=
  if w.stopped delivery then (w.leave delivery.id guarded, [])
  else if ¬ w.reaches view (fun target => target.id = delivery.targetId && target.connected) then (w.fail delivery.id guarded, [])
  else (w.await delivery.id guarded (.sending delivery.next),
    [.started delivery.id delivery.messages.length (.part delivery.next)])

def readFile (delivery : Delivery) (guarded : Bool) (view : View) : World :=
  if w.stopped delivery then w.leave delivery.id guarded
  else if ¬ view.canSendFile ∨
      ¬ w.reaches view (fun target => target.id = delivery.targetId && target.connected && target.supportsFiles) then
    w.fail delivery.id guarded
  else w.await delivery.id guarded (.reading delivery.nextFile)

def finish (delivery : Delivery) (guarded : Bool) : World :=
  (w.modify delivery.id fun d => if w.stopped delivery then d else { d with status := .sent }).leave delivery.id guarded

def proceed (delivery : Delivery) (guarded : Bool) (view : View) : World × List Action :=
  if delivery.next < delivery.messages.length then
    if shared delivery.sessionId then (w.await delivery.id guarded .accessing, []) else w.sendPart delivery guarded view
  else if delivery.nextFile < delivery.files.length then (w.readFile delivery guarded view, [])
  else (w.finish delivery guarded, [])

def began (delivery : Delivery) : Delivery := { delivery with status := .sending, error := "" }

def send (delivery : Delivery) (guarded : Bool) (view : View) : World × List Action :=
  if ¬ w.deliveryEnabled delivery then (w.leave delivery.id guarded, [])
  else (w.modify delivery.id began).proceed (began delivery) guarded view

def sendPending (view : View) : List String → World → World × List Action
  | [], w => (w, [])
  | id :: rest, w =>
    match w.memory.deliveries.find? (fun delivery => delivery.id = id) with
    | none => sendPending view rest w
    | some delivery =>
      if delivery.status = .pending then
        ((sendPending view rest (w.send delivery false view).1).1,
          (w.send delivery false view).2 ++ (sendPending view rest (w.send delivery false view).1).2)
      else sendPending view rest w

def drop (loop : Loop) : World := { w with loops := w.loops.erase loop }

def checkpoint (id : String) : Item → World
  | .part _ => w.modify id fun delivery => { delivery with next := delivery.next + 1 }
  | .file _ => w.modify id fun delivery => { delivery with nextFile := delivery.nextFile + 1 }

def dead : World :=
  { w with memory := .empty, alive := false, transport := none, running := [], composing := [], loops := [] }

def push (composing : Composing) (messages : List String) (files : List DeliveryFile) (view : View) : Delivery where
  id := composing.id
  title := composing.title
  sessionId := composing.sessionId
  targetId := composing.targetId
  targetLabel := (if w.transport.isSome then
    (view.targets.find? fun target => target.id = composing.targetId).map NotificationTarget.label else none).getD "原接收聊天"
  messages := messages
  next := 0
  status := .pending
  error := ""
  files := if composing.attachFiles then files else []
  nextFile := 0
  scope := composing.scope

def pushed (delivery : Delivery) : World := w.save { w.memory with deliveries := w.memory.deliveries ++ [delivery] }

end World

def Phase.item : Phase → Option Item
  | sending k => some (.part k)
  | sendingFile k => some (.file k)
  | _ => none

/-- The steps of the notifications, of one process after the other: stretches between two awaits. -/
inductive Step (publicBaseURL : String) (w : World) : List Action → World → Prop
  | configure (input : Settings) (view : View) (halive : w.alive = true)
      (henabled : input.enabled = true → publicBaseURL ≠ "" ∧
        w.reaches view (fun target => target.id = input.targetId && target.connected) = true ∧
        (input.attachFiles = true → w.reaches view (fun target => target.id = input.targetId && target.supportsFiles) = true)) :
      Step publicBaseURL w (if input.enabled then [] else [.disabled none]) (w.save (w.memory.configure input))
  | configureSession (sessionId targetId : String) (enabled : Bool) (view : View) (halive : w.alive = true)
      (henabled : enabled = true → publicBaseURL ≠ "" ∧ w.reaches view (fun target =>
        target.id = (if targetId ≠ "" then targetId else w.memory.settings.targetId) && target.connected) = true) :
      Step publicBaseURL w (if enabled then [] else [.disabled (some sessionId)])
        (w.save (w.memory.configureSession sessionId enabled targetId))
  | attach (transport : ℕ) (view : View) (halive : w.alive = true) :
      Step publicBaseURL w
        (World.sendPending view (w.memory.deliveries.map Delivery.id) { w with transport := some transport }).2
        (World.sendPending view (w.memory.deliveries.map Delivery.id) { w with transport := some transport }).1
  | attachDies (transport : ℕ) (view : View) (k : ℕ) (halive : w.alive = true) :
      Step publicBaseURL w
        (World.sendPending view ((w.memory.deliveries.map Delivery.id).take k) { w with transport := some transport }).2
        (World.sendPending view ((w.memory.deliveries.map Delivery.id).take k) { w with transport := some transport }).1.dead
  | detach (transport : ℕ) (halive : w.alive = true) (htransport : w.transport = some transport) :
      Step publicBaseURL w [] { w with transport := none }
  | complete (completion : Completion) (settings : Settings) (scope : Scope) (halive : w.alive = true)
      (hbase : publicBaseURL ≠ "") (him : completion.im = false) (hselected : w.memory.selected completion = some (settings, scope))
      (henabled : settings.enabled = true) (htarget : settings.targetId ≠ "")
      (hnew : ∀ delivery ∈ w.memory.deliveries, delivery.id ≠ completion.id) (hrunning : completion.id ∉ w.running) :
      Step publicBaseURL w [] { w with
        running := completion.id :: w.running
        composing := ⟨completion.id, completion.sessionId, completion.title, settings.targetId, settings.attachFiles, scope⟩ ::
          w.composing }
  | composeFails (composing : Composing) (hcomposing : composing ∈ w.composing) :
      Step publicBaseURL w [] ({ w with composing := w.composing.erase composing }.leave composing.id true)
  | composedLate (composing : Composing) (hcomposing : composing ∈ w.composing)
      (henabled : w.memory.deliveryEnabled composing.sessionId composing.scope = false) :
      Step publicBaseURL w [] ({ w with composing := w.composing.erase composing }.leave composing.id true)
  | composed (composing : Composing) (messages : List String) (files : List DeliveryFile) (view : View)
      (hcomposing : composing ∈ w.composing) (henabled : w.memory.deliveryEnabled composing.sessionId composing.scope = true) :
      Step publicBaseURL w
        (({ w with composing := w.composing.erase composing }.pushed (w.push composing messages files view)).send
          (w.push composing messages files view) true view).2
        (({ w with composing := w.composing.erase composing }.pushed (w.push composing messages files view)).send
          (w.push composing messages files view) true view).1
  | composedDies (composing : Composing) (messages : List String) (files : List DeliveryFile) (view : View)
      (hcomposing : composing ∈ w.composing) (henabled : w.memory.deliveryEnabled composing.sessionId composing.scope = true) :
      Step publicBaseURL w [] (w.pushed (w.push composing messages files view)).dead
  | retry (delivery : Delivery) (view : View) (halive : w.alive = true) (hdelivery : delivery ∈ w.memory.deliveries)
      (hfailed : delivery.status = .failed) (hrunning : delivery.id ∉ w.running) (henabled : w.deliveryEnabled delivery = true) :
      Step publicBaseURL w ({ w with running := delivery.id :: w.running }.send delivery true view).2
        ({ w with running := delivery.id :: w.running }.send delivery true view).1
  | accessed (loop : Loop) (delivery : Delivery) (view : View) (hloop : loop ∈ w.loops) (hphase : loop.phase = .accessing)
      (hdelivery : delivery ∈ w.memory.deliveries) (hid : delivery.id = loop.delivery) :
      Step publicBaseURL w ((w.drop loop).sendPart delivery loop.guarded view).2
        ((w.drop loop).sendPart delivery loop.guarded view).1
  | waitFails (loop : Loop) (hloop : loop ∈ w.loops) :
      Step publicBaseURL w [] ((w.drop loop).fail loop.delivery loop.guarded)
  | fileRead (loop : Loop) (k : ℕ) (delivery : Delivery) (hloop : loop ∈ w.loops) (hphase : loop.phase = .reading k)
      (htransport : w.transport.isSome = true) (hdelivery : delivery ∈ w.memory.deliveries) (hid : delivery.id = loop.delivery) :
      Step publicBaseURL w [.started loop.delivery delivery.messages.length (.file k)]
        ((w.drop loop).await loop.delivery loop.guarded (.sendingFile k))
  | acknowledged (loop : Loop) (item : Item) (delivery : Delivery) (view : View) (hloop : loop ∈ w.loops)
      (hitem : loop.phase.item = some item)
      (hdelivery : delivery ∈ ((w.drop loop).checkpoint loop.delivery item).memory.deliveries) (hid : delivery.id = loop.delivery) :
      Step publicBaseURL w
        (.acknowledged loop.delivery item true ::
          (((w.drop loop).checkpoint loop.delivery item).proceed delivery loop.guarded view).2)
        (((w.drop loop).checkpoint loop.delivery item).proceed delivery loop.guarded view).1
  | acknowledgedDies (loop : Loop) (item : Item) (hloop : loop ∈ w.loops) (hitem : loop.phase.item = some item) :
      Step publicBaseURL w [.acknowledged loop.delivery item false] w.dead
  | died (halive : w.alive = true) : Step publicBaseURL w [] w.dead
  | started (halive : w.alive = false) :
      Step publicBaseURL w [] { w with memory := w.file.recovered, file := w.file.recovered, alive := true }

end WorkAgent.Harness.Notifications
