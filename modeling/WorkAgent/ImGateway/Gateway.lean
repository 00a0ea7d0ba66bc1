import WorkAgent.ImGateway.Store
import WorkAgent.Library.Executions
import WorkAgent.Library.Text

namespace WorkAgent.ImGateway

open Library

def validateInbound (message : InboundMessage) : Except String Unit := do
  if blank message.connectorID || blank message.externalAccountID || blank message.externalConversationID ||
      blank message.externalMessageID || blank message.sender.id then
    throw "external message identity is incomplete"
  if blank message.text && message.attachments.isEmpty then
    throw "external message content is empty"
  if message.receivedAt = none then
    throw "external message received_at is required"

/-- The connectors that are registered, with their `ValidateConfig`, and what `json_extract` finds for
the account in a configuration. -/
structure Registry where
  has : String → Bool
  validateConfig : String → ConnectorConfig → Bool
  extract : String → Option String

/-- Where a call of `Receive` is, between two calls of the store, the runtime or the connector. -/
inductive Phase
  | received
  | unpaired
  | authorized (targetSID : String)
  | begun (targetSID : String)
  | mapped (targetSID sessionID : String)
  | sent (targetSID : String)
  | replying (targetSID : String) (receipt : DeliveryReceipt)
  | completing (targetSID : String) (receipt : DeliveryReceipt)
  | failing (error : String)
  deriving DecidableEq

def Phase.running : Phase → Bool
  | received | unpaired | authorized _ => false
  | _ => true

structure Call where
  id : ℕ
  message : InboundMessage
  phase : Phase
  deriving DecidableEq

structure World where
  store : Store
  calls : Table Call.id
  drawn : ℕ

def World.start : World := ⟨.empty, .empty, 0⟩

inductive Request
  | store (id : String) (config : ConnectorConfig) (enabled : Bool)
  | enable (id : String) (enabled : Bool)
  | test (id : String)
  | approve (id : ℕ)
  | reject (id : ℕ)
  | revoke (id : ℕ)

/-- A call has `read` the pairings, or `sent` its message to the runtime of an employee. A receipt is
`abandoned` where the call that opened it is over and has left it open. -/
inductive Action
  | administered (ownerSID : String) (request : Request)
  | read (id : ℕ) (message : InboundMessage) (store : Store)
  | sent (id : ℕ) (message : InboundMessage) (targetSID : String)
  | delivered (key : MessageKey)
  | abandoned (key : MessageKey)

def Request.pairing : Request → Option ℕ
  | approve id | reject id | revoke id => some id
  | _ => none

namespace Store

variable (registry : Registry) (s : Store)

def administer (ownerSID : String) (request : Request) (now : ℤ) : Store :=
  match request with
  | .store id config enabled =>
    if ¬ registry.has id ∨ ¬ registry.validateConfig id config then s
    else match s.putConnector ⟨ownerSID, id, enabled, config⟩ with
      | .ok t => t
      | .error _ => s
  | .enable id enabled =>
    match s.connectors.find? (ownerSID, id) with
    | none => s
    | some connector =>
      match s.putConnector { connector with enabled := enabled } with
      | .ok t => t
      | .error _ => s
  | .test _ => s
  | .approve id => s.setOwnerPairingStatus registry.extract ownerSID id .approved now
  | .reject id => s.setOwnerPairingStatus registry.extract ownerSID id .rejected now
  | .revoke id => s.setOwnerPairingStatus registry.extract ownerSID id .revoked now

end Store

namespace World

variable (w : World)

def setStore (store : Store) : World := { w with store := store }

def enter (call : Call) (phase : Phase) : World := { w with calls := w.calls.set { call with phase := phase } }

def ret (call : Call) : World := { w with calls := w.calls.delete fun c => c.id = call.id }

end World

def DeliveryReceipt.next (receipt : DeliveryReceipt) (targetSID : String) : Phase :=
  if receipt.runtimeSessionID = "" ∨ receipt.runtimeReceiptID = "" then .failing "runtime returned an incomplete delivery receipt"
  else if blank receipt.replyText then .completing targetSID receipt
  else .replying targetSID receipt

/-- The steps of the gateway: a request of an employee, or a call of `Receive` up to its next call of
the store, the runtime or the connector. -/
inductive Step (registry : Registry) (w : World) : List Action → World → Prop
  | administers (ownerSID : String) (request : Request) (now : ℤ) :
      Step registry w [.administered ownerSID request] (w.setStore (w.store.administer registry ownerSID request now))
  | receives (message : InboundMessage) (hvalid : validateInbound message = .ok ()) (hhas : registry.has message.connectorID = true) :
      Step registry w [] { w with calls := w.calls.insertOrIgnore ⟨w.drawn, message, .received⟩, drawn := w.drawn + 1 }
  | authorizes (call : Call) (targetSID : String) (hcall : call ∈ w.calls) (hphase : call.phase = .received)
      (hauthorized : w.store.authorizedSID call.message.peer = some targetSID) :
      Step registry w [.read call.id call.message w.store] (w.enter call (.authorized targetSID))
  | refuses (call : Call) (hcall : call ∈ w.calls) (hphase : call.phase = .received)
      (hauthorized : w.store.authorizedSID call.message.peer = none) :
      Step registry w [.read call.id call.message w.store] (w.enter call .unpaired)
  | fails (call : Call) (hcall : call ∈ w.calls) (hphase : call.phase.running = false) : Step registry w [] (w.ret call)
  | requests (call : Call) (now : ℤ) (store : Store) (hcall : call ∈ w.calls) (hphase : call.phase = .unpaired)
      (hstore : w.store.requestPairing call.message.connectorID call.message.externalAccountID call.message.sender now = .ok store) :
      Step registry w [] ((w.setStore store).ret call)
  | begins (call : Call) (targetSID : String) (now : ℤ) (store : Store) (hcall : call ∈ w.calls)
      (hphase : call.phase = .authorized targetSID) (hstore : w.store.beginReceipt call.message now = .begun store) :
      Step registry w [] ((w.setStore store).enter call (.begun targetSID))
  | maps (call : Call) (targetSID : String) (hcall : call ∈ w.calls) (hphase : call.phase = .begun targetSID) :
      Step registry w [] (w.enter call (.mapped targetSID (w.store.sessionMapping call.message targetSID)))
  | mapFails (call : Call) (targetSID error : String) (hcall : call ∈ w.calls) (hphase : call.phase = .begun targetSID) :
      Step registry w [] (w.enter call (.failing error))
  | sends (call : Call) (targetSID sessionID : String) (hcall : call ∈ w.calls) (hphase : call.phase = .mapped targetSID sessionID) :
      Step registry w [.sent call.id call.message targetSID] (w.enter call (.sent targetSID))
  | sendFails (call : Call) (targetSID error : String) (hcall : call ∈ w.calls) (hphase : call.phase = .sent targetSID) :
      Step registry w [] (w.enter call (.failing error))
  | answers (call : Call) (targetSID : String) (receipt : DeliveryReceipt) (hcall : call ∈ w.calls)
      (hphase : call.phase = .sent targetSID) : Step registry w [] (w.enter call (receipt.next targetSID))
  | replies (call : Call) (targetSID : String) (receipt : DeliveryReceipt) (hcall : call ∈ w.calls)
      (hphase : call.phase = .replying targetSID receipt) : Step registry w [] (w.enter call (.completing targetSID receipt))
  | replyFails (call : Call) (targetSID error : String) (receipt : DeliveryReceipt) (hcall : call ∈ w.calls)
      (hphase : call.phase = .replying targetSID receipt) : Step registry w [] (w.enter call (.failing error))
  | completes (call : Call) (targetSID : String) (receipt : DeliveryReceipt) (now : ℤ) (store : Store) (hcall : call ∈ w.calls)
      (hphase : call.phase = .completing targetSID receipt)
      (hstore : w.store.completeReceipt call.message targetSID receipt now = .ok store) :
      Step registry w [.delivered call.message.key] ((w.setStore store).ret call)
  | completeFails (call : Call) (targetSID : String) (receipt : DeliveryReceipt) (hcall : call ∈ w.calls)
      (hphase : call.phase = .completing targetSID receipt) : Step registry w [.abandoned call.message.key] (w.ret call)
  | settles (call : Call) (error : String) (now : ℤ) (hcall : call ∈ w.calls) (hphase : call.phase = .failing error) :
      Step registry w [] ((w.setStore (w.store.failReceipt call.message error now)).ret call)
  | settleFails (call : Call) (error : String) (hcall : call ∈ w.calls) (hphase : call.phase = .failing error) :
      Step registry w [.abandoned call.message.key] (w.ret call)
  | restarts : Step registry w ((w.calls.rows.filter fun call => call.phase.running).map fun call => .abandoned call.message.key)
      { w with calls := .empty }

end WorkAgent.ImGateway
