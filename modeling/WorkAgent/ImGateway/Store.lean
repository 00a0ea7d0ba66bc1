import WorkAgent.Library.Table

namespace WorkAgent.ImGateway

open Library

inductive PairingStatus
  | pending
  | approved
  | rejected
  | revoked
  deriving DecidableEq

structure Peer where
  connectorID : String
  externalAccountID : String
  externalUserID : String
  deriving DecidableEq

structure Pairing where
  id : ℕ
  peer : Peer
  displayName : String
  targetSID : String
  status : PairingStatus
  createdAt : ℤ
  updatedAt : ℤ
  deriving DecidableEq

structure ConnectorConfig where
  publicConfig : String
  credentialRef : String
  deriving DecidableEq

structure StoredConnector where
  ownerSID : String
  id : String
  enabled : Bool
  config : ConnectorConfig
  deriving DecidableEq

def StoredConnector.key (connector : StoredConnector) : String × String := (connector.ownerSID, connector.id)

structure Sender where
  id : String
  displayName : String
  deriving DecidableEq

structure InboundMessage where
  connectorID : String
  externalAccountID : String
  externalConversationID : String
  externalMessageID : String
  sender : Sender
  text : String
  attachments : List String
  replyCorrelation : String
  receivedAt : Option ℤ
  deriving DecidableEq

structure MessageKey where
  connectorID : String
  externalAccountID : String
  externalMessageID : String
  deriving DecidableEq

structure ConversationKey where
  connectorID : String
  externalAccountID : String
  externalConversationID : String
  deriving DecidableEq

namespace InboundMessage

variable (message : InboundMessage)

def peer : Peer := ⟨message.connectorID, message.externalAccountID, message.sender.id⟩

def key : MessageKey := ⟨message.connectorID, message.externalAccountID, message.externalMessageID⟩

def conversation : ConversationKey := ⟨message.connectorID, message.externalAccountID, message.externalConversationID⟩

end InboundMessage

structure DeliveryReceipt where
  runtimeSessionID : String
  runtimeReceiptID : String
  replyText : String
  deriving DecidableEq

inductive ReceiptStatus
  | processing
  | delivered
  | failed
  deriving DecidableEq

structure Receipt where
  key : MessageKey
  status : ReceiptStatus
  attempts : ℕ
  runtimeSessionID : String
  runtimeReceiptID : String
  lastError : String
  createdAt : ℤ
  updatedAt : ℤ
  deriving DecidableEq

structure Mapping where
  conversation : ConversationKey
  targetSID : String
  runtimeSessionID : String
  updatedAt : ℤ
  deriving DecidableEq

structure Store where
  connectors : Table StoredConnector.key
  pairings : Table Pairing.peer
  sequence : ℕ
  mappings : Table Mapping.conversation
  receipts : Table Receipt.key

def Store.empty : Store := ⟨.empty, .empty, 0, .empty, .empty⟩

namespace Store

variable (s : Store)

def putConnector (connector : StoredConnector) : Except String Store :=
  if ¬ "S-1-".toList.isPrefixOf connector.ownerSID.toList ∨ connector.id = "" ∨ connector.config.publicConfig = "" ∨ connector.config.credentialRef = "" then
    .error "connector configuration is incomplete"
  else .ok { s with connectors := s.connectors.set connector }

/-- A configuration of an owner names an account; `extract` is what `json_extract` finds for the account. -/
def Names (extract : String → Option String) (ownerSID connectorID accountID : String) : Prop :=
  ∃ c ∈ s.connectors.rows, c.ownerSID = ownerSID ∧ c.id = connectorID ∧ extract c.config.publicConfig = some accountID

instance (extract : String → Option String) (ownerSID connectorID accountID : String) :
    Decidable (s.Names extract ownerSID connectorID accountID) :=
  inferInstanceAs (Decidable (∃ c ∈ s.connectors.rows, _))

def requestPairing (connectorID accountID : String) (sender : Sender) (now : ℤ) : Except String Store :=
  if connectorID = "" ∨ accountID = "" ∨ sender.id = "" ∨ sender.displayName = "" then .error "pairing identity is incomplete"
  else .ok { s with
    pairings := s.pairings.upsert
      ⟨s.sequence + 1, ⟨connectorID, accountID, sender.id⟩, sender.displayName, "", .pending, now, now⟩
      fun p => { p with
        displayName := sender.displayName
        status := if p.status = .rejected ∨ p.status = .revoked then .pending else p.status
        updatedAt := now }
    sequence := if s.pairings.find? ⟨connectorID, accountID, sender.id⟩ = none then s.sequence + 1 else s.sequence }

def setOwnerPairingStatus (extract : String → Option String) (ownerSID : String) (id : ℕ) (status : PairingStatus) (now : ℤ) : Store :=
  { s with
    pairings := s.pairings.update
      (fun p => p.id = id ∧ s.Names extract ownerSID p.peer.connectorID p.peer.externalAccountID)
      (fun p => { p with status := status, targetSID := if status = .approved then ownerSID else "", updatedAt := now }) fun _ => rfl }

def authorizedSID (peer : Peer) : Option String :=
  (s.pairings.rows.find? fun p => p.peer = peer && p.status = .approved).map Pairing.targetSID

def sessionMapping (message : InboundMessage) (targetSID : String) : String :=
  match s.mappings.rows.find? fun m => m.conversation = message.conversation && m.targetSID = targetSID with
  | none => ""
  | some m => m.runtimeSessionID

inductive Begun
  | begun (store : Store)
  | duplicate (receipt : Receipt)
  | inProgress

def beginReceipt (message : InboundMessage) (now : ℤ) : Begun :=
  match s.receipts.find? message.key with
  | some receipt =>
    match receipt.status with
    | .delivered => .duplicate receipt
    | .processing => .inProgress
    | .failed => .begun { s with
        receipts := s.receipts.update (fun r => r.key = message.key)
          (fun r => { r with status := .processing, attempts := r.attempts + 1, lastError := "", updatedAt := now }) fun _ => rfl }
  | none => .begun { s with receipts := s.receipts.insertOrIgnore ⟨message.key, .processing, 1, "", "", "", now, now⟩ }

def completeReceipt (message : InboundMessage) (targetSID : String) (receipt : DeliveryReceipt) (now : ℤ) : Except String Store :=
  if s.receipts.count (fun r => r.key = message.key ∧ r.status = .processing) ≠ 1 then .error "IM receipt is not processing"
  else .ok { s with
    receipts := s.receipts.update (fun r => r.key = message.key ∧ r.status = .processing)
      (fun r => { r with
        status := .delivered
        runtimeSessionID := receipt.runtimeSessionID
        runtimeReceiptID := receipt.runtimeReceiptID
        updatedAt := now }) fun _ => rfl
    mappings := s.mappings.set ⟨message.conversation, targetSID, receipt.runtimeSessionID, now⟩ }

def failReceipt (message : InboundMessage) (error : String) (now : ℤ) : Store :=
  { s with
    receipts := s.receipts.update (fun r => r.key = message.key ∧ r.status = .processing)
      (fun r => { r with status := .failed, lastError := error, updatedAt := now }) fun _ => rfl }

end Store

end WorkAgent.ImGateway
