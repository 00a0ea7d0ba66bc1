import WorkAgent.Collaboration.Handles
import WorkAgent.Library.Executions

namespace WorkAgent.SharedEvents

open Library
open Collaboration (Store MessageRow Mention NewMessage AIRun RunResult MessagesFrom)

inductive HubMessage
  | message (m : MessageRow)
  | refresh (userID : ℤ)
  deriving DecidableEq

def HubMessage.message? : HubMessage → Option MessageRow
  | .message m => some m
  | .refresh _ => none

inductive Mode
  | listing
  | writing (values : List MessageRow) (full : Bool)
  | live
  | over
  deriving DecidableEq

/-- An event stream; `sent` is what it has written and `isOpen` tells whether the hub has its channel. -/
structure Subscriber where
  userID : ℤ
  start : ℤ
  lastID : ℤ
  sent : List MessageRow
  mode : Mode
  channel : List HubMessage
  isOpen : Bool
  deriving DecidableEq

def number (m : MessageRow) : ℤ := m.seq

def pageSize : ℕ := 200

def channelSize : ℕ := 256

def listMessagesForUserAfter (db : Store) (userID after : ℤ) (limit : ℕ) : List MessageRow :=
  ((db.messages.rows.filter fun m => after < number m ∧ (db.visible m.conversationID userID).isSome).mergeSort
    (fun a b => number a ≤ number b)).take limit

inductive Handler
  | waiting
  | locked
  | added (m : MessageRow)
  | starting (m : MessageRow) (mentions : List Mention)
  | rejecting (m : MessageRow) (mentions : List Mention) (failure : MessageRow)
  | stopped (m : MessageRow)
  | running
  | finished (m : MessageRow)
  | done
  deriving DecidableEq

def Handler.unpublished : Handler → List MessageRow
  | .added m => [m]
  | .starting m _ => [m]
  | .rejecting m _ failure => [m, failure]
  | .stopped m => [m]
  | .finished m => [m]
  | _ => []

structure World where
  db : Store
  handlers : ℕ → Option Handler
  holder : Option ℕ
  subscribers : ℕ → Option Subscriber

def Subscriber.connected (userID start : ℤ) : Subscriber := ⟨userID, start, start, [], .listing, [], true⟩

def Subscriber.receive (s : Subscriber) (x : HubMessage) : Subscriber :=
  if s.isOpen = false then s
  else if s.channel.length < channelSize then { s with channel := s.channel ++ [x] }
  else { s with isOpen := false }

def Subscriber.page (s : Subscriber) (db : Store) : List MessageRow := listMessagesForUserAfter db s.userID s.lastID pageSize

def Subscriber.list (s : Subscriber) (db : Store) : Subscriber :=
  { s with mode := .writing (s.page db) ((s.page db).length = pageSize) }

def Subscriber.write (s : Subscriber) (m : MessageRow) : Subscriber := { s with lastID := number m, sent := s.sent ++ [m] }

def Subscriber.turn (s : Subscriber) (mode : Mode) : Subscriber := { s with mode := mode }

def Subscriber.pass (s : Subscriber) (rest : List HubMessage) : Subscriber := { s with channel := rest }

def Subscriber.leave (s : Subscriber) : Subscriber := { s with mode := .over, isOpen := false }

namespace World

variable (w : World)

def publish (x : HubMessage) : World := { w with subscribers := fun k => (w.subscribers k).map (·.receive x) }

def withDB (db : Store) : World := { w with db := db }

def handle (k : ℕ) (h : Handler) : World := { w with handlers := Function.update w.handlers k (some h) }

def lock (k : ℕ) : World := { w with holder := some k }

def unlock : World := { w with holder := none }

def subscriber (k : ℕ) (s : Subscriber) : World := { w with subscribers := Function.update w.subscribers k (some s) }

def connect (k : ℕ) (userID start : ℤ) : World := w.subscriber k (.connected userID start)

def Pending (m : MessageRow) : Prop := ∃ k h, w.handlers k = some h ∧ m ∈ h.unpublished

end World

structure Elsewhere (db db' : Store) : Prop where
  lastSeq : db'.lastSeq = db.lastSeq
  messages : ∀ m ∈ db'.messages, m ∈ db.messages

inductive Event
  | published (m : MessageRow)
  | abandoned (m : MessageRow)
  | other
  deriving DecidableEq

inductive Step (w : World) : Event → World → Prop
  | arrives {k : ℕ} (hnew : w.handlers k = none) : Step w .other (w.handle k .waiting)
  | locks {k : ℕ} (hk : w.handlers k = some .waiting) (hfree : w.holder = none) :
      Step w .other ((w.handle k .locked).lock k)
  | refused {k : ℕ} (hk : w.handlers k = some .locked) : Step w .other (w.handle k .done).unlock
  | adds {k : ℕ} {message : NewMessage} {userID stamp : ℤ} {m : MessageRow} {db : Store} (hk : w.handlers k = some .locked)
      (hdb : w.db.addMessage message userID stamp = .ok (m, db)) : Step w .other ((w.withDB db).handle k (.added m))
  | touches {k : ℕ} {m : MessageRow} {stamp : ℤ} {db : Store} (hk : w.handlers k = some (.added m))
      (hdb : w.db.touchConversation m.conversationID stamp = .ok ((), db)) :
      Step w .other ((w.withDB db).handle k (.starting m m.mentions))
  | abandons {k : ℕ} {m : MessageRow} (hk : w.handlers k = some (.added m)) : Step w (.abandoned m) (w.handle k .done).unlock
  /-- A mention of a member, or an assistant that is busy, not authorized or cannot be reserved. -/
  | skips {k : ℕ} {m : MessageRow} {mention : Mention} {rest : List Mention} (hk : w.handlers k = some (.starting m (mention :: rest))) :
      Step w .other (w.handle k (.starting m rest))
  | rejects {k : ℕ} {m failure : MessageRow} {mention : Mention} {rest : List Mention} {run : AIRun} {result : RunResult} {stamp : ℤ}
      {db : Store} (hk : w.handlers k = some (.starting m (mention :: rest))) (hmention : mention.kind = "assistant")
      (hresult : result.runErr ≠ none)
      (hdb : w.db.finishAIRun run result stamp = .ok (failure, db)) :
      Step w .other ((w.withDB db).handle k (.rejecting m rest failure))
  | publishesFailure {k : ℕ} {m failure : MessageRow} {rest : List Mention} (hk : w.handlers k = some (.rejecting m rest failure)) :
      Step w (.published failure) ((w.publish (.message failure)).handle k (.starting m rest))
  | starts {k j : ℕ} {m : MessageRow} {mention : Mention} {rest : List Mention} (hk : w.handlers k = some (.starting m (mention :: rest)))
      (hmention : mention.kind = "assistant") (hnew : w.handlers j = none) : Step w .other ((w.handle j .running).handle k (.starting m rest))
  | publishes {k : ℕ} {m : MessageRow} (hk : w.handlers k = some (.starting m [])) :
      Step w (.published m) ((w.publish (.message m)).handle k .done).unlock
  | stops {k : ℕ} {conversationID assistantID messageID : String} {userID stamp : ℤ} {run : AIRun} {m : MessageRow} {db : Store}
      (hk : w.handlers k = some .locked)
      (hdb : w.db.stopAssistantRun conversationID assistantID userID messageID stamp = .ok ((run, m), db)) :
      Step w .other ((w.withDB db).handle k (.stopped m))
  | publishesStop {k : ℕ} {m : MessageRow} (hk : w.handlers k = some (.stopped m)) :
      Step w (.published m) ((w.publish (.message m)).handle k .done).unlock
  | finishes {k : ℕ} {run : AIRun} {result : RunResult} {stamp : ℤ} {m : MessageRow} {db : Store} (hk : w.handlers k = some .running)
      (hdb : w.db.finishAIRun run result stamp = .ok (m, db)) : Step w .other ((w.withDB db).handle k (.finished m))
  | vanishes {k : ℕ} (hk : w.handlers k = some .running) : Step w .other (w.handle k .done)
  | publishesResult {k : ℕ} {m : MessageRow} (hk : w.handlers k = some (.finished m)) :
      Step w (.published m) ((w.publish (.message m)).handle k .done)
  | refreshes (userID : ℤ) : Step w .other (w.publish (.refresh userID))
  | elsewhere {db : Store} (hdb : Elsewhere w.db db) : Step w .other (w.withDB db)
  | connects {k : ℕ} (userID start : ℤ) (hnew : w.subscribers k = none) :
      Step w .other (w.connect k userID start)
  | lists {k : ℕ} {s : Subscriber} (hk : w.subscribers k = some s) (hmode : s.mode = .listing) :
      Step w .other (w.subscriber k (s.list w.db))
  | writes {k : ℕ} {s : Subscriber} {m : MessageRow} {values : List MessageRow} {full : Bool} (hk : w.subscribers k = some s)
      (hmode : s.mode = .writing (m :: values) full) : Step w .other (w.subscriber k ((s.write m).turn (.writing values full)))
  | turns {k : ℕ} {s : Subscriber} {full : Bool} (hk : w.subscribers k = some s) (hmode : s.mode = .writing [] full) :
      Step w .other (w.subscriber k (s.turn (if full then .listing else .live)))
  /-- A notice, a number that is not above the last or a conversation the user does not see. -/
  | passes {k : ℕ} {s : Subscriber} {x : HubMessage} {rest : List HubMessage} (hk : w.subscribers k = some s) (hmode : s.mode = .live)
      (hchannel : s.channel = x :: rest)
      (hx : ∀ m, x = .message m → number m ≤ s.lastID ∨ ∀ c, w.db.conversationForUser m.conversationID s.userID true ≠ .ok c) :
      Step w .other (w.subscriber k (s.pass rest))
  | takes {k : ℕ} {s : Subscriber} {m : MessageRow} {rest : List HubMessage} {c : Collaboration.Conversation} (hk : w.subscribers k = some s)
      (hmode : s.mode = .live) (hchannel : s.channel = .message m :: rest) (hm : s.lastID < number m)
      (hc : w.db.conversationForUser m.conversationID s.userID true = .ok c) :
      Step w .other (w.subscriber k ((s.write m).pass rest))
  /-- The client is gone, a query or a write failed, or the channel is closed and empty. -/
  | leaves {k : ℕ} {s : Subscriber} (hk : w.subscribers k = some s) : Step w .other (w.subscriber k s.leave)
  /-- The store of a restarted Portal also has the messages that tell of interrupted runs. -/
  | restarts {db : Store} (hdb : MessagesFrom w.db db) :
      Step w .other ⟨db, fun _ => none, none, fun k => (w.subscribers k).map Subscriber.leave⟩

end WorkAgent.SharedEvents
