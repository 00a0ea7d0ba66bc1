import Mathlib.Data.Finset.Insert
import WorkAgent.Library.Table

namespace WorkAgent.McpOAuth

open Library

inductive Kind
  | codexNative
  | kimiNative
  | provider
  | mcpHeader
  | mcpEnv
  | mcpOAuth
  deriving DecidableEq

inductive State
  | ready
  | needsAuth
  | expired
  | revoked
  deriving DecidableEq

structure OAuthToken where
  accessToken : String
  refreshToken : String
  tokenType : String
  expiresAt : Option ℤ
  tokenEndpoint : String
  revocationEndpoint : String
  clientID : String
  resource : String

/-- A row of `credentials`; `secret` is the sealed grant, if it is one and has not been wiped. -/
structure Credential where
  kind : Kind
  secret : Option OAuthToken
  state : State
  expiresAt : Option ℤ

inductive TransportKind
  | stdio
  | http
  | sse
  deriving DecidableEq

/-- `authorization` is `HeaderCredentialIDs["Authorization"]`; `rest` are the other fields. -/
structure Transport where
  kind : TransportKind
  url : String
  authorization : Option String
  rest : String
  deriving DecidableEq

inductive OAuthState
  | none
  | ready
  | needsAuth
  deriving DecidableEq

inductive Health
  | unknown
  | healthy
  | unavailable
  | needsReview
  deriving DecidableEq

structure Server where
  id : String
  name : String
  managed : Bool
  enabled : Bool
  transport : Transport
  oauthState : OAuthState
  health : Health
  rest : String
  deriving DecidableEq

structure Flow where
  id : String
  serverID : String
  resource : String
  redirectURI : String
  clientID : String
  tokenEndpoint : String
  revocationEndpoint : String
  state : String
  verifier : String
  expiresAt : ℤ
  deriving DecidableEq

structure Grant where
  accessToken : String
  refreshToken : String
  tokenType : String
  expiresIn : ℤ

structure Mutation where
  name : Option String
  enabled : Option Bool
  transport : Option Transport
  rest : Option String

structure Accepted where
  flow : Flow
  serverID : String
  state : String
  time : ℤ

def oauthFlowLifetime : ℤ := 600000000000

def oauthRefreshSkew : ℤ := 120000000000

def unixMilli (instant : ℤ) : ℤ := instant / 1000000 * 1000000

namespace Grant

variable (grant : Grant) (now : ℤ)

def Valid : Prop :=
  grant.accessToken ≠ "" ∧ String.ofList (grant.tokenType.toList.map Char.toLower) = "bearer" ∧ 0 ≤ grant.expiresIn

instance : Decidable grant.Valid := inferInstanceAs (Decidable (_ ∧ _ ∧ _))

def expiresAt : Option ℤ := if 0 < grant.expiresIn then some (now + (grant.expiresIn * 1000000000).bmod (2 ^ 64)) else none

def ofFlow (flow : Flow) : OAuthToken :=
  ⟨grant.accessToken, grant.refreshToken, grant.tokenType, grant.expiresAt now, flow.tokenEndpoint, flow.revocationEndpoint, flow.clientID,
    flow.resource⟩

def renew (token : OAuthToken) : OAuthToken :=
  ⟨grant.accessToken, if grant.refreshToken = "" then token.refreshToken else grant.refreshToken, grant.tokenType, grant.expiresAt now,
    token.tokenEndpoint, token.revocationEndpoint, token.clientID, token.resource⟩

end Grant

namespace Server

variable (server : Server)

def authorization : Option String := server.transport.authorization

def ready (credential : String) : Server :=
  { server with transport := { server.transport with authorization := some credential }, oauthState := .ready, health := .unknown }

def loggedOut (revoked : Bool) : Server :=
  { server with
    transport := { server.transport with authorization := if revoked then none else server.transport.authorization }
    oauthState := .needsAuth
    health := .unknown }

def edited (mutation : Mutation) : Server :=
  { server with
    name := mutation.name.getD server.name
    enabled := mutation.enabled.getD server.enabled
    transport := mutation.transport.getD server.transport
    health := match mutation.transport with
      | some transport => if transport.kind = .stdio then .needsReview else .unknown
      | none => server.health
    rest := mutation.rest.getD server.rest }

def created (id : String) : Server :=
  { server with
    id := id
    managed := false
    oauthState := .none
    health := if server.transport.kind = .stdio then .needsReview else .unknown }

end Server

inductive Phase
  | start (server redirect : String)
  | discover (server redirect : String)
  | complete (server flow state code : String)
  | exchange (flow : Flow) (code : String)
  | fetch (flow : Flow) (token : OAuthToken)
  | store (flow : Flow) (token : OAuthToken) (server : Server)
  | revokeOld (server : Server) (credential old : String)
  | install (server : Server) (credential : String)
  | reject (credential : String)
  | logout (server : String)
  | inspect (server : Server) (credential : String)
  | revoke (server : Server) (credential : String)
  | clear (server : Server) (revoked : Bool)
  | scan
  | scanning (due : List (String × String))
  | enter (server credential : String) (due : List (String × String))
  | await (credential : String) (due : List (String × String))
  | renew (server credential : String) (due : List (String × String))
  | resolve (server : Server) (credential : String) (due : List (String × String))
  | refresh (server : Server) (credential : String) (token : OAuthToken) (due : List (String × String))
  | keep (server : Server) (credential : String) (token : OAuthToken) (due : List (String × String))
  | discard (server : Server) (credential : String) (due : List (String × String))
  | invalidate (server : Server) (credential : String) (due : List (String × String))
  | leave (credential : String) (due : List (String × String))
  | update (server : String) (mutation : Mutation)
  | check (server : Server) (mutation : Mutation)
  | save (server : Server) (mutation : Mutation)
  | validate (server : Server)
  | create (server : Server)
  | delete (server : String)
  | remove (server : Server)

/-- What a step finds: the outcome of a call, the clock, an answer of the network, an identifier that was drawn. `unreported` is a write
that was made and then could not be read back. -/
inductive Answer
  | failed
  | unreported
  | done
  | clock (now : ℤ)
  | discovered (flow : Flow) (now purged : ℤ)
  | granted (grant : Grant) (now : ℤ)
  | invalidGrant
  | drew (id : String)
  | drewUnreported (id : String)

/-- `accepted` and `issued` are what has happened; `drawn` are the credential identifiers in use. -/
structure World where
  servers : Table Server.id
  credentials : String → Option Credential
  pending : List Flow
  flights : List String
  calls : ℕ → Option Phase
  started : ℕ
  drawn : Finset String
  issued : List Flow
  accepted : List Accepted

namespace World

variable (w : World)

def put (id : String) (credential : Credential) : World :=
  { w with credentials := Function.update w.credentials id (some credential), drawn := insert id w.drawn }

def putOAuth (id : String) (token : OAuthToken) : World :=
  w.put id ⟨.mcpOAuth, some token, .ready, token.expiresAt.map unixMilli⟩

def revoke (id : String) : World :=
  { w with credentials := Function.update w.credentials id ((w.credentials id).map fun c => { c with secret := none, state := .revoked }) }

def replace (server : Server) : World := { w with servers := w.servers.set server }

def purge (now : ℤ) : World := { w with pending := w.pending.filter fun flow => now < flow.expiresAt }

def call (i : ℕ) (phase : Option Phase) : World := { w with calls := Function.update w.calls i phase }

def validReference (now : ℤ) (transport : Transport) : Bool :=
  match transport.authorization with
  | none => true
  | some id =>
    match w.credentials id with
    | none => false
    | some c => decide ((c.kind = .mcpHeader ∨ c.kind = .mcpOAuth) ∧ c.state = .ready ∧ ∀ instant ∈ c.expiresAt, now < instant)

end World

abbrev Turn := Option (World × Option Phase)

section Catalog

variable (w : World) (server : Server) (answer : Answer) (failed next : Option Phase)

def reading (id : String) (found : Server → Option Phase) : Turn :=
  match answer with
  | .failed => some (w, failed)
  | .done =>
    match w.servers.find? id with
    | none => some (w, failed)
    | some server => some (w, found server)
  | _ => none

def replacing : Turn :=
  match answer with
  | .failed => some (w, failed)
  | .done => if w.servers.has server.id then some (w.replace server, next) else some (w, failed)
  | .unreported => if w.servers.has server.id then some (w.replace server, failed) else none
  | _ => none

end Catalog

section Flows

variable (w : World)

def discover (server redirect : String) : Answer → Turn
  | .failed => some (w, none)
  | .discovered flow now purged =>
    if flow.serverID = server ∧ flow.redirectURI = redirect ∧ flow.expiresAt = now + oauthFlowLifetime ∧ ∀ f ∈ w.issued, f.id ≠ flow.id then
      if 32 ≤ (w.purge purged).pending.length then some (w.purge purged, none)
      else some ({ w.purge purged with pending := flow :: (w.purge purged).pending, issued := flow :: w.issued }, none)
    else none
  | _ => none

def complete (server id state code : String) : Answer → Turn
  | .clock now =>
    if id = "" ∨ state = "" ∨ code = "" ∨ 16 * 1024 < code.utf8ByteSize then some (w, none)
    else
      match (w.purge now).pending.find? fun flow => flow.id = id with
      | none => some (w.purge now, none)
      | some flow =>
        let rest := (w.purge now).pending.filter fun flow => flow.id ≠ id
        if flow.state ≠ state ∨ flow.serverID ≠ server then some ({ w.purge now with pending := rest }, none)
        else some ({ w.purge now with pending := rest, accepted := ⟨flow, server, state, now⟩ :: w.accepted }, some (.exchange flow code))
  | _ => none

def store (token : OAuthToken) (server : Server) : Answer → Turn
  | .failed => some (w, none)
  | .drewUnreported id => if id ∈ w.drawn then none else some (w.putOAuth id token, none)
  | .drew id =>
    if id ∈ w.drawn then none
    else
      some (w.putOAuth id token, some <|
        if server.transport.kind = .stdio then .reject id
        else
          match server.authorization with
          | none => .install server id
          | some old => .revokeOld server id old)
  | _ => none

end Flows

section Refreshes

variable (w : World)

def due : List (String × String) :=
  w.servers.rows.filterMap fun server =>
    if server.enabled ∧ server.transport.kind ≠ .stdio ∧ server.oauthState = .ready then server.authorization.map fun id => (server.id, id)
    else none

def scanning : List (String × String) → Answer → Turn
  | [], .done => some (w, none)
  | _ :: rest, .failed => some (w, some (.scanning rest))
  | (server, id) :: rest, .clock now =>
    match w.credentials id with
    | none => some (w, some (.scanning rest))
    | some c =>
      match c.expiresAt with
      | none => some (w, some (.scanning rest))
      | some instant =>
        if c.kind = .mcpOAuth ∧ ¬ now + oauthRefreshSkew < instant then some (w, some (.enter server id rest))
        else some (w, some (.scanning rest))
  | _, _ => none

def resolve (server : Server) (id : String) (rest : List (String × String)) : Answer → Turn
  | .failed => some (w, some (.leave id rest))
  | .done =>
    match w.credentials id with
    | none => some (w, some (.leave id rest))
    | some c =>
      if c.kind ≠ .mcpOAuth ∨ c.state ≠ .ready then some (w, some (.leave id rest))
      else
        match c.secret with
        | none => some (w, some (.leave id rest))
        | some token =>
          if token.refreshToken = "" ∨ token.tokenEndpoint = "" then some (w, some (.discard server id rest))
          else some (w, some (.refresh server id token rest))
  | _ => none

end Refreshes

def turn (w : World) : Phase → Answer → Turn
  | .start id redirect, answer =>
    reading w answer none id fun server => if server.transport.kind = .stdio then none else some (.discover id redirect)
  | .discover server redirect, answer => discover w server redirect answer
  | .complete server id state code, answer => complete w server id state code answer
  | .exchange _ _, .failed => some (w, none)
  | .exchange flow _, .granted grant now => some (w, if grant.Valid then some (.fetch flow (grant.ofFlow now flow)) else none)
  | .fetch flow token, answer => reading w answer none flow.serverID fun server => some (.store flow token server)
  | .store _ token server, answer => store w token server answer
  | .revokeOld _ id _, .failed => some (w, some (.reject id))
  | .revokeOld server id old, .done => some (w.revoke old, some (.install server id))
  | .install server id, answer => replacing w (server.ready id) answer (some (.reject id)) none
  | .reject _, .failed => some (w, none)
  | .reject id, .done => some (w.revoke id, none)
  | .logout id, answer =>
    reading w answer none id fun server =>
      if server.transport.kind = .stdio then none
      else
        match server.authorization with
        | none => some (.clear server false)
        | some id => some (.inspect server id)
  | .inspect server _, .failed => some (w, some (.clear server false))
  | .inspect server id, .done =>
    match w.credentials id with
    | none => some (w, some (.clear server false))
    | some c => some (w, some (if c.kind = .mcpOAuth then .revoke server id else .clear server false))
  | .revoke _ _, .failed => some (w, none)
  | .revoke server id, .done => if (w.credentials id).isSome then some (w.revoke id, some (.clear server true)) else some (w, none)
  | .clear server revoked, answer => replacing w (server.loggedOut revoked) answer none none
  | .scan, .failed => some (w, none)
  | .scan, .done => some (w, some (.scanning (due w)))
  | .scanning rest, answer => scanning w rest answer
  | .enter server id rest, .done =>
    if id ∈ w.flights then some (w, some (.await id rest)) else some ({ w with flights := id :: w.flights }, some (.renew server id rest))
  | .await _ rest, .failed => some (w, some (.scanning rest))
  | .await id rest, .done => if id ∈ w.flights then none else some (w, some (.scanning rest))
  | .renew server id rest, answer =>
    reading w answer (some (.leave id rest)) server fun server =>
      if server.authorization = some id then some (.resolve server id rest) else some (.leave id rest)
  | .resolve server id rest, answer => resolve w server id rest answer
  | .refresh _ id _ rest, .failed => some (w, some (.leave id rest))
  | .refresh server id _ rest, .invalidGrant => some (w, some (.discard server id rest))
  | .refresh server id token rest, .granted grant now =>
    some (w, some (if grant.Valid then .keep server id (grant.renew now token) rest else .leave id rest))
  | .keep _ id _ rest, .failed => some (w, some (.leave id rest))
  | .keep _ id token rest, .done | .keep _ id token rest, .unreported => some (w.putOAuth id token, some (.leave id rest))
  | .discard _ id rest, .failed => some (w, some (.leave id rest))
  | .discard server id rest, .done => some (w.revoke id, some (.invalidate server id rest))
  | .invalidate server id rest, answer => replacing w (server.loggedOut true) answer (some (.leave id rest)) (some (.leave id rest))
  | .leave id rest, .done => some ({ w with flights := w.flights.erase id }, some (.scanning rest))
  | .update id mutation, answer => reading w answer none id fun server => if server.managed then none else some (.check server mutation)
  | .check _ _, .failed => some (w, none)
  | .check server mutation, .clock now =>
    some (w, if ∀ transport ∈ mutation.transport, w.validReference now transport then some (.save server mutation) else none)
  | .save server mutation, answer => replacing w (server.edited mutation) answer none none
  | .validate server, .clock now =>
    some (w, if server.managed = false ∧ server.oauthState = .none ∧ w.validReference now server.transport then some (.create server) else none)
  | .create _, .failed => some (w, none)
  | .create server, .drew id | .create server, .drewUnreported id =>
    if w.servers.has id then none else some (w.replace (server.created id), none)
  | .delete id, answer => reading w answer none id fun server => if server.managed then none else some (.remove server)
  | .remove _, .failed => some (w, none)
  | .remove server, .done => some ({ w with servers := w.servers.delete fun s => s.id = server.id }, none)
  | _, _ => none

inductive Request
  | start (server redirect : String)
  | complete (server flow state code : String)
  | logout (server : String)
  | scan
  | update (server : String) (mutation : Mutation)
  | create (server : Server)
  | delete (server : String)

def Request.phase : Request → Phase
  | .start server redirect => .start server redirect
  | .complete server flow state code => .complete server flow state code
  | .logout server => .logout server
  | .scan => .scan
  | .update server mutation => .update server mutation
  | .create server => .validate server
  | .delete server => .delete server

inductive Event
  | arrives (request : Request)
  | continues (i : ℕ) (answer : Answer)
  | restarts

def next (w : World) : Event → Option World
  | .arrives request => some { w.call w.started (some request.phase) with started := w.started + 1 }
  | .continues i answer => (w.calls i).bind fun phase => (turn w phase answer).map fun result => result.1.call i result.2
  | .restarts => some { w with calls := fun _ => none, pending := [], flights := [] }

def Step (w : World) (e : Event) (w' : World) : Prop := next w e = some w'

structure Initial (w : World) : Prop where
  calls : ∀ i, w.calls i = none
  pending : w.pending = []
  issued : w.issued = []
  accepted : w.accepted = []
  servers : ∀ r ∈ w.servers, r.oauthState ≠ .ready
  credentials : ∀ id c, w.credentials id = some c → c.kind ≠ .mcpOAuth
  drawn : ∀ id, (∃ c, w.credentials id = some c) ∨ (∃ r ∈ w.servers, r.authorization = some id) → id ∈ w.drawn

end WorkAgent.McpOAuth
