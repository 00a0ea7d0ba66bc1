import WorkAgent.Library.Guards
import WorkAgent.SkillRuntime.Store

namespace WorkAgent.McpRuntime

open Library
open SkillRuntime (trimSpace sameName fold)

structure Transport where
  managedService : String
  globalSource : String
  nativeName : String
  kind : String
  command : String
  args : List String
  url : String
  environmentCredentialIDs : List (String × String)
  headerCredentialIDs : List (String × String)
  deriving DecidableEq

structure Server where
  id : String
  name : String
  description : String
  source : String
  enabled : Bool
  transport : Transport
  toolPolicy : String
  allowedTools : List String
  oauthState : String
  health : String
  deriving DecidableEq

inductive Source
  | managed
  | user
  deriving DecidableEq

structure Row where
  id : String
  name : String
  description : String
  source : Source
  enabled : Bool
  transport : Transport
  toolPolicy : String
  allowedTools : List String
  oauthState : String
  health : String
  createdAt : ℤ
  updatedAt : ℤ
  deriving DecidableEq

inductive Error
  | text (message : String)
  | database (context : String)
  deriving DecidableEq

structure Catalog where
  rows : Table Row.id
  names : ∀ r ∈ rows, ∀ r' ∈ rows, sameName r.name r'.name → r = r'

structure URL where
  scheme : String
  host : String
  hostname : String

structure Platform where
  isAbs : String → Bool
  parseURL : String → Option URL
  isLoopback : String → Bool
  isLocalhost : String → Bool
  toLower : Char → Char
  ascii : ∀ c, c.toNat < 128 → toLower c = c.toLower

def Platform.lower (p : Platform) (text : String) : String := String.ofList (text.toList.map p.toLower)

def nameStart (c : Char) : Bool := c.isAlpha ∨ c = '_'

def environmentName (name : String) : Bool :=
  match name.toList with
  | c :: rest => nameStart c ∧ rest.all (fun c => nameStart c ∨ c.isDigit)
  | [] => false

def headerName (name : String) : Bool :=
  name.toList ≠ [] ∧ name.toList.all (fun c => c.isAlphanum ∨ c ∈ "!#$%&'*+.^_`|~-".toList)

def validateTransport (p : Platform) (t : Transport) : Except Error Unit :=
  if t.kind = "stdio" then
    require (p.isAbs t.command ∧ t.url = "" ∧ t.headerCredentialIDs = []) (.text "invalid stdio MCP transport")
  else if t.kind = "http" ∨ t.kind = "sse" then do
    let endpoint ← orError (p.parseURL t.url) (.text "invalid remote MCP transport")
    require (endpoint.host ≠ "" ∧ t.command = "" ∧ t.environmentCredentialIDs = [])
      (.text "invalid remote MCP transport")
    require (endpoint.scheme ≠ "https" → endpoint.scheme = "http" ∧
      (p.isLoopback endpoint.hostname ∨ p.isLocalhost endpoint.hostname)) (.text "remote MCP endpoint must use HTTPS")
  else .error (.text "unknown MCP transport")

def validateServer (p : Platform) (s : Server) : Except Error Unit := do
  require (s.id ≠ "" ∧ trimSpace s.name ≠ "" ∧ s.name.utf8ByteSize ≤ 120 ∧ s.description.utf8ByteSize ≤ 1000 ∧
    s.source ∈ ["managed", "user"] ∧ s.oauthState ∈ ["none", "ready", "needs_auth"] ∧
    s.health ∈ ["unknown", "healthy", "unavailable", "needs_review"]) (.text "invalid MCP server metadata")
  require (s.toolPolicy ∈ ["all", "allowlist", "none"]) (.text "invalid MCP tool policy")
  require (s.toolPolicy = "allowlist" ↔ s.allowedTools ≠ []) (.text "MCP allowlist policy and tools do not match")
  require (s.toolPolicy ≠ "allowlist" → s.allowedTools = [])
    (.text "MCP tools are only valid with allowlist policy")
  require (∀ x ∈ s.transport.environmentCredentialIDs, environmentName x.1 ∧ x.2 ≠ "")
    (.text "invalid MCP environment credential reference")
  require (∀ x ∈ s.transport.headerCredentialIDs, headerName x.1 ∧ x.2 ≠ "")
    (.text "invalid MCP header credential reference")
  validateTransport p s.transport

def checkServers (p : Platform) : List String → List String → List Server → Except Error Unit
  | _, _, [] => .ok ()
  | seenIDs, seenNames, s :: rest => do
    let name := p.lower (trimSpace s.name)
    require (s.source = "managed") (.text "managed MCP release contains another source")
    validateServer p s
    require (s.id ∉ seenIDs) (.text "duplicate managed MCP id")
    require (name ∉ seenNames) (.text "duplicate managed MCP name")
    checkServers p (s.id :: seenIDs) (name :: seenNames) rest

def Server.row (s : Server) (stamp : ℤ) : Row :=
  ⟨s.id, trimSpace s.name, trimSpace s.description, .managed, s.enabled, s.transport, s.toolPolicy, s.allowedTools,
    s.oauthState, s.health, stamp, stamp⟩

def Server.onto (s : Server) (stamp : ℤ) (r : Row) : Row :=
  { r with
    name := trimSpace s.name, description := trimSpace s.description, enabled := s.enabled, transport := s.transport
    toolPolicy := s.toolPolicy, allowedTools := s.allowedTools, oauthState := s.oauthState, health := s.health
    updatedAt := stamp }

namespace Catalog

variable (c : Catalog)

def FreeFor (s : Server) : Prop := ∀ r ∈ c.rows.rows, r.id ≠ s.id → ¬ sameName r.name (trimSpace s.name)

instance (s : Server) : Decidable (c.FreeFor s) :=
  inferInstanceAs (Decidable (∀ r ∈ c.rows.rows, r.id ≠ s.id → ¬ sameName r.name (trimSpace s.name)))

def retire (seenIDs : List String) : Catalog where
  rows := c.rows.delete (fun r => r.source = .managed ∧ r.id ∉ seenIDs)
  names := by
    intro r hr r' hr'
    rw [Table.mem_delete] at hr hr'
    exact c.names r hr.1 r' hr'.1

theorem names_kept {s : Server} (h : c.FreeFor s) {rows : Table Row.id}
    (hrows : ∀ r ∈ rows, (r.id = s.id ∧ r.name = trimSpace s.name) ∨ (r.id ≠ s.id ∧ r ∈ c.rows)) :
    ∀ r ∈ rows, ∀ r' ∈ rows, sameName r.name r'.name → r = r' := by
  intro r hr r' hr' hname
  rcases hrows r hr with ⟨hid, hn⟩ | ⟨hid, hold⟩
  · rcases hrows r' hr' with ⟨hid', -⟩ | ⟨hid', hold'⟩
    · exact Table.eq_of_key hr hr' (hid.trans hid'.symm)
    · exact absurd (hn ▸ hname).symm (h r' hold' hid')
  · rcases hrows r' hr' with ⟨_, hn'⟩ | ⟨-, hold'⟩
    · exact absurd (hn' ▸ hname) (h r hold hid)
    · exact c.names r hold r' hold' hname

def insert (s : Server) (stamp : ℤ) (hid : c.rows.find? s.id = none) (h : c.FreeFor s) : Catalog where
  rows := c.rows.insertOrIgnore (s.row stamp)
  names := by
    refine c.names_kept h ?_
    intro r hr
    rcases Table.mem_insertOrIgnore.mp hr with hr | ⟨rfl, -⟩
    · exact .inr ⟨Table.find?_eq_none.mp hid r hr, hr⟩
    · exact .inl ⟨rfl, rfl⟩

def update (s : Server) (stamp : ℤ) {x : Row} (hx : c.rows.find? s.id = some x) (hsource : x.source = .managed)
    (h : c.FreeFor s) : Catalog where
  rows := c.rows.update (fun r => r.id = s.id ∧ r.source = .managed) (s.onto stamp)
  names := by
    refine c.names_kept h ?_
    intro r hr
    obtain ⟨y, hy, -, ⟨hp, rfl⟩ | ⟨hp, rfl⟩⟩ := Table.exists_of_mem_update hr
    · exact .inl ⟨hp.1, rfl⟩
    · refine .inr ⟨?_, hy⟩
      intro hid
      obtain ⟨hmem, hkey⟩ := Table.find?_eq_some.mp hx
      obtain rfl := Table.eq_of_key hy hmem (hid.trans hkey.symm)
      exact hp ⟨hid, hsource⟩

def syncServer (s : Server) (stamp : ℤ) : Except Error Catalog :=
  match hx : c.rows.find? s.id with
  | none =>
    if h : c.FreeFor s then .ok (c.insert s stamp hx h) else .error (.database ("sync managed MCP server " ++ s.id))
  | some x =>
    if hsource : x.source = .managed then
      if h : c.FreeFor s then .ok (c.update s stamp hx hsource h)
      else .error (.database ("sync managed MCP server " ++ s.id))
    else .error (.text "managed MCP conflicts with a user server")

def reconcile (servers : List Server) (stamp : ℤ) : Except Error Catalog :=
  servers.foldlM (fun c s => c.syncServer s stamp) (c.retire (servers.map Server.id))

def syncManaged (p : Platform) (servers : List Server) (stamp : ℤ) : Except Error Unit × Catalog :=
  match checkServers p [] [] servers with
  | .error e => (.error e, c)
  | .ok _ =>
    match c.reconcile servers stamp with
    | .error e => (.error e, c)
    | .ok d => (.ok (), d)

end Catalog

end WorkAgent.McpRuntime
