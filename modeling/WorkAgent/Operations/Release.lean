import WorkAgent.Library.Guards
import WorkAgent.Quota.Calendar

namespace WorkAgent.Operations

open Library
open Quota (Time)

inductive Component
  | web
  | portal
  | employeeManager
  | userHost
  | harnessProfile
  | harnessPlugin
  | chatForward
  | imConnector
  | managedTools
  deriving DecidableEq

def Component.name : Component → String
  | .web => "web"
  | .portal => "portal"
  | .employeeManager => "employee-manager"
  | .userHost => "userhost"
  | .harnessProfile => "harness-profile"
  | .harnessPlugin => "harness-plugin"
  | .chatForward => "chatforward"
  | .imConnector => "im-connector"
  | .managedTools => "managed-tools"

structure Artifact where
  component : Component
  file : String
  size : ℤ
  sha256 : String
  deriving DecidableEq

structure ReleaseManifest where
  formatVersion : ℤ
  version : String
  includedComponents : List Component
  artifacts : List Artifact
  deriving DecidableEq

structure ProbeEvidence where
  engine : String
  version : String
  runID : String
  checkedAt : Time
  result : String
  redacted : Bool
  deriving DecidableEq

structure Probe where
  ok : Bool
  evidence : ProbeEvidence
  deriving DecidableEq

structure Readiness where
  checkedAt : Time
  harness : Probe
  codex : Probe
  kimi : Probe
  cliProxy : Probe
  deriving DecidableEq

inductive Error
  | manifestFormat
  | noComponents
  | duplicateComponent (component : Component)
  | artifactMissing
  | artifactComponent (component : Component)
  | artifactInvalid (component : Component)
  | artifactDuplicated (component : Component) (file : String)
  | componentArtifact (component : Component)
  | integrity
  | immutable (version : String)
  | conflict
  | copying
  | unknownVersion
  | publish
  | readinessTime
  | evidence (engine : String)
  | evidenceTime (engine : String)
  | notice
  | freshReadiness
  | unknownActivation
  | notCommitted
  | stale (component : Component)
  deriving DecidableEq

def Error.text : Error → String
  | .manifestFormat => "release manifest format or version is invalid"
  | .noComponents => "at least one release component is required"
  | .duplicateComponent c => "duplicate release component \"" ++ c.name ++ "\""
  | .artifactMissing => "release manifest requires at least one artifact per component"
  | .artifactComponent c => "release artifact component \"" ++ c.name ++ "\" is missing or duplicated"
  | .artifactInvalid c => "release artifact for \"" ++ c.name ++ "\" is invalid"
  | .artifactDuplicated c file =>
    "release artifact \"" ++ file ++ "\" is duplicated for component \"" ++ c.name ++ "\""
  | .componentArtifact c => "release component \"" ++ c.name ++ "\" has no artifact"
  | .integrity => "release artifact failed integrity verification"
  | .immutable version => "immutable release " ++ version ++ " already exists with different content"
  | .conflict => "installed release conflicts with its operations record"
  | .copying => "copy release artifacts"
  | .unknownVersion => "load release status"
  | .publish => "publish upgrade notification"
  | .readinessTime => "readiness check time is required"
  | .evidence engine => "passing structured redacted readiness evidence is required for " ++ engine
  | .evidenceTime engine => "readiness evidence time is outside the probe run window for " ++ engine
  | .notice => "upgrade notification must be published at least 60 seconds before activation"
  | .freshReadiness => "fresh post-notification readiness evidence is required"
  | .unknownActivation => "load activation journal"
  | .notCommitted => "only a committed activation can be rolled back"
  | .stale c => "component " ++ c.name ++ " changed after activation; refusing stale rollback"

def validVersion (version : String) : Bool :=
  version ≠ "" ∧ version.utf8ByteSize ≤ 128 ∧
    version.toList.all (fun c => c.isAlphanum ∨ c ∈ ['.', '_', '-', '+']) ∧ version ≠ "." ∧ version ≠ ".."

def clean (path : List Char) : List Char :=
  let volume := if path[1]? = some ':' then path.take 2 else []
  let rest := path.drop volume.length
  let rooted := rest.head? = some '/'
  let parts := (rest.splitOn '/').foldl (fun out part =>
    if part = [] ∨ part = ['.'] then out
    else if part = ['.', '.'] ∧ out.head? ≠ some ['.', '.'] ∧ (out ≠ [] ∨ rooted) then out.tail
    else part :: out) []
  let body := (if rooted then ['/'] else []) ++ ['/'].intercalate parts.reverse
  volume ++ if body = [] then ['.'] else body

def validRelative (path : String) : Bool :=
  path ≠ "" ∧ '\\' ∉ path.toList ∧ path.toList.head? ≠ some '/' ∧ clean path.toList = path.toList ∧
    path ≠ "." ∧ path ≠ ".." ∧ ¬ ['.', '.', '/'] <+: path.toList

def validSHA256 (value : String) : Bool :=
  value.toList.length = 64 ∧
    value.toList.all (fun c => c.isDigit ∨ ('a' ≤ c ∧ c ≤ 'f') ∨ ('A' ≤ c ∧ c ≤ 'F'))

def validateComponents (components : List Component) : Except Error Unit := do
  require (components ≠ []) .noComponents
  let _ ← components.foldlM (fun seen c => do
    require (c ∉ seen) (.duplicateComponent c)
    return c :: seen) []

theorem nodup_of_validateComponents {components : List Component} {u : Unit} (h : validateComponents components = .ok u) :
    components.Nodup := by
  have hfold (l seen out : List Component) : l.foldlM (fun seen c => do
      require (c ∉ seen) (Error.duplicateComponent c)
      return c :: seen) seen = .ok out → l.Nodup ∧ ∀ c ∈ l, c ∉ seen := by
    induction l generalizing seen with
    | nil => simp
    | cons c l ih =>
      intro h
      rw [List.foldlM_cons] at h
      simp only [bind_eq_ok, require_eq_ok, pure_eq_ok] at h
      obtain ⟨-, ⟨-, hnew, rfl⟩, hrest⟩ := h
      obtain ⟨hnodup, hseen⟩ := ih (c :: seen) hrest
      constructor
      · rw [List.nodup_cons]
        refine ⟨?_, hnodup⟩
        intro hc
        exact hseen c hc (by simp)
      · intro d hd
        rw [List.mem_cons] at hd
        rcases hd with rfl | hd
        · exact hnew
        · exact fun hmem => hseen d hd (by simp [hmem])
  unfold validateComponents at h
  simp only [bind_eq_ok] at h
  obtain ⟨-, -, out, hout, -⟩ := h
  exact (hfold components [] out hout).1

def ReleaseManifest.validate (m : ReleaseManifest) : Except Error Unit := do
  require (m.formatVersion = 1 ∧ validVersion m.version) .manifestFormat
  validateComponents m.includedComponents
  require (m.includedComponents.length ≤ m.artifacts.length) .artifactMissing
  let _ ← m.artifacts.foldlM (fun seen a => do
    require (a.component ∈ m.includedComponents) (.artifactComponent a.component)
    require (validRelative a.file ∧ 0 ≤ a.size ∧ validSHA256 a.sha256) (.artifactInvalid a.component)
    require ((a.component, a.file) ∉ seen) (.artifactDuplicated a.component a.file)
    return (a.component, a.file) :: seen) []
  m.includedComponents.forM (fun c => require (∃ a ∈ m.artifacts, a.component = c) (.componentArtifact c))

theorem ReleaseManifest.of_validate {m : ReleaseManifest} {u : Unit} (h : m.validate = .ok u) :
    m.version ≠ "" ∧ m.includedComponents.Nodup := by
  unfold ReleaseManifest.validate at h
  simp only [bind_eq_ok, require_eq_ok] at h
  obtain ⟨-, ⟨-, hversion⟩, u, hcomponents, -⟩ := h
  refine ⟨?_, nodup_of_validateComponents hcomponents⟩
  intro hempty
  rw [hempty] at hversion
  simp [validVersion] at hversion

def sortedComponents (values : List Component) : List Component :=
  values.mergeSort (fun a b => a.name ≤ b.name)

def sameManifest (left right : ReleaseManifest) : Bool :=
  left.formatVersion = right.formatVersion ∧ left.version = right.version ∧
    sortedComponents left.includedComponents = sortedComponents right.includedComponents ∧
    left.artifacts.mergeSort (fun a b => a.component.name ≤ b.component.name) =
      right.artifacts.mergeSort (fun a b => a.component.name ≤ b.component.name)

def minute : ℤ := 60000000000

def validRunID (id : String) : Bool :=
  8 ≤ id.toList.length ∧ id.toList.length ≤ 128 ∧ id.toList.all (fun c => c.isAlphanum ∨ c = '_' ∨ c = '-')

def Readiness.probes (r : Readiness) : List (String × Probe) :=
  [("harness", r.harness), ("codex", r.codex), ("kimi", r.kimi), ("cliproxy", r.cliProxy)]

def verifyReadiness (version : String) (readiness : Readiness) : Except Error Unit := do
  require (¬ readiness.checkedAt.IsZero) .readinessTime
  readiness.probes.forM (fun (name, probe) => do
    let evidence := probe.evidence
    require (probe.ok ∧ evidence.engine = name ∧ evidence.version = version ∧ evidence.result = "pass" ∧
      evidence.redacted ∧ validRunID evidence.runID) (.evidence name)
    require (¬ evidence.checkedAt.IsZero ∧ readiness.checkedAt.ns - minute ≤ evidence.checkedAt.ns ∧
      evidence.checkedAt.ns ≤ readiness.checkedAt.ns + 15 * minute) (.evidenceTime name))

end WorkAgent.Operations
