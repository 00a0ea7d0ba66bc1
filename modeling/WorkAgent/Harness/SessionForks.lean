import Mathlib.Data.List.Perm.Basic
import Mathlib.Data.List.Nodup
import Mathlib.Data.List.TakeWhile

namespace WorkAgent.Harness.SessionForks

open List

inductive Role
  | user
  | assistant
  deriving DecidableEq

structure Message where
  id : String
  role : Role
  text : String
  nativeTurnId : Option String
  deriving DecidableEq

inductive Error
  | forkMessageNotFound
  | messageTurnUnavailable

structure Plan where
  selectedTurnId : Option String
  previousTurnId : Option String
  hasLaterUser : Bool
  copiedMessages : List Message

def selects (messageId : String) (editing : Bool) (m : Message) : Bool :=
  m.id = messageId && (m.role = .user || (!editing && m.role = .assistant))

def isUser (m : Message) : Bool := m.role = .user

def planMessageFork (messages : List Message) (messageId : String) (editing : Bool) (requireNativeTurn : Bool) : Except Error Plan :=
  let selectedIndex := messages.findIdx (selects messageId editing)
  match messages[selectedIndex]? with
  | none => .error .forkMessageNotFound
  | some selected =>
    if requireNativeTurn && selected.nativeTurnId.isNone then .error .messageTurnUnavailable
    else
      let previousUser := (messages.take selectedIndex).reverse.find? isUser
      let nextUserIndex := selectedIndex + 1 + (messages.drop (selectedIndex + 1)).findIdx isUser
      .ok {
        selectedTurnId := selected.nativeTurnId
        previousTurnId := previousUser.bind Message.nativeTurnId
        hasLaterUser := nextUserIndex < messages.length
        copiedMessages := messages.take <|
          if editing then selectedIndex
          else if selected.role = .assistant then selectedIndex + 1
          else nextUserIndex }

structure Transcript where
  content : List (Role × String)

def branchTranscript (messages : List Message) : Option Transcript :=
  if messages.length = 0 then none else some ⟨messages.map fun m => (m.role, m.text)⟩

inductive Engine
  | codex
  | harness
  | acp
  deriving DecidableEq

inductive ContextMode
  | native
  | transcript
  deriving DecidableEq

inductive Activity
  | idle
  | running
  | retrying
  deriving DecidableEq

inductive Kind
  | fork
  | edit
  | sideChat
  deriving DecidableEq

/-- What `#forkSession` reads of its source; the activity is the one after a turn was stopped for an edit. -/
structure Source where
  engine : Engine
  contextMode : Option ContextMode
  activity : Option Activity

structure Request where
  messageId : Option String
  editing : Bool
  kind : Kind

def planOf (messages : List Message) (request : Request) : Except Error Plan :=
  match request.messageId with
  | none => .ok ⟨none, none, false, messages⟩
  | some messageId => planMessageFork messages messageId request.editing false

def lastTurn (request : Request) (plan : Plan) : Option String :=
  if request.editing then plan.previousTurnId else plan.selectedTurnId

def nativeFork (source : Source) (request : Request) (messages : List Message) (plan : Plan) : Bool :=
  source.engine = .codex && source.contextMode ≠ some .transcript && request.kind ≠ .sideChat && source.activity ≠ some .running &&
    source.activity ≠ some .retrying && (request.messageId.isNone || plan.selectedTurnId.isSome) &&
    !(request.editing && plan.previousTurnId = plan.selectedTurnId) &&
    !((messages.drop plan.copiedMessages.length).any fun m => m.nativeTurnId = lastTurn request plan)

/-- The turns of the source's thread with which the branch's thread begins: none after `bridge.create`, those up to the last turn after `bridge.fork`. -/
def keptTurns (turns : List String) (request : Request) (plan : Plan) : List String :=
  if request.editing && plan.previousTurnId.isNone then []
  else
    match lastTurn request plan with
    | none => turns
    | some last => turns.take (turns.idxOf last + 1)

structure Branch where
  messages : List Message
  copiedMessages : List Message
  contextMode : ContextMode
  turns : List String
  pendingContext : Option Transcript

def forkSession (source : Source) (request : Request) (messages : List Message) (turns : List String) : Except Error Branch := do
  let plan ← planOf messages request
  let native := nativeFork source request messages plan
  .ok {
    messages := if request.kind = .sideChat then [] else plan.copiedMessages
    copiedMessages := plan.copiedMessages
    contextMode := if native then .native else .transcript
    turns := if native then keptTurns turns request plan else []
    pendingContext := if native then none else branchTranscript plan.copiedMessages }

section Purpose

structure Thread (messages : List Message) where
  turns : List String
  nodup : turns.Nodup
  covers : ∀ m ∈ messages, ∀ turn, m.nativeTurnId = some turn → turn ∈ turns

def contextOf (messages : List Message) (turns : List String) : List Message :=
  turns.flatMap fun turn => messages.filter fun m => m.nativeTurnId = some turn

structure CutsAt (messages : List Message) (request : Request) (copied : List Message) : Prop where
  taken : copied <+: messages
  whole : request.messageId = none → copied = messages
  before : ∀ messageId, request.messageId = some messageId → request.editing = true →
    ∃ selected rest, messages = copied ++ selected :: rest ∧ selected.id = messageId ∧ selected.role = .user
  reply : ∀ messageId, request.messageId = some messageId → request.editing = false →
    ∃ first selected middle, copied = first ++ selected :: middle ∧ selected.id = messageId ∧
      (selected.role = .assistant → middle = []) ∧
      (selected.role = .user → (∀ m ∈ middle, m.role = .assistant) ∧ ∀ m ∈ (messages.drop copied.length).head?, m.role = .user)

structure Branch.Sees (messages : List Message) (branch : Branch) : Prop where
  native : branch.contextMode = .native → branch.copiedMessages.Perm (contextOf messages branch.turns)
  transcript : branch.contextMode = .transcript →
    (branch.pendingContext.elim [] Transcript.content) = branch.copiedMessages.map fun m => (m.role, m.text)

def SeesPrefix (source : Source) (request : Request) (messages : List Message) (turns : List String) : Prop :=
  ∀ branch, forkSession source request messages turns = .ok branch → CutsAt messages request branch.copiedMessages ∧ branch.Sees messages

/-- The turns of a conversation stand in the order of its messages where a native branch cuts it. -/
structure Aligned (messages : List Message) (turns : List String) (request : Request) (plan : Plan) : Prop where
  fresh : request.editing = true → plan.previousTurnId = none → plan.copiedMessages = []
  whole : request.messageId = none → ∀ m ∈ messages, m.nativeTurnId ≠ none
  covered : ∀ last, lastTurn request plan = some last → ∀ m ∈ plan.copiedMessages,
    ∃ turn ∈ turns.take (turns.idxOf last + 1), m.nativeTurnId = some turn
  later : ∀ last, lastTurn request plan = some last → ∀ m ∈ messages.drop plan.copiedMessages.length,
    ∀ turn ∈ turns.take (turns.idxOf last), m.nativeTurnId ≠ some turn

end Purpose

section Contexts

variable {messages copied rest : List Message} {turns : List String}

def inTurns (turns : List String) (m : Message) : Bool := turns.any fun turn => m.nativeTurnId = some turn

theorem inTurns_iff {m : Message} : inTurns turns m = true ↔ ∃ turn ∈ turns, m.nativeTurnId = some turn := by
  simp [inTurns]

theorem contextOf_perm (h : turns.Nodup) : (contextOf messages turns).Perm (messages.filter (inTurns turns)) := by
  induction turns with
  | nil => simp [contextOf, inTurns]
  | cons turn turns ih =>
    obtain ⟨hturn, hturns⟩ := nodup_cons.mp h
    have hsplit := filter_append_perm (fun m : Message => decide (m.nativeTurnId = some turn)) (messages.filter (inTurns (turn :: turns)))
    have hfirst : (messages.filter (inTurns (turn :: turns))).filter (fun m => decide (m.nativeTurnId = some turn)) =
        messages.filter fun m => m.nativeTurnId = some turn := by
      rw [filter_filter]
      apply filter_congr
      intro m _
      by_cases hm : m.nativeTurnId = some turn <;> simp [hm, inTurns]
    have hothers : (messages.filter (inTurns (turn :: turns))).filter (fun m => !decide (m.nativeTurnId = some turn)) =
        messages.filter (inTurns turns) := by
      rw [filter_filter]
      apply filter_congr
      intro m _
      by_cases hm : m.nativeTurnId = some turn
      · have hnone : inTurns turns m = false := by
          rw [← Bool.not_eq_true, inTurns_iff]
          rintro ⟨_, hmem, hsame⟩
          rw [hm, Option.some_inj] at hsame
          exact hturn (hsame ▸ hmem)
        simp [hm, hnone]
      · simp [hm, inTurns]
    rw [hfirst, hothers] at hsplit
    exact (List.Perm.append_left _ (ih hturns)).trans hsplit

theorem perm_filter_append {α : Type} {l l' : List α} {p : α → Bool} :
    l.Perm ((l ++ l').filter p) ↔ (∀ x ∈ l, p x = true) ∧ ∀ x ∈ l', p x = false := by
  constructor
  · intro h
    have hall : ∀ x ∈ l, p x = true := by
      intro x hx
      exact (mem_filter.mp (h.mem_iff.mp hx)).2
    refine ⟨hall, ?_⟩
    have hlength := h.length_eq
    rw [filter_append, filter_eq_self.mpr hall, length_append] at hlength
    have hnone : l'.filter p = [] := by
      apply eq_nil_of_length_eq_zero
      omega
    intro x hx
    simpa using filter_eq_nil_iff.mp hnone x hx
  · rintro ⟨hall, hnone⟩
    have hrest : l'.filter p = [] := by
      apply filter_eq_nil_iff.mpr
      intro x hx
      simp [hnone x hx]
    rw [filter_append, filter_eq_self.mpr hall, hrest, append_nil]

theorem context_iff (h : turns.Nodup) : copied.Perm (contextOf (copied ++ rest) turns) ↔
    (∀ m ∈ copied, ∃ turn ∈ turns, m.nativeTurnId = some turn) ∧ ∀ m ∈ rest, ∀ turn ∈ turns, m.nativeTurnId ≠ some turn := by
  have hperm := @contextOf_perm (copied ++ rest) turns h
  have hsame : copied.Perm (contextOf (copied ++ rest) turns) ↔ copied.Perm ((copied ++ rest).filter (inTurns turns)) :=
    ⟨fun hcopied => hcopied.trans hperm, fun hcopied => hcopied.trans hperm.symm⟩
  rw [hsame, perm_filter_append]
  apply and_congr
  · exact forall₂_congr fun m _ => inTurns_iff
  · apply forall₂_congr
    intro m _
    rw [← Bool.not_eq_true, inTurns_iff]
    simp

end Contexts

section Plans

variable {messages : List Message} {messageId : String} {editing : Bool} {plan : Plan} {request : Request}

theorem planMessageFork_ok (h : planMessageFork messages messageId editing false = .ok plan) :
    ∃ first selected rest, messages = first ++ selected :: rest ∧ selects messageId editing selected = true ∧
      plan.selectedTurnId = selected.nativeTurnId ∧ plan.previousTurnId = (first.reverse.find? isUser).bind Message.nativeTurnId ∧
      plan.copiedMessages = first ++ if editing then [] else if selected.role = .assistant then [selected]
        else selected :: rest.takeWhile fun m => !isUser m := by
  unfold planMessageFork at h
  cases hfound : messages[messages.findIdx (selects messageId editing)]? with
  | none => simp [hfound] at h
  | some selected =>
    obtain ⟨hlt, hget⟩ := List.getElem?_eq_some_iff.mp hfound
    have hselects : selects messageId editing selected = true := by
      rw [← hget]
      exact findIdx_getElem
    simp only [hfound, Bool.false_and, Bool.false_eq_true, if_false, Except.ok.injEq] at h
    subst h
    generalize messages.findIdx (selects messageId editing) = i at hlt hget
    have hdrop : messages.drop i = selected :: messages.drop (i + 1) := by
      rw [drop_eq_getElem_cons hlt, hget]
    have hsplit : messages = messages.take i ++ selected :: messages.drop (i + 1) := by
      rw [← hdrop, take_append_drop]
    refine ⟨messages.take i, selected, messages.drop (i + 1), hsplit, hselects, rfl, rfl, ?_⟩
    have htake (n : ℕ) : messages.take (i + 1 + n) = messages.take i ++ selected :: (messages.drop (i + 1)).take n := by
      rw [Nat.add_assoc, take_add, hdrop, Nat.add_comm 1 n, take_succ_cons]
    cases editing with
    | true => simp
    | false =>
      by_cases hrole : selected.role = .assistant
      · have hone := htake 0
        simp only [Nat.add_zero, take_zero] at hone
        simp [hrole, hone]
      · have hwhile : (messages.drop (i + 1)).takeWhile (fun m => !isUser m) =
            (messages.drop (i + 1)).take ((messages.drop (i + 1)).findIdx isUser) := by
          rw [takeWhile_eq_take_findIdx_not]
          simp
        simp only [Bool.false_eq_true, if_false, hrole, htake, hwhile]

theorem head_dropWhile {m : Message} {rest : List Message} (h : m ∈ (rest.dropWhile fun m => !isUser m).head?) : m.role = .user := by
  have hm := head?_dropWhile_not (fun m => !isUser m) rest
  rw [Option.mem_def.mp h] at hm
  simpa [isUser] using hm

theorem planMessageFork_cuts {kind : Kind} (h : planMessageFork messages messageId editing false = .ok plan) :
    CutsAt messages ⟨some messageId, editing, kind⟩ plan.copiedMessages := by
  obtain ⟨first, selected, rest, rfl, hselects, -, -, hcopied⟩ := planMessageFork_ok h
  have hrole : selected.id = messageId ∧ (selected.role = .user ∨ editing = false ∧ selected.role = .assistant) := by
    simpa [selects] using hselects
  rw [hcopied]
  cases editing with
  | true =>
    constructor
    · simp
    · simp
    · intro messageId' hid _
      refine ⟨selected, rest, by simp, ?_, hrole.2.resolve_right (by simp)⟩
      rw [hrole.1]
      simpa using hid
    · simp
  | false =>
    by_cases hassistant : selected.role = .assistant
    · constructor
      · simp [hassistant]
      · simp
      · simp
      · intro messageId' hid _
        refine ⟨first, selected, [], by simp [hassistant], ?_, fun _ => rfl, ?_⟩
        · rw [hrole.1]
          simpa using hid
        · rw [hassistant]
          simp
    · have huser : selected.role = .user := hrole.2.resolve_right (fun hboth => hassistant hboth.2)
      have hwhole : first ++ selected :: rest =
          (first ++ selected :: rest.takeWhile fun m => !isUser m) ++ rest.dropWhile fun m => !isUser m := by
        rw [append_assoc, cons_append, takeWhile_append_dropWhile]
      have hcut : (first ++ if false = true then [] else if selected.role = .assistant then [selected]
          else selected :: rest.takeWhile fun m => !isUser m) = first ++ selected :: rest.takeWhile fun m => !isUser m := by
        simp [hassistant]
      rw [hcut]
      constructor
      · rw [hwhole]
        exact prefix_append _ _
      · simp
      · simp
      · intro _ hid _
        refine ⟨first, selected, rest.takeWhile fun m => !isUser m, rfl, ?_, fun hsame => absurd hsame hassistant, ?_⟩
        · rw [hrole.1]
          simpa using hid
        · intro _
          constructor
          · intro m hm
            have hnot := mem_takeWhile_imp hm
            cases hm' : m.role with
            | user => simp [isUser, hm'] at hnot
            | assistant => rfl
          · intro m hm
            rw [hwhole, drop_left] at hm
            exact head_dropWhile hm

theorem planOf_none (hid : request.messageId = none) (h : planOf messages request = .ok plan) : plan = ⟨none, none, false, messages⟩ := by
  unfold planOf at h
  rw [hid] at h
  exact (Except.ok.inj h).symm

theorem planOf_cuts (h : planOf messages request = .ok plan) : CutsAt messages request plan.copiedMessages := by
  cases hid : request.messageId with
  | none =>
    rw [planOf_none hid h]
    constructor
    · exact prefix_refl _
    · exact fun _ => rfl
    · intro messageId hsome
      rw [hid] at hsome
      cases hsome
    · intro messageId hsome
      rw [hid] at hsome
      cases hsome
  | some messageId =>
    unfold planOf at h
    rw [hid] at h
    have hcuts : CutsAt messages ⟨some messageId, request.editing, request.kind⟩ plan.copiedMessages := planMessageFork_cuts h
    rw [← hid] at hcuts
    exact hcuts

end Plans

section Forks

variable {messages : List Message} {plan : Plan} {request : Request} {source : Source}

theorem nativeFork_iff : nativeFork source request messages plan = true →
    (request.messageId = none ∨ plan.selectedTurnId ≠ none) ∧ ¬ (request.editing = true ∧ plan.previousTurnId = plan.selectedTurnId) ∧
      ∀ m ∈ messages.drop plan.copiedMessages.length, m.nativeTurnId ≠ lastTurn request plan := by
  intro h
  simp only [nativeFork, Bool.and_eq_true, Bool.or_eq_true, Bool.not_eq_true', any_eq_false, decide_eq_true_eq] at h
  obtain ⟨⟨⟨-, hselected⟩, hsteered⟩, hlater⟩ := h
  refine ⟨?_, ?_, hlater⟩
  · apply hselected.imp
    · exact Option.isNone_iff_eq_none.mp
    · exact Option.isSome_iff_ne_none.mp
  · rintro ⟨hediting, hsame⟩
    simp [hediting, hsame] at hsteered

theorem mem_upTo {turns : List String} {turn last : String} (h : turn ∈ turns.take (turns.idxOf last + 1)) :
    turn ∈ turns.take (turns.idxOf last) ∨ turn = last := by
  rw [take_add_one, mem_append] at h
  apply h.imp_right
  intro hlast
  rw [Option.mem_toList] at hlast
  obtain ⟨hlt, hget⟩ := List.getElem?_eq_some_iff.mp hlast
  rw [← hget]
  exact getElem_idxOf hlt

theorem native_iff (thread : Thread messages) (hplan : planOf messages request = .ok plan)
    (hnative : nativeFork source request messages plan = true) :
    plan.copiedMessages.Perm (contextOf messages (keptTurns thread.turns request plan)) ↔ Aligned messages thread.turns request plan := by
  obtain ⟨hselected, hsteered, hlater⟩ := nativeFork_iff hnative
  obtain ⟨rest, hrest⟩ := (planOf_cuts hplan).taken
  have hdrop : messages.drop plan.copiedMessages.length = rest := by
    rw [← hrest, drop_left]
  by_cases hfresh : request.editing = true ∧ plan.previousTurnId = none
  · obtain ⟨hediting, hprevious⟩ := hfresh
    have hkept : keptTurns thread.turns request plan = [] := by simp [keptTurns, hediting, hprevious]
    have hlast : lastTurn request plan = none := by simp [lastTurn, hediting, hprevious]
    rw [hkept]
    constructor
    · intro hperm
      constructor
      · exact fun _ _ => hperm.eq_nil
      · intro hid
        rw [planOf_none hid hplan] at hsteered
        exact absurd ⟨hediting, rfl⟩ hsteered
      · simp [hlast]
      · simp [hlast]
    · intro haligned
      rw [haligned.fresh hediting hprevious]
      exact List.Perm.refl _
  · cases hlast : lastTurn request plan with
    | none =>
      have hid : request.messageId = none := by
        apply hselected.resolve_right
        intro hsome
        unfold lastTurn at hlast
        split at hlast
        · rename_i hediting
          exact hfresh ⟨hediting, hlast⟩
        · exact hsome hlast
      have hkept : keptTurns thread.turns request plan = thread.turns := by
        have hnotFresh : (request.editing && plan.previousTurnId.isNone) = false := by
          rw [← Bool.not_eq_true]
          simpa using hfresh
        simp [keptTurns, hnotFresh, hlast]
      have hcopied : plan.copiedMessages = messages := by rw [planOf_none hid hplan]
      rw [hkept, hcopied]
      have hcontext := @context_iff messages [] thread.turns thread.nodup
      rw [append_nil] at hcontext
      rw [hcontext]
      constructor
      · rintro ⟨hcovered, -⟩
        constructor
        · exact fun hediting hprevious => absurd ⟨hediting, hprevious⟩ hfresh
        · intro _ m hm hnone
          obtain ⟨turn, -, hturn⟩ := hcovered m hm
          rw [hnone] at hturn
          cases hturn
        · simp [hlast]
        · simp [hlast]
      · intro haligned
        refine ⟨?_, by simp⟩
        intro m hm
        obtain ⟨turn, hturn⟩ := Option.ne_none_iff_exists'.mp (haligned.whole hid m hm)
        exact ⟨turn, thread.covers m hm turn hturn, hturn⟩
    | some last =>
      have hkept : keptTurns thread.turns request plan = thread.turns.take (thread.turns.idxOf last + 1) := by
        have hnotFresh : (request.editing && plan.previousTurnId.isNone) = false := by
          rw [← Bool.not_eq_true]
          simpa using hfresh
        simp [keptTurns, hnotFresh, hlast]
      have hcontext := @context_iff plan.copiedMessages rest _ (thread.nodup.sublist (take_sublist (thread.turns.idxOf last + 1) _))
      rw [hrest] at hcontext
      rw [hkept, hcontext]
      constructor
      · rintro ⟨hcovered, hothers⟩
        constructor
        · exact fun hediting hprevious => absurd ⟨hediting, hprevious⟩ hfresh
        · intro hid
          rw [planOf_none hid hplan] at hlast
          simp [lastTurn] at hlast
        · intro last' hlast'
          rw [hlast] at hlast'
          cases hlast'
          exact hcovered
        · intro _ hlast' m hm turn hturn
          rw [hlast] at hlast'
          cases hlast'
          rw [hdrop] at hm
          apply hothers m hm turn
          exact (take_subset_take_left _ (Nat.le_succ _)) hturn
      · intro haligned
        refine ⟨haligned.covered last hlast, ?_⟩
        intro m hm turn hturn
        rw [← hdrop] at hm
        rcases mem_upTo hturn with hbefore | rfl
        · exact haligned.later last hlast m hm turn hbefore
        · rw [← hlast]
          exact hlater m hm

/-- A branch sees the messages it copies and no others, unless it is native and the thread's turns do not fit the cut. -/
theorem fork_sees_prefix (thread : Thread messages) : SeesPrefix source request messages thread.turns ↔
    ∀ plan, planOf messages request = .ok plan → nativeFork source request messages plan = true → Aligned messages thread.turns request plan := by
  constructor
  · intro h plan hplan hnative
    have hfork : forkSession source request messages thread.turns = .ok
        ⟨if request.kind = .sideChat then [] else plan.copiedMessages, plan.copiedMessages, .native,
          keptTurns thread.turns request plan, none⟩ := by
      simp [forkSession, hplan, hnative, bind, Except.bind]
    exact (native_iff thread hplan hnative).mp ((h _ hfork).2.native rfl)
  · intro h _ hbranch
    cases hplan : planOf messages request with
    | error => simp [forkSession, hplan, bind, Except.bind] at hbranch
    | ok plan =>
      simp only [forkSession, hplan, bind, Except.bind, Except.ok.injEq] at hbranch
      subst hbranch
      refine ⟨planOf_cuts hplan, ?_⟩
      cases hnative : nativeFork source request messages plan with
      | true =>
        constructor
        · intro _
          simpa using (native_iff thread hplan hnative).mpr (h plan hplan hnative)
        · simp
      | false =>
        constructor
        · simp
        · intro _
          unfold branchTranscript
          by_cases hnone : plan.copiedMessages.length = 0
          · simp [eq_nil_of_length_eq_zero hnone]
          · simp [hnone]

end Forks

section Dropped

def unstarted : List Message :=
  [⟨"m1", .user, "first", none⟩, ⟨"m2", .user, "second", some "turn-1"⟩, ⟨"m3", .assistant, "reply", some "turn-1"⟩]

theorem unstarted_dropped : ¬ SeesPrefix ⟨.codex, none, some .idle⟩ ⟨some "m2", true, .edit⟩ unstarted ["turn-1"] := by
  intro h
  have hbranch := (h _ rfl).2.native rfl
  have hlength := hbranch.length_eq
  cases hlength

end Dropped

end WorkAgent.Harness.SessionForks
