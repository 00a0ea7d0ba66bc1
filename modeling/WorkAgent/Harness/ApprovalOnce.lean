import WorkAgent.Harness.ApprovalRuns

namespace WorkAgent.Harness.Approvals

open Library Table

variable {w t : World} {e : Event} {es : List Event} {id : UUID} {row : PendingInteraction} {outcome : Outcome}

def Outcome.allows (row : PendingInteraction) : Outcome → Bool
  | allowedOnce => true
  | option optionId => (row.choice optionId).any (fun choice => choice.outcome = .allow)
  | _ => false

def Answer.allows (row : PendingInteraction) : Answer → Prop
  | native _ decision =>
    decision = .plain .allow ∨ ∃ choice ∈ row.choices, decision = .option choice.id ∧ choice.outcome = .allow
  | http body =>
    (body.optionId = .missing ∧ body.decision = .text "allow") ∨
      ∃ choice ∈ row.choices, body.optionId = .text choice.id ∧ choice.outcome = .allow
  | _ => False

structure DecidedOnce (S : World → Event → World → Prop) (es : List Event) (w : World) : Prop where
  settledOnce : ∀ id, es.countP (Event.settles id) ≤ 1
  tornDown : w.disposed = true → (∀ rest, .teardown rest ∉ w.stack) → ∀ id ∈ w.asked,
    es.countP (Event.settles id) = 1 ∨ ∃ frame ∈ w.stack, ∃ outcome, frame.Settles id outcome
  allowed : ∀ id outcome, Resolved es id outcome → ∃ before row answer resolution optionId after,
    es = before ++ .decided row answer resolution optionId :: after ∧ before.countP (Event.decides id) = 0 ∧ row.id = id ∧
      outcome = delivered resolution optionId ∧ (outcome.allows row = true → answer.allows row)
  decidedOnce : ∀ id, es.countP (Event.decides id) ≤ 1
  memory : ∀ row ∈ w.interactions, ∀ outcome, Resolved es row.id outcome → row.outcome = some outcome
  file : ∀ row ∈ w.file, ∀ outcome, Resolved es row.id outcome → row.outcome = some outcome ∨ w.unsaved = true
  final : ∀ fs t, Execution S w fs t → ∀ row ∈ w.file, row.status ≠ .pending →
    ∀ kept ∈ t.file, kept.id = row.id → kept = row
  live : ∀ row ∈ w.interactions, row.status = .pending → row.id ∈ w.resolvers
  restarted : ∀ t, S w .started t → ∀ row ∈ t.interactions, row.status ≠ .pending

theorem choice_of_mem {optionId : String} {choice : NativeApprovalOption} (h : row.choice optionId = some choice) :
    choice ∈ row.choices ∧ choice.id = optionId :=
  ⟨List.mem_of_find?_eq_some h, by simpa using List.find?_some h⟩

theorem resolution_eq_allowed {outcome : NativeOutcome} : outcome.resolution = .allowed ↔ outcome = .allow := by
  cases outcome <;> simp [NativeOutcome.resolution]

variable {resolution : Resolution} {optionId : Option String}

theorem allows_of_delivered
    (h : (delivered resolution optionId).allows row = true) :
    (optionId = none ∧ resolution = .allowed) ∨ ∃ choice ∈ row.choices, optionId = some choice.id ∧ choice.outcome = .allow := by
  cases optionId with
  | none => cases resolution <;> simp_all [delivered, Outcome.allows]
  | some chosen =>
    change (row.choice chosen).any (fun choice => choice.outcome = .allow) = true at h
    cases hchoice : row.choice chosen with
    | none =>
      rw [hchoice] at h
      cases h
    | some choice =>
      rw [hchoice] at h
      obtain ⟨hmem, rfl⟩ := choice_of_mem hchoice
      exact .inr ⟨choice, hmem, rfl, of_decide_eq_true h⟩

variable {live : Bool}

theorem allows_of_native {sessionId : String} {decision : NativeApprovalDecision} (h : respondNative live row sessionId decision = some (resolution, optionId))
    (hallows : (delivered resolution optionId).allows row = true) : (Answer.native sessionId decision).allows row := by
  unfold respondNative at h
  split at h
  · cases h
  · cases decision with
    | plain =>
      obtain ⟨rfl, rfl⟩ := Prod.mk.inj (Option.some.inj h)
      rcases allows_of_delivered hallows with ⟨-, hallowed⟩ | ⟨choice, -, hnone, -⟩
      · rw [resolution_eq_allowed] at hallowed
        exact .inl (by rw [hallowed])
      · cases hnone
    | option =>
      obtain ⟨_, hchoice, heq⟩ := Option.map_eq_some_iff.mp h
      obtain ⟨rfl, rfl⟩ := Prod.mk.inj heq
      obtain ⟨_, rfl⟩ := choice_of_mem hchoice
      rcases allows_of_delivered hallows with ⟨hnone, -⟩ | ⟨other, hother, hid, hallow⟩
      · cases hnone
      · exact .inr ⟨other, hother, by rw [Option.some.inj hid], hallow⟩

theorem allows_of_asks {body : Body}
    (h : body.asks row = some (resolution, optionId)) (hallows : (delivered resolution optionId).allows row = true) :
    (Answer.http body).allows row := by
  unfold Body.asks at h
  cases hchoice : body.choice row with
  | some =>
    simp only [hchoice] at h
    obtain ⟨rfl, rfl⟩ := Prod.mk.inj (Option.some.inj h)
    rcases allows_of_delivered hallows with ⟨hnone, -⟩ | ⟨other, hother, hid, hallow⟩
    · cases hnone
    · unfold Body.choice at hchoice
      split at hchoice
      · rename_i optionId hoption
        split at hchoice
        · obtain ⟨-, rfl⟩ := choice_of_mem hchoice
          exact .inr ⟨other, hother, by rw [hoption, Option.some.inj hid], hallow⟩
        · cases hchoice
      · cases hchoice
  | none =>
    simp only [hchoice] at h
    split at h
    · cases h
    · rename_i hmissing
      split at h
      · rename_i hallow
        exact .inl ⟨not_not.mp hmissing, hallow⟩
      · split at h
        · obtain ⟨rfl, rfl⟩ := Prod.mk.inj (Option.some.inj h)
          cases hallows
        · cases h

theorem allows_of_decides {answer : Answer}
    (h : answer.decides live row = some (resolution, optionId)) (hallows : (delivered resolution optionId).allows row = true) :
    answer.allows row := by
  cases answer with
  | native => exact allows_of_native h hallows
  | http body =>
    change (handle live row body).2 = some (resolution, optionId) at h
    unfold handle at h
    split at h
    · cases h
    · split at h
      · cases h
      · rename_i hasks
        split at h
        · split at h <;> cases h
        · split at h
          · obtain ⟨rfl, rfl⟩ := Prod.mk.inj (Option.some.inj h)
            cases hallows
          · obtain ⟨rfl, rfl⟩ := Prod.mk.inj (Option.some.inj h)
            exact allows_of_asks hasks hallows
  | aborted | tornDown | notPublished =>
    obtain ⟨rfl, rfl⟩ := Prod.mk.inj (Option.some.inj h)
    cases hallows

theorem Sound.allowed (h : Sound es w) (hresolved : Resolved es id outcome) : ∃ before row answer resolution optionId after,
    es = before ++ .decided row answer resolution optionId :: after ∧ before.countP (Event.decides id) = 0 ∧ row.id = id ∧
      outcome = delivered resolution optionId ∧ (outcome.allows row = true → answer.allows row) := by
  obtain ⟨row, answer, resolution, optionId, hmem, rfl, rfl⟩ := h.resolved id outcome hresolved
  obtain ⟨_, hdecides⟩ := h.decided row answer resolution optionId hmem
  obtain ⟨before, after, heq⟩ := List.append_of_mem hmem
  refine ⟨before, row, answer, resolution, optionId, after, heq, ?_, rfl, rfl, allows_of_decides hdecides⟩
  have honce := h.decidedOnce row.id
  rw [heq, List.countP_append, List.countP_cons_of_pos (by simp [Event.decides])] at honce
  omega

def Kept (row : PendingInteraction) (w : World) : Prop :=
  row.id ∈ w.drawn ∧ (∀ kept ∈ w.file, kept.id = row.id → kept = row) ∧ ∀ kept ∈ w.interactions, kept.id = row.id → kept = row

theorem Kept.settle {now : Instant} {settled : PendingInteraction}
    (h : Kept row w) (hrow : row.status ≠ .pending) (hsettled : settled ∈ w.interactions) (hpending : settled.status = .pending) :
    Kept row (w.settle settled resolution optionId now) := by
  refine ⟨h.1, h.2.1, fun kept hkept hid => ?_⟩
  rcases mem_set.mp hkept with rfl | ⟨hold, -⟩
  · rw [h.2.2 settled hsettled hid] at hpending
    exact absurd hpending hrow
  · exact h.2.2 kept hold hid

theorem Kept.resolve {stack : List Frame} (h : Kept row w) : Kept row ((w.withStack stack).resolve id live) := by
  cases live <;> exact h

theorem Kept.step (h : Kept row w) (hrow : row.status ≠ .pending) (hstep : Step w e t) : Kept row t := by
  obtain ⟨hdrawn, hfile, hmemory⟩ := h
  have hrequest : ∀ (details : Details) (id : UUID) (now : Instant), id ∉ w.drawn →
      ∀ kept ∈ w.interactions.set (.requested details id now), kept.id = row.id → kept = row := by
    intro details id now hfresh kept hkept hid
    rcases mem_set.mp hkept with rfl | ⟨hold, -⟩
    · obtain rfl : id = row.id := hid
      exact absurd hdrawn hfresh
    · exact hmemory kept hold hid
  cases hstep with
  | request details id now _ _ hfresh =>
    refine ⟨List.mem_cons_of_mem _ hdrawn, fun kept hkept => ?_, hrequest details id now hfresh⟩
    change kept ∈ retained (w.interactions.set _) at hkept
    exact hrequest details id now hfresh kept (mem_retained hkept)
  | requestFails details id now _ _ hfresh =>
    exact ⟨List.mem_cons_of_mem _ hdrawn, hfile, hrequest details id now hfresh⟩
  | askThrows _ _ _ _ _ hsettled _ hpending | tearsDown _ _ _ _ _ _ hsettled _ hpending
  | answer _ _ _ _ _ _ hsettled hpending =>
    exact Kept.settle ⟨hdrawn, hfile, hmemory⟩ hrow hsettled hpending
  | saved =>
    refine ⟨hdrawn, fun kept hkept => ?_, hmemory⟩
    change kept ∈ retained w.interactions at hkept
    exact hmemory kept (mem_retained hkept)
  | saveFails id _ live stack =>
    have hkept : Kept row ((w.withStack (raise stack)).resolve id live) := Kept.resolve ⟨hdrawn, hfile, hmemory⟩
    exact hkept
  | published | publishFails => exact Kept.resolve ⟨hdrawn, hfile, hmemory⟩
  | body settled _ _ _ _ _ _ hsettled hdecides =>
    exact Kept.settle (w := { w with handlers := w.handlers.erase settled.id }) ⟨hdrawn, hfile, hmemory⟩ hrow hsettled
      (pending_of_handle hdecides)
  | died => exact ⟨hdrawn, hfile, forall_mem_empty⟩
  | started now =>
    have hloaded : ∀ kept ∈ loaded w.file now, kept.id = row.id → kept = row := by
      intro kept hkept hid
      obtain ⟨-, old, hold, holdId, hpending | rfl⟩ := mem_loaded hkept
      · rw [hfile old hold (holdId.trans hid)] at hpending
        exact absurd hpending hrow
      · exact hfile old hold hid
    refine ⟨hdrawn, fun kept hkept => ?_, hloaded⟩
    dsimp only at hkept
    split at hkept
    · exact hloaded kept (mem_retained hkept)
    · exact hfile kept hkept
  | _ => exact ⟨hdrawn, hfile, hmemory⟩

theorem Sound.restarted (hstep : Step w .started t) : ∀ row ∈ t.interactions, row.status ≠ .pending := by
  cases hstep with
  | started => exact fun row hrow => (mem_loaded hrow).1

theorem Sound.decidedOnceIn (h : Sound es w) : DecidedOnce CarefulStep es w :=
  { h with
    tornDown := by
      intro hdisposed hnone id hid
      rcases h.asked id hid with hunsettled | hcount
      · obtain ⟨-, ⟨row, hrow, rfl, hpending⟩ | hframe⟩ := h.unsettled id hunsettled
        · obtain ⟨rest, hin, -⟩ := h.disposed hdisposed row hrow hpending
          exact absurd hin (hnone rest)
        · exact .inr hframe
      · exact .inl hcount
    allowed := fun _ _ hresolved => h.allowed hresolved
    file := fun row hrow outcome hresolved => (h.file row hrow outcome hresolved).imp (fun heq => heq) And.right
    final := by
      intro _ t hrun row hrow hsettled kept hkept hid
      have hstart : Kept row w := by
        refine ⟨h.drawnFile row hrow, fun kept hkept hid => eq_of_key hkept hrow hid, fun kept hkept hid => ?_⟩
        cases hrunning : w.running with
        | true => exact eq_of_key hkept (h.known hrunning row hrow hsettled) hid
        | false =>
          rw [(h.idle hrunning).1] at hkept
          exact absurd hkept (not_mem_empty kept)
      have hend := hrun.invariant (I := Kept row) hstart (fun _ _ _ hs hstep => hs.step hsettled hstep.1)
      exact hend.2.1 kept hkept hid
    live := fun row hrow hpending => (h.pending row hrow hpending).2.1
    restarted := fun _ hstep => Sound.restarted hstep.1 }

theorem Sound.start : Sound [] .start where
  idle := fun _ => ⟨rfl, rfl, rfl, rfl, rfl⟩
  drawnRows := forall_mem_empty
  drawnFile := forall_mem_empty
  fresh := fun _ _ => ⟨rfl, rfl⟩
  pending := forall_mem_empty
  unsettled := fun id hid => by cases hid
  asked := fun id hid => by cases hid
  frames := fun frame hframe => by cases hframe
  decidedOnce := fun _ => Nat.zero_le 1
  settledOnce := fun _ => Nat.zero_le 1
  decided := fun _ _ _ _ hmem => by cases hmem
  resolved := fun _ _ hresolved => by
    obtain ⟨_, hmem⟩ := hresolved
    cases hmem
  memory := forall_mem_empty
  file := forall_mem_empty
  known := fun _ => forall_mem_empty
  disposed := fun hdisposed => by cases hdisposed

/-- In every run of careful steps each approval is decided once, and no tool is let through
otherwise. -/
theorem approvals_decided_once (es : List Event) (w : World) (h : Execution CarefulStep .start es w) :
    DecidedOnce CarefulStep es w := by
  have hsound : Sound es w := h.history Sound.start (fun _ _ _ _ _ hs hstep => hs.step hstep)
  exact hsound.decidedOnceIn

namespace TeardownExample

def first : UUID := ⟨"00000000-0000-4000-8000-000000000021", rfl⟩

def second : UUID := ⟨"00000000-0000-4000-8000-000000000022", rfl⟩

def details : Details := ⟨"session-1", "turn-0", "shell", "Allow shell?", true, []⟩

def interaction (id : UUID) : PendingInteraction := .requested details id 0

def started : World := { World.start with
  interactions := loaded .empty 0
  file := if ∃ row ∈ (Table.empty : Table PendingInteraction.id).rows, row.status = .pending then retained (loaded .empty 0) else .empty
  running := true
  unsaved := false }

def asked (w : World) (id : UUID) : World :=
  { (w.request (interaction id)).save with
    resolvers := id :: w.resolvers, stack := .asking id :: w.stack, asked := id :: w.asked, unsettled := id :: w.unsettled }

def waiting (w : World) (id : UUID) : World := (asked w id).withStack w.stack

theorem waits {w : World} {id : UUID} (hcallable : w.callable = true) (hdisposed : w.disposed = false) (hfresh : id ∉ w.drawn) :
    Execution CarefulStep w [.requested (interaction id), .quiet] (waiting w id) :=
  (Execution.single ⟨.request details id 0 hcallable hdisposed hfresh, trivial⟩).step ⟨.askReturns id w.stack rfl, trivial⟩

def both : World := waiting (waiting started first) second

def waitEvents : List Event :=
  [.started] ++ [.requested (interaction first), .quiet] ++ [.requested (interaction second), .quiet]

theorem both_wait : Execution CarefulStep .start waitEvents both := by
  have h : Execution CarefulStep .start [.started] started := .single ⟨.started 0 rfl, trivial⟩
  exact (h.trans (waits rfl rfl (by decide))).trans (waits rfl rfl (by decide))

theorem mem_both : interaction first ∈ both.interactions :=
  mem_set.mpr (.inr ⟨mem_set.mpr (.inl rfl), by decide⟩)

def allowed : World := both.settle (interaction first) .allowed none 1

def allowedSaved : World := allowed.save.withStack [.publishing first .allowedOnce true]

def allowedEvents : List Event :=
  waitEvents ++ [.decided (interaction first) (.native "session-1" (.plain .allow)) .allowed none] ++ [.quiet] ++
    [.resolved first .allowedOnce true false]

theorem first_allowed : Execution CarefulStep .start allowedEvents ((allowedSaved.withStack []).resolve first true) := by
  have h : Execution CarefulStep .start _ allowed := both_wait.step
    ⟨.answer (interaction first) (.native "session-1" (.plain .allow)) .allowed none 1 rfl mem_both rfl (.inr ⟨_, _, rfl⟩)
      (by decide), trivial⟩
  have h : Execution CarefulStep .start _ allowedSaved := h.step ⟨.saved first .allowedOnce true [] (by decide), trivial⟩
  exact h.step ⟨.published first .allowedOnce true [] rfl, fun hthrown => by cases hthrown⟩

theorem first_decided_once : DecidedOnce CarefulStep allowedEvents ((allowedSaved.withStack []).resolve first true) :=
  approvals_decided_once _ _ first_allowed

def leaving : World := { both with disposed := true, stack := .teardown (both.interactions.rows.map PendingInteraction.id) :: both.stack }

def cancelled : World := (leaving.withStack [.teardown [second]]).settle (interaction first) .cancelled none 1

def cancelledSaved : World := cancelled.save.withStack [.publishing first .cancelled true, .teardown [second]]

theorem teardown_strands : ¬ ∀ es w, Execution Step .start es w → DecidedOnce Step es w := by
  intro hall
  have h : Execution Step .start waitEvents both := both_wait.mono (fun _ _ _ h => h.1)
  have h : Execution Step .start _ leaving := h.step (.teardown rfl rfl)
  have h : Execution Step .start _ cancelled :=
    h.step (.tearsDown first [second] [] (interaction first) 1 (by decide) mem_both rfl rfl)
  have h : Execution Step .start _ cancelledSaved := h.step (.saved first .cancelled true [.teardown [second]] (by decide))
  have h := h.step (.publishFails first .cancelled true [.teardown [second]] rfl)
  rcases (hall _ _ h).tornDown rfl (by simp [raise, World.withStack, World.resolve, World.close]) second List.mem_cons_self with
    hsettled | ⟨frame, hframe, -⟩
  · revert hsettled
    decide
  · cases hframe

end TeardownExample

end WorkAgent.Harness.Approvals
