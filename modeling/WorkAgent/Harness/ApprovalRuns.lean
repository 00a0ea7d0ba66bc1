import WorkAgent.Harness.ApprovalBridge

namespace WorkAgent.Harness.Approvals

open Library List Table

variable {w t : World} {e : Event} {es : List Event} {id : UUID} {row : PendingInteraction} {outcome : Outcome}
  {stack : List Frame}

def Event.decides (id : UUID) : Event → Bool
  | decided row _ _ _ => row.id = id
  | _ => false

def Event.settles (id : UUID) : Event → Bool
  | resolved request _ heard _ => request = id ∧ heard = true
  | rejected request heard => request = id ∧ heard = true
  | _ => false

def Decided (es : List Event) (id : UUID) (outcome : Outcome) : Prop :=
  ∃ row answer resolution optionId, .decided row answer resolution optionId ∈ es ∧ row.id = id ∧
    outcome = delivered resolution optionId

def Resolved (es : List Event) (id : UUID) (outcome : Outcome) : Prop := ∃ thrown, .resolved id outcome true thrown ∈ es

def Frame.Settles (id : UUID) (outcome : Outcome) (frame : Frame) : Prop :=
  frame = .saving id outcome true ∨ frame = .publishing id outcome true

def Frame.Sound (es : List Event) (w : World) : Frame → Prop
  | asking id => id ∈ w.drawn
  | failing id => id ∈ w.drawn ∧ ∀ row ∈ w.interactions, row.id = id → row.status ≠ .pending
  | saving id outcome live => live = true ∧ (∃ row ∈ w.interactions, row.id = id ∧ row.outcome = some outcome) ∧ Decided es id outcome
  | publishing id outcome live =>
    live = true ∧ (∃ row ∈ w.interactions, row.id = id ∧ row.outcome = some outcome) ∧ Decided es id outcome ∧
      ∀ row ∈ w.file, row.id = id → row.status ≠ .pending ∨ w.unsaved = true
  | teardown _ => True

structure Sound (es : List Event) (w : World) : Prop where
  idle : w.running = false → w.interactions = .empty ∧ w.stack = [] ∧ w.asked = [] ∧ w.unsettled = [] ∧ w.unsaved = false
  drawnRows : ∀ row ∈ w.interactions, row.id ∈ w.drawn
  drawnFile : ∀ row ∈ w.file, row.id ∈ w.drawn
  fresh : ∀ id, id ∉ w.drawn → es.countP (Event.decides id) = 0 ∧ es.countP (Event.settles id) = 0
  pending : ∀ row ∈ w.interactions, row.status = .pending → row.selectedOptionId = none ∧ row.id ∈ w.resolvers ∧
    row.id ∈ w.unsettled ∧ es.countP (Event.decides row.id) = 0
  unsettled : ∀ id ∈ w.unsettled, es.countP (Event.settles id) = 0 ∧
    ((∃ row ∈ w.interactions, row.id = id ∧ row.status = .pending) ∨ ∃ frame ∈ w.stack, ∃ outcome, frame.Settles id outcome)
  asked : ∀ id ∈ w.asked, id ∈ w.unsettled ∨ es.countP (Event.settles id) = 1
  frames : ∀ frame ∈ w.stack, frame.Sound es w
  decidedOnce : ∀ id, es.countP (Event.decides id) ≤ 1
  settledOnce : ∀ id, es.countP (Event.settles id) ≤ 1
  decided : ∀ row answer resolution optionId, .decided row answer resolution optionId ∈ es →
    ∃ live, answer.decides live row = some (resolution, optionId)
  resolved : ∀ id outcome, Resolved es id outcome → Decided es id outcome
  memory : ∀ row ∈ w.interactions, ∀ outcome, Resolved es row.id outcome → row.outcome = some outcome
  file : ∀ row ∈ w.file, ∀ outcome, Resolved es row.id outcome →
    row.outcome = some outcome ∨ (row.status = .pending ∧ w.unsaved = true)
  known : w.running = true → ∀ row ∈ w.file, row.status ≠ .pending → row ∈ w.interactions
  disposed : w.disposed = true → ∀ row ∈ w.interactions, row.status = .pending →
    ∃ rest, .teardown rest ∈ w.stack ∧ row.id ∈ rest

/-- Not the steps that go wrong: a save that fails in a request, an exception that reaches the loop
of a teardown before the last pending interaction, and a death after a save has failed. -/
def Careful (w : World) : Event → Prop
  | .requestFailed _ => False
  | .resolved _ _ _ thrown => thrown = true → ∀ frame rest stack, w.stack = frame :: .teardown rest :: stack →
      ∀ row ∈ w.interactions, row.id ∈ rest → row.status ≠ .pending
  | .died => w.unsaved = false
  | _ => True

def CarefulStep (w : World) (e : Event) (t : World) : Prop := Step w e t ∧ Careful w e

theorem outcome_eq_none : row.outcome = none ↔ row.status = .pending := by
  unfold PendingInteraction.outcome
  cases row.status <;> simp

variable {resolution : Resolution} {optionId : Option String} {now : Instant}

theorem outcome_settled (h : row.selectedOptionId = none) :
    (row.settled resolution optionId now).outcome = some (delivered resolution optionId) := by
  unfold PendingInteraction.outcome PendingInteraction.settled
  cases optionId <;> simp [h]

theorem not_pending_of_outcome (h : row.outcome = some outcome) : row.status ≠ .pending := by
  intro hpending
  rw [outcome_eq_none.mpr hpending] at h
  cases h

theorem mem_retained {rows : Table PendingInteraction.id} (h : row ∈ retained rows) : row ∈ rows := by
  rw [← mem_rows] at h
  unfold retained at h
  dsimp only at h
  have hsorted := mem_of_mem_drop h
  rw [mem_mergeSort] at hsorted
  exact hsorted

theorem countP_snoc (p : Event → Bool) : (es ++ [e]).countP p = es.countP p + if p e then 1 else 0 := by
  rw [countP_append, countP_singleton]

theorem countP_snoc_of_not {p : Event → Bool} (h : p e = false) : (es ++ [e]).countP p = es.countP p := by
  rw [countP_snoc, h]
  rfl

theorem Decided.snoc (h : Decided es id outcome) : Decided (es ++ [e]) id outcome := by
  obtain ⟨row, answer, resolution, optionId, hmem, hrest⟩ := h
  exact ⟨row, answer, resolution, optionId, mem_append_left _ hmem, hrest⟩

def Event.Calm (e : Event) : Prop := (∀ id, e.decides id = false) ∧ ∀ id, e.settles id = false

theorem Event.Calm.resolved (he : e.Calm) : Resolved (es ++ [e]) id outcome ↔ Resolved es id outcome := by
  unfold Resolved
  constructor
  · rintro ⟨thrown, hmem⟩
    rcases mem_append.mp hmem with hold | hnew
    · exact ⟨thrown, hold⟩
    · obtain rfl := mem_singleton.mp hnew
      have hsettles := he.2 id
      simp [Event.settles] at hsettles
  · rintro ⟨thrown, hmem⟩
    exact ⟨thrown, mem_append_left _ hmem⟩

variable {frame : Frame}

theorem Frame.Sound.snoc (h : frame.Sound es w) : frame.Sound (es ++ [e]) w := by
  cases frame with
  | asking | failing => exact h
  | saving =>
    obtain ⟨hlive, hrow, hdecided⟩ := h
    exact ⟨hlive, hrow, hdecided.snoc⟩
  | publishing =>
    obtain ⟨hlive, hrow, hdecided, hfile⟩ := h
    exact ⟨hlive, hrow, hdecided.snoc, hfile⟩
  | teardown => trivial

theorem Sound.calm (h : Sound es w) (he : e.Calm) : Sound (es ++ [e]) w :=
  { h with
    fresh := by
      intro id hid
      rw [countP_snoc_of_not (he.1 id), countP_snoc_of_not (he.2 id)]
      exact h.fresh id hid
    pending := by
      intro row hrow hpending
      rw [countP_snoc_of_not (he.1 row.id)]
      exact h.pending row hrow hpending
    unsettled := by
      intro id hid
      rw [countP_snoc_of_not (he.2 id)]
      exact h.unsettled id hid
    asked := by
      intro id hid
      rw [countP_snoc_of_not (he.2 id)]
      exact h.asked id hid
    frames := fun frame hframe => (h.frames frame hframe).snoc
    decidedOnce := by
      intro id
      rw [countP_snoc_of_not (he.1 id)]
      exact h.decidedOnce id
    settledOnce := by
      intro id
      rw [countP_snoc_of_not (he.2 id)]
      exact h.settledOnce id
    decided := by
      intro row answer resolution optionId hmem
      rcases mem_append.mp hmem with hold | hnew
      · exact h.decided row answer resolution optionId hold
      · obtain rfl := mem_singleton.mp hnew
        have hdecides := he.1 row.id
        simp [Event.decides] at hdecides
    resolved := fun id outcome hresolved => (h.resolved id outcome (he.resolved.mp hresolved)).snoc
    memory := fun row hrow outcome hresolved => h.memory row hrow outcome (he.resolved.mp hresolved)
    file := fun row hrow outcome hresolved => h.file row hrow outcome (he.resolved.mp hresolved) }

theorem Sound.withStack (h : Sound es w) (hrunning : w.running = true) (hnew : ∀ frame ∈ stack, frame ∈ w.stack ∨ frame.Sound es w)
    (hkept : ∀ frame ∈ w.stack, ∀ id outcome, frame.Settles id outcome → frame ∈ stack)
    (hcovered : w.disposed = true → ∀ row ∈ w.interactions, row.status = .pending → ∃ rest, .teardown rest ∈ stack ∧ row.id ∈ rest) :
    Sound es (w.withStack stack) :=
  { h with
    idle := fun hidle => by
      rw [show (w.withStack stack).running = w.running from rfl, hrunning] at hidle
      cases hidle
    unsettled := by
      intro id hid
      obtain ⟨hcount, hrow | ⟨frame, hframe, outcome, hsettles⟩⟩ := h.unsettled id hid
      · exact ⟨hcount, .inl hrow⟩
      · exact ⟨hcount, .inr ⟨frame, hkept frame hframe id outcome hsettles, outcome, hsettles⟩⟩
    frames := by
      intro frame hframe
      rcases hnew frame hframe with hold | hsound
      · exact h.frames frame hold
      · exact hsound
    disposed := hcovered }

theorem Sound.running_of_stack (h : Sound es w) (hstack : w.stack = frame :: stack) : w.running = true := by
  by_contra hidle
  have hempty := (h.idle (by simpa using hidle)).2.1
  rw [hstack] at hempty
  cases hempty

variable {live : Bool}

theorem Sound.settle {answer : Answer}
    (h : Sound es w) (hrow : row ∈ w.interactions) (hpending : row.status = .pending)
    (hdecides : answer.decides live row = some (resolution, optionId)) :
    Sound (es ++ [.decided row answer resolution optionId]) (w.settle row resolution optionId now) := by
  obtain ⟨hoption, hresolver, _, hnone⟩ := h.pending row hrow hpending
  have hrows : ∀ x ∈ (w.settle row resolution optionId now).interactions,
      x = row.settled resolution optionId now ∨ (x ∈ w.interactions ∧ x.id ≠ row.id) := fun x hx => Table.mem_set.mp hx
  have hold : ∀ x ∈ w.interactions, x.status ≠ .pending → x ∈ (w.settle row resolution optionId now).interactions := by
    intro x hx hsettled
    refine Table.mem_set.mpr (.inr ⟨hx, fun hid => hsettled ?_⟩)
    rw [eq_of_key hx hrow hid]
    exact hpending
  have hdecided : Decided (es ++ [.decided row answer resolution optionId]) row.id (delivered resolution optionId) :=
    ⟨row, answer, resolution, optionId, mem_append_right _ (mem_singleton.mpr rfl), rfl, rfl⟩
  have hsettles : ∀ id, (Event.decided row answer resolution optionId).settles id = false := fun _ => rfl
  have hother : ∀ id, id ≠ row.id → (Event.decided row answer resolution optionId).decides id = false := by
    intro id hid
    exact decide_eq_false (Ne.symm hid)
  have hresolved : ∀ id outcome, Resolved (es ++ [.decided row answer resolution optionId]) id outcome → Resolved es id outcome := by
    rintro id outcome ⟨thrown, hmem⟩
    rcases mem_append.mp hmem with hmem | hmem
    · exact ⟨thrown, hmem⟩
    · cases mem_singleton.mp hmem
  have hframe : ∀ frame : Frame, frame.Sound es w →
      frame.Sound (es ++ [.decided row answer resolution optionId]) (w.settle row resolution optionId now) := by
    intro frame hsound
    cases frame with
    | asking => exact hsound
    | failing =>
      refine ⟨hsound.1, fun x hx hid => ?_⟩
      rcases hrows x hx with rfl | ⟨hx, -⟩
      · exact InteractionStatus.noConfusion
      · exact hsound.2 x hx hid
    | saving =>
      obtain ⟨hlive, ⟨x, hx, hid, hout⟩, hdec⟩ := hsound
      exact ⟨hlive, ⟨x, hold x hx (not_pending_of_outcome hout), hid, hout⟩, hdec.snoc⟩
    | publishing =>
      obtain ⟨hlive, ⟨x, hx, hid, hout⟩, hdec, hfile⟩ := hsound
      exact ⟨hlive, ⟨x, hold x hx (not_pending_of_outcome hout), hid, hout⟩, hdec.snoc, hfile⟩
    | teardown => trivial
  refine ⟨?_, ?_, h.drawnFile, ?_, ?_, ?_, ?_, ?_, ?_, ?_, ?_, ?_, ?_, ?_, ?_, ?_⟩
  · intro hidle
    obtain ⟨hempty, -⟩ := h.idle hidle
    rw [hempty] at hrow
    exact absurd hrow (not_mem_empty row)
  · intro x hx
    rcases hrows x hx with rfl | ⟨hx, -⟩
    · exact h.drawnRows row hrow
    · exact h.drawnRows x hx
  · intro id hid
    have hne : id ≠ row.id := fun heq => hid (heq ▸ h.drawnRows row hrow)
    rw [countP_snoc_of_not (hother id hne), countP_snoc_of_not (hsettles id)]
    exact h.fresh id hid
  · intro x hx hxp
    rcases hrows x hx with rfl | ⟨hx, hne⟩
    · cases hxp
    · obtain ⟨hnoOption, hres, hun, hzero⟩ := h.pending x hx hxp
      rw [countP_snoc_of_not (hother x.id hne)]
      exact ⟨hnoOption, mem_filter.mpr ⟨hres, by simpa using hne⟩, hun, hzero⟩
  · intro id hid
    rw [countP_snoc_of_not (hsettles id)]
    obtain ⟨hcount, ⟨x, hx, hxid, hxp⟩ | ⟨frame, hmem, outcome, hs⟩⟩ := h.unsettled id hid
    · refine ⟨hcount, ?_⟩
      by_cases hne : x.id = row.id
      · refine .inr ⟨_, mem_cons_self, delivered resolution optionId, .inl ?_⟩
        rw [decide_eq_true hresolver, ← hne, hxid]
      · exact .inl ⟨x, Table.mem_set.mpr (.inr ⟨hx, hne⟩), hxid, hxp⟩
    · exact ⟨hcount, .inr ⟨frame, mem_cons_of_mem _ hmem, outcome, hs⟩⟩
  · intro id hid
    rw [countP_snoc_of_not (hsettles id)]
    exact h.asked id hid
  · intro frame hmem
    rcases mem_cons.mp hmem with rfl | hmem
    · exact ⟨decide_eq_true hresolver, ⟨_, Table.mem_set.mpr (.inl rfl), rfl, outcome_settled hoption⟩, hdecided⟩
    · exact hframe frame (h.frames frame hmem)
  · intro id
    by_cases hid : id = row.id
    · subst hid
      rw [countP_snoc, hnone]
      split <;> simp
    · rw [countP_snoc_of_not (hother id hid)]
      exact h.decidedOnce id
  · intro id
    rw [countP_snoc_of_not (hsettles id)]
    exact h.settledOnce id
  · intro x xanswer xresolution xoption hmem
    rcases mem_append.mp hmem with hmem | hmem
    · exact h.decided x xanswer xresolution xoption hmem
    · cases mem_singleton.mp hmem
      exact ⟨live, hdecides⟩
  · intro id outcome hres
    exact (h.resolved id outcome (hresolved id outcome hres)).snoc
  · intro x hx outcome hres
    have hres := hresolved x.id outcome hres
    rcases hrows x hx with rfl | ⟨hx, -⟩
    · have hout := h.memory row hrow outcome hres
      exact absurd hpending (not_pending_of_outcome hout)
    · exact h.memory x hx outcome hres
  · intro x hx outcome hres
    exact h.file x hx outcome (hresolved x.id outcome hres)
  · intro hrunning x hx hsettled
    exact hold x (h.known hrunning x hx hsettled) hsettled
  · intro hdisposed x hx hxp
    rcases hrows x hx with rfl | ⟨hx, -⟩
    · cases hxp
    · obtain ⟨rest, hmem, hin⟩ := h.disposed hdisposed x hx hxp
      exact ⟨rest, mem_cons_of_mem _ hmem, hin⟩

theorem Sound.handlers {handlers : List UUID} (h : Sound es w) : Sound es { w with handlers := handlers } :=
  { h with
    frames := by
      intro frame hframe
      have hsound := h.frames frame hframe
      cases frame <;> exact hsound }

theorem Sound.saved (h : Sound es w) (hstack : w.stack = .saving id outcome live :: stack) :
    Sound es (w.save.withStack (.publishing id outcome live :: stack)) := by
  have hrunning := h.running_of_stack hstack
  have hmem : ∀ frame ∈ stack, frame ∈ w.stack := fun frame hframe => hstack ▸ mem_cons_of_mem _ hframe
  obtain ⟨hlive, hrow, hdecided⟩ := h.frames (.saving id outcome live) (hstack ▸ mem_cons_self)
  have hfile : ∀ x ∈ w.interactions, x.outcome = some outcome → ∀ y ∈ retained w.interactions, y.id = x.id → y.status ≠ .pending := by
    intro x hx hout y hy hid
    rw [eq_of_key (mem_retained hy) hx hid]
    exact not_pending_of_outcome hout
  refine { h with idle := ?_, drawnFile := ?_, unsettled := ?_, frames := ?_, file := ?_, known := ?_, disposed := ?_ }
  · intro hidle
    change w.running = false at hidle
    rw [hrunning] at hidle
    cases hidle
  · intro x hx
    exact h.drawnRows x (mem_retained hx)
  · intro x hx
    obtain ⟨hcount, hpending | ⟨frame, hframe, out, hsettles⟩⟩ := h.unsettled x hx
    · exact ⟨hcount, .inl hpending⟩
    · refine ⟨hcount, .inr ?_⟩
      rw [hstack] at hframe
      rcases mem_cons.mp hframe with rfl | hframe
      · rcases hsettles with heq | heq <;> cases heq
        exact ⟨_, mem_cons_self, outcome, .inr rfl⟩
      · exact ⟨frame, mem_cons_of_mem _ hframe, out, hsettles⟩
  · intro frame hframe
    rcases mem_cons.mp hframe with rfl | hframe
    · obtain ⟨x, hx, hid, hout⟩ := hrow
      refine ⟨hlive, ⟨x, hx, hid, hout⟩, hdecided, fun y hy hyid => .inl ?_⟩
      exact hfile x hx hout y hy (hyid.trans hid.symm)
    · have hsound := h.frames frame (hmem frame hframe)
      cases frame with
      | asking | failing | saving => exact hsound
      | publishing _ out =>
        obtain ⟨holive, ⟨x, hx, hid, hout⟩, hodecided, -⟩ := hsound
        refine ⟨holive, ⟨x, hx, hid, hout⟩, hodecided, fun y hy hyid => .inl ?_⟩
        have hxout : x.outcome = some out := hout
        intro hpending
        rw [eq_of_key (mem_retained hy) hx (hyid.trans hid.symm)] at hpending
        exact not_pending_of_outcome hxout hpending
      | teardown => trivial
  · intro x hx out hresolved
    exact .inl (h.memory x (mem_retained hx) out hresolved)
  · intro _ x hx _
    change x ∈ retained w.interactions at hx
    exact mem_retained hx
  · intro hdisposed x hx hpending
    obtain ⟨rest, hin, hrest⟩ := h.disposed hdisposed x hx hpending
    rw [hstack] at hin
    rcases mem_cons.mp hin with heq | hin
    · cases heq
    · exact ⟨rest, mem_cons_of_mem _ hin, hrest⟩

theorem mem_raise (h : frame ∈ raise stack) : frame ∈ stack := by
  unfold raise at h
  split at h
  · exact mem_cons_of_mem _ h
  · exact h

theorem mem_raise_of_mem (h : frame ∈ stack) (hother : ∀ rest, frame ≠ .teardown rest) : frame ∈ raise stack := by
  unfold raise
  split
  · rcases mem_cons.mp h with heq | h
    · exact absurd heq (hother _)
    · exact h
  · exact h

/-- An event that decides nothing and settles `id` while it is open. -/
theorem Sound.closed {e : Event} (h : Sound es w) (hdecides : ∀ other, e.decides other = false)
    (hsettles : ∀ other, e.settles other = decide (id = other ∧ id ∈ w.unsettled)) :
    (∀ other ∈ w.asked, (other ∈ w.unsettled ∧ other ≠ id) ∨ (es ++ [e]).countP (Event.settles other) = 1) ∧
      (∀ other, (es ++ [e]).countP (Event.decides other) ≤ 1) ∧ ∀ other, (es ++ [e]).countP (Event.settles other) ≤ 1 := by
  refine ⟨?_, ?_, ?_⟩
  · intro other hother
    rw [countP_snoc, hsettles]
    by_cases heq : id = other
    · subst heq
      by_cases hunsettled : id ∈ w.unsettled
      · simp [hunsettled, (h.unsettled id hunsettled).1]
      · simp only [hunsettled, and_false, decide_false]
        exact .inr ((h.asked id hother).resolve_left hunsettled)
    · simp only [heq, false_and, decide_false]
      rcases h.asked other hother with hunsettled | hcount
      · exact .inl ⟨hunsettled, Ne.symm heq⟩
      · exact .inr hcount
  · intro other
    rw [countP_snoc_of_not (hdecides other)]
    exact h.decidedOnce other
  · intro other
    rw [countP_snoc, hsettles]
    by_cases hboth : id = other ∧ id ∈ w.unsettled
    · obtain ⟨rfl, hunsettled⟩ := hboth
      simp [hunsettled, (h.unsettled id hunsettled).1]
    · simp only [hboth, decide_false]
      exact h.settledOnce other

theorem Sound.finish {thrown unsaved : Bool} {rest : List Frame} (h : Sound es w) (hstack : w.stack = frame :: stack)
    (hframe : frame = .saving id outcome live ∨ frame = .publishing id outcome live)
    (hunsaved : unsaved = w.unsaved ∨ unsaved = true) (hsaving : frame = .saving id outcome live → unsaved = true)
    (hrest : rest = stack ∨ rest = raise stack)
    (hcareful : rest = raise stack → ∀ ids tail, stack = .teardown ids :: tail →
      ∀ row ∈ w.interactions, row.id ∈ ids → row.status ≠ .pending) :
    Sound (es ++ [.resolved id outcome (live && id ∈ w.unsettled) thrown])
      { (w.withStack rest).resolve id live with unsaved := unsaved } := by
  have hrunning := h.running_of_stack hstack
  have hsound := h.frames frame (hstack ▸ mem_cons_self)
  obtain ⟨rfl, ⟨x, hx, hid, hout⟩, hdecided⟩ : live = true ∧ (∃ row ∈ w.interactions, row.id = id ∧ row.outcome = some outcome) ∧
      Decided es id outcome := by
    rcases hframe with rfl | rfl
    · exact hsound
    · exact ⟨hsound.1, hsound.2.1, hsound.2.2.1⟩
  have hmem : ∀ f ∈ rest, f ∈ w.stack := by
    intro f hf
    rw [hstack]
    apply mem_cons_of_mem
    rcases hrest with rfl | rfl
    · exact hf
    · exact mem_raise hf
  have hkept : ∀ f ∈ w.stack, ∀ other out, other ≠ id → f.Settles other out → f ∈ rest := by
    intro f hf other out hne hsettles
    have hin : f ∈ stack := by
      rw [hstack] at hf
      rcases mem_cons.mp hf with rfl | hf
      · rcases hframe with rfl | rfl <;> rcases hsettles with heq | heq <;> cases heq <;> exact absurd rfl hne
      · exact hf
    rcases hrest with rfl | rfl
    · exact hin
    · apply mem_raise_of_mem hin
      rintro ids rfl
      rcases hsettles with heq | heq <;> cases heq
  have hdecides : ∀ other, (Event.resolved id outcome (true && id ∈ w.unsettled) thrown).decides other = false := fun _ => rfl
  have hsettles : ∀ other, (Event.resolved id outcome (true && id ∈ w.unsettled) thrown).settles other = decide (id = other ∧ id ∈ w.unsettled) := by
    intro other
    simp [Event.settles]
  have hresolved : ∀ other out, Resolved (es ++ [.resolved id outcome (true && id ∈ w.unsettled) thrown]) other out →
      Resolved es other out ∨ (other = id ∧ out = outcome) := by
    rintro other out ⟨ended, hin⟩
    rcases mem_append.mp hin with hin | hin
    · exact .inl ⟨ended, hin⟩
    · obtain ⟨rfl, rfl, -, -⟩ := Event.resolved.inj (mem_singleton.mp hin)
      exact .inr ⟨rfl, rfl⟩
  have hopen : ∀ other, other ∈ ((w.withStack rest).resolve id true).unsettled ↔ other ∈ w.unsettled ∧ other ≠ id := by
    intro other
    change other ∈ w.unsettled.filter (· ≠ id) ↔ _
    rw [mem_filter, decide_eq_true_eq]
  have hpendingId : ∀ y ∈ w.interactions, y.status = .pending → y.id ≠ id := by
    intro y hy hpending heq
    rw [eq_of_key hy hx (heq.trans hid.symm)] at hpending
    exact not_pending_of_outcome hout hpending
  obtain ⟨haskedOnce, hdecidedOnce, hsettledOnce⟩ := h.closed hdecides hsettles
  refine ⟨?_, h.drawnRows, h.drawnFile, ?_, ?_, ?_, ?_, ?_, ?_, ?_, ?_, ?_, ?_, ?_, h.known, ?_⟩
  · intro hidle
    change w.running = false at hidle
    rw [hrunning] at hidle
    cases hidle
  · intro other hother
    have hne : id ≠ other := by
      rintro rfl
      exact hother (hid ▸ h.drawnRows x hx)
    rw [countP_snoc_of_not (hdecides other), countP_snoc_of_not (by rw [hsettles]; simp [hne])]
    exact h.fresh other hother
  · intro y hy hpending
    obtain ⟨hoption, hresolver, hunsettled, hcount⟩ := h.pending y hy hpending
    rw [countP_snoc_of_not (hdecides y.id)]
    exact ⟨hoption, hresolver, (hopen y.id).mpr ⟨hunsettled, hpendingId y hy hpending⟩, hcount⟩
  · intro other hother
    obtain ⟨hunsettled, hne⟩ := (hopen other).mp hother
    rw [countP_snoc_of_not (by rw [hsettles]; simp [Ne.symm hne])]
    obtain ⟨hcount, hpending | ⟨f, hf, out, hs⟩⟩ := h.unsettled other hunsettled
    · exact ⟨hcount, .inl hpending⟩
    · exact ⟨hcount, .inr ⟨f, hkept f hf other out hne hs, out, hs⟩⟩
  · exact fun other hother => (haskedOnce other hother).imp_left (hopen other).mpr
  · intro f hf
    have hfsound := h.frames f (hmem f hf)
    cases f with
    | asking | failing => exact hfsound
    | saving =>
      obtain ⟨holive, hrow, hodecided⟩ := hfsound
      exact ⟨holive, hrow, hodecided.snoc⟩
    | publishing =>
      obtain ⟨holive, hrow, hodecided, hfile⟩ := hfsound
      refine ⟨holive, hrow, hodecided.snoc, fun y hy hyid => ?_⟩
      rcases hfile y hy hyid with hsettled | hun
      · exact .inl hsettled
      · exact .inr (hunsaved.elim (fun heq => heq.trans hun) (fun heq => heq))
    | teardown => trivial
  · exact hdecidedOnce
  · exact hsettledOnce
  · intro row answer resolution optionId hin
    rcases mem_append.mp hin with hin | hin
    · exact h.decided row answer resolution optionId hin
    · cases mem_singleton.mp hin
  · intro other out hres
    rcases hresolved other out hres with hold | ⟨rfl, rfl⟩
    · exact (h.resolved other out hold).snoc
    · exact hdecided.snoc
  · intro y hy out hres
    rcases hresolved y.id out hres with hold | ⟨heq, rfl⟩
    · exact h.memory y hy out hold
    · rw [eq_of_key hy hx (heq.trans hid.symm)]
      exact hout
  · intro y hy out hres
    rcases hresolved y.id out hres with hold | ⟨heq, rfl⟩
    · rcases h.file y hy out hold with hmatch | ⟨hpending, hun⟩
      · exact .inl hmatch
      · exact .inr ⟨hpending, hunsaved.elim (fun heq => heq.trans hun) (fun heq => heq)⟩
    · by_cases hpending : y.status = .pending
      · refine .inr ⟨hpending, ?_⟩
        rcases hframe with rfl | rfl
        · exact hsaving rfl
        · rcases hsound.2.2.2 y hy heq with hsettled | hun
          · exact absurd hpending hsettled
          · exact hunsaved.elim (fun heq => heq.trans hun) (fun heq => heq)
      · rw [eq_of_key (h.known hrunning y hy hpending) hx (heq.trans hid.symm)]
        exact .inl hout
  · intro hdisposed y hy hpending
    obtain ⟨ids, hin, hrow⟩ := h.disposed hdisposed y hy hpending
    rw [hstack] at hin
    have htail : .teardown ids ∈ stack := by
      rcases mem_cons.mp hin with rfl | hin
      · rcases hframe with heq | heq <;> cases heq
      · exact hin
    refine ⟨ids, ?_, hrow⟩
    rcases hrest with rfl | hraise
    · exact htail
    · cases stack with
      | nil => cases htail
      | cons top tail =>
        cases top with
        | teardown =>
          rcases mem_cons.mp htail with heq | htail
          · cases heq
            exact absurd hpending (hcareful hraise ids tail rfl y hy hrow)
          · rw [hraise]
            exact htail
        | _ =>
          rw [hraise]
          exact htail

theorem Sound.rejects (h : Sound es w) (hstack : w.stack = .failing id :: stack) :
    Sound (es ++ [.rejected id (id ∈ w.unsettled)]) ((w.withStack stack).close id) := by
  have hrunning := h.running_of_stack hstack
  have hfailing := h.frames (.failing id) (hstack ▸ mem_cons_self)
  have hdecides : ∀ other, (Event.rejected id (id ∈ w.unsettled)).decides other = false := fun _ => rfl
  have hsettles : ∀ other, (Event.rejected id (id ∈ w.unsettled)).settles other = decide (id = other ∧ id ∈ w.unsettled) := by
    intro other
    simp [Event.settles]
  have hresolved : ∀ other out, Resolved (es ++ [.rejected id (id ∈ w.unsettled)]) other out → Resolved es other out := by
    rintro other out ⟨ended, hin⟩
    rcases mem_append.mp hin with hin | hin
    · exact ⟨ended, hin⟩
    · cases mem_singleton.mp hin
  have hopen : ∀ other, other ∈ ((w.withStack stack).close id).unsettled ↔ other ∈ w.unsettled ∧ other ≠ id := by
    intro other
    change other ∈ w.unsettled.filter (· ≠ id) ↔ _
    rw [mem_filter, decide_eq_true_eq]
  have hmem : ∀ f ∈ stack, f ∈ w.stack := fun f hf => hstack ▸ mem_cons_of_mem _ hf
  have hkept : ∀ f ∈ w.stack, f ≠ .failing id → f ∈ stack := by
    intro f hf hne
    rw [hstack] at hf
    exact (mem_cons.mp hf).resolve_left hne
  obtain ⟨haskedOnce, hdecidedOnce, hsettledOnce⟩ := h.closed hdecides hsettles
  refine ⟨?_, h.drawnRows, h.drawnFile, ?_, ?_, ?_, ?_, ?_, ?_, ?_, ?_, ?_, ?_, ?_, h.known, ?_⟩
  · intro hidle
    change w.running = false at hidle
    rw [hrunning] at hidle
    cases hidle
  · intro other hother
    obtain ⟨hdecided, hsettled⟩ := h.fresh other hother
    refine ⟨(countP_snoc_of_not (hdecides other)).trans hdecided, (countP_snoc_of_not ?_).trans hsettled⟩
    rw [hsettles]
    refine decide_eq_false ?_
    rintro ⟨rfl, hunsettled⟩
    obtain ⟨-, ⟨x, hx, hid, -⟩ | ⟨f, hf, out, hs⟩⟩ := h.unsettled id hunsettled
    · exact hother (hid ▸ h.drawnRows x hx)
    · have hsound := h.frames f hf
      rcases hs with rfl | rfl
      · obtain ⟨-, ⟨x, hx, hid, -⟩, -⟩ := hsound
        exact hother (hid ▸ h.drawnRows x hx)
      · obtain ⟨-, ⟨x, hx, hid, -⟩, -⟩ := hsound
        exact hother (hid ▸ h.drawnRows x hx)
  · intro y hy hpending
    obtain ⟨hoption, hresolver, hunsettled, hcount⟩ := h.pending y hy hpending
    rw [countP_snoc_of_not (hdecides y.id)]
    refine ⟨hoption, hresolver, (hopen y.id).mpr ⟨hunsettled, fun heq => ?_⟩, hcount⟩
    exact hfailing.2 y hy heq hpending
  · intro other hother
    obtain ⟨hunsettled, hne⟩ := (hopen other).mp hother
    rw [countP_snoc_of_not (by rw [hsettles]; simp [Ne.symm hne])]
    obtain ⟨hcount, hpending | ⟨f, hf, out, hs⟩⟩ := h.unsettled other hunsettled
    · exact ⟨hcount, .inl hpending⟩
    · refine ⟨hcount, .inr ⟨f, hkept f hf ?_, out, hs⟩⟩
      rintro rfl
      rcases hs with heq | heq <;> cases heq
  · exact fun other hother => (haskedOnce other hother).imp_left (hopen other).mpr
  · intro f hf
    have hsound := (h.frames f (hmem f hf)).snoc (e := .rejected id (id ∈ w.unsettled))
    cases f <;> exact hsound
  · exact hdecidedOnce
  · exact hsettledOnce
  · intro row answer resolution optionId hin
    rcases mem_append.mp hin with hin | hin
    · exact h.decided row answer resolution optionId hin
    · cases mem_singleton.mp hin
  · exact fun other out hres => (h.resolved other out (hresolved other out hres)).snoc
  · exact fun y hy out hres => h.memory y hy out (hresolved y.id out hres)
  · exact fun y hy out hres => h.file y hy out (hresolved y.id out hres)
  · intro hdisposed y hy hpending
    obtain ⟨ids, hin, hrow⟩ := h.disposed hdisposed y hy hpending
    exact ⟨ids, hkept _ hin (by simp), hrow⟩

theorem calm_quiet : Event.quiet.Calm := ⟨fun _ => rfl, fun _ => rfl⟩

theorem calm_requested : (Event.requested row).Calm := ⟨fun _ => rfl, fun _ => rfl⟩

theorem calm_died : Event.died.Calm := ⟨fun _ => rfl, fun _ => rfl⟩

theorem calm_started : Event.started.Calm := ⟨fun _ => rfl, fun _ => rfl⟩

theorem resolved_count (h : Resolved es id outcome) : es.countP (Event.settles id) ≠ 0 := by
  obtain ⟨thrown, hmem⟩ := h
  have hpos := countP_pos_iff.mpr ⟨_, hmem, (by simp [Event.settles] : Event.settles id (.resolved id outcome true thrown) = true)⟩
  omega

theorem Sound.request {details : Details} (h : Sound es w) (hrunning : w.running = true) (hdisposed : w.disposed = false)
    (hfresh : id ∉ w.drawn) : Sound es
      { (w.request (.requested details id now)).save with
        resolvers := id :: w.resolvers, stack := .asking id :: w.stack, asked := id :: w.asked, unsettled := id :: w.unsettled } := by
  obtain ⟨hdecides, hsettles⟩ := h.fresh id hfresh
  have hnew : ∀ y ∈ w.interactions, y.id ≠ id := by
    rintro y hy rfl
    exact hfresh (h.drawnRows y hy)
  have hold : ∀ y ∈ w.interactions, y ∈ w.interactions.set (.requested details id now) :=
    fun y hy => Table.mem_set.mpr (.inr ⟨hy, hnew y hy⟩)
  have hcases : ∀ y ∈ w.interactions.set (.requested details id now), y = .requested details id now ∨ y ∈ w.interactions := by
    intro y hy
    rcases Table.mem_set.mp hy with heq | ⟨hy, -⟩
    · exact .inl heq
    · exact .inr hy
  have hmemory : ∀ y ∈ w.interactions.set (.requested details id now), ∀ out, Resolved es y.id out → y.outcome = some out := by
    intro y hy out hres
    rcases hcases y hy with rfl | hy
    · exact absurd hsettles (resolved_count hres)
    · exact h.memory y hy out hres
  refine ⟨?_, ?_, ?_, ?_, ?_, ?_, ?_, ?_, h.decidedOnce, h.settledOnce, h.decided, h.resolved, hmemory, ?_, ?_, ?_⟩
  · intro hidle
    change w.running = false at hidle
    rw [hrunning] at hidle
    cases hidle
  · intro y hy
    rcases hcases y hy with rfl | hy
    · exact mem_cons_self
    · exact mem_cons_of_mem _ (h.drawnRows y hy)
  · intro y hy
    change y ∈ retained (w.interactions.set _) at hy
    rcases hcases y (mem_retained hy) with rfl | hy
    · exact mem_cons_self
    · exact mem_cons_of_mem _ (h.drawnRows y hy)
  · intro other hother
    exact h.fresh other (fun hin => hother (mem_cons_of_mem _ hin))
  · intro y hy hpending
    rcases hcases y hy with rfl | hy
    · exact ⟨rfl, mem_cons_self, mem_cons_self, hdecides⟩
    · obtain ⟨hoption, hresolver, hunsettled, hcount⟩ := h.pending y hy hpending
      exact ⟨hoption, mem_cons_of_mem _ hresolver, mem_cons_of_mem _ hunsettled, hcount⟩
  · intro other hother
    rcases mem_cons.mp hother with rfl | hother
    · exact ⟨hsettles, .inl ⟨_, Table.mem_set.mpr (.inl rfl), rfl, rfl⟩⟩
    · obtain ⟨hcount, ⟨y, hy, hid, hpending⟩ | ⟨f, hf, out, hs⟩⟩ := h.unsettled other hother
      · exact ⟨hcount, .inl ⟨y, hold y hy, hid, hpending⟩⟩
      · exact ⟨hcount, .inr ⟨f, mem_cons_of_mem _ hf, out, hs⟩⟩
  · intro other hother
    rcases mem_cons.mp hother with rfl | hother
    · exact .inl mem_cons_self
    · exact (h.asked other hother).imp (mem_cons_of_mem _) (fun hcount => hcount)
  · intro f hf
    rcases mem_cons.mp hf with rfl | hf
    · exact mem_cons_self
    · have hsound := h.frames f hf
      cases f with
      | asking => exact mem_cons_of_mem _ hsound
      | failing other =>
        refine ⟨mem_cons_of_mem _ hsound.1, fun y hy hid => ?_⟩
        rcases hcases y hy with rfl | hy
        · obtain rfl : id = other := hid
          exact absurd hsound.1 hfresh
        · exact hsound.2 y hy hid
      | saving =>
        obtain ⟨hlive, ⟨y, hy, hid, hout⟩, hdecided⟩ := hsound
        exact ⟨hlive, ⟨y, hold y hy, hid, hout⟩, hdecided⟩
      | publishing =>
        obtain ⟨hlive, ⟨y, hy, hid, hout⟩, hdecided, -⟩ := hsound
        refine ⟨hlive, ⟨y, hold y hy, hid, hout⟩, hdecided, fun x hx hxid => .inl ?_⟩
        change x ∈ retained (w.interactions.set _) at hx
        rw [eq_of_key (mem_retained hx) (hold y hy) (hxid.trans hid.symm)]
        exact not_pending_of_outcome hout
      | teardown => trivial
  · intro y hy out hres
    change y ∈ retained (w.interactions.set _) at hy
    exact .inl (hmemory y (mem_retained hy) out hres)
  · intro _ y hy _
    change y ∈ retained (w.interactions.set _) at hy
    exact mem_retained hy
  · intro hdis
    change w.disposed = true at hdis
    rw [hdisposed] at hdis
    cases hdis

theorem Sound.died (h : Sound es w) (hunsaved : w.unsaved = false) : Sound es w.dead :=
  { h with
    idle := fun _ => ⟨rfl, rfl, rfl, rfl, hunsaved⟩
    drawnRows := forall_mem_empty
    pending := forall_mem_empty
    unsettled := fun id hid => by cases hid
    asked := fun id hid => by cases hid
    frames := fun frame hframe => by cases hframe
    memory := forall_mem_empty
    known := fun hrunning => by cases hrunning
    disposed := fun hdisposed => by cases hdisposed }

theorem mem_loaded {file : Table PendingInteraction.id} (h : row ∈ loaded file now) :
    row.status ≠ .pending ∧ ∃ old ∈ file, old.id = row.id ∧ (old.status = .pending ∨ old = row) := by
  obtain ⟨old, hold, hid, ⟨hpending, rfl⟩ | ⟨hsettled, rfl⟩⟩ := exists_of_mem_update h
  · refine ⟨?_, old, hold, hid, .inl hpending⟩
    unfold PendingInteraction.recovered
    rw [if_pos hpending]
    exact InteractionStatus.noConfusion
  · exact ⟨hsettled, _, hold, rfl, .inr rfl⟩

theorem Sound.started (h : Sound es w) (hidle : w.running = false) : Sound es
    { w with
      interactions := loaded w.file now
      file := if ∃ row ∈ w.file.rows, row.status = .pending then retained (loaded w.file now) else w.file
      running := true
      unsaved := false } := by
  obtain ⟨-, hstack, hasked, hunsettled, hunsaved⟩ := h.idle hidle
  have hdrawn : ∀ y ∈ loaded w.file now, y.id ∈ w.drawn := by
    intro y hy
    obtain ⟨-, old, hold, hid, -⟩ := mem_loaded hy
    exact hid ▸ h.drawnFile old hold
  have hresolved : ∀ y ∈ w.file, ∀ out, Resolved es y.id out → y.outcome = some out := by
    intro y hy out hres
    rcases h.file y hy out hres with hmatch | ⟨-, hun⟩
    · exact hmatch
    · rw [hunsaved] at hun
      cases hun
  have hmemory : ∀ y ∈ loaded w.file now, ∀ out, Resolved es y.id out → y.outcome = some out := by
    intro y hy out hres
    obtain ⟨-, old, hold, hid, hpending | rfl⟩ := mem_loaded hy
    · have hmatch := hresolved old hold out (hid ▸ hres)
      exact absurd hpending (not_pending_of_outcome hmatch)
    · exact hresolved old hold out hres
  refine ⟨?_, hdrawn, ?_, h.fresh, ?_, ?_, ?_, ?_, h.decidedOnce, h.settledOnce, h.decided, h.resolved,
    hmemory, ?_, ?_, ?_⟩
  · intro hidle
    cases hidle
  · intro y hy
    dsimp only at hy
    split at hy
    · exact hdrawn y (mem_retained hy)
    · exact h.drawnFile y hy
  · intro y hy hpending
    exact absurd hpending (mem_loaded hy).1
  · intro id hid
    dsimp only at hid
    rw [hunsettled] at hid
    cases hid
  · intro _ hid
    dsimp only at hid
    rw [hasked] at hid
    cases hid
  · intro f hf
    dsimp only at hf
    rw [hstack] at hf
    cases hf
  · intro y hy out hres
    dsimp only at hy
    split at hy
    · exact .inl (hmemory y (mem_retained hy) out hres)
    · exact .inl (hresolved y hy out hres)
  · intro _ y hy hsettled
    dsimp only at hy
    split at hy
    · exact mem_retained hy
    · exact mem_update_of_neg hy hsettled (fun row => row.recovered_id now)
  · intro _ y hy hpending
    exact absurd hpending (mem_loaded hy).1

theorem Sound.teardown (h : Sound es w) (hrunning : w.running = true) : Sound es
    { w with disposed := true, stack := .teardown (w.interactions.rows.map PendingInteraction.id) :: w.stack } :=
  { h with
    idle := fun hidle => by
      change w.running = false at hidle
      rw [hrunning] at hidle
      cases hidle
    unsettled := by
      intro id hid
      obtain ⟨hcount, hrow | ⟨frame, hframe, out, hsettles⟩⟩ := h.unsettled id hid
      · exact ⟨hcount, .inl hrow⟩
      · exact ⟨hcount, .inr ⟨frame, mem_cons_of_mem _ hframe, out, hsettles⟩⟩
    frames := by
      intro frame hframe
      rcases mem_cons.mp hframe with rfl | hframe
      · trivial
      · have hsound := h.frames frame hframe
        cases frame <;> exact hsound
    disposed := fun _ row hrow _ => ⟨_, mem_cons_self, mem_map_of_mem hrow⟩ }

theorem running_of_callable (h : w.callable = true) : w.running = true := by
  unfold World.callable at h
  exact (Bool.and_eq_true_iff.mp h).1

theorem mem_tail_of_settles {top : Frame} (hstack : w.stack = top :: stack) (hframe : frame ∈ w.stack)
    (hsettles : frame.Settles id outcome) (htop : ¬ top.Settles id outcome) : frame ∈ stack := by
  rw [hstack] at hframe
  rcases mem_cons.mp hframe with rfl | hframe
  · exact absurd hsettles htop
  · exact hframe

theorem not_settles_asking {request : UUID} : ¬ (Frame.asking request).Settles id outcome := by
  rintro (heq | heq) <;> cases heq

variable {rest : List UUID}

theorem not_settles_teardown : ¬ (Frame.teardown rest).Settles id outcome := by
  rintro (heq | heq) <;> cases heq

section

variable (h : Sound es w)
include h

theorem Sound.covered_tail {top : Frame} (hstack : w.stack = top :: stack) (htop : ∀ rest, top ≠ .teardown rest)
    (hdisposed : w.disposed = true) (hrow : row ∈ w.interactions) (hpending : row.status = .pending) :
    ∃ rest, .teardown rest ∈ stack ∧ row.id ∈ rest := by
  obtain ⟨rest, hin, hmem⟩ := h.disposed hdisposed row hrow hpending
  rw [hstack] at hin
  rcases mem_cons.mp hin with heq | hin
  · exact absurd heq.symm (htop rest)
  · exact ⟨rest, hin, hmem⟩

theorem Sound.askReturns (hstack : w.stack = .asking id :: stack) : Sound es (w.withStack stack) := by
  apply h.withStack (h.running_of_stack hstack)
  · intro frame hframe
    exact .inl (hstack ▸ mem_cons_of_mem _ hframe)
  · intro _ hframe _ _ hsettles
    exact mem_tail_of_settles hstack hframe hsettles not_settles_asking
  · intro hdisposed _ hrow hpending
    exact h.covered_tail hstack (by simp) hdisposed hrow hpending

theorem Sound.askFails (hstack : w.stack = .asking id :: stack)
    (hsettled : ∀ row ∈ w.interactions, row.id = id → row.status ≠ .pending) : Sound es (w.withStack (.failing id :: stack)) := by
  have hdrawn : id ∈ w.drawn := h.frames (.asking id) (hstack ▸ mem_cons_self)
  apply h.withStack (h.running_of_stack hstack)
  · intro frame hframe
    rcases mem_cons.mp hframe with rfl | hframe
    · exact .inr ⟨hdrawn, hsettled⟩
    · exact .inl (hstack ▸ mem_cons_of_mem _ hframe)
  · intro _ hframe _ _ hsettles
    exact mem_cons_of_mem _ (mem_tail_of_settles hstack hframe hsettles not_settles_asking)
  · intro hdisposed _ hrow hpending
    obtain ⟨rest, hin, hmem⟩ := h.covered_tail hstack (by simp) hdisposed hrow hpending
    exact ⟨rest, mem_cons_of_mem _ hin, hmem⟩

theorem Sound.passes (hstack : w.stack = .teardown (id :: rest) :: stack)
    (hsettled : ∀ row ∈ w.interactions, row.id = id → row.status ≠ .pending) : Sound es (w.withStack (.teardown rest :: stack)) := by
  apply h.withStack (h.running_of_stack hstack)
  · intro frame hframe
    rcases mem_cons.mp hframe with rfl | hframe
    · exact .inr trivial
    · exact .inl (hstack ▸ mem_cons_of_mem _ hframe)
  · intro _ hframe _ _ hsettles
    exact mem_cons_of_mem _ (mem_tail_of_settles hstack hframe hsettles not_settles_teardown)
  · intro hdisposed row hrow hpending
    obtain ⟨ids, hin, hmem⟩ := h.disposed hdisposed row hrow hpending
    rw [hstack] at hin
    rcases mem_cons.mp hin with heq | hin
    · cases heq
      rcases mem_cons.mp hmem with hid | hmem
      · exact absurd hpending (hsettled row hrow hid)
      · exact ⟨rest, mem_cons_self, hmem⟩
    · exact ⟨ids, mem_cons_of_mem _ hin, hmem⟩

theorem Sound.tornDown (hstack : w.stack = .teardown [] :: stack) : Sound es (w.withStack stack) := by
  apply h.withStack (h.running_of_stack hstack)
  · intro frame hframe
    exact .inl (hstack ▸ mem_cons_of_mem _ hframe)
  · intro _ hframe _ _ hsettles
    exact mem_tail_of_settles hstack hframe hsettles not_settles_teardown
  · intro hdisposed row hrow hpending
    obtain ⟨ids, hin, hmem⟩ := h.disposed hdisposed row hrow hpending
    rw [hstack] at hin
    rcases mem_cons.mp hin with heq | hin
    · cases heq
      cases hmem
    · exact ⟨ids, hin, hmem⟩

theorem Sound.askThrows (hstack : w.stack = .asking id :: stack) (hrow : row ∈ w.interactions)
    (hid : row.id = id) (hpending : row.status = .pending) : Sound (es ++ [.decided row .notPublished .unavailable none])
      ((w.withStack (.failing id :: stack)).settle row .unavailable none now) := by
  have hdecides : Answer.notPublished.decides true row = some (.unavailable, none) := rfl
  have hsettle : Sound (es ++ [.decided row .notPublished .unavailable none]) (w.settle row .unavailable none now) :=
    h.settle hrow hpending hdecides
  have hsettled : (w.settle row .unavailable none now).stack =
      .saving row.id (delivered .unavailable none) (row.id ∈ w.resolvers) :: .asking id :: stack :=
    congrArg _ hstack
  apply hsettle.withStack (h.running_of_stack hstack)
  · intro frame hframe
    rcases mem_cons.mp hframe with rfl | hframe
    · exact .inl (hsettled ▸ mem_cons_self)
    · rcases mem_cons.mp hframe with rfl | hframe
      · refine .inr ⟨hid ▸ h.drawnRows row hrow, fun x hx hxid => ?_⟩
        rcases Table.mem_set.mp hx with rfl | ⟨-, hne⟩
        · exact InteractionStatus.noConfusion
        · exact absurd (hxid.trans hid.symm) hne
      · exact .inl (hsettled ▸ mem_cons_of_mem _ (mem_cons_of_mem _ hframe))
  · intro _ hframe _ _ hsettles
    rw [hsettled] at hframe
    rcases mem_cons.mp hframe with rfl | hframe
    · exact mem_cons_self
    · rcases mem_cons.mp hframe with rfl | hframe
      · exact absurd hsettles not_settles_asking
      · exact mem_cons_of_mem _ (mem_cons_of_mem _ hframe)
  · intro hdisposed x hx hxp
    obtain ⟨rest, hin, hmem⟩ := hsettle.disposed hdisposed x hx hxp
    rw [hsettled] at hin
    simp only [mem_cons, reduceCtorEq, false_or] at hin
    exact ⟨rest, mem_cons_of_mem _ (mem_cons_of_mem _ hin), hmem⟩

theorem Sound.tearsDown (hstack : w.stack = .teardown (id :: rest) :: stack)
    (hrow : row ∈ w.interactions) (hid : row.id = id) (hpending : row.status = .pending) :
    Sound (es ++ [.decided row .tornDown .cancelled none])
      ((w.withStack (.teardown rest :: stack)).settle row .cancelled none now) := by
  have hdecides : Answer.tornDown.decides true row = some (.cancelled, none) := rfl
  have hsettle : Sound (es ++ [.decided row .tornDown .cancelled none]) (w.settle row .cancelled none now) :=
    h.settle hrow hpending hdecides
  have hsettled : (w.settle row .cancelled none now).stack =
      .saving row.id (delivered .cancelled none) (row.id ∈ w.resolvers) :: .teardown (id :: rest) :: stack :=
    congrArg _ hstack
  apply hsettle.withStack (h.running_of_stack hstack)
  · intro frame hframe
    rcases mem_cons.mp hframe with rfl | hframe
    · exact .inl (hsettled ▸ mem_cons_self)
    · rcases mem_cons.mp hframe with rfl | hframe
      · exact .inr trivial
      · exact .inl (hsettled ▸ mem_cons_of_mem _ (mem_cons_of_mem _ hframe))
  · intro _ hframe _ _ hsettles
    rw [hsettled] at hframe
    rcases mem_cons.mp hframe with rfl | hframe
    · exact mem_cons_self
    · rcases mem_cons.mp hframe with rfl | hframe
      · exact absurd hsettles not_settles_teardown
      · exact mem_cons_of_mem _ (mem_cons_of_mem _ hframe)
  · intro hdisposed x hx hxp
    obtain ⟨ids, hin, hmem⟩ := hsettle.disposed hdisposed x hx hxp
    rw [hsettled] at hin
    simp only [mem_cons, reduceCtorEq, false_or] at hin
    rcases hin with heq | hin
    · obtain rfl := Frame.teardown.inj heq
      refine ⟨rest, mem_cons_of_mem _ mem_cons_self, (mem_cons.mp hmem).resolve_left (fun heq => ?_)⟩
      rcases Table.mem_set.mp hx with rfl | ⟨-, hne⟩
      · cases hxp
      · exact hne (heq.trans hid.symm)
    · exact ⟨ids, mem_cons_of_mem _ (mem_cons_of_mem _ hin), hmem⟩

end

theorem pending_of_handle {body : Body}
    (h : (handle live row body).2 = some (resolution, optionId)) : row.status = .pending := by
  unfold handle at h
  split at h
  · cases h
  · split at h
    · cases h
    · split at h
      · split at h <;> cases h
      · assumption

theorem Sound.step (h : Sound es w) (hstep : CarefulStep w e t) : Sound (es ++ [e]) t := by
  obtain ⟨hstep, hcareful⟩ := hstep
  cases hstep with
  | request _ _ _ hcallable hdisposed hfresh =>
    exact (h.request (running_of_callable hcallable) hdisposed hfresh).calm calm_requested
  | requestFails => exact hcareful.elim
  | askReturns _ _ hstack => exact (h.askReturns hstack).calm calm_quiet
  | askThrows _ _ _ _ hstack hrow hid hpending => exact h.askThrows hstack hrow hid hpending
  | askThrowsLate _ _ hstack hsettled => exact (h.askFails hstack hsettled).calm calm_quiet
  | rejects _ _ hstack => exact h.rejects hstack
  | saved _ _ _ _ hstack => exact (h.saved hstack).calm calm_quiet
  | saveFails _ _ _ _ hstack =>
    apply h.finish hstack (.inl rfl) (.inr rfl) (fun _ => rfl) (.inr rfl)
    rintro - ids tail rfl
    exact hcareful rfl _ ids tail hstack
  | published id outcome live _ hstack =>
    obtain ⟨rfl, -⟩ := h.frames (.publishing id outcome live) (hstack ▸ mem_cons_self)
    apply h.finish hstack (.inr rfl) (.inl rfl) (fun heq => by cases heq) (.inl rfl)
    intro hraise ids tail htail
    rw [htail] at hraise
    exact absurd (congrArg List.length hraise) (by simp [raise])
  | publishFails id outcome live _ hstack =>
    obtain ⟨rfl, -⟩ := h.frames (.publishing id outcome live) (hstack ▸ mem_cons_self)
    apply h.finish hstack (.inr rfl) (.inl rfl) (fun heq => by cases heq) (.inr rfl)
    rintro - ids tail rfl
    exact hcareful rfl _ ids tail hstack
  | teardown hcallable => exact (h.teardown (running_of_callable hcallable)).calm calm_quiet
  | tearsDown _ _ _ _ _ hstack hrow hid hpending => exact h.tearsDown hstack hrow hid hpending
  | passesBy _ _ _ hstack hsettled => exact (h.passes hstack hsettled).calm calm_quiet
  | tornDown _ hstack => exact (h.tornDown hstack).calm calm_quiet
  | answer _ _ _ _ _ _ hrow hpending _ hdecides => exact h.settle hrow hpending hdecides
  | lookup | bodyRefused => exact h.handlers.calm calm_quiet
  | body _ _ _ _ _ _ _ hrow hdecides =>
    exact h.handlers.settle hrow (pending_of_handle hdecides) hdecides
  | died => exact (h.died hcareful).calm calm_died
  | started _ hrunning => exact (h.started hrunning).calm calm_started

end WorkAgent.Harness.Approvals
