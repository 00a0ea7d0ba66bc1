import WorkAgent.Teams.Restarts

namespace WorkAgent.Teams

open Library Table Board

set_option synthInstance.maxSize 4000

variable {host : Host} {s t u : TeamStore} {base : ℕ} {allowed : Kind → Prop} {b c : Board}

inductive Action
  | call (c : Call)
  | operation (c : Call) (image : Unit → Option String) (id input : String)
  | restart
  | disk (writes : List Bool)

inductive Step (host : Host) (s : TeamStore) : Action → TeamStore → Prop
  | call (c : Call) {r : Except String Unit} {t : TeamStore} (h : c.act host s = (r, t)) : Step host s (.call c) t
  | operation (c : Call) (hnested : Nested host (c.act host)) (image : Unit → Option String) (id input : String)
      {r : Except String (Unit ⊕ String)} {t : TeamStore} (h : operation image id input (c.act host) s = (r, t)) :
      Step host s (.operation c image id input) t
  | restart {t : TeamStore} (h : construct s.file s = (.ok (), t)) : Step host s .restart t
  | disk (writes : List Bool) : Step host s (.disk writes) { s with disk := writes }

inductive History (host : Host) (meets : TeamStore → Action → TeamStore → Prop) (s : TeamStore) : TeamStore → Prop
  | none : History host meets s s
  | next {t u : TeamStore} {a : Action} (h : History host meets s t) (hstep : Step host t a u) (hmeets : meets t a u) : History host meets s u

def Later (host : Host) : TeamStore → TeamStore → Prop := History host fun _ _ _ => True

def Reachable (host : Host) : TeamStore → Prop := Later host .start

section Rows

theorem Moves.finished_before (h : Moves base allowed b c) (hno : ∀ kind, allowed kind → kind ≠ .ends) {run : TeamRun} (hrun : run ∈ c.runs)
    (hfinished : run.status.Finished) : run ∈ b.runs := by
  induction h with
  | none => exact hrun
  | next _ hkind hmove ih =>
    rcases hmove.run hrun with ⟨_, hbefore, -, -, rfl | ⟨-, hends⟩⟩ | ⟨-, hopen⟩
    · exact ih hbefore
    · exact absurd (hends hfinished) (hno _ hkind)
    · exact absurd hfinished hopen

theorem Moves.finished_after (h : Moves base allowed b c) {id : ℕ} {status : RunStatus} (hfinished : status.Finished) (hold : id < b.drawn)
    (hb : ∀ run ∈ b.runs, run.id = id → run.status = status) : ∀ run ∈ c.runs, run.id = id → run.status = status := by
  induction h with
  | none => exact hb
  | next h _ hmove ih =>
    intro _ hrun hid
    rcases hmove.run hrun with ⟨before, hbefore, hsame, -, rfl | ⟨hopen, -⟩⟩ | ⟨_, -⟩
    · exact ih _ hbefore hid
    · rw [ih before hbefore (hsame.trans hid)] at hopen
      exact absurd hfinished hopen
    · have hlater := h.drawn
      omega

theorem Moves.running_before (h : Moves base allowed b c) (hs : Sound b) (hno : ∀ kind, allowed kind → kind ≠ .begins) {item' : TeamDispatch}
    (hitem : item' ∈ c.dispatches) (hrunning : item'.status = .running) : ∃ item ∈ b.dispatches, item.id = item'.id ∧ item.status = .running := by
  induction h generalizing item' with
  | none => exact ⟨item', hitem, rfl, hrunning⟩
  | next h hkind hmove ih =>
    rcases hmove.item hitem (h.sound hs) with ⟨before, hbefore, hid, -, -, -, -, -, hstatus⟩ | ⟨-, hqueued⟩
    · have hbeforeRunning : before.status = .running := by
        rcases hstatus with ⟨hsame, -⟩ | ⟨-, -, hended, -⟩ | ⟨hbegins, -⟩ | ⟨-, -, -, hqueued⟩
        · exact hsame.symm.trans hrunning
        · exact absurd (.inr hrunning) hended
        · exact absurd hbegins (hno _ hkind)
        · cases hqueued.symm.trans hrunning
      obtain ⟨item, hmem, hsame, hitemRunning⟩ := ih hbefore hbeforeRunning
      exact ⟨item, hmem, hsame.trans hid.symm, hitemRunning⟩
    · cases hqueued.symm.trans hrunning

def Given (item : TeamDispatch) : Prop := item.status ≠ .queued ∧ (item.status = .running → item.submittedAt ≠ none)

theorem Moves.given_after (h : Moves base allowed b c) (hs : Sound b) {id : ℕ} (hold : id < b.drawn)
    (hb : ∀ item ∈ b.dispatches, item.id = id → Given item) : ∀ item ∈ c.dispatches, item.id = id → Given item := by
  induction h with
  | none => exact hb
  | next h _ hmove ih =>
    intro _ hitem hid
    rcases hmove.item hitem (h.sound hs) with ⟨before, hbefore, hsame, -, -, -, -, -, hstatus⟩ | ⟨_, -⟩
    · obtain ⟨hqueued, hgiven⟩ := ih before hbefore (hsame.symm.trans hid)
      rcases hstatus with ⟨hstatus, hsubmitted⟩ | ⟨-, -, hended, -⟩ | ⟨-, hwaits, -⟩ | ⟨-, hrunning, hnone, -⟩
      · refine ⟨hstatus ▸ hqueued, fun hrunning => hsubmitted (hgiven (hstatus.symm.trans hrunning))⟩
      · exact ⟨fun h => hended (.inl h), fun h => absurd (.inr h) hended⟩
      · exact absurd hwaits hqueued
      · exact absurd hnone (hgiven hrunning)
    · have hlater := h.drawn
      omega

end Rows

structure Steady (s : TeamStore) : Prop where
  batch : s.batch = false
  memory : Sound s.board
  saved : Sound (s.file.board s.drawn)
  finished : ∀ run ∈ s.runs, run.status.Finished → ∀ row ∈ s.file.runs, row.id = run.id → row.status = run.status
  begun : ∀ item ∈ s.dispatches, item.status = .running → ∀ row ∈ s.file.dispatches, row.id = item.id → row.status ≠ .queued

theorem Steady.start : Steady .start where
  batch := rfl
  memory := Sound.empty 0
  saved := Sound.empty 0
  finished := forall_mem_empty
  begun := forall_mem_empty

theorem board_of_saved (h : t.file = t.toDocument) : t.file.board t.drawn = t.board := by
  rw [h]
  rfl

variable {early : Kind → Prop}

theorem Effect.steady {kinds : Kind → Prop} (h : Effect kinds early s t) (hearly : ∀ kind, early kind → kind ≠ .ends ∧ kind ≠ .begins)
    (hs : Steady s) : Steady t := by
  obtain ⟨hbatch, ⟨hfile, hmoves⟩ | ⟨hfile, hmoves⟩⟩ := h
  · have hsound := hmoves.sound hs.memory
    refine ⟨hbatch, hsound, board_of_saved hfile ▸ hsound, ?_, ?_⟩
    · intro run hrun _ row hrow hid
      rw [hfile] at hrow
      rw [eq_of_key hrow hrun hid]
    · intro item hitem hrunning row hrow hid
      rw [hfile] at hrow
      rw [eq_of_key hrow hitem hid, hrunning]
      simp
  · refine ⟨hbatch, hmoves.sound hs.memory, ?_, ?_, ?_⟩
    · rw [hfile]
      exact hs.saved.later hmoves.drawn
    · intro run hrun hfinished row hrow hid
      rw [hfile] at hrow
      exact hs.finished run (hmoves.finished_before (fun kind h => (hearly kind h).1) hrun hfinished) hfinished row hrow hid
    · intro _ hitem hrunning row hrow hid
      rw [hfile] at hrow
      obtain ⟨before, hbefore, hsame, hbeforeRunning⟩ := hmoves.running_before hs.memory (fun kind h => (hearly kind h).2) hitem hrunning
      exact hs.begun before hbefore hbeforeRunning row hrow (hid.trans hsame.symm)

theorem restart_steady (hs : Steady s) (h : construct s.file s = (.ok (), t)) : Steady t := by
  obtain ⟨hdocument, hfile, hbatch, hdrawn⟩ := construct_ok hs.saved h
  have hboard : t.board = s.file.recovered.board s.drawn := by
    unfold TeamStore.board
    rw [hdocument, hdrawn]
  have hsound : Sound t.board := hboard ▸ hs.saved.recovered
  refine ⟨hbatch, hsound, board_of_saved hfile ▸ hsound, ?_, ?_⟩
  · intro _ hrun _ row hrow hid
    rw [hfile] at hrow
    rw [eq_of_key hrow hrun hid]
  · intro _ hitem hrunning _ hrow hid
    rw [hfile] at hrow
    rw [eq_of_key hrow hitem hid, hrunning]
    simp

theorem plain_late (kind : Kind) (h : kind = .plain) : kind ≠ .ends ∧ kind ≠ .begins := by
  subst h
  simp

inductive Action.Calls : Action → Call → (Kind → Prop) → Prop
  | call (c : Call) : Action.Calls (.call c) c c.early
  | operation (c : Call) (image : Unit → Option String) (id input : String) : Action.Calls (.operation c image id input) c (· = .plain)

variable {a : Action}

theorem Action.Calls.late {c : Call} (ha : a.Calls c early) {kind : Kind} (h : early kind) :
    kind ≠ .ends ∧ kind ≠ .begins := by
  cases ha with
  | call => exact Call.early_late h
  | operation => exact plain_late kind h

theorem Step.effect (hs : Steady s) {c : Call} (ha : a.Calls c early) (h : Step host s a t) :
    Effect c.kinds early s t := by
  cases ha with
  | call =>
    cases h with
    | call _ h => exact Call.effect hs.memory hs.batch h
  | operation =>
    cases h with
    | operation _ hnested _ _ _ h => exact operation_effect hs.memory hs.batch hnested h

theorem Step.steady (h : Step host s a t) (hs : Steady s) : Steady t := by
  cases h with
  | call _ h => exact (Call.effect hs.memory hs.batch h).steady (fun _ => Call.early_late) hs
  | operation _ hnested _ _ _ h => exact (operation_effect hs.memory hs.batch hnested h).steady plain_late hs
  | restart h => exact restart_steady hs h
  | disk => exact ⟨hs.batch, hs.memory, hs.saved, hs.finished, hs.begun⟩

variable {meets : TeamStore → Action → TeamStore → Prop}

theorem History.steady (h : History host meets s t) (hs : Steady s) : Steady t := by
  induction h with
  | none => exact hs
  | next _ hstep _ ih => exact hstep.steady ih

theorem Reachable.steady (h : Reachable host s) : Steady s := History.steady h .start

theorem History.keeps {I : TeamStore → Prop} (h : History host meets s t) (hs : Steady s) (hI : I s)
    (hcall : ∀ s t c a early, Steady s → I s → Action.Calls a c early → Step host s a t → meets s a t → I t)
    (hrestart : ∀ s t, Steady s → I s → construct s.file s = (.ok (), t) → I t) (hdisk : ∀ s writes, I s → I { s with disk := writes }) : I t := by
  induction h with
  | none => exact hI
  | next hpath hstep hmeets ih =>
    have hsteady := hpath.steady hs
    cases hstep with
    | call c h => exact hcall _ _ c _ _ hsteady ih (.call c) (.call c h) hmeets
    | operation c hnested image id input h => exact hcall _ _ c _ _ hsteady ih (.operation c image id input) (.operation c hnested image id input h) hmeets
    | restart h => exact hrestart _ _ hsteady ih h
    | disk writes => exact hdisk _ writes ih

theorem History.trans (h : History host meets s t) (h' : History host meets t u) :
    History host meets s u := by
  induction h' with
  | none => exact h
  | next _ hstep hmeets ih => exact ih.next hstep hmeets

def replay (host : Host) (calls : List Call) (s : TeamStore) : TeamStore := calls.foldl (fun s c => (c.act host s).2) s

theorem replay_later (calls : List Call) : Later host s (replay host calls s) := by
  induction calls generalizing s with
  | nil => exact .none
  | cons c _ ih =>
    have hone : Later host s (c.act host s).2 := .next .none (.call c rfl) trivial
    exact hone.trans ih

/-- A step of the board by itself: a move, or the recovery of what a file holds. -/
inductive Board.Turn : Board → Board → Prop
  | move {base : ℕ} {kind : Kind} {b c : Board} (h : Move base kind b c) : Board.Turn b c
  | recover (document : Document) (drawn : ℕ) : Board.Turn (document.board drawn) (document.recovered.board drawn)

def Board.Reached : Board → Prop := Relation.ReflTransGen Board.Turn (Document.empty.board 0)

theorem Board.Reached.moves (hb : b.Reached) (h : Moves base allowed b c) : c.Reached := by
  induction h with
  | none => exact hb
  | next _ _ hmove ih => exact ih.tail (.move hmove)

theorem Board.Reached.draws {document : Document} {m n : ℕ} (hb : (document.board m).Reached) (h : m ≤ n) : (document.board n).Reached := by
  induction h with
  | refl => exact hb
  | step _ ih => exact ih.tail (.move (@Move.draw 0 _))

/-- The store refines the board: what it holds in memory and what its file holds are boards that the moves reach. -/
theorem board_refined (h : Reachable host s) : s.board.Reached ∧ (s.file.board s.drawn).Reached := by
  apply h.keeps (I := fun s => s.board.Reached ∧ (s.file.board s.drawn).Reached) .start ⟨.refl, .refl⟩
  · rintro s t c a early hs ⟨hmemory, hsaved⟩ ha hstep -
    obtain ⟨-, ⟨hfile, hmoves⟩ | ⟨hfile, hmoves⟩⟩ := hstep.effect hs ha
    · exact ⟨hmemory.moves hmoves, board_of_saved hfile ▸ hmemory.moves hmoves⟩
    · rw [hfile]
      exact ⟨hmemory.moves hmoves, hsaved.draws hmoves.drawn⟩
  · rintro s t hs ⟨-, hsaved⟩ h
    obtain ⟨hdocument, hfile, -, hdrawn⟩ := construct_ok hs.saved h
    have hboard : t.board.Reached := by
      unfold TeamStore.board
      rw [hdocument, hdrawn]
      exact hsaved.tail (.recover s.file s.drawn)
    exact ⟨hboard, board_of_saved hfile ▸ hboard⟩
  · exact fun s writes h => h

theorem board_refined_created : (replay plainHost [.create "t" "w" ⟨"l", .harness, none, "p"⟩] .start).board.Reached :=
  (board_refined (replay_later _)).1

def Begins (s t : TeamStore) (id : ℕ) : Prop :=
  (∃ item ∈ t.dispatches, item.id = id ∧ item.status = .running) ∧ ¬ ∃ item ∈ s.dispatches, item.id = id ∧ item.status = .running

def Startable (s : TeamStore) (item : TeamDispatch) : Prop :=
  item ∈ s.dispatches ∧ item.status = .queued ∧ item.depth ≤ 8 ∧ (∃ run ∈ s.runs, run.id = item.runId ∧ run.status = .running) ∧
    ∀ taskId, item.taskId = some taskId → Ready s.tasks taskId

theorem Step.acted (hs : Steady s) {c : Call} (ha : a.Calls c early) (h : Step host s a t) :
    t.board = { s.board with drawn := t.drawn } ∨
      ∃ (u w : TeamStore) (r : Except String Unit), u.board = s.board ∧ c.act host u = (r, w) ∧ t.board = w.board ∧ (u = s ∨ r = .ok ()) := by
  cases ha with
  | call =>
    cases h with
    | call _ h => exact .inr ⟨s, t, _, rfl, h, rfl, .inl rfl⟩
  | operation _ _ operationId =>
    cases h with
    | @operation _ hnested _ _ _ r _ h =>
      have := hnested.ordinary
      unfold Teams.operation at h
      rcases Act.Reads.bind_eq h with ⟨_, -, rfl⟩ | ⟨_, -, h⟩
      · exact .inl rfl
      rw [read_bind] at h
      cases hfind : s.operations.find? operationId with
      | some =>
        rw [hfind] at h
        rcases Act.Reads.bind_eq h with ⟨_, -, rfl⟩ | ⟨_, -, h⟩
        · exact .inl rfl
        · cases h
          exact .inl rfl
      | none =>
        rw [hfind] at h
        cases r with
        | error =>
          left
          unfold TeamStore.board
          rw [(transaction_error hs.batch h).1]
          rfl
        | ok =>
          obtain ⟨u, v, hboard, -, hbody, hdocument, hdrawn, -⟩ := transaction_body h
          obtain ⟨_, w, hact, hbody⟩ := Act.bind_ok.mp hbody
          exact .inr ⟨u, w, _, hboard, hact, (board_eq hdocument hdrawn).trans (Calm.board_eq hbody), .inr rfl⟩

theorem Call.begins_kinds {c : Call} (h : ¬ ∀ kind, c.kinds kind → kind ≠ .begins) : ∃ id, c = .beginDispatch id := by
  cases c <;> simp_all [Call.kinds, Cancelling, Finishing]

theorem Step.begins (hs : Steady s) (h : Step host s a t) {id : ℕ} (hbegins : Begins s t id) :
    ∃ item, item.id = id ∧ Startable s item := by
  obtain ⟨⟨item', hitem', hid, hrunning⟩, hnone⟩ := hbegins
  have hcalled (c : Call) (early : Kind → Prop) (ha : a.Calls c early) : ∃ item, item.id = id ∧ Startable s item := by
    rcases h.acted hs ha with hboard | ⟨u, w, r, hu, hact, hw, hr⟩
    · have hsame : t.dispatches = s.dispatches := congrArg dispatches hboard
      exact absurd ⟨item', hsame ▸ hitem', hid, hrunning⟩ hnone
    have hsameW : t.dispatches = w.dispatches := congrArg dispatches hw
    have hmem : item' ∈ w.dispatches := hsameW ▸ hitem'
    by_cases hkinds : ∀ kind, c.kinds kind → kind ≠ .begins
    · obtain ⟨-, ⟨-, hmoves⟩ | ⟨-, hmoves⟩⟩ := h.effect hs ha
      · obtain ⟨item, hitem, hsame, hitemRunning⟩ := hmoves.running_before hs.memory hkinds hitem' hrunning
        exact absurd ⟨item, hitem, hsame.trans hid, hitemRunning⟩ hnone
      · obtain ⟨item, hitem, hsame, hitemRunning⟩ := hmoves.running_before hs.memory (fun _ h => (ha.late h).2) hitem' hrunning
        exact absurd ⟨item, hitem, hsame.trans hid, hitemRunning⟩ hnone
    · obtain ⟨_, rfl⟩ := Call.begins_kinds hkinds
      cases r with
      | error =>
        obtain rfl : u = s := hr.resolve_right (by simp)
        obtain ⟨item, hitem, hsame, hitemRunning⟩ := (beginDispatch_error hs.batch hact).2.running_before hs.memory
          (fun kind h => (plain_late kind h).2) hmem hrunning
        exact absurd ⟨item, hitem, hsame.trans hid, hitemRunning⟩ hnone
      | ok =>
        have hsound : Sound u.board := hu ▸ hs.memory
        have hdispatches : u.dispatches = s.dispatches := congrArg dispatches hu
        obtain ⟨-, -, hrows, item, hitem, hitemId, hqueued, hdepth, hrun, hready, -⟩ := @beginDispatch_ok u w 0 hsound _ _ hact
        rcases hrows item' hmem with hold | hsame
        · exact absurd ⟨item', hdispatches ▸ hold, hid, hrunning⟩ hnone
        · have htasks : u.tasks = s.tasks := congrArg tasks hu
          have hruns : u.runs = s.runs := congrArg runs hu
          exact ⟨item, hitemId.trans (hsame.symm.trans hid), hdispatches ▸ hitem, hqueued, hdepth, hruns ▸ hrun, htasks ▸ hready⟩
  cases h with
  | call c => exact hcalled c _ (.call c)
  | operation c _ image operationId input => exact hcalled c _ (.operation c image operationId input)
  | restart h =>
    obtain ⟨hdocument, -⟩ := construct_ok hs.saved h
    rw [hdocument] at hitem'
    obtain ⟨_, -, -, -, -, -, -, -, ⟨rfl, hnot⟩ | ⟨-, hinterrupted⟩⟩ := recovered_item hs.saved hitem'
    · exact absurd hrunning hnot
    · cases hinterrupted.symm.trans hrunning
  | disk => exact absurd ⟨item', hitem', hid, hrunning⟩ hnone

end WorkAgent.Teams
