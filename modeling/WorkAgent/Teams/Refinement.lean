import WorkAgent.Teams.Soundness
import WorkAgent.Teams.Dependencies
import WorkAgent.Teams.Transactions

namespace WorkAgent.Teams

open Library Act List RunStatus

/-- Moves of the allowed kinds, one after the other, in a call that began with the draw `base`. -/
inductive Moves (base : ℕ) (allowed : Kind → Prop) (b : Board) : Board → Prop
  | none : Moves base allowed b b
  | next {c d : Board} {kind : Kind} (h : Moves base allowed b c) (hkind : allowed kind) (hmove : Move base kind c d) :
      Moves base allowed b d

section Sequences

variable {base : ℕ} {allowed allowed' : Kind → Prop} {kind : Kind} {b c d : Board}

theorem Moves.one (hkind : allowed kind) (h : Move base kind b c) : Moves base allowed b c := .next .none hkind h

section

variable (h : Moves base allowed b c)
include h

theorem Moves.trans (h' : Moves base allowed c d) : Moves base allowed b d := by
  induction h' with
  | none => exact h
  | next _ hkind hmove ih => exact ih.next hkind hmove

theorem Moves.mono (himp : ∀ kind, allowed kind → allowed' kind) : Moves base allowed' b c := by
  induction h with
  | none => exact .none
  | next _ hkind hmove ih => exact ih.next (himp _ hkind) hmove

theorem Moves.sound (hs : Sound b) : Sound c := by
  induction h with
  | none => exact hs
  | next _ _ hmove ih => exact hmove.sound ih

theorem Moves.drawn : b.drawn ≤ c.drawn := by
  induction h with
  | none => exact Nat.le_refl _
  | next _ _ hmove ih => exact ih.trans hmove.drawn

end

theorem Moves.draws (hplain : allowed .plain) {n : ℕ} (h : b.drawn ≤ n) : Moves base allowed b { b with drawn := n } := by
  induction n, h using Nat.le_induction with
  | base => exact .none
  | succ _ _ ih => exact ih.next hplain (.draw _)

end Sequences

/-- A reading that fails moves nothing. -/
theorem Act.Reads.bind_moves {α β : Type} {x : StoreAct α} {f : α → StoreAct β} [Act.Reads x] {s t : TeamStore} {r : Except String β}
    (h : (x >>= f) s = (r, t)) (hmoves : ∀ a, x s = (.ok a, s) → f a s = (r, t) → Moves base allowed s.board t.board) :
    Moves base allowed s.board t.board := by
  rcases Act.Reads.bind_eq h with ⟨_, -, rfl⟩ | ⟨a, ha, h⟩
  · exact .none
  · exact hmoves a ha h

section Pieces

variable {s t u : TeamStore} {error : String}

variable {id : ℕ} {team : Team}

theorem read_bind {β : Type} {f : TeamStore → StoreAct β} : ((Act.read : StoreAct TeamStore) >>= f) s = f s s := rfl

theorem found_ok {τ : Type} {key : τ → ℕ} {table : TeamStore → Table key} {row : τ}
    (h : (Act.read >>= fun s => required ((table s).find? id) error : StoreAct τ) s = (.ok row, t)) : s = t ∧ row ∈ table s ∧ key row = id := by
  rw [read_bind] at h
  obtain ⟨hfind, rfl⟩ := required_ok.mp h
  exact ⟨rfl, Table.find?_eq_some.mp hfind⟩

theorem requiredTeam_ok (h : requiredTeam id s = (.ok team, t)) : s = t ∧ team ∈ s.teams ∧ team.id = id := found_ok h

theorem requiredTask_ok {task : TeamTask} (h : requiredTask id s = (.ok task, t)) : s = t ∧ task ∈ s.tasks ∧ task.id = id := found_ok h

theorem theRun_ok {run : TeamRun} (h : theRun id s = (.ok run, t)) : s = t ∧ run ∈ s.runs ∧ run.id = id := found_ok h

theorem theDispatch_ok {item : TeamDispatch} (h : theDispatch id s = (.ok item, t)) :
    s = t ∧ item ∈ s.dispatches ∧ item.id = id := found_ok h

theorem requiredMember_ok {member : TeamMember} (h : requiredMember team id s = (.ok member, t)) :
    s = t ∧ member ∈ team.members ∧ member.id = id := by
  obtain ⟨hfind, rfl⟩ := required_ok.mp h
  exact ⟨rfl, mem_of_find?_eq_some hfind, by simpa using find?_some hfind⟩

theorem theLead_ok {member : TeamMember} (h : theLead team s = (.ok member, t)) :
    s = t ∧ member ∈ team.members ∧ member.role = .lead := by
  obtain ⟨hfind, rfl⟩ := required_ok.mp h
  exact ⟨rfl, mem_of_find?_eq_some hfind, by simpa using find?_some hfind⟩

theorem refuse_ok {condition : Prop} [Decidable condition] {r : Unit} (h : refuse condition error s = (.ok r, t)) : s = t ∧ ¬ condition := by
  unfold refuse at h
  split at h
  · cases h
  · obtain ⟨-, rfl⟩ := pure_ok.mp h
    exact ⟨rfl, ‹_›⟩

theorem refuse_bind {condition : Prop} [Decidable condition] {α : Type} {f : Unit → StoreAct α} {r : α}
    (h : (refuse condition error >>= f) s = (.ok r, t)) : ¬ condition ∧ f () s = (.ok r, t) := by
  obtain ⟨_, _, hrefuse, h⟩ := bind_ok.mp h
  obtain ⟨rfl, hnot⟩ := refuse_ok hrefuse
  exact ⟨hnot, h⟩

class Calm {α : Type} (x : StoreAct α) : Prop where
  board : ∀ s, (x s).2.board = s.board

variable {α β : Type} {x : StoreAct α} {f : α → StoreAct β}

theorem Calm.board_eq [hx : Calm x] {r : Except String α} (h : x s = (r, t)) : t.board = s.board := by
  have hboard := hx.board s
  rwa [h] at hboard

theorem Calm.bind_any [Calm x] {r : Except String β} (h : (x >>= f) s = (r, t)) :
    t.board = s.board ∨ ∃ a u, u.board = s.board ∧ x s = (.ok a, u) ∧ f a u = (r, t) := by
  rcases Act.bind_any h with ⟨e, hx, -⟩ | ⟨a, u, hx, h⟩
  · exact .inl (Calm.board_eq hx)
  · exact .inr ⟨a, u, Calm.board_eq hx, hx, h⟩

instance [hx : Act.Reads x] : Calm x := ⟨fun s => by rw [hx.same s]⟩

instance [hx : Calm x] [hf : ∀ a, Calm (f a)] : Calm (x >>= f) := by
  constructor
  intro s
  cases hrun : (x >>= f) s with
  | mk =>
    rcases Calm.bind_any hrun with h | ⟨a, u, hu, -, h⟩
    · exact h
    · exact (Calm.board_eq h).trans hu

instance {condition : Prop} [Decidable condition] {y : StoreAct α} [hx : Calm x] [hy : Calm y] : Calm (if condition then x else y) := by
  split
  · exact hx
  · exact hy

instance (teamId : ℕ) (type : EventType) (subjectId : ℕ) : Calm (event teamId type subjectId) := ⟨fun _ => rfl⟩

instance (message : TeamMailboxMessage) : Calm (setMessage message) := ⟨fun _ => rfl⟩

instance (operation : Operation) : Calm (setOperation operation) := ⟨fun _ => rfl⟩

instance (ids : List ℕ) (now : ℤ) : Calm (readMessages ids now) := ⟨fun _ => rfl⟩

instance (id : ℕ) : Calm (acknowledge id) := ⟨fun _ => rfl⟩

instance : Calm save := by
  constructor
  intro s
  unfold save
  split
  · rfl
  · split <;> rfl

end Pieces

section Runs

variable {s t : TeamStore} {base : ℕ}

variable {teamId : ℕ} {run : TeamRun}

theorem activeRun_some (h : s.activeRun teamId = some run) :
    run ∈ s.runs ∧ run.teamId = teamId ∧ ¬ run.status.Finished := by
  have hmem := mem_of_find?_eq_some h
  have hp := find?_some h
  exact ⟨mem_reverse.mp hmem, by simpa using hp⟩

theorem activeRun_none (h : s.activeRun teamId = none) : ∀ run ∈ s.runs, run.teamId = teamId → run.status.Finished := by
  intro run hrun hteam
  have hp := List.find?_eq_none.mp h run (mem_reverse.mpr hrun)
  simpa [hteam] using hp

variable {input : String}

theorem ensureRun_ok (base : ℕ) (tasks : Table TeamTask.id) (h : ensureRun teamId input s = (.ok run, t)) :
    Moves base (· = .plain) { s.board with tasks := tasks } { t.board with tasks := tasks } ∧ t.teams = s.teams ∧ t.tasks = s.tasks ∧
      t.dispatches = s.dispatches ∧ run ∈ t.runs ∧ run.teamId = teamId ∧ ¬ run.status.Finished := by
  obtain ⟨_, _, hteam, h⟩ := bind_ok.mp h
  obtain ⟨rfl, -, -⟩ := requiredTeam_ok hteam
  rw [read_bind] at h
  cases hactive : s.activeRun teamId with
  | some =>
    rw [hactive] at h
    obtain ⟨rfl, rfl⟩ := pure_ok.mp h
    obtain ⟨hmem, hteamId, hopen⟩ := activeRun_some hactive
    exact ⟨.none, rfl, rfl, rfl, hmem, hteamId, hopen⟩
  | none =>
    rw [hactive] at h
    obtain ⟨_, u, hdraw, h⟩ := bind_ok.mp h
    cases hdraw
    obtain ⟨_, u, hset, h⟩ := bind_ok.mp h
    obtain rfl := modify_ok.mp hset
    obtain ⟨_, u, hevent, h⟩ := bind_ok.mp h
    obtain rfl := modify_ok.mp hevent
    obtain ⟨rfl, rfl⟩ := pure_ok.mp h
    have hopen : ¬ running.Finished := by simp [Finished]
    refine ⟨.one rfl ?_, rfl, rfl, rfl, Table.mem_set.mpr (.inl rfl), rfl, hopen⟩
    exact .openRun rfl hopen (activeRun_none hactive) rfl

def Continues (s : TeamStore) (run : TeamRun) : Prop := ∃ row ∈ s.runs, row.id = run.id ∧ row.teamId = run.teamId ∧ ¬ row.status.Finished

variable {r : Unit}

theorem pauseAtLimit_ok (base : ℕ) (tasks : Table TeamTask.id) {runId : ℕ} {reason : String} (hrun : run ∈ s.runs) (hid : run.id = runId) (hopen : ¬ run.status.Finished) (h : pauseAtLimit runId reason s = (.ok r, t)) :
    Moves base (· = .plain) { s.board with tasks := tasks } { t.board with tasks := tasks } ∧ t.teams = s.teams ∧ t.tasks = s.tasks ∧
      t.dispatches = s.dispatches ∧ Continues t run := by
  obtain rfl := modify_ok.mp h
  have hset : (s.runs.update (fun row => row.id = runId) fun row => { row with status := .pausedLimit, reason := some reason }) =
      s.runs.set { run with status := .pausedLimit, reason := some reason } :=
    Table.update_eq_set hrun hid fun row hrow hkey => Table.eq_of_key hrow hrun (hkey.trans hid.symm)
  have hpaused : ¬ pausedLimit.Finished := by simp [Finished]
  refine ⟨?_, rfl, rfl, rfl, ?_⟩
  · change Moves base (· = .plain) { s.board with tasks := tasks } { s.board with tasks := tasks, runs := _ }
    rw [hset]
    exact .one rfl (.setRun hrun rfl rfl hopen hpaused)
  · refine ⟨{ run with status := .pausedLimit, reason := some reason }, ?_, rfl, rfl, hpaused⟩
    change _ ∈ (s.runs.update (fun row => row.id = runId) fun row => { row with status := .pausedLimit, reason := some reason })
    rw [hset]
    exact Table.mem_set.mpr (.inl rfl)

def SameTurns (before after : Table TeamDispatch.id) : Prop :=
  (∀ item ∈ before, ∃ fanout, { item with fanoutMemberIds := fanout } ∈ after) ∧
    ∀ item ∈ after, ∃ fanout, { item with fanoutMemberIds := fanout } ∈ before

theorem SameTurns.refl (table : Table TeamDispatch.id) : SameTurns table table :=
  ⟨fun item h => ⟨item.fanoutMemberIds, h⟩, fun item h => ⟨item.fanoutMemberIds, h⟩⟩

theorem SameTurns.set {table : Table TeamDispatch.id} {item : TeamDispatch} (hitem : item ∈ table) (fanout : List ℕ) :
    SameTurns table (table.set { item with fanoutMemberIds := fanout }) := by
  constructor
  · intro row hrow
    by_cases hid : row.id = item.id
    · obtain rfl := Table.eq_of_key hrow hitem hid
      exact ⟨fanout, Table.mem_set.mpr (.inl rfl)⟩
    · exact ⟨row.fanoutMemberIds, Table.mem_set.mpr (.inr ⟨hrow, hid⟩)⟩
  · intro row hrow
    rcases Table.mem_set.mp hrow with rfl | ⟨hold, -⟩
    · exact ⟨item.fanoutMemberIds, hitem⟩
    · exact ⟨row.fanoutMemberIds, hold⟩

def Unsubmitted (s : TeamStore) : Prop := ∀ item ∈ s.dispatches, item.status = .queued → item.submittedAt = none

theorem plain_edit {item item' : TeamDispatch} (hs : Unsubmitted s) (hitem : item ∈ s.dispatches) (hid : item'.id = item.id)
    (hteam : item'.teamId = item.teamId) (hrun : item'.runId = item.runId) (hmember : item'.memberId = item.memberId)
    (htask : item'.taskId = item.taskId) (hstatus : item'.status = item.status) (hsubmitted : item'.submittedAt = item.submittedAt) :
    TurnStep .plain item item' := by
  refine ⟨hid, hteam, hrun, hmember, htask, ?_, .inl ⟨hstatus, ?_⟩⟩
  · intro hqueued
    rw [hsubmitted]
    exact hs item hitem (hstatus ▸ hqueued)
  · rw [hsubmitted]
    exact fun h => h

variable {memberId : ℕ} {parentId : Option ℕ}

theorem registerEdge_ok (base : ℕ) (tasks : Table TeamTask.id) (hs : Unsubmitted s) {depth : ℕ} (hrun : Continues s run)
    (h : registerEdge run memberId parentId s = (.ok depth, t)) :
    Moves base (· = .plain) { s.board with tasks := tasks } { t.board with tasks := tasks } ∧ t.teams = s.teams ∧ t.tasks = s.tasks ∧
      t.drawn = s.drawn ∧ SameTurns s.dispatches t.dispatches ∧ Continues t run := by
  rw [registerEdge, read_bind] at h
  obtain ⟨-, h⟩ := refuse_bind h
  obtain ⟨-, h⟩ := refuse_bind h
  obtain ⟨_, u, hedge, h⟩ := bind_ok.mp h
  have hu : Moves base (· = .plain) { s.board with tasks := tasks } { u.board with tasks := tasks } ∧ u.teams = s.teams ∧
      u.tasks = s.tasks ∧ u.drawn = s.drawn ∧ SameTurns s.dispatches u.dispatches ∧ u.runs = s.runs := by
    cases hparent : parentId.bind s.dispatches.find? with
    | none =>
      rw [hparent] at hedge
      obtain ⟨-, rfl⟩ := pure_ok.mp hedge
      exact ⟨.none, rfl, rfl, rfl, .refl _, rfl⟩
    | some parent =>
      have hmem : parent ∈ s.dispatches := by
        obtain ⟨_, -, hfind⟩ := Option.bind_eq_some_iff.mp hparent
        exact (Table.find?_eq_some.mp hfind).1
      rw [hparent] at hedge
      obtain ⟨_, _, hset, hend⟩ := bind_ok.mp hedge
      obtain rfl := modify_ok.mp hset
      obtain ⟨-, rfl⟩ := pure_ok.mp hend
      refine ⟨.one rfl ?_, rfl, rfl, rfl, .set hmem _, rfl⟩
      exact .editDispatch hmem (plain_edit hs hmem rfl rfl rfl rfl rfl rfl rfl) rfl
  obtain ⟨hmoves, hteams, htasks, hdrawn, hturns, hruns⟩ := hu
  have hcontinues : Continues u run := by
    unfold Continues
    rw [hruns]
    exact hrun
  obtain ⟨_, v, hlimit, h⟩ := bind_ok.mp h
  obtain ⟨-, rfl⟩ := pure_ok.mp h
  unfold whenever at hlimit
  split at hlimit
  · obtain ⟨_, w, hpause, hevent⟩ := bind_ok.mp hlimit
    obtain rfl := modify_ok.mp hevent
    obtain ⟨_, hrow, hid, hteam, hopen⟩ := hcontinues
    obtain ⟨hmoves', hteams', htasks', hdispatches', hcontinues'⟩ := pauseAtLimit_ok base tasks hrow hid hopen hpause
    have hw : w.drawn = u.drawn := by
      obtain rfl := modify_ok.mp hpause
      rfl
    refine ⟨hmoves.trans hmoves', hteams'.trans hteams, htasks'.trans htasks, hw.trans hdrawn, ?_, ?_⟩
    · change SameTurns s.dispatches w.dispatches
      rw [hdispatches']
      exact hturns
    · obtain ⟨row', hrow', hid', hteam', hopen'⟩ := hcontinues'
      exact ⟨row', hrow', hid'.trans hid, hteam'.trans hteam, hopen'⟩
  · obtain ⟨-, rfl⟩ := pure_ok.mp hlimit
    exact ⟨hmoves, hteams, htasks, hdrawn, hturns, hcontinues⟩

theorem enqueue_ok {taskId : Option ℕ} {messageIds : List ℕ}
    (h : enqueue run memberId input parentId taskId messageIds s = (.ok r, t)) :
    ∃ depth u, registerEdge run memberId parentId s = (.ok depth, u) ∧ t.board = { u.board with
      dispatches := u.dispatches.set ⟨u.drawn, run.teamId, run.id, memberId, taskId, messageIds, input, parentId, depth, [], .queued, none,
        none, none, none, none⟩
      drawn := u.drawn + 1 } := by
  obtain ⟨depth, u, hedge, h⟩ := bind_ok.mp h
  obtain ⟨_, _, hdraw, h⟩ := bind_ok.mp h
  cases hdraw
  obtain ⟨_, _, hset, hevent⟩ := bind_ok.mp h
  obtain rfl := modify_ok.mp hset
  obtain rfl := modify_ok.mp hevent
  exact ⟨depth, u, hedge, rfl⟩

theorem Continues.of_board {runs : Table TeamRun.id} (h : Continues s run) (hruns : runs = s.runs) :
    ∃ row ∈ runs, row.id = run.id ∧ row.teamId = run.teamId ∧ ¬ row.status.Finished := by
  rw [hruns]
  exact h

structure Adds (base : ℕ) (run : TeamRun) (s t : TeamStore) : Prop where
  moves : Moves base (· = .plain) s.board t.board
  teams : t.teams = s.teams
  tasks : t.tasks = s.tasks
  continues : Continues t run
  settled : ∀ item ∈ s.dispatches, item.status ≠ .queued → ∃ fanout, { item with fanoutMemberIds := fanout } ∈ t.dispatches

theorem Adds.trans {u : TeamStore} (h : Adds base run s t) (h' : Adds base run t u) : Adds base run s u := by
  refine ⟨h.moves.trans h'.moves, h'.teams.trans h.teams, h'.tasks.trans h.tasks, h'.continues, ?_⟩
  intro item hitem hqueued
  obtain ⟨fanout, hnow⟩ := h.settled item hitem hqueued
  exact h'.settled { item with fanoutMemberIds := fanout } hnow hqueued

theorem enqueue_adds (hs : Books s.board) {messageIds : List ℕ}
    (hrun : Continues s run) (hmember : HasMember s.teams run.teamId memberId)
    (h : enqueue run memberId input parentId none messageIds s = (.ok r, t)) : Adds base run s t := by
  obtain ⟨_, u, hedge, hboard⟩ := enqueue_ok h
  obtain ⟨hmoves, hteams, htasks, hdrawn, hturns, hcontinues⟩ := registerEdge_ok base s.tasks hs.unsubmitted hrun hedge
  have hmoves : Moves base (· = .plain) s.board u.board := by
    rw [← htasks] at hmoves
    rw [show s.board = { s.board with tasks := u.tasks } by rw [htasks]; rfl]
    exact hmoves
  have hruns : t.runs = u.runs := congrArg Board.runs hboard
  have hdispatches : t.dispatches = u.dispatches.set _ := congrArg Board.dispatches hboard
  refine ⟨?_, (congrArg Board.teams hboard).trans hteams, (congrArg Board.tasks hboard).trans htasks, hcontinues.of_board hruns, ?_⟩
  · rw [hboard]
    refine hmoves.next rfl (.enqueue rfl rfl rfl hcontinues ?_ rfl)
    change HasMember u.teams run.teamId memberId
    rw [hteams]
    exact hmember
  · intro item hitem _
    obtain ⟨fanout, hnow⟩ := hturns.1 item hitem
    have hfresh : item.id < s.drawn := hs.dispatchFresh item hitem
    refine ⟨fanout, ?_⟩
    rw [hdispatches, hdrawn]
    exact Table.mem_set.mpr (.inr ⟨hnow, hfresh.ne⟩)

theorem deliver_adds {messageId : ℕ} {text : String} (hs : Books s.board)
    (hrun : Continues s run) (hmember : HasMember s.teams run.teamId memberId)
    (h : deliver run messageId text parentId memberId s = (.ok r, t)) : Adds base run s t := by
  rw [deliver, read_bind] at h
  cases hpending : s.pendingFor run.id memberId with
  | none =>
    rw [hpending] at h
    exact enqueue_adds hs hrun hmember h
  | some pending =>
    rw [hpending] at h
    obtain ⟨_, u, hedge, h⟩ := bind_ok.mp h
    obtain rfl := modify_ok.mp h
    obtain ⟨hmoves, hteams, htasks, _, hturns, hcontinues⟩ := registerEdge_ok base s.tasks hs.unsubmitted hrun hedge
    have hmoves : Moves base (· = .plain) s.board u.board := by
      rw [← htasks] at hmoves
      rw [show s.board = { s.board with tasks := u.tasks } by rw [htasks]; rfl]
      exact hmoves
    have hmem : pending ∈ s.dispatches := mem_of_find?_eq_some hpending
    obtain ⟨fanout, hnow⟩ := hturns.1 pending hmem
    have hqueued : pending.status = .queued := by
      have hp := find?_some hpending
      simp only [decide_eq_true_eq] at hp
      exact hp.2.2.1
    refine ⟨hmoves.next rfl (.editDispatch hnow ?_ rfl), hteams, htasks, hcontinues, ?_⟩
    · refine ⟨rfl, rfl, rfl, rfl, rfl, ?_, .inl ⟨rfl, fun h => h⟩⟩
      exact hs.unsubmitted pending hmem
    · intro item hitem hsettled
      obtain ⟨fanout, hkept⟩ := hturns.1 item hitem
      refine ⟨fanout, Table.mem_set.mpr (.inr ⟨hkept, ?_⟩)⟩
      intro hsame
      exact hsettled (Table.eq_of_key hitem hmem hsame ▸ hqueued)

end Runs

section Transactions

variable {s t : TeamStore} {α : Type} {perform : StoreAct α} {a : α} {error : String}

theorem transaction_body [Silent perform] (h : transaction perform s = (.ok a, t)) :
    ∃ u v, u.board = s.board ∧ u.toDocument = s.toDocument ∧ perform u = (.ok a, v) ∧ t.toDocument = v.toDocument ∧ t.drawn = v.drawn ∧
      (s.batch = false → t.batch = false ∧ t.file = t.toDocument) := by
  cases hb : s.batch with
  | true =>
    rw [transaction_of_batch hb] at h
    exact ⟨s, t, rfl, rfl, h, rfl, rfl, by simp⟩
  | false =>
    obtain ⟨v, hbody, rfl⟩ := transaction_ok hb h
    exact ⟨{ s with batch := true }, v, rfl, rfl, hbody, rfl, rfl, fun _ => ⟨rfl, rfl⟩⟩

theorem board_eq {v : TeamStore} (hdocument : t.toDocument = v.toDocument) (hdrawn : t.drawn = v.drawn) : t.board = v.board := by
  unfold TeamStore.board
  rw [hdocument, hdrawn]

theorem transaction_undone [Silent perform] (hb : s.batch = false) (h : transaction perform s = (.error error, t)) {base : ℕ} {allowed : Kind → Prop}
    (hplain : allowed .plain) : Moves base allowed s.board t.board := by
  obtain ⟨hdocument, -, -, hdrawn⟩ := transaction_error hb h
  have hboard : t.board = { s.board with drawn := t.drawn } := by
    unfold TeamStore.board
    rw [hdocument]
    rfl
  rw [hboard]
  exact .draws hplain hdrawn

end Transactions

end WorkAgent.Teams
