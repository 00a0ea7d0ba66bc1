import WorkAgent.Teams.TaskFinality

namespace WorkAgent.Teams

open Library Harness Act List Table

set_option synthInstance.maxSize 4000

variable {host : Host} {s t : TeamStore} {outcome : Outcome} {α β : Type}

section Successes

def Succeeds (x : StoreAct α) (s : TeamStore) : Prop := ∃ a t, x s = (.ok a, t)

variable {x : StoreAct α} {f : α → StoreAct β}

theorem Succeeds.bind (hx : Succeeds x s) (hf : ∀ a t, x s = (.ok a, t) → Succeeds (f a) t) : Succeeds (x >>= f) s := by
  obtain ⟨a, t, hx⟩ := hx
  obtain ⟨b, u, hf⟩ := hf a t hx
  exact ⟨b, u, (bind_of_ok hx).trans hf⟩

theorem Succeeds.refuse {condition : Prop} [Decidable condition] {e : String} (h : ¬ condition) : Succeeds (Teams.refuse condition e) s :=
  ⟨(), s, congrFun (if_neg h) s⟩

theorem Succeeds.whenever {condition : Prop} [Decidable condition] {body : StoreAct Unit} (h : condition → Succeeds body s) :
    Succeeds (Teams.whenever condition body) s := by
  by_cases hc : condition
  · rw [whenever_pos hc]
    exact h hc
  · rw [whenever_neg hc]
    exact ⟨(), s, rfl⟩

theorem Succeeds.save (h : s.batch = true) : Succeeds Teams.save s := ⟨(), s, if_pos h⟩

theorem batch_kept [hx : Silent x] (hb : s.batch = true) {r : Except String α} (h : x s = (r, t)) : t.batch = true := by
  have hkept := (hx.kept s hb).batch
  rwa [h] at hkept

theorem requiredTeam_succeeds {team : Team} (h : team ∈ s.teams) : Succeeds (requiredTeam team.id) s := ⟨team, s, requiredTeam_of h⟩

theorem requiredMember_succeeds {team : Team} {member : TeamMember} (h : member ∈ team.members) : Succeeds (requiredMember team member.id) s := by
  cases hfind : team.members.find? fun row => row.id = member.id with
  | none =>
    have hnone := List.find?_eq_none.mp hfind member h
    simp at hnone
  | some found => exact ⟨found, s, required_ok.mpr ⟨hfind, rfl⟩⟩

theorem ensureRun_succeeds {team : Team} (h : team ∈ s.teams) (input : String) : Succeeds (ensureRun team.id input) s := by
  unfold ensureRun Succeeds
  rw [bind_of_ok (requiredTeam_of h), read_bind]
  cases s.activeRun team.id with
  | some active => exact ⟨active, s, rfl⟩
  | none => exact ⟨_, _, rfl⟩

theorem ensureRun_keeps {team : Team} {run active : TeamRun} {input : String} (hteam : team ∈ s.teams)
    (h : ensureRun team.id input s = (.ok active, t)) (hrun : run ∈ s.runs) (hsame : run.teamId = team.id) (hopen : ¬ run.status.Finished) :
    run ∈ t.runs := by
  unfold ensureRun at h
  rw [bind_of_ok (requiredTeam_of hteam), read_bind] at h
  cases hfind : s.activeRun team.id with
  | none => exact absurd (activeRun_none hfind run hrun hsame) hopen
  | some =>
    rw [hfind] at h
    obtain ⟨-, rfl⟩ := pure_ok.mp h
    exact hrun

theorem registerEdge_succeeds {run : TeamRun} {memberId : ℕ} {parentId : Option ℕ} (hopen : ¬ run.status.Finished)
    (hparent : ∀ p, parentId.bind s.dispatches.find? = some p → p.runId = run.id ∧ p.status ≠ .cancelled) :
    Succeeds (registerEdge run memberId parentId) s := by
  cases hrun : registerEdge run memberId parentId s with
  | mk r u =>
    cases r with
    | ok depth => exact ⟨depth, u, hrun⟩
    | error e =>
      exfalso
      unfold registerEdge at hrun
      rw [read_bind] at hrun
      have hcondition : ¬ ∃ p ∈ parentId.bind s.dispatches.find?, p.runId ≠ run.id ∨ p.status = .cancelled := by
        rintro ⟨p, hp, hexpired⟩
        obtain ⟨hsame, hnot⟩ := hparent p hp
        rcases hexpired with h | h
        · exact h hsame
        · exact hnot h
      obtain ⟨_, _, hfirst⟩ := Succeeds.refuse (e := "team_dispatch_expired") hcondition (s := s)
      obtain ⟨rfl, -⟩ := refuse_ok hfirst
      rw [bind_of_ok hfirst] at hrun
      obtain ⟨_, _, hsecond⟩ := Succeeds.refuse (e := "team_run_finished") hopen (s := s)
      obtain ⟨rfl, -⟩ := refuse_ok hsecond
      rw [bind_of_ok hsecond] at hrun
      rcases bind_error.mp hrun with h | ⟨_, _, -, h⟩
      · exact (forEach_never h fun _ _ => ⟨_, rfl⟩).elim
      rcases bind_error.mp h with h | ⟨_, _, -, h⟩
      · unfold Teams.whenever at h
        split at h <;> cases h
      · cases h

theorem deliver_succeeds {run : TeamRun} {messageId memberId : ℕ} {text : String} {parentId : Option ℕ} (hopen : ¬ run.status.Finished)
    (hparent : ∀ p, parentId.bind s.dispatches.find? = some p → p.runId = run.id ∧ p.status ≠ .cancelled) :
    Succeeds (deliver run messageId text parentId memberId) s := by
  obtain ⟨_, u, hedge⟩ := @registerEdge_succeeds s run memberId parentId hopen hparent
  unfold deliver
  rw [Succeeds, read_bind]
  cases s.pendingFor run.id memberId with
  | none | some => exact ⟨_, _, (bind_of_ok hedge).trans rfl⟩

end Successes

section Finish

def Team.leadId (team : Team) : Option ℕ := (team.members.find? fun member => member.role = .lead).map TeamMember.id

def Recordable (host : Host) (s : TeamStore) (item : TeamDispatch) (outcome : Outcome) : Prop :=
  s.disk.head? ≠ some false ∧
    (outcome.sessionId = some "" → ∀ task ∈ s.tasks, item.taskId = some task.id → task.status ≠ .running) ∧
    ((∃ run ∈ s.runs, run.id = item.runId ∧ run.status = .interrupted) ∨
      (∃ team ∈ s.teams, team.id = item.teamId ∧ team.leadId = some item.memberId) ∨
      (boundedText (reportText host item.id outcome) 65536).isSome)

theorem sendMessage_succeeds (hs : Sound s.board) (hb : s.batch = true) {item : TeamDispatch} {run : TeamRun} {team : Team} {lead : TeamMember}
    {text : String} (hitem : item ∈ s.dispatches) (hended : item.status ≠ .cancelled) (hrun : run ∈ s.runs) (hrunId : run.id = item.runId)
    (hrunTeam : run.teamId = item.teamId) (hopen : ¬ run.status.Finished) (hteam : team ∈ s.teams) (hteamId : team.id = item.teamId)
    (hmember : HasMember s.teams item.teamId item.memberId) (hlead : lead ∈ team.members) (htext : (boundedText text 65536).isSome) :
    Succeeds (sendMessage host team.id ⟨some item.memberId, some lead.id, text⟩ (some item.id)) s := by
  unfold sendMessage
  rw [Succeeds, transaction_of_batch hb]
  have hsender : ∃ member ∈ team.members, member.id = item.memberId := by
    obtain ⟨_, row, hrow, hid, member, hmember, hkey, -⟩ := hmember
    obtain rfl := eq_of_key hrow hteam (hid.trans hteamId.symm)
    exact ⟨member, hmember, hkey⟩
  obtain ⟨sender, hsenderMem, hsenderId⟩ := hsender
  refine (requiredTeam_succeeds hteam).bind fun found t ht => ?_
  obtain ⟨rfl, hfound, hfoundId⟩ := requiredTeam_ok ht
  obtain rfl := eq_of_key hfound hteam hfoundId
  have hmemberOk (member : TeamMember) (hmember : member ∈ found.members) :
      Succeeds (forEach (fun id => do let _ ← requiredMember found id) (some member.id).toList) s := by
    obtain ⟨_, _, hrow⟩ := requiredMember_succeeds (s := s) hmember
    obtain ⟨rfl, -, -⟩ := requiredMember_ok hrow
    exact ⟨(), s, forEach_of_some rfl ((bind_of_ok hrow).trans rfl)⟩
  refine (hsenderId ▸ hmemberOk sender hsenderMem).bind fun _ t ht => ?_
  obtain rfl := (Act.Reads.state ht).symm
  refine (hmemberOk lead hlead).bind fun _ t ht => ?_
  obtain rfl := (Act.Reads.state ht).symm
  refine Succeeds.bind ⟨s.drawn, { s with drawn := s.drawn + 1 }, rfl⟩ fun id t ht => ?_
  cases ht
  obtain ⟨body, hbody⟩ := Option.isSome_iff_exists.mp htext
  have hparsed : parsed host "body" (boundedText text 65536) { s with drawn := s.drawn + 1 } = (.ok body, { s with drawn := s.drawn + 1 }) :=
    required_ok.mpr ⟨hbody, rfl⟩
  refine Succeeds.bind ⟨body, _, hparsed⟩ fun body' t ht => ?_
  obtain ⟨-, rfl⟩ := required_ok.mp ht
  refine Succeeds.bind ⟨(), _, rfl⟩ fun _ t ht => ?_
  obtain rfl := modify_ok.mp ht
  refine (ensureRun_succeeds (by exact hteam) _).bind fun active t ht => ?_
  obtain ⟨hadds, hactiveTeam⟩ := @ensureRun_adds _ t 0 _ _ _ ht
  have hkept : t.batch = true := batch_kept (by exact hb) ht
  obtain ⟨-, -, -, hdispatches, hactive, -, hactiveOpen⟩ := ensureRun_ok 0 s.tasks ht
  -- The open run of the team is the one of the dispatch.
  have hactiveId : active.id = item.runId := by
    have hsame : run ∈ t.runs :=
      ensureRun_keeps (by exact hteam) ht (by exact hrun) (hrunTeam.trans hteamId.symm) hopen
    have hsound : Sound t.board := hadds.moves.sound (hs.later (Nat.le_succ _))
    have heq := hsound.oneRun active hactive run hsame (hactiveTeam.trans (hteamId.trans hrunTeam.symm)) hactiveOpen hopen
    rw [heq, hrunId]
  have hparent : ∀ p, (some item.id).bind t.dispatches.find? = some p → p.runId = active.id ∧ p.status ≠ .cancelled := by
    intro p hp
    obtain ⟨hmem, hid⟩ := find?_eq_some.mp hp
    rw [hdispatches] at hmem
    obtain rfl := eq_of_key hmem hitem hid
    exact ⟨hactiveId.symm, hended⟩
  have hdelivered : Succeeds (forEach (deliver active s.drawn (messageText host ⟨some item.memberId, some lead.id, text⟩) (some item.id)) [lead.id]) t := by
    obtain ⟨_, u, hone⟩ := @deliver_succeeds t active s.drawn lead.id (messageText host ⟨some item.memberId, some lead.id, text⟩) (some item.id)
      hactiveOpen hparent
    exact ⟨(), u, (bind_of_ok hone).trans rfl⟩
  refine hdelivered.bind fun _ u hu => ?_
  have hkeptU : u.batch = true := batch_kept hkept hu
  refine Succeeds.bind ⟨(), _, rfl⟩ fun _ v hv => ?_
  have hkeptV : v.batch = true := batch_kept hkeptU hv
  exact (Succeeds.save hkeptV).bind fun _ w _ => ⟨_, w, rfl⟩

theorem finishTask_succeeds (hb : s.batch = true) {task : TeamTask} (htask : task ∈ s.tasks) (hrunning : task.status = .running)
    (hmember : HasMember s.teams task.teamId task.memberId) (hsession : outcome.sessionId ≠ some "") :
    Succeeds (finishTask host task.id outcome) s := by
  unfold finishTask
  refine Succeeds.bind ⟨task, s, requiredTask_of htask⟩ fun row t ht => ?_
  obtain ⟨rfl, hrow, hid⟩ := requiredTask_ok ht
  obtain rfl := eq_of_key hrow htask hid
  refine Succeeds.whenever fun _ => ?_
  refine (Succeeds.refuse (by simp [hrunning])).bind fun _ t ht => ?_
  obtain ⟨rfl, -⟩ := refuse_ok ht
  refine (Succeeds.refuse hsession).bind fun _ t ht => ?_
  obtain ⟨rfl, -⟩ := refuse_ok ht
  refine Succeeds.bind ⟨(), _, rfl⟩ fun _ t ht => ?_
  obtain rfl := modify_ok.mp ht
  obtain ⟨_, -, hidle⟩ := @idles { s with tasks := s.tasks.set { row with
    status := if outcome.isFailed then .failed else .succeeded
    sessionId := outcome.sessionId
    result := outcome.result
    error := outcome.error } } _ _ hmember outcome.isFailed
  refine Succeeds.bind ⟨(), _, hidle⟩ fun _ t ht => ?_
  cases hidle.symm.trans ht
  exact Succeeds.bind ⟨(), _, rfl⟩ fun _ t ht => Succeeds.save (batch_kept (by exact hb) ht)

theorem turn_succeeds (hs : Sound s.board) (hb : s.batch = true) {item : TeamDispatch} (hitem : item ∈ s.dispatches) (hrunning : item.status = .running)
    {openId : Option ℕ} (hopen : openTask item.taskId { s with dispatches := s.dispatches.set (item.finished outcome) } =
      (.ok openId, { s with dispatches := s.dispatches.set (item.finished outcome) }))
    (hsession : outcome.sessionId = some "" → ∀ task ∈ s.tasks, item.taskId = some task.id → task.status ≠ .running) :
    ∃ t, openId.elim (idleMember item.teamId item.memberId outcome.isFailed) (fun taskId => finishTask host taskId outcome)
      { s with dispatches := s.dispatches.set (item.finished outcome) } = (.ok (), t) ∧ HasMember t.teams item.teamId item.memberId := by
  have hmember : HasMember s.teams item.teamId item.memberId := hs.byMember item hitem (.inr hrunning)
  obtain ⟨-, ⟨rfl, -⟩ | ⟨_, htask, hkey, rfl, htaskRunning⟩⟩ := openTask_ok hopen
  · obtain ⟨_, hteams, hidle⟩ :=
      @idles { s with dispatches := s.dispatches.set (item.finished outcome) } _ _ hmember outcome.isFailed
    exact ⟨_, hidle, (hteams.has _ _).mpr hmember⟩
  · obtain ⟨task', htask', hid', hteam, htaskMember, -⟩ := hs.forTask item hitem _ hkey
    obtain rfl := eq_of_key htask' htask hid'
    rw [← hteam, ← htaskMember] at hmember
    obtain ⟨_, t, h⟩ := @finishTask_succeeds host { s with dispatches := s.dispatches.set (item.finished outcome) } outcome (by exact hb) task'
      htask htaskRunning hmember fun hempty => hsession hempty task' htask hkey htaskRunning
    obtain ⟨-, -, hteams⟩ := finishTask_ok (s := { s with dispatches := s.dispatches.set (item.finished outcome) }) htask htaskRunning h
    rw [← hteam, ← htaskMember]
    exact ⟨t, h, (hteams.has _ _).mpr hmember⟩

def Leads (s t : TeamStore) : Prop := ∀ team ∈ s.teams, ∃ team' ∈ t.teams, team'.id = team.id ∧ team'.leadId = team.leadId

theorem leadId_map {team : Team} {f : TeamMember → TeamMember} (hf : ∀ member, (f member).id = member.id ∧ (f member).role = member.role) :
    { team with members := team.members.map f }.leadId = team.leadId := by
  have hroles : (fun member : TeamMember => decide (member.role = .lead)) ∘ f = fun member => decide (member.role = .lead) := by
    funext member
    simp [(hf member).2]
  have hids : TeamMember.id ∘ f = TeamMember.id := by
    funext member
    exact (hf member).1
  simp only [Team.leadId, find?_map, hroles, Option.map_map, hids]

theorem idleMember_leads {teamId memberId : ℕ} {failed : Bool} {r : Unit} (h : idleMember teamId memberId failed s = (.ok r, t)) : Leads s t := by
  obtain ⟨team, _, hfound, h⟩ := bind_ok.mp h
  obtain ⟨rfl, hteam, -⟩ := requiredTeam_ok hfound
  obtain rfl := modify_ok.mp h
  intro row hrow
  by_cases hsame : row.id = team.id
  · obtain rfl := eq_of_key hrow hteam hsame
    refine ⟨_, Table.mem_set.mpr (.inl rfl), rfl, leadId_map fun member => ?_⟩
    by_cases hid : member.id = memberId
    · simp [hid]
    · simp [hid]
  · exact ⟨row, Table.mem_set.mpr (.inr ⟨hrow, hsame⟩), rfl, rfl⟩

theorem turn_leads {item : TeamDispatch} {openId : Option ℕ} {r : Unit}
    (h : openId.elim (idleMember item.teamId item.memberId outcome.isFailed) (fun taskId => finishTask host taskId outcome) s = (.ok r, t)) :
    Leads s t := by
  cases openId with
  | none => exact idleMember_leads h
  | some =>
    obtain ⟨_, _, hfound, h⟩ := bind_ok.mp h
    obtain ⟨rfl, -, -⟩ := requiredTask_ok hfound
    rcases whenever_of h with ⟨-, h⟩ | ⟨-, -, rfl⟩
    · obtain ⟨-, h⟩ := refuse_bind h
      obtain ⟨-, h⟩ := refuse_bind h
      rw [setTask_bind] at h
      obtain ⟨_, u, hidle, h⟩ := bind_ok.mp h
      have hleads := idleMember_leads hidle
      have hteams : t.teams = u.teams := congrArg Board.teams (Calm.board_eq h)
      unfold Leads
      rw [hteams]
      exact hleads
    · exact fun team hteam => ⟨team, hteam, rfl, rfl⟩

theorem openTask_succeeds {taskId : Option ℕ} (h : ∀ id, taskId = some id → ∃ task ∈ s.tasks, task.id = id) : Succeeds (openTask taskId) s := by
  cases taskId with
  | none => exact ⟨none, s, rfl⟩
  | some id =>
    obtain ⟨_, htask, rfl⟩ := h id rfl
    exact ⟨_, s, (bind_of_ok (requiredTask_of htask)).trans rfl⟩

theorem transaction_succeeds {perform : StoreAct α} [hp : Silent perform] (hb : s.batch = false) (hdisk : s.disk.head? ≠ some false)
    (h : Succeeds perform { s with batch := true }) : Succeeds (transaction perform) s := by
  obtain ⟨a, u, hu⟩ := h
  have hkept := hp.kept { s with batch := true } rfl
  rw [hu] at hkept
  have hsame : u.disk = s.disk := hkept.disk
  have hsave : save { u with batch := false } = (.ok (), { u with batch := false, file := u.toDocument, disk := u.disk.tail }) := by
    unfold save
    rw [if_neg (by simp), if_neg (by exact hsame ▸ hdisk)]
  refine ⟨a, { u with batch := false, file := u.toDocument, disk := u.disk.tail }, ?_⟩
  unfold transaction
  rw [if_neg (by simp [hb]), hu]
  simp only [hsave]

theorem transaction_disk {perform : StoreAct α} [hp : Silent perform] (hb : s.batch = false) {a : α} (h : transaction perform s = (.ok a, t)) :
    s.disk.head? ≠ some false := by
  intro hdisk
  unfold transaction at h
  rw [if_neg (by simp [hb])] at h
  have hkept := hp.kept { s with batch := true } rfl
  cases hu : perform { s with batch := true } with
  | mk r u =>
    rw [hu] at hkept h
    have hsame : u.disk = s.disk := hkept.disk
    have hsave : save { u with batch := false } = (.error "write_failed", { u with batch := false, disk := u.disk.tail }) := by
      unfold save
      rw [if_neg (by simp), if_pos (by exact hsame ▸ hdisk)]
    cases r with
    | error => cases h
    | ok =>
      simp only [hsave] at h
      cases h

theorem reportTurn_succeeds (hs : Sound s.board) (hb : s.batch = true) {item : TeamDispatch} {run : TeamRun} (hitem : item ∈ s.dispatches)
    (hended : item.status ≠ .cancelled) (hrun : run ∈ s.runs) (hrunId : run.id = item.runId) (hrunTeam : run.teamId = item.teamId)
    (hopen : ¬ run.status.Finished) (hmember : HasMember s.teams item.teamId item.memberId)
    (htext : (∃ team ∈ s.teams, team.id = item.teamId ∧ team.leadId = some item.memberId) ∨
      (boundedText (reportText host item.id outcome) 65536).isSome) : Succeeds (reportTurn host item run outcome) s := by
  obtain ⟨_, team, hteam, hteamId, -⟩ := id hmember
  obtain ⟨lead, hlead⟩ : ∃ lead, (team.members.find? fun member => member.role = .lead) = some lead := by
    obtain ⟨-, member, hmem, hrole⟩ := hs.formed team hteam
    refine Option.isSome_iff_exists.mp (find?_isSome.mpr ⟨member, hmem, ?_⟩)
    simp [hrole]
  unfold reportTurn
  refine Succeeds.bind ⟨team, s, hteamId ▸ requiredTeam_of hteam⟩ fun found t ht => ?_
  obtain ⟨rfl, hfound, hfoundId⟩ := requiredTeam_ok ht
  obtain rfl := eq_of_key hfound hteam (hfoundId.trans hteamId.symm)
  refine Succeeds.bind ⟨lead, s, required_ok.mpr ⟨hlead, rfl⟩⟩ fun lead' t ht => ?_
  obtain ⟨hlead', rfl⟩ := required_ok.mp ht
  obtain rfl := Option.some.inj (hlead.symm.trans hlead')
  by_cases hother : lead.id ≠ item.memberId
  · rw [if_pos hother]
    have hfits : (boundedText (reportText host item.id outcome) 65536).isSome := by
      rcases htext with ⟨_, hrow, hid, hleads⟩ | hfits
      · obtain rfl := eq_of_key hrow hteam (hid.trans hteamId.symm)
        unfold Team.leadId at hleads
        rw [hlead] at hleads
        exact absurd (Option.some.inj hleads) hother
      · exact hfits
    have hsend := @sendMessage_succeeds host s hs hb item run found lead _ hitem hended hrun hrunId hrunTeam hopen hteam hteamId hmember
      (mem_of_find?_eq_some hlead) hfits
    exact hsend.bind fun _ t _ => ⟨(), t, rfl⟩
  · rw [if_neg hother]
    exact Succeeds.bind ⟨s, s, rfl⟩ fun _ t _ => Succeeds.whenever fun _ => ⟨(), _, rfl⟩

theorem reportTurn_fits {item : TeamDispatch} {run : TeamRun} {r : Unit} (h : reportTurn host item run outcome s = (.ok r, t)) :
    (∃ team ∈ s.teams, team.id = item.teamId ∧ team.leadId = some item.memberId) ∨ (boundedText (reportText host item.id outcome) 65536).isSome := by
  obtain ⟨team, _, hfound, h⟩ := bind_ok.mp h
  obtain ⟨rfl, hteam, hid⟩ := requiredTeam_ok hfound
  obtain ⟨lead, _, hfound, h⟩ := bind_ok.mp h
  obtain ⟨hlead, rfl⟩ := required_ok.mp hfound
  by_cases hother : lead.id ≠ item.memberId
  · rw [if_pos hother] at h
    obtain ⟨_, u, hsend, -⟩ := bind_ok.mp h
    obtain ⟨_, v, -, -, hbody, -⟩ := transaction_body hsend
    obtain ⟨_, _, -, hbody⟩ := bind_ok.mp hbody
    obtain ⟨_, _, -, hbody⟩ := bind_ok.mp hbody
    obtain ⟨_, _, -, hbody⟩ := bind_ok.mp hbody
    obtain ⟨_, _, -, hbody⟩ := bind_ok.mp hbody
    obtain ⟨body, _, hparsed, -⟩ := bind_ok.mp hbody
    obtain ⟨hbody, -⟩ := required_ok.mp hparsed
    exact .inr (Option.isSome_iff_exists.mpr ⟨body, hbody⟩)
  · refine .inl ⟨team, hteam, hid, ?_⟩
    unfold Team.leadId
    rw [hlead, Option.map_some, not_not.mp hother]

theorem finishDispatch_succeeds (hs : Steady s) {item : TeamDispatch} (hitem : item ∈ s.dispatches) (hrunning : item.status = .running)
    (h : Recordable host s item outcome) : Succeeds (finishDispatch host item.id outcome) s := by
  obtain ⟨hdisk, hsession, htext⟩ := h
  unfold finishDispatch
  refine transaction_succeeds hs.batch hdisk ?_
  have hsound : Sound { s with batch := true }.board := hs.memory
  generalize hstore : ({ s with batch := true } : TeamStore) = b at hsound
  have hb : b.batch = true := hstore ▸ rfl
  have hteams : b.teams = s.teams := hstore ▸ rfl
  have htasks : b.tasks = s.tasks := hstore ▸ rfl
  have hruns : b.runs = s.runs := hstore ▸ rfl
  rw [show s.dispatches = b.dispatches from hstore ▸ rfl] at hitem
  rw [← htasks] at hsession
  rw [← hteams, ← hruns] at htext
  refine Succeeds.bind ⟨item, b, theDispatch_of hitem⟩ fun found t ht => ?_
  obtain ⟨rfl, hfound, hid⟩ := theDispatch_ok ht
  obtain rfl := eq_of_key hfound hitem hid
  refine Succeeds.whenever fun _ => ?_
  refine Succeeds.bind ⟨(), { b with dispatches := b.dispatches.set (found.finished outcome) }, rfl⟩ fun _ t ht => ?_
  obtain rfl : { b with dispatches := b.dispatches.set (found.finished outcome) } = t := modify_ok.mp ht
  have hopens : Succeeds (openTask found.taskId) { b with dispatches := b.dispatches.set (found.finished outcome) } := by
    refine openTask_succeeds fun id hid => ?_
    obtain ⟨task, htask, hkey, -⟩ := hsound.forTask found hitem id hid
    exact ⟨task, htask, hkey⟩
  refine hopens.bind fun openId t hopen => ?_
  obtain rfl := (Act.Reads.state hopen).symm
  obtain ⟨u, hturn, hmember⟩ := @turn_succeeds host b outcome hsound hb found hitem hrunning openId hopen hsession
  obtain ⟨hmoves, hturnRuns, hrecorded⟩ := turnEnds 0 hsound hitem hrunning hopen hturn
  have hkept : u.batch = true := batch_kept (by exact hb) hturn
  refine Succeeds.bind ⟨(), u, hturn⟩ fun _ t ht => ?_
  cases hturn.symm.trans ht
  obtain ⟨run, hrun, hrunId, hrunTeam, _⟩ := hsound.inRun found hitem
  have hrun' : run ∈ u.runs := hturnRuns ▸ hrun
  refine Succeeds.bind ⟨run, u, theRun_of hrun' hrunId⟩ fun run' t ht => ?_
  cases (theRun_of hrun' hrunId).symm.trans ht
  have hreport : Succeeds (whenever (¬ (run.status.Finished ∨ run.status = .interrupted)) (reportTurn host found run outcome)) u := by
    refine Succeeds.whenever fun hgoes => ?_
    obtain ⟨fanout, hended⟩ := hrecorded.ended
    refine @reportTurn_succeeds host u outcome (hmoves.sound hsound) hkept { found.finished outcome with fanoutMemberIds := fanout } run hended ?_
      hrun' hrunId hrunTeam (fun hfinished => hgoes (.inl hfinished)) hmember ?_
    · intro hcancelled
      have hstatus : outcome.dispatchStatus = .cancelled := hcancelled
      unfold Outcome.dispatchStatus at hstatus
      split at hstatus <;> cases hstatus
    · rcases htext with ⟨_, hrow, hid, hinterrupted⟩ | ⟨team, hteam, hid, hlead⟩ | hfits
      · obtain rfl := eq_of_key hrow hrun (hid.trans hrunId.symm)
        exact absurd (.inr hinterrupted) hgoes
      · obtain ⟨team', hteam', hid', hlead'⟩ := turn_leads hturn team hteam
        exact .inl ⟨team', hteam', hid'.trans hid, hlead'.trans hlead⟩
      · exact .inr hfits
  refine hreport.bind fun _ t ht => ?_
  have hkeptT : t.batch = true := batch_kept hkept ht
  refine Succeeds.bind ⟨(), _, rfl⟩ fun _ v hv => ?_
  have hkeptV : v.batch = true := batch_kept hkeptT hv
  exact Succeeds.bind ⟨(), _, rfl⟩ fun _ w hw => Succeeds.save (batch_kept hkeptV hw)

theorem recordable_of_ok (hs : Steady s) {item : TeamDispatch} (hitem : item ∈ s.dispatches) (hrunning : item.status = .running) {r : Unit}
    (h : finishDispatch host item.id outcome s = (.ok r, t)) : Recordable host s item outcome := by
  refine ⟨?_, ?_, ?_⟩
  · unfold finishDispatch at h
    exact transaction_disk hs.batch h
  · intro hempty task htask hkey htaskRunning
    have hrecorded := (@finishDispatch_ok host s t 0 outcome hs.memory _ _ h).2 item hitem rfl hrunning
    exact hrecorded.session task.id hkey ⟨task, htask, rfl, htaskRunning⟩ hempty
  · obtain ⟨u, v, hboard, -, hbody, -⟩ := transaction_body h
    have hsound : Sound u.board := hboard ▸ hs.memory
    rw [show s.dispatches = u.dispatches from (congrArg Board.dispatches hboard).symm] at hitem
    rw [show s.teams = u.teams from (congrArg Board.teams hboard).symm, show s.runs = u.runs from (congrArg Board.runs hboard).symm]
    obtain ⟨found, _, hfound, hbody⟩ := bind_ok.mp hbody
    obtain ⟨rfl, hmem, hid⟩ := theDispatch_ok hfound
    obtain rfl := eq_of_key hmem hitem hid
    rcases whenever_of hbody with ⟨-, hbody⟩ | ⟨hnot, -⟩
    swap
    · exact absurd hrunning hnot
    rw [setDispatch_bind] at hbody
    obtain ⟨_, w, hopen, hbody⟩ := bind_ok.mp hbody
    obtain rfl := (Act.Reads.state hopen).symm
    obtain ⟨_, x, hturn, hbody⟩ := bind_ok.mp hbody
    obtain ⟨-, hruns, -⟩ := turnEnds 0 hsound hitem hrunning hopen hturn
    obtain ⟨_, _, hrun, hbody⟩ := bind_ok.mp hbody
    obtain ⟨rfl, hrun, hrunId⟩ := theRun_ok hrun
    obtain ⟨_, y, hreport, -⟩ := bind_ok.mp hbody
    obtain ⟨row, hrow, hrowId, _, hrowOpen⟩ := hsound.inRun found hitem
    rw [hruns] at hrun
    obtain rfl := eq_of_key hrow hrun (hrowId.trans hrunId.symm)
    rcases whenever_of hreport with ⟨-, hreport⟩ | ⟨hnot, -⟩
    · rcases reportTurn_fits hreport with ⟨_, hteam', hid', hlead'⟩ | hfits
      · obtain ⟨_, team, hteam, hteamId, -⟩ := hsound.byMember found hitem (.inr hrunning)
        obtain ⟨_, hteam'', hid'', hlead''⟩ := turn_leads hturn team hteam
        obtain rfl := eq_of_key hteam' hteam'' (hid'.trans (hid''.trans hteamId).symm)
        exact .inr (.inl ⟨team, hteam, hteamId, hlead''.symm.trans hlead'⟩)
      · exact .inr (.inr hfits)
    · rcases not_not.mp hnot with hfinished | hinterrupted
      · rcases hrowOpen (.inr hrunning) with hopenRun | hclosing
        · exact absurd hfinished hopenRun
        · cases hclosing
      · exact .inl ⟨row, hrow, hrowId, hinterrupted⟩

theorem execute_recorded (hs : Steady s) {item : TeamDispatch} (hitem : item ∈ s.dispatches) (hrunning : item.status = .running) (now : ℤ)
    (outcome : Outcome) :
    (∃ t, execute host item.id now (.turned outcome) s = (.ok (), t) ∧ Recorded host outcome item s t) ↔ Recordable host s item outcome := by
  have hok {outcome : Outcome} {t : TeamStore} (h : finishDispatch host item.id outcome s = (.ok (), t)) : Recorded host outcome item s t :=
    (@finishDispatch_ok host s t 0 outcome hs.memory _ _ h).2 item hitem rfl hrunning
  constructor
  · rintro ⟨t, hrun, hrecorded⟩
    cases outcome with
    | failed => exact recordable_of_ok hs hitem hrunning hrun
    | succeeded sessionId result =>
      cases hfirst : finishDispatch host item.id (.succeeded sessionId result) s with
      | mk r u =>
        cases r with
        | ok => exact recordable_of_ok hs hitem hrunning hfirst
        | error e =>
          -- The turn is then recorded as a failed one.
          simp only [execute, hfirst] at hrun
          obtain ⟨hdocument, -⟩ := transaction_error hs.batch hfirst
          have hu : Steady u := Step.steady (.call (.finishDispatch item.id (.succeeded sessionId result)) hfirst) hs
          have hitemU : item ∈ u.dispatches := by
            rw [hdocument]
            exact hitem
          have hfailed := (@finishDispatch_ok host u t 0 (.failed e) hu.memory _ _ hrun).2 item hitemU rfl hrunning
          obtain ⟨_, hsucceeded⟩ := hrecorded.ended
          obtain ⟨_, hended⟩ := hfailed.ended
          have hsame := congrArg TeamDispatch.status (eq_of_key hsucceeded hended rfl)
          cases hsame
  · intro hrecordable
    obtain ⟨⟨⟩, t, hfinish⟩ := finishDispatch_succeeds hs hitem hrunning hrecordable
    refine ⟨t, ?_, hok hfinish⟩
    cases outcome with
    | failed => exact hfinish
    | succeeded => simp only [execute, hfinish]

end Finish

section Records

/-- Once the engine has answered, the turn is recorded if the file can be written, the session has an id, and the lead can be told. -/
theorem executions_recorded (h : Reachable host s) {item : TeamDispatch} (hitem : item ∈ s.dispatches) (hrunning : item.status = .running) (now : ℤ)
    (outcome : Outcome) :
    (∃ t, execute host item.id now (.turned outcome) s = (.ok (), t) ∧ Recorded host outcome item s t) ↔ Recordable host s item outcome :=
  execute_recorded h.steady hitem hrunning now outcome

def memberTurn : TeamStore :=
  replay plainHost [.create "t" "w" ⟨"l", .harness, none, "p"⟩, .addMember 0 ⟨"m", .harness, none, "p"⟩, .startRun 0 "a" (some 3), .beginDispatch 6] .start

theorem memberTurn_reachable : Reachable plainHost memberTurn := replay_later _

def memberItem : TeamDispatch := ⟨6, 0, 5, 3, none, [], "a", none, 0, [], .running, none, none, none, none, none⟩

set_option maxRecDepth 100000 in
theorem memberItem_mem : memberItem ∈ memberTurn.dispatches := by
  have hmem : memberItem ∈ memberTurn.dispatches.rows := by decide
  exact hmem

set_option maxRecDepth 100000 in
theorem executions_recorded_member :
    ∃ t, execute plainHost 6 0 (.turned (.succeeded "s" (some "r"))) memberTurn = (.ok (), t) ∧
      Recorded plainHost (.succeeded "s" (some "r")) memberItem memberTurn t := by
  refine (executions_recorded memberTurn_reachable memberItem_mem rfl 0 (.succeeded "s" (some "r"))).mpr ⟨by decide, ?_, .inr (.inr ?_)⟩
  · simp [Outcome.sessionId]
  · decide

theorem codeUnits_long (text : String) : text.toList.length ≤ codeUnits text := by
  have hfold (l : List Char) (n : ℕ) : l.length + n ≤ l.foldl (fun n c => n + if c.toNat < 0x10000 then 1 else 2) n := by
    induction l generalizing n with
    | nil => simp
    | cons c _ ih =>
      have hone : 1 ≤ if c.toNat < 0x10000 then 1 else 2 := by split <;> omega
      have hrest := ih (n + if c.toNat < 0x10000 then 1 else 2)
      simp only [foldl_cons, length_cons]
      omega
  exact hfold text.toList 0

theorem boundedText_long {text : String} {first last : Char} {middle : List Char} {bound : ℕ} (htext : text.toList = first :: (middle ++ [last]))
    (hfirst : Harness.isSpace first = false) (hlast : Harness.isSpace last = false) (hlong : bound < middle.length) : boundedText text bound = none := by
  have htrimmed : ((text.toList.dropWhile Harness.isSpace).reverse.dropWhile Harness.isSpace).reverse = text.toList := by
    simp [htext, hfirst, hlast]
  have hlength := codeUnits_long text
  rw [htext] at hlength
  unfold boundedText
  simp only [htrimmed, String.ofList_toList]
  refine if_neg fun h => ?_
  simp only [length_cons, length_append] at hlength
  omega

def longResult (n : ℕ) : String := String.ofList (List.replicate (n + 1) 'a')

theorem longResult_refused {n : ℕ} (h : 65536 < n) :
    boundedText (reportText plainHost 6 (.succeeded "s" (some (longResult n)))) 65536 = none := by
  obtain ⟨tail, hstart⟩ : ∃ tail, ("成员回合 team-dispatch-" ++ (plainHost.uuid 6).text ++ " 完成：\n").toList = '成' :: tail :=
    ⟨("成员回合 team-dispatch-" ++ (plainHost.uuid 6).text ++ " 完成：\n").toList.tail, by decide⟩
  have htext : reportText plainHost 6 (.succeeded "s" (some (longResult n))) =
      "成员回合 team-dispatch-" ++ (plainHost.uuid 6).text ++ " 完成：\n" ++ longResult n := rfl
  have hlist : (reportText plainHost 6 (.succeeded "s" (some (longResult n)))).toList = '成' :: ((tail ++ List.replicate n 'a') ++ ['a']) := by
    rw [htext, String.toList_append, hstart, longResult, String.toList_ofList, replicate_succ']
    simp only [cons_append, append_assoc]
  have hlong : 65536 < (tail ++ List.replicate n 'a').length := by
    rw [length_append, length_replicate]
    omega
  exact boundedText_long hlist (by decide) (by decide) hlong

set_option maxRecDepth 100000 in
/-- A long result of a member that is not the lead is not recorded. -/
theorem long_result_lost :
    ¬ ∃ t, execute plainHost 6 0 (.turned (.succeeded "s" (some (longResult 65537)))) memberTurn = (.ok (), t) ∧
      Recorded plainHost (.succeeded "s" (some (longResult 65537))) memberItem memberTurn t := by
  intro hrecorded
  obtain ⟨-, -, hreport⟩ := (execute_recorded memberTurn_reachable.steady memberItem_mem rfl 0 _).mp hrecorded
  have hruns : ∀ run ∈ memberTurn.runs.rows, run.status ≠ .interrupted := by decide
  have hteams : ∀ team ∈ memberTurn.teams.rows, team.leadId ≠ some 3 := by decide
  rcases hreport with ⟨run, hrun, -, hinterrupted⟩ | ⟨team, hteam, -, hlead⟩ | hfits
  · exact hruns run hrun hinterrupted
  · exact hteams team hteam hlead
  · have hrefused : boundedText (reportText plainHost memberItem.id (.succeeded "s" (some (longResult 65537)))) 65536 = none :=
      longResult_refused (by norm_num)
    rw [hrefused] at hfits
    cases hfits

end Records

end WorkAgent.Teams
