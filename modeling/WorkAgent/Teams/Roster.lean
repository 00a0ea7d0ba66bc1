import WorkAgent.Teams.Calls

namespace WorkAgent.Teams

open Library Act.Reads List

set_option synthInstance.maxSize 4000

variable {host : Host} {s t : TeamStore} {base : ℕ} {β : Type}

section Steps

variable {f : ℕ → StoreAct β} {g : Unit → StoreAct β}

theorem draw_bind : (randomUUID >>= f) s = f s.drawn { s with drawn := s.drawn + 1 } := rfl

theorem setTeam_bind {team : Team} : (setTeam team >>= g) s = g () { s with teams := s.teams.set team } := rfl

theorem setTask_bind {task : TeamTask} : (setTask task >>= g) s = g () { s with tasks := s.tasks.set task } := rfl

theorem setRun_bind {run : TeamRun} : (setRun run >>= g) s = g () { s with runs := s.runs.set run } := rfl

theorem setDispatch_bind {item : TeamDispatch} : (setDispatch item >>= g) s = g () { s with dispatches := s.dispatches.set item } := rfl

theorem modify_bind {change : TeamStore → TeamStore} : ((Act.modify change : StoreAct Unit) >>= g) s = g () (change s) := rfl

theorem event_bind {teamId subjectId : ℕ} {type : EventType} : ∃ u, u.board = s.board ∧ (event teamId type subjectId >>= g) s = g () u :=
  ⟨(event teamId type subjectId s).2, rfl, rfl⟩

instance (id sessionId : ℕ) (role : Role) (status : MemberStatus) (input : MemberInput) :
    Act.Reads (parseMember host id sessionId role status input) := by
  unfold parseMember
  infer_instance

theorem parseMember_ok {id sessionId : ℕ} {role : Role} {status : MemberStatus} {input : MemberInput} {member : TeamMember}
    (h : parseMember host id sessionId role status input s = (.ok member, t)) :
    member.id = id ∧ member.role = role ∧ member.status = status := by
  obtain ⟨_, _, -, h⟩ := Act.bind_ok.mp h
  obtain ⟨_, _, -, h⟩ := Act.bind_ok.mp h
  obtain ⟨_, _, -, h⟩ := Act.bind_ok.mp h
  obtain ⟨rfl, -⟩ := Act.pure_ok.mp h
  exact ⟨rfl, rfl, rfl⟩

end Steps

section Members

variable {kind : Kind} {b : Board} {team next : Team} {drawn memberId : ℕ}

theorem staffed_members (hs : Sound b) (hteam : team ∈ b.teams) (hid : next.id = team.id) (hlater : b.drawn ≤ drawn) (hformed : next.Formed)
    (hjoined : ∀ member' ∈ next.members, (∃ member ∈ team.members, member.id = member'.id ∧ member.status = member'.status) ∨
      member'.status = .idle ∧ member'.id = memberId ∧ b.drawn ≤ memberId ∧ memberId < drawn)
    (hstayed : ∀ member ∈ team.members, (∃ member' ∈ next.members, member'.id = member.id ∧ member'.status = member.status) ∨
      kind = .removes ∧ Unused b team.id member.id) : Staffed kind b (b.teams.set next) drawn team.id memberId where
  later := hlater
  teamFresh row hrow := by
    rcases Table.mem_set.mp hrow with rfl | ⟨hold, -⟩
    · exact .inl ⟨team, hteam, hid.symm⟩
    · exact .inl ⟨row, hold, rfl⟩
  kept row hrow := by
    by_cases hsame : row.id = next.id
    · exact ⟨next, Table.mem_set.mpr (.inl rfl), hsame.symm⟩
    · exact ⟨row, Table.mem_set.mpr (.inr ⟨hrow, hsame⟩), rfl⟩
  formed row hrow := by
    rcases Table.mem_set.mp hrow with rfl | ⟨hold, -⟩
    · exact hformed
    · exact hs.formed row hold
  joined teamId memberId' status := by
    rintro ⟨row, hrow, rfl, member', hmember', rfl, rfl⟩
    rcases Table.mem_set.mp hrow with rfl | ⟨hold, -⟩
    · rcases hjoined member' hmember' with ⟨member, hmember, hkey, hstatus⟩ | ⟨hidle, hnew⟩
      · exact .inl ⟨team, hteam, hid.symm, member, hmember, hkey, hstatus⟩
      · exact .inr ⟨hidle, hid, hnew⟩
    · exact .inl ⟨row, hold, rfl, member', hmember', rfl, rfl⟩
  stayed teamId memberId' status := by
    rintro ⟨row, hrow, rfl, member, hmember, rfl, rfl⟩
    by_cases hsame : row.id = team.id
    · obtain rfl := Table.eq_of_key hrow hteam hsame
      rcases hstayed member hmember with ⟨member', hmember', hkey, hstatus⟩ | hremoved
      · exact .inl ⟨next, Table.mem_set.mpr (.inl rfl), hid, member', hmember', hkey, hstatus⟩
      · exact .inr hremoved
    · exact .inl ⟨row, Table.mem_set.mpr (.inr ⟨hrow, hid ▸ hsame⟩), rfl, member, hmember, rfl, rfl⟩

theorem staffed_create (hs : Sound b) {lead : TeamMember} (hnew : b.drawn ≤ next.id) (hold : next.id < drawn)
    (hmembers : next.members = [lead]) (hrole : lead.role = .lead) (hidle : lead.status = .idle) (hleadNew : b.drawn ≤ lead.id)
    (hleadOld : lead.id < drawn) : Staffed .plain b (b.teams.set next) drawn next.id lead.id where
  later := by omega
  teamFresh row hrow := by
    rcases Table.mem_set.mp hrow with rfl | ⟨hrow, -⟩
    · exact .inr hold
    · exact .inl ⟨row, hrow, rfl⟩
  kept row hrow := by
    have hne : row.id ≠ next.id := by
      have hfresh := hs.teamFresh row hrow
      omega
    exact ⟨row, Table.mem_set.mpr (.inr ⟨hrow, hne⟩), rfl⟩
  formed row hrow := by
    rcases Table.mem_set.mp hrow with rfl | ⟨hrow, -⟩
    · unfold Team.Formed
      simp [hmembers, hrole]
    · exact hs.formed row hrow
  joined teamId memberId' status := by
    rintro ⟨row, hrow, rfl, member', hmember', rfl, rfl⟩
    rcases Table.mem_set.mp hrow with rfl | ⟨hrow, -⟩
    · rw [hmembers] at hmember'
      obtain rfl := mem_singleton.mp hmember'
      exact .inr ⟨hidle, rfl, rfl, hleadNew, hleadOld⟩
    · exact .inl ⟨row, hrow, rfl, member', hmember', rfl, rfl⟩
  stayed teamId memberId' status := by
    rintro ⟨row, hrow, rfl, member, hmember, rfl, rfl⟩
    have hne : row.id ≠ next.id := by
      have hfresh := hs.teamFresh row hrow
      omega
    exact .inl ⟨row, Table.mem_set.mpr (.inr ⟨hrow, hne⟩), rfl, member, hmember, rfl, rfl⟩

theorem drawn_moves {n : ℕ} (h : s.drawn ≤ n) : Moves base (· = .plain) s.board { s.board with drawn := n } :=
  @Moves.draws base (· = .plain) s.board rfl n h

end Members

section Calls

variable {r : Except String Team}

theorem create_moves (hs : Sound s.board) {name workspaceId : String} {lead : MemberInput}
    (h : create host name workspaceId lead s = (r, t)) : Moves base (· = .plain) s.board t.board := by
  unfold create at h
  refine Act.Reads.bind_moves h fun _ _ h => ?_
  refine Act.Reads.bind_moves h fun _ _ h => ?_
  rw [draw_bind, draw_bind, draw_bind] at h
  rcases bind_eq h with ⟨_, -, rfl⟩ | ⟨_, hmember, h⟩
  · exact drawn_moves (n := s.drawn + 1 + 1 + 1) (by omega)
  rw [setTeam_bind] at h
  obtain ⟨hid, hrole, hstatus⟩ := parseMember_ok hmember
  rw [Calm.board_eq h]
  refine .one rfl (.staff (.inl rfl) (staffed_create hs (Nat.le_refl _) ?_ rfl hrole hstatus ?_ ?_))
  · change s.drawn < s.drawn + 1 + 1 + 1
    omega
  · rw [hid]
    change s.drawn ≤ s.drawn + 1
    omega
  · rw [hid]
    change s.drawn + 1 < s.drawn + 1 + 1 + 1
    omega

variable {teamId : ℕ}

theorem addMember_moves (hs : Sound s.board) {input : MemberInput}
    (h : addMember host teamId input s = (r, t)) : Moves base (· = .plain) s.board t.board ∧ t.runs = s.runs := by
  unfold addMember at h
  rcases bind_eq h with ⟨_, -, rfl⟩ | ⟨team, hfound, h⟩
  · exact ⟨.none, rfl⟩
  rcases bind_eq h with ⟨_, -, rfl⟩ | ⟨_, -, h⟩
  · exact ⟨.none, rfl⟩
  rw [draw_bind, draw_bind] at h
  rcases bind_eq h with ⟨_, -, rfl⟩ | ⟨_, hmember, h⟩
  · exact ⟨drawn_moves (n := s.drawn + 1 + 1) (by omega), rfl⟩
  rw [setTeam_bind] at h
  obtain ⟨-, hteam, rfl⟩ := requiredTeam_ok hfound
  obtain ⟨hid, _, hstatus⟩ := parseMember_ok hmember
  obtain ⟨hnodup, lead, hlead, hleads⟩ := hs.formed team hteam
  have hboard := Calm.board_eq h
  refine ⟨?_, congrArg Board.runs hboard⟩
  rw [hboard]
  have hnew (row : TeamMember) (hrow : row ∈ team.members) : row.id < s.drawn :=
    hs.memberFresh team.id row.id row.status ⟨team, hteam, rfl, row, hrow, rfl, rfl⟩
  refine .one rfl (.staff (.inl rfl) (@staffed_members _ s.board team _ (s.drawn + 1 + 1) s.drawn hs hteam rfl ?_ ⟨?_, lead, ?_, hleads⟩ ?_ ?_))
  · change s.drawn ≤ s.drawn + 1 + 1
    omega
  · simp only [map_append, map_cons, map_nil, hid]
    refine nodup_append.mpr ⟨hnodup, nodup_singleton _, ?_⟩
    intro x hx y hy
    obtain ⟨row, hrow, rfl⟩ := mem_map.mp hx
    obtain rfl := mem_singleton.mp hy
    exact (hnew row hrow).ne
  · exact mem_append.mpr (.inl hlead)
  · intro row hrow
    rcases mem_append.mp hrow with hrow | hrow
    · exact .inl ⟨row, hrow, rfl, rfl⟩
    · obtain rfl := mem_singleton.mp hrow
      refine .inr ⟨hstatus, hid, Nat.le_refl _, ?_⟩
      omega
  · exact fun row hrow => .inl ⟨row, mem_append.mpr (.inl hrow), rfl, rfl⟩

theorem updateMember_moves (hs : Sound s.board) {memberId : ℕ} {input : MemberMutation}
    (h : updateMember host teamId memberId input s = (r, t)) : Moves base (· = .plain) s.board t.board := by
  unfold updateMember at h
  refine Act.Reads.bind_moves h fun team hfound h => ?_
  refine Act.Reads.bind_moves h fun current hcurrent h => ?_
  refine Act.Reads.bind_moves h fun _ _ h => ?_
  refine Act.Reads.bind_moves h fun _ _ h => ?_
  rw [draw_bind] at h
  rcases bind_eq h with ⟨_, -, rfl⟩ | ⟨updated, hupdated, h⟩
  · exact drawn_moves (Nat.le_succ s.drawn)
  rw [setTeam_bind] at h
  obtain ⟨-, hteam, rfl⟩ := requiredTeam_ok hfound
  obtain ⟨-, hmember, rfl⟩ := requiredMember_ok hcurrent
  obtain ⟨hid, hrole, hstatus⟩ := parseMember_ok hupdated
  obtain ⟨hnodup, lead, hlead, hleads⟩ := hs.formed team hteam
  rw [Calm.board_eq h]
  have hmapped (row : TeamMember) (hrow : row ∈ team.members) :
      (if row.id = current.id then updated else row).id = row.id ∧ (if row.id = current.id then updated else row).role = row.role ∧
        (if row.id = current.id then updated else row).status = row.status := by
    by_cases hsame : row.id = current.id
    · obtain rfl := inj_on_of_nodup_map hnodup hrow hmember hsame
      simp [hid, hrole, hstatus]
    · simp [hsame]
  refine .one rfl (.staff (.inl rfl) (@staffed_members _ s.board team _ (s.drawn + 1) 0 hs hteam rfl (Nat.le_succ _) ⟨?_, ?_⟩ ?_ ?_))
  · have hids : (team.members.map fun member => if member.id = current.id then updated else member).map TeamMember.id =
        team.members.map TeamMember.id := by
      rw [map_map]
      exact map_congr_left fun row hrow => (hmapped row hrow).1
    change ((team.members.map fun member => if member.id = current.id then updated else member).map TeamMember.id).Nodup
    rw [hids]
    exact hnodup
  · exact ⟨_, mem_map_of_mem hlead, (hmapped lead hlead).2.1.trans hleads⟩
  · intro _ hrow'
    obtain ⟨row, hrow, rfl⟩ := mem_map.mp hrow'
    exact .inl ⟨row, hrow, (hmapped row hrow).1.symm, (hmapped row hrow).2.2.symm⟩
  · exact fun row hrow => .inl ⟨_, mem_map_of_mem hrow, (hmapped row hrow).1, (hmapped row hrow).2.2⟩

theorem reordered {team : Team} (hformed : team.Formed) {memberIds : List ℕ} (hvalid : validOrder team memberIds) :
    ((memberIds.filterMap fun id => team.members.find? fun member => member.id = id).map TeamMember.id).Nodup ∧
      ∀ member, member ∈ (memberIds.filterMap fun id => team.members.find? fun member => member.id = id) ↔ member ∈ team.members := by
  obtain ⟨hlength, hnodup, -, hall⟩ := hvalid
  have hfind (id : ℕ) (hid : id ∈ memberIds) : ∃ member ∈ team.members, member.id = id ∧
      (team.members.find? fun member => member.id = id) = some member := by
    obtain ⟨member, hmember, hkey⟩ := hall id hid
    cases hfound : team.members.find? fun member => member.id = id with
    | none =>
      have hnone := List.find?_eq_none.mp hfound member hmember
      simp [hkey] at hnone
    | some found => exact ⟨found, mem_of_find?_eq_some hfound, by simpa using find?_some hfound, rfl⟩
  have hids : (memberIds.filterMap fun id => team.members.find? fun member => member.id = id).map TeamMember.id = memberIds := by
    clear hnodup hlength hall
    induction memberIds with
    | nil => rfl
    | cons id _ ih =>
      obtain ⟨member, -, hkey, hfound⟩ := hfind id mem_cons_self
      rw [filterMap_cons, hfound]
      simp only [map_cons, hkey]
      rw [ih fun id hid => hfind id (mem_cons_of_mem _ hid)]
  refine ⟨by rw [hids]; exact hnodup, ?_⟩
  intro member
  constructor
  · intro hmember
    obtain ⟨id, -, hfound⟩ := mem_filterMap.mp hmember
    exact mem_of_find?_eq_some hfound
  · intro hmember
    -- Every id of the team is named: the lists of ids have the same length and no repetitions.
    have hnamed : member.id ∈ memberIds := by
      have hsubset : memberIds ⊆ team.members.map TeamMember.id := by
        intro id hid
        obtain ⟨_, hother, hkey⟩ := hall id hid
        exact hkey ▸ mem_map_of_mem hother
      have hperm : memberIds.Perm (team.members.map TeamMember.id) := by
        refine (hnodup.subperm hsubset).perm_of_length_le ?_
        rw [length_map, hlength]
      exact hperm.mem_iff.mpr (mem_map_of_mem hmember)
    obtain ⟨_, hfoundMem, hkey, hfound⟩ := hfind member.id hnamed
    obtain rfl := inj_on_of_nodup_map hformed.1 hfoundMem hmember hkey
    exact mem_filterMap.mpr ⟨_, hnamed, hfound⟩

theorem update_moves (hs : Sound s.board) {id version : ℕ} {mutation : TeamMutation}
    (h : update host id version mutation s = (r, t)) : Moves base (· = .plain) s.board t.board := by
  unfold update at h
  refine Act.Reads.bind_moves h fun team hfound h => ?_
  refine Act.Reads.bind_moves h fun _ _ h => ?_
  refine Act.Reads.bind_moves h fun _ horder h => ?_
  refine Act.Reads.bind_moves h fun _ _ h => ?_
  refine Act.Reads.bind_moves h fun _ _ h => ?_
  rw [setTeam_bind] at h
  obtain ⟨-, hteam, rfl⟩ := requiredTeam_ok hfound
  obtain ⟨-, horder⟩ := refuse_ok horder
  have hformed := hs.formed team hteam
  rw [Calm.board_eq h]
  have hmembers : ((mutation.memberIds.elim team.members fun memberIds =>
      memberIds.filterMap fun id => team.members.find? fun member => member.id = id).map TeamMember.id).Nodup ∧
      ∀ member, member ∈ (mutation.memberIds.elim team.members fun memberIds =>
        memberIds.filterMap fun id => team.members.find? fun member => member.id = id) ↔ member ∈ team.members := by
    cases hids : mutation.memberIds with
    | none => exact ⟨hformed.1, fun _ => Iff.rfl⟩
    | some memberIds =>
      refine reordered hformed ?_
      by_contra hinvalid
      exact horder ⟨memberIds, by simp [hids], hinvalid⟩
  obtain ⟨hnodup, hsame⟩ := hmembers
  obtain ⟨-, lead, hlead, hleads⟩ := hformed
  refine .one rfl (.staff (.inl rfl) (@staffed_members _ s.board team _ s.drawn 0 hs hteam rfl (Nat.le_refl _) ⟨hnodup, lead, ?_, hleads⟩ ?_ ?_))
  · exact (hsame lead).mpr hlead
  · exact fun row hrow => .inl ⟨row, (hsame row).mp hrow, rfl, rfl⟩
  · exact fun row hrow => .inl ⟨row, (hsame row).mpr hrow, rfl, rfl⟩

theorem removeMember_moves (hs : Sound s.board) {memberId : ℕ}
    (h : removeMember teamId memberId s = (r, t)) : Moves base (fun kind => kind = .plain ∨ kind = .removes) s.board t.board := by
  unfold removeMember at h
  refine Act.Reads.bind_moves h fun team hfound h => ?_
  refine Act.Reads.bind_moves h fun current hcurrent h => ?_
  refine Act.Reads.bind_moves h fun _ hlead h => ?_
  rw [read_bind] at h
  refine Act.Reads.bind_moves h fun _ hbusy h => ?_
  rw [setTeam_bind] at h
  obtain ⟨-, hteam, rfl⟩ := requiredTeam_ok hfound
  obtain ⟨-, hmember, rfl⟩ := requiredMember_ok hcurrent
  obtain ⟨-, hlead⟩ := refuse_ok hlead
  obtain ⟨-, hbusy⟩ := refuse_ok hbusy
  rw [not_or, not_or] at hbusy
  obtain ⟨-, hitems, htasks⟩ := hbusy
  obtain ⟨hnodup, lead, hleadMem, hleads⟩ := hs.formed team hteam
  rw [Calm.board_eq h]
  have hunused : Unused s.board team.id current.id :=
    ⟨fun item hitem hkey hpending => hitems ⟨item, hitem, hkey, hpending⟩,
      fun task htask hkey hassigned hpending => htasks ⟨task, htask, hkey, hassigned, hpending⟩⟩
  refine .one (.inr rfl) (.staff (.inr rfl) (@staffed_members _ s.board team _ s.drawn 0 hs hteam rfl (Nat.le_refl _) ⟨?_, lead, ?_, hleads⟩ ?_ ?_))
  · exact (filter_sublist.map _).nodup hnodup
  · refine mem_filter.mpr ⟨hleadMem, ?_⟩
    simp only [ne_eq, decide_not, Bool.not_eq_eq_eq_not, Bool.not_true, decide_eq_false_iff_not]
    intro hsame
    obtain rfl := inj_on_of_nodup_map hnodup hleadMem hmember hsame
    exact hlead hleads
  · exact fun row hrow => .inl ⟨row, (mem_filter.mp hrow).1, rfl, rfl⟩
  · intro row hrow
    by_cases hsame : row.id = current.id
    · rw [hsame]
      exact .inr ⟨rfl, hunused⟩
    · exact .inl ⟨row, mem_filter.mpr ⟨hrow, by simpa using hsame⟩, rfl, rfl⟩

theorem delete_moves {r : Except String Unit} (h : delete host teamId s = (r, t)) :
    Moves base (· = .plain) s.board t.board := by
  unfold delete at h
  refine Act.Reads.bind_moves h fun _ _ h => ?_
  rw [read_bind] at h
  refine Act.Reads.bind_moves h fun _ _ h => ?_
  obtain ⟨u, hu, hevent⟩ := event_bind (g := fun _ => _) (s := s)
  rw [hevent, modify_bind] at h
  rw [Calm.board_eq h, ← hu]
  exact .one rfl (.deleteTeam teamId rfl)

end Calls

end WorkAgent.Teams
