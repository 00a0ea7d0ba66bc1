import WorkAgent.Library.Executions
import WorkAgent.SkillRuntime.References

namespace WorkAgent.SkillRuntime

open Library Script Table Char

variable {Tree : Type} {lower : Char → Char} {w t s : World Tree} {op : Op Tree} {r row : Entry Tree} {c d : Call Tree}
  {log : List (Call Tree × Bool)} {answer : Option Answer} {id : String} {enabled : Bool}

section Enabling

structure Enabled (w t : World Tree) (id : String) (enabled : Bool) : Prop where
  sound : Sound t
  disk : t.disk = w.disk
  revoked : t.revoked = w.revoked
  others : ∀ r, r.id ≠ id → (r ∈ t.rows ↔ r ∈ w.rows)
  own : ∀ r ∈ t.rows, r.id = id → r.enabled = enabled
  ids : ∀ r ∈ t.rows, ∃ r₀ ∈ w.rows, r₀.id = r.id
  found : ∃ r ∈ t.rows, r.id = id
  same : ¬ (Call.enable id enabled : Call Tree).Alters w → t = w

theorem Sound.congr (h : Sound w) (hrows : t.rows = w.rows) (hdisk : t.disk = w.disk) : Sound t := by
  apply h.fewer
  intro r hr
  rw [hrows] at hr
  exact ⟨hr, by rw [hdisk]⟩

theorem effect_enable (h : effect (.enable id enabled) w = some t) : ∃ old ∈ w.rows, old.id = id ∧
    t = w.withRows (w.rows.update (fun r => r.id = id) (fun r => { r with enabled := enabled }) fun _ => rfl) := by
  simp only [effect] at h
  split at h
  · rename_i hhas
    obtain ⟨old, hold, hid⟩ := has_eq_true.mp hhas
    exact ⟨old, hold, hid, (Option.some.inj h).symm⟩
  · cases h

theorem Sound.enable (h : Sound w) (ht : effect (.enable id enabled) w = some t) : Enabled w t id enabled := by
  obtain ⟨old, hold, hid, rfl⟩ := effect_enable ht
  have hmem (r : Entry Tree) (hr : r ∈ w.rows.update (fun r => r.id = id) (fun r => { r with enabled := enabled }) fun _ => rfl) :
      r = { old with enabled := enabled } ∨ (r ∈ w.rows ∧ r.id ≠ id) := by
    obtain ⟨_, hr₀, -, ⟨hkey, rfl⟩ | ⟨hkey, rfl⟩⟩ := exists_of_mem_update hr
    · obtain rfl := eq_of_key hr₀ hold (hkey.trans hid.symm)
      exact .inl rfl
    · exact .inr ⟨hr₀, hkey⟩
  refine ⟨?_, World.disk_withRows _, World.revoked_withRows _, ?_, ?_, ?_, ?_, ?_⟩
  · refine h.rehouse { old with enabled := enabled } ?_ ?_ (h.plain old hold) (h.home old hold)
    · intro r hr
      rw [World.rows_withRows] at hr
      refine (hmem r hr).imp_right fun ⟨hr, hne⟩ => ⟨hr, ?_, by rw [World.disk_withRows]⟩
      intro hsame
      exact hne ((congrArg Entry.id (h.housed.apart r hr old hold hsame)).trans hid)
    · intro _
      rw [World.node, World.disk_withRows]
      exact h.housed.holds old hold
  · intro r hne
    rw [World.rows_withRows]
    constructor
    · intro hr
      rcases hmem r hr with rfl | ⟨hr, -⟩
      · exact absurd hid hne
      · exact hr
    · intro hr
      exact mem_update_of_neg (p := fun r => r.id = id) (f := fun r => { r with enabled := enabled }) hr hne fun _ => rfl
  · intro r hr hrid
    rw [World.rows_withRows] at hr
    rcases hmem r hr with rfl | ⟨-, hne⟩
    · rfl
    · exact absurd hrid hne
  · intro r hr
    rw [World.rows_withRows] at hr
    rcases hmem r hr with rfl | ⟨hr, -⟩
    · exact ⟨old, hold, rfl⟩
    · exact ⟨r, hr, rfl⟩
  · rw [World.rows_withRows]
    exact exists_key_update (p := fun r => r.id = id) (f := fun r => { r with enabled := enabled }) ⟨old, hold, hid⟩ fun _ => rfl
  · intro hsame
    refine World.ext ?_ (World.revoked_withRows _) (by cases w; rfl) (World.disk_withRows _) (World.trash_withRows _)
    rw [World.rows_withRows]
    apply ext_rows
    rw [rows_update]
    conv_rhs => rw [← List.map_id w.rows.rows]
    apply List.map_congr_left
    intro r hr
    split
    · rename_i hrid
      have hkept : r.enabled = enabled := by
        by_contra hne
        exact hsame ⟨r, hr, hrid, hne⟩
      rw [← hkept]
      rfl
    · rfl

theorem Enabled.fair (h : Enabled w t id enabled) (hconcerns : ∀ r, r.id = id → op.Concerns r) (hoff : enabled = true → id ∉ w.revoked)
    (hanswer : answer ≠ some .failed) : Fair lower w op log answer t := by
  intro _
  refine ⟨h.sound, h.sound.housed, fun hfailed => absurd hfailed hanswer, ?_, ?_⟩
  · intro r hr hnot
    rw [h.disk]
    exact ⟨(h.others r fun hrid => hnot (hconcerns r hrid)).mpr hr, rfl⟩
  · intro _ hid' hdisabled
    rw [h.revoked]
    refine ⟨hid', ?_⟩
    intro r hr hrid
    by_cases hsame : r.id = id
    · rw [h.own r hr hsame, ← Bool.not_eq_true]
      intro hon
      apply hoff hon
      rw [← hsame, hrid]
      exact hid'
    · exact hdisabled r ((h.others r hsame).mp hr) hrid

theorem update_ends (pre : List (Call Tree × Bool)) (h : Sound w) (hconcerns : ∀ r, r.id = id → op.Concerns r) (hoff : enabled = true → id ∉ w.revoked) :
    (attempt (.enable id enabled) (done .failed) <| attempt .answers (done .failed) (done .succeeded)).Ends effect
      (fun log answer t => Fair lower w op (pre ++ log) answer t) w := by
  rw [ends_attempt]
  refine ⟨fair_same h, fair_same h, ?_⟩
  intro t ht
  have henabled := h.enable ht
  refine ⟨henabled.fair hconcerns hoff (by simp), ?_⟩
  rw [ends_attempt]
  refine ⟨henabled.fair hconcerns hoff (by simp), ?_, ?_⟩
  · by_cases halters : (Call.enable id enabled : Call Tree).Alters w
    · exact fair_failed (c := .answers) (d := .enable id enabled) (by simp) (by simp) halters
    · rw [henabled.same halters]
      exact fair_same h
  · intro u hu
    obtain rfl := (Option.some.inj hu).symm
    exact ⟨henabled.fair hconcerns hoff (by simp), henabled.fair hconcerns hoff (by simp)⟩

theorem setEnabled_ends (h : Sound w) (hconcerns : ∀ r, r.id = id → op.Concerns r) :
    (SetEnabled id enabled).Ends effect (fun log answer t => Fair lower w op log answer t) w := by
  unfold SetEnabled
  dsimp only
  split
  · refine ends_reads (fun _ _ => fair_same h) ?_
    rw [ends_look]
    split
    · exact fair_same h
    · rename_i hrevoked
      exact update_ends [(.reads, true)] h hconcerns fun _ => hrevoked
  · rename_i hoff
    exact update_ends [] h hconcerns fun hon => absurd hon hoff

end Enabling

section Revoking

variable {drop : Bool} {now : ℕ}

theorem effect_revoke (h : effect (.revoke id) w = some t) : t = { w with revoked := insert id w.revoked } := (Option.some.inj h).symm

theorem remove_fails (hr : r ∈ w.rows) : (Remove lower r.id now).Ends effect
    (fun log answer _ => answer = some .failed → ∃ c, (c, false) ∈ log) w := by
  unfold Remove
  rw [ends_attempt]
  refine ⟨fun _ => ⟨.reads, by simp⟩, fun _ => ⟨.reads, by simp⟩, ?_⟩
  intro s hs
  obtain rfl := effect_reads hs
  refine ⟨by simp, ?_⟩
  rw [ends_look, find?_of_mem hr]
  dsimp only
  rw [ends_attempt]
  refine ⟨by simp, fun _ => ⟨.archive r.path.directory (removeBin lower r.id now), by simp⟩, ?_⟩
  intro s _
  refine ⟨by simp, ?_⟩
  rw [ends_attempt]
  refine ⟨by simp, ?_, ?_⟩
  · unfold restoreOld
    rw [ends_ignoring]
    exact ⟨by simp, fun _ => ⟨.delete r.id, by simp⟩, fun _ _ => ⟨by simp, fun _ => ⟨.delete r.id, by simp⟩⟩⟩
  · intro u _
    exact ⟨by simp, by simp⟩

theorem Enabled.later {s : World Tree} (h : Enabled { w with revoked := insert id w.revoked } s id false) (hd : (d, true) ∈ log)
    (halters : d.Alters w) (hfair : Fair lower s (.revokeMarket id drop now) log answer t)
    (hfails : answer = some .failed → ∃ c, (c, false) ∈ log) : Fair lower w (.revokeMarket id drop now) log answer t := by
  intro hcareful
  have hnone (c : Call Tree) : (c, false) ∉ log := fun hc => hcareful.whole c hc d hd halters
  have hlinked : answer = none → ∀ directory name, (Call.unlink directory name, true) ∈ log →
      (∀ r ∈ s.rows, r.id ≠ directory) ∨ ∃ row, (Call.upsert row, true) ∈ log := by
    intro hdied directory name hunlink
    refine (hcareful.linked hdied directory name hunlink).imp_left fun hold r hr hrid => ?_
    obtain ⟨r₀, hr₀, hsame⟩ := h.ids r hr
    exact hold r₀ hr₀ (hsame.trans hrid)
  have hafter : Careful lower s (.revokeMarket id drop now) log (answer = none) :=
    ⟨hcareful.restored, hcareful.discarded, fun c hc => absurd hc (hnone c), hcareful.archived, hlinked, by simp, by simp, by simp [Op.Enables]⟩
  obtain ⟨hsound, hlawful⟩ := hfair hafter
  refine ⟨hsound, hlawful.housed, ?_, ?_, ?_⟩
  · intro hfailed
    obtain ⟨c, hc⟩ := hfails hfailed
    exact absurd hc (hnone c)
  · intro r hr hnot
    obtain ⟨hr', hdisk⟩ := hlawful.others r ((h.others r hnot).mpr hr) hnot
    exact ⟨hr', hdisk.trans (congrFun h.disk _)⟩
  · intro id' hid' hoff
    apply hlawful.disabled id'
    · rw [h.revoked]
      exact Finset.mem_insert_of_mem hid'
    · intro r hr hrid
      by_cases hsame : r.id = id
      · exact h.own r hr hsame
      · exact hoff r ((h.others r hsame).mp hr) hrid

theorem revokeMarket_ends (h : Sound w) :
    (RevokeMarket lower id drop now).Ends effect (fun log answer t => Fair lower w (.revokeMarket id drop now) log answer t) w := by
  have hsame {log answer} : Fair lower w (.revokeMarket id drop now) log answer w := fair_same h
  unfold RevokeMarket
  refine ends_reads (fun _ _ => hsame) ?_
  rw [ends_look]
  split
  · exact hsame
  split
  · exact hsame
  rw [ends_attempt]
  refine ⟨hsame, hsame, ?_⟩
  intro s hs
  obtain rfl := effect_revoke hs
  have hsound : Sound { w with revoked := insert id w.revoked } := h.congr rfl rfl
  have hrevoked {log answer} (hanswer : answer ≠ some .failed) :
      Fair lower w (.revokeMarket id drop now) log answer { w with revoked := insert id w.revoked } := by
    intro _
    exact ⟨hsound, hsound.housed, fun hfailed => absurd hfailed hanswer, fun r hr _ => ⟨hr, rfl⟩,
      fun id' hid' hoff => ⟨Finset.mem_insert_of_mem hid', hoff⟩⟩
  have hfailed {c : Call Tree} {log answer} (hc : (c, false) ∈ log)
      (hdone : (Call.revoke id, true) ∈ log) :
      Fair lower w (.revokeMarket id drop now) log answer { w with revoked := insert id w.revoked } := by
    by_cases halters : id ∈ w.revoked
    · rw [Finset.insert_eq_of_mem halters]
      exact fair_same h
    · exact fair_failed hc hdone halters
  refine ⟨hrevoked (by simp), ?_⟩
  rw [ends_bind]
  unfold SetEnabled
  rw [if_neg (by simp), ends_attempt]
  refine ⟨hrevoked (by simp), hfailed (c := .enable id false) (by simp) (by simp), ?_⟩
  intro s hs
  have henabled := hsound.enable hs
  have hdone {log answer} (hanswer : answer ≠ some .failed) :
      Fair lower w (.revokeMarket id drop now) log answer s := by
    intro _
    refine ⟨henabled.sound, henabled.sound.housed, fun hfailed => absurd hfailed hanswer, ?_, ?_⟩
    · intro r hr hnot
      exact ⟨(henabled.others r hnot).mpr hr, congrFun henabled.disk _⟩
    · intro _ hid' hoff
      rw [henabled.revoked]
      refine ⟨Finset.mem_insert_of_mem hid', ?_⟩
      intro r hr hrid
      by_cases hsame : r.id = id
      · exact henabled.own r hr hsame
      · exact hoff r ((henabled.others r hsame).mp hr) hrid
  have hcases : s = w ∨ ∃ d : Call Tree, (d = .revoke id ∨ d = .enable id false) ∧ d.Alters w := by
    by_cases hnew : id ∈ w.revoked
    · by_cases halters : (Call.enable id false : Call Tree).Alters w
      · exact .inr ⟨_, .inr rfl, halters⟩
      · left
        rw [henabled.same halters, Finset.insert_eq_of_mem hnew]
    · exact .inr ⟨_, .inl rfl, hnew⟩
  refine ⟨hdone (by simp), ?_⟩
  rw [ends_attempt]
  refine ⟨hdone (by simp), ?_, ?_⟩
  · rcases hcases with rfl | ⟨d, rfl | rfl, halters⟩
    · exact hsame
    · exact fair_failed (c := .answers) (d := .revoke id) (by simp) (by simp) halters
    · exact fair_failed (c := .answers) (d := .enable id false) (by simp) (by simp) halters
  intro u hu
  obtain rfl := (Option.some.inj hu).symm
  refine ⟨hdone (by simp), ?_⟩
  rw [ends_done]
  unfold Continues
  dsimp only
  split
  · have hpre : Unsettled [((.reads : Call Tree), true), (.revoke id, true), (.enable id false, true), (.answers, true)] := by
      simp [Unsettled, Call.Settles]
    have hremove : (Remove lower id now).Ends effect (fun log answer t => Fair lower u (.revokeMarket id drop now)
        ([(.reads, true), (.revoke id, true), (.enable id false, true), (.answers, true)] ++ log) answer t) u :=
      remove_ends henabled.sound (fun _ _ hrid => hrid) hpre
    rcases hcases with rfl | ⟨d, hd, halters⟩
    · exact hremove
    · obtain ⟨r, hr, rfl⟩ := henabled.found
      refine (hremove.and (remove_fails hr)).mono ?_
      rintro _ _ t ⟨hfair, hfails⟩
      refine henabled.later ?_ halters hfair ?_
      · rcases hd with rfl | rfl
        · simp
        · simp
      · intro hfailed
        obtain ⟨c, hc⟩ := hfails hfailed
        exact ⟨c, List.mem_append_right [_, _, _, _] hc⟩
  · exact hdone (by simp)

def Call.Removes : Call Tree → Prop
  | .reads | .archive _ _ | .restore _ _ | .delete _ => True
  | _ => False

theorem remove_calls : (Remove lower id now : Procedure Tree).Calls Call.Removes := by
  refine ⟨trivial, ?_⟩
  rintro (_ | _)
  · trivial
  intro w
  dsimp only
  split
  · trivial
  refine ⟨trivial, ?_⟩
  rintro (_ | _)
  · trivial
  refine ⟨trivial, ?_⟩
  rintro (_ | _)
  · exact ⟨trivial, fun _ => trivial⟩
  · trivial

theorem remove_fewer : (Remove lower id now).Ends effect (fun _ _ t => t.revoked = w.revoked ∧ ∀ r ∈ t.rows, r ∈ w.rows) w := by
  refine remove_calls.invariant ⟨rfl, fun _ hr => hr⟩ ?_
  rintro c s t hc ht ⟨hrevoked, hrows⟩
  cases c with
  | reads =>
    obtain rfl := effect_reads ht
    exact ⟨hrevoked, hrows⟩
  | archive =>
    obtain ⟨x, -, -, rfl⟩ := effect_archive ht
    exact ⟨by simpa using hrevoked, by simpa using hrows⟩
  | restore =>
    obtain ⟨x, -, -, rfl⟩ := effect_restore ht
    exact ⟨by simpa using hrevoked, by simpa using hrows⟩
  | delete =>
    obtain rfl := (Option.some.inj ht).symm
    refine ⟨by simpa using hrevoked, ?_⟩
    intro r hr
    rw [World.rows_withRows] at hr
    exact hrows r (mem_delete.mp hr).1
  | _ => cases hc

theorem revokeMarket_revokes (h : Sound w) (hr : r ∈ w.rows) : (RevokeMarket lower r.id drop now).Ends effect
    (fun _ answer t => answer = some .succeeded → r.id ∈ t.revoked ∧ ∀ r' ∈ t.rows, r'.id = r.id → r'.enabled = false) w := by
  unfold RevokeMarket
  rw [ends_attempt]
  refine ⟨by simp, by simp, ?_⟩
  intro s hs
  obtain rfl := effect_reads hs
  refine ⟨by simp, ?_⟩
  rw [ends_look, find?_of_mem hr]
  dsimp only
  split
  · simp
  rw [ends_attempt]
  refine ⟨by simp, by simp, ?_⟩
  intro s hs
  obtain rfl := effect_revoke hs
  refine ⟨by simp, ?_⟩
  rw [ends_bind]
  unfold SetEnabled
  rw [if_neg (by simp), ends_attempt]
  refine ⟨by simp [Continues], by simp [Continues], ?_⟩
  intro s hs
  refine ⟨by simp [Continues], ?_⟩
  rw [ends_attempt]
  refine ⟨by simp [Continues], by simp [Continues], ?_⟩
  intro u hu
  obtain rfl := (Option.some.inj hu).symm
  refine ⟨by simp [Continues], ?_⟩
  have hsound : Sound { w with revoked := insert r.id w.revoked } := h.congr rfl rfl
  have henabled := hsound.enable hs
  have hrevoked : r.id ∈ u.revoked := by
    rw [henabled.revoked]
    exact Finset.mem_insert_self ..
  rw [ends_done]
  unfold Continues
  dsimp only
  split
  · refine remove_fewer.mono ?_
    rintro log answer t ⟨hsame, hrows⟩ -
    rw [hsame]
    exact ⟨hrevoked, fun r' hr' => henabled.own r' (hrows r' hr')⟩
  · exact fun _ => ⟨hrevoked, henabled.own⟩

end Revoking

section Runs

variable {e : Event Tree} {es fs : List (Event Tree)}

theorem procedure_ends (h : Sound w) (op : Op Tree) :
    (op.procedure lower).Ends effect (fun log answer t => Fair lower w op log answer t) w := by
  cases op with
  | install input =>
    have hinstall : (Install lower input).Ends effect (fun log answer t => Fair lower w (.install input) ([] ++ ([] ++ log)) answer t) w :=
      install_ends [] h fun id hid log died hcareful => hcareful.revoked id hid
    exact hinstall
  | installManaged byName now input =>
    have hreplace : (installOrReplace lower byName now input input.source).Ends effect
        (fun log answer t => Fair lower w (.installManaged byName now input) ([] ++ log) answer t) w :=
      installOrReplace_ends h (fun r _ hmatch => hmatch) (fun id hid log died hcareful => hcareful.revoked id hid) (by simp [Unsettled])
    unfold Op.procedure InstallManaged
    dsimp only
    split
    · exact fair_same h
    · exact hreplace
  | installMarket byName now input =>
    unfold Op.procedure InstallMarket
    dsimp only
    refine ends_reads (fun _ _ => fair_same h) ?_
    rw [ends_look]
    split
    · exact fair_same h
    rename_i hrevoked
    split
    · exact fair_same h
    have hreplace : (installOrReplace lower byName now input .market).Ends effect
        (fun log answer t => Fair lower w (.installMarket byName now input) ([(.reads, true)] ++ log) answer t) w := by
      refine installOrReplace_ends h (fun r _ hmatch => hmatch) ?_ (by simp [Unsettled, Call.Settles])
      rintro id hid log died - ⟨rfl, -⟩
      exact hrevoked hid
    exact hreplace
  | reference => exact reference_ends h rfl
  | setEnabled => exact setEnabled_ends h fun r hid => hid
  | revokeMarket => exact revokeMarket_ends h
  | remove id now =>
    have hremove : (Remove lower id now).Ends effect (fun log answer t => Fair lower w (.remove id now) ([] ++ log) answer t) w :=
      remove_ends h (fun r _ hid => hid) (by simp [Unsettled])
    exact hremove

theorem CarefulStep.lawful (hstep : CarefulStep lower w e t) (h : Sound w) : Sound t ∧ Lawful e.op w (e.outcome lower w).answer t := by
  obtain ⟨rfl, hcareful⟩ := hstep
  exact (procedure_ends h e.op).sound e.faults e.atomic hcareful

theorem sound_empty : Sound (World.empty : World Tree) := by
  refine ⟨⟨?_, ?_⟩, ?_, ?_⟩
  · exact forall_mem_empty
  · exact forall_mem_empty
  · exact forall_mem_empty
  · exact forall_mem_empty

theorem sound_reached (h : Execution (CarefulStep lower) World.empty es w) : Sound w :=
  h.invariant sound_empty fun _ _ _ hs hstep => (hstep.lawful hs).1

def Disabled (w : World Tree) (id : String) : Prop := id ∈ w.revoked ∧ ∀ r ∈ w.rows, r.id = id → r.enabled = false

theorem disabled_stays (h : Sound w) (hdisabled : Disabled w id) (hrun : Execution (CarefulStep lower) w fs t) : Disabled t id := by
  have hboth : Sound t ∧ Disabled t id := by
    refine hrun.invariant (I := fun s => Sound s ∧ Disabled s id) ⟨h, hdisabled⟩ ?_
    rintro s e u ⟨hs, hrevoked, hoff⟩ hstep
    obtain ⟨hu, hlawful⟩ := hstep.lawful hs
    exact ⟨hu, hlawful.disabled id hrevoked hoff⟩
  exact hboth.2

theorem CarefulStep.revokes {drop : Bool} {now : ℕ} (hstep : CarefulStep lower w e t) (h : Sound w) (hop : e.op = .revokeMarket id drop now)
    (hr : ∃ r ∈ w.rows, r.id = id) (hanswer : (e.outcome lower w).answer = some .succeeded) : Disabled t id := by
  obtain ⟨rfl, -⟩ := hstep
  obtain ⟨r, hr, rfl⟩ := hr
  have hends : (e.op.procedure lower).Ends effect (fun _ answer t => answer = some .succeeded → Disabled t r.id) w := by
    rw [hop]
    exact revokeMarket_revokes h hr
  exact hends.sound e.faults e.atomic hanswer

/-- Every row keeps a directory of its own with its package or link, a failure leaves everything as it was, nothing else is touched and
what is revoked stays disabled, as long as every operation is careful. -/
theorem integrity_of_careful (lower : Char → Char) (h : Execution (CarefulStep lower) World.empty es w) :
    Housed w ∧ (∀ e t, CarefulStep lower w e t → Lawful e.op w (e.outcome lower w).answer t) ∧
      (∀ e t id drop now, CarefulStep lower w e t → e.op = .revokeMarket id drop now → (∃ r ∈ w.rows, r.id = id) →
        (e.outcome lower w).answer = some .succeeded → Disabled t id) ∧
      ∀ fs t id, Disabled w id → Execution (CarefulStep lower) w fs t → Disabled t id := by
  have hsound := sound_reached h
  refine ⟨hsound.housed, ?_, ?_, ?_⟩
  · exact fun e t hstep => (hstep.lawful hsound).2
  · exact fun e t id drop now hstep hop hr hanswer => hstep.revokes hsound hop hr hanswer
  · exact fun fs t id hdisabled hrun => disabled_stays hsound hdisabled hrun

def one : InstallInput Unit := ⟨"a-", "One", "", "1", .user, true, [], [], "", some ()⟩

def two : ReferenceInput := ⟨"a", "Two", "", "1", true, [], [], [], some "C:\\two"⟩

def installsOne : Event Unit := ⟨.install one, [], by simp⟩

def refersTwo : Event Unit := ⟨.reference two, [], by simp⟩

theorem installsOne_log : (installsOne.outcome toLower World.empty).log = [(.reads, true),
    (.activate (safeSegment toLower "a-") (safeSegment toLower "One") (), true), (.insert (one.row toLower ()), true),
    (.answers, true)] := by
  rfl

theorem installsOne_careful : CarefulStep toLower World.empty installsOne (installsOne.outcome toLower World.empty).state := by
  refine ⟨rfl, ?_⟩
  rw [installsOne_log]
  refine ⟨by simp, by simp, by simp, by simp, by simp, ?_, ?_, ?_⟩
  · intro input hop
    cases hop
  · intro _ hop
    cases hop
  · intro _ hid
    cases hid

theorem integrity_of_installsOne : Housed (installsOne.outcome Char.toLower World.empty).state :=
  (integrity_of_careful Char.toLower (.single installsOne_careful)).1

/-- The reference has the directory of the package whose id ends in a hyphen. -/
theorem directory_shared : ¬ ∀ (es : List (Event Unit)) (w : World Unit), Execution (Step Char.toLower) World.empty es w → Housed w := by
  intro h
  have hrun : Execution (Step Char.toLower) World.empty ([installsOne] ++ [refersTwo])
      (refersTwo.outcome Char.toLower (installsOne.outcome Char.toLower World.empty).state).state :=
    (Execution.single rfl).step rfl
  have hshared : ∃ r ∈ (refersTwo.outcome Char.toLower (installsOne.outcome Char.toLower World.empty).state).state.rows.rows,
      ∃ r' ∈ (refersTwo.outcome Char.toLower (installsOne.outcome Char.toLower World.empty).state).state.rows.rows,
        fold r.path.directory = fold r'.path.directory ∧ r.id ≠ r'.id := by
    decide +kernel
  obtain ⟨r, hr, r', hr', hsame, hne⟩ := hshared
  exact hne (congrArg Entry.id ((h _ _ hrun).apart r hr r' hr' hsame))

end Runs

end WorkAgent.SkillRuntime
