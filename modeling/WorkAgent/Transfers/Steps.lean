import WorkAgent.Transfers.Invariant

namespace WorkAgent.Transfers

open Library Collaboration List Table Store
open Request (call goes)

section Transfer

variable {fold : String → String} {w : World} {db : Store} {r : Request} {k : ℕ} {P : String}
  {transfer : OwnershipTransfer} {owner stamp : ℤ} {o o' : TransferRow}

theorem Began.old (h : Began w.db db transfer owner stamp) (ho : o ∈ db.transfers) :
    o ∈ w.db.transfers ∨ o = ⟨transfer.id, transfer.projectID, owner, transfer.toUserID, transfer.toSID, .pending,
      stamp, stamp, none⟩ := by
  rw [h.transfers] at ho
  rcases mem_insertOrIgnore.mp ho with hmem | ⟨rfl, -⟩
  · exact .inl hmem
  · exact .inr rfl

theorem Began.find (h : Began w.db db transfer owner stamp) {id : String}
    (ho : w.db.transfers.find? id = some o) : db.transfers.find? id = some o := by
  rw [h.transfers]
  exact find?_insertOrIgnore_of_some ho

theorem Sound.begins (h : Sound fold w) (hr : w.requests k = some r) (hstage : r.stage = .arrived)
    (hown : Ownership db) (hbegan : Began w.db db r.transfer owner stamp) :
    Sound fold ((w.withDB db).put k (some (r.goes .begun))) := by
  obtain ⟨p, q, hp, hq, hactive, hpending, hsid⟩ := hbegan.project
  have hlaunched : Launched p := ⟨by rw [hactive]; simp, by rw [hactive]; simp⟩
  have hnew : (⟨r.transfer.id, r.transfer.projectID, owner, r.transfer.toUserID, r.transfer.toSID, .pending, stamp,
      stamp, none⟩ : TransferRow) ∈ db.transfers := by
    rw [hbegan.transfers]
    exact mem_insertOrIgnore.mpr (.inr ⟨rfl, hbegan.fresh⟩)
  have hproject : ∀ d x, w.db.project d = some x → ∃ y, db.project d = some y ∧ y.ownerSID = x.ownerSID ∧
      (Launched x → Launched y) := by
    intro d x hx
    by_cases hd : d = r.transfer.projectID
    · subst hd
      rw [hp] at hx
      cases hx
      exact ⟨q, hq, hsid, fun _ => ⟨by rw [hpending]; simp, by rw [hpending]; simp⟩⟩
    · exact ⟨x, (hbegan.others d hd).trans hx, rfl, fun hl => hl⟩
  have hopen : ∀ o ∈ db.transfers, Store.Unfinalized o → o ∈ w.db.transfers := by
    intro o ho hun
    rcases hbegan.old ho with hmem | rfl
    · exact hmem
    · cases hun.1
  have hrow : ∀ id o, w.db.transfers.find? id = some o → o.state = .committed →
      ∃ o', db.transfers.find? id = some o' ∧ SameRow o o' := fun id o ho _ => ⟨o, hbegan.find ho, .refl o⟩
  have hstill : Still w.disk r.transfer.projectID (fold p.ownerSID) := by
    obtain ⟨hplace, hno | ⟨-, o, ho, hod, hun⟩⟩ := h.settled _ p hp hlaunched (by rw [hactive]; simp)
    · exact ⟨hplace, hno⟩
    · exact absurd (.inr hun) (hbegan.clear o ho hod)
  have htracks : ∀ i x, w.requests i = some x → x.stage ≠ .arrived →
      x.transfer.id ≠ r.transfer.id ∧ Tracks fold db w.disk x := by
    intro i x hx hxs
    refine ⟨?_, ?_⟩
    · intro hid
      cases h.tracks i x hx with
      | arrived harrived => exact hxs harrived
      | pending _ hpends =>
        obtain ⟨o, ho, -⟩ := hpends.row
        rw [hid, hbegan.fresh] at ho
        cases ho
      | closing _ hclosing =>
        obtain ⟨o, ho, -⟩ := hclosing
        rw [hid, hbegan.fresh] at ho
        cases ho
    · refine (h.tracks i x hx).of_rows ?_ (hrow _)
      rintro P ⟨⟨o, ho, hrest⟩, x₀, hx₀, hP⟩ -
      obtain ⟨y, hy, hysid, -⟩ := hproject _ x₀ hx₀
      exact ⟨⟨o, hbegan.find ho, hrest⟩, y, hy, by rw [hysid, hP]⟩
  refine ⟨hown, ?_, ?_, ?_, ?_, ?_, ?_, ?_, ?_, h.strays, ?_, ?_⟩
  · intro o ho y hy
    rcases hbegan.old ho with hmem | rfl
    · obtain ⟨x, hx, hid⟩ := h.ownership.transfer o hmem
      have hfind : w.db.project o.projectID = some x := find?_eq_some.mpr ⟨hx, hid⟩
      obtain ⟨z, hz, -, hl⟩ := hproject _ x hfind
      cases hz.symm.trans hy
      exact hl (h.launched o hmem x hfind)
    · cases hq.symm.trans hy
      exact ⟨by rw [hpending]; simp, by rw [hpending]; simp⟩
  · intro d y hy hl
    by_cases hd : d = r.transfer.projectID
    · subst hd
      cases hq.symm.trans hy
      exact absurd ⟨by rw [hpending]; simp, by rw [hpending]; simp⟩ hl
    · exact h.vacant d y ((hbegan.others d hd).symm.trans hy) hl
  · intro d y hy hl hstate
    by_cases hd : d = r.transfer.projectID
    · subst hd
      cases hq.symm.trans hy
      exact absurd hpending hstate
    · obtain ⟨hplace, hjournal⟩ := h.settled d y ((hbegan.others d hd).symm.trans hy) hl hstate
      refine ⟨hplace, hjournal.imp_right ?_⟩
      rintro ⟨hto, o, ho, hod, hun⟩
      exact ⟨hto, o, (find?_transfer (hbegan.find (find?_of_mem ho))).1, hod, hun⟩
  · intro o ho hun
    obtain ⟨x, hx, hxsid⟩ := h.recipient o (hopen o ho hun) hun
    obtain ⟨y, hy, hysid, -⟩ := hproject _ x hx
    exact ⟨y, hy, hysid.trans hxsid⟩
  · intro o ho hpend
    rcases hbegan.old ho with hmem | rfl
    · exact h.unset o hmem hpend
    · rfl
  · intro o ho hpend
    rcases hbegan.old ho with hmem | rfl
    · obtain ⟨i, x, hx, hxs, hid⟩ := h.handled o hmem hpend
      refine ⟨i, x, (if_neg ?_).trans hx, hxs, hid⟩
      rintro rfl
      rw [hr] at hx
      cases hx
      exact hxs hstage
    · exact ⟨k, r.goes .begun, if_pos rfl, by simp [Request.goes], rfl⟩
  · intro i x hx
    rw [requests_put] at hx
    split at hx
    · cases hx
      refine .pending (fold p.ownerSID) ⟨⟨_, find?_of_mem hnew, rfl, rfl, rfl⟩, q, hq, by rw [hsid]⟩ hstill ?_
      intro _ hjob
      cases hjob
    · by_cases hxs : x.stage = .arrived
      · exact .arrived hxs
      · exact (htracks i x hx hxs).2
  · intro i i' x x' hx hx' hxs hxs' hid
    rw [requests_put] at hx hx'
    split at hx
    · rename_i hi
      split at hx'
      · rename_i hi'
        exact hi.trans hi'.symm
      · cases hx
        exact absurd hid.symm (htracks i' x' hx' hxs').1
    · split at hx'
      · cases hx'
        exact absurd hid (htracks i x hx hxs).1
      · exact h.distinct i i' x x' hx hx' hxs hxs' hid
  · intro x hx
    obtain ⟨hrows, hhead, hcovers⟩ := h.pass x hx
    refine ⟨fun o ho => (hrows o ho).of_row (hrow _), ?_, ?_⟩
    · rcases hhead with hidle | ⟨o, rest, htodo, hlate, hc⟩
      · exact .inl hidle
      · exact .inr ⟨o, rest, htodo, hlate, hc.of_row (hrow _)⟩
    · intro d hd
      refine (hcovers d hd).imp_right ?_
      exact fun hall o ho hod hun => hall o (hopen o ho hun) hod hun
  · exact fun d hd o ho hod hun => h.recovered d hd o (hopen o ho hun) hod hun

variable {sid : String → String}

theorem Ended.committed (h : Ended w.db db o o' sid) {id : String} {x : TransferRow}
    (hx : w.db.transfers.find? id = some x) (hstate : x.state = .committed) :
    ∃ x', db.transfers.find? id = some x' ∧ SameRow x x' := by
  refine ⟨x, (h.rest id ?_).trans hx, .refl x⟩
  rintro rfl
  rw [h.row] at hx
  cases hx
  rw [h.pending] at hstate
  cases hstate

theorem Ended.back (h : Ended w.db db o o' sid) {x : TransferRow} (hx : x ∈ db.transfers) :
    x = o' ∨ x ∈ w.db.transfers ∧ x.id ≠ o.id := by
  have hfind := find?_of_mem hx
  by_cases hid : x.id = o.id
  · rw [hid, h.after] at hfind
    cases hfind
    exact .inl rfl
  · rw [h.rest x.id hid] at hfind
    exact .inr ⟨(find?_transfer hfind).1, hid⟩

theorem PassTracks.ended {x : Pass} {covers : String → Bool} (h : PassTracks fold w.db w.disk x)
    (hended : Ended w.db db o o' sid)
    (hcovers : ∀ d, covers d = true → x.covers d = true ∧ (d = o.projectID → ¬ Unfinalized o')) :
    PassTracks fold db w.disk { x with covers := covers } := by
  refine ⟨fun y hy => (h.rows y hy).of_row fun _ hx hstate => hended.committed hx hstate, ?_, ?_⟩
  · rcases h.head with hidle | ⟨y, rest, htodo, hlate, hc⟩
    · exact .inl hidle
    · exact .inr ⟨y, rest, htodo, hlate, hc.of_row fun _ hx hstate => hended.committed hx hstate⟩
  · intro d hd
    obtain ⟨hold, hover⟩ := hcovers d hd
    refine (h.covers d hold).imp_right ?_
    intro hall y hy hyd hun
    rcases hended.back hy with rfl | ⟨hmem, -⟩
    · exact absurd hun (hover (hyd.symm.trans hended.projectID))
    · exact hall y hmem hyd hun

theorem Sound.ends (h : Sound fold w) (hr : w.requests k = some r) (hstage : r.stage ≠ .arrived)
    (hid : o.id = r.transfer.id) (hown : Ownership db) (hended : Ended w.db db o o' sid) (hover : o'.state ≠ .pending)
    {next : Option Request} {pass : Option Pass} {recovered : String → Bool}
    (hnext : ∀ x, next = some x → x.stage ≠ .arrived ∧ x.transfer = r.transfer ∧ Tracks fold db w.disk x)
    (hsettled : ∀ q, db.project o.projectID = some q → Settled db w.disk o.projectID (fold q.ownerSID))
    (hrecipient : Unfinalized o' → ∀ q, db.project o.projectID = some q → q.ownerSID = o.toSID)
    (hpass : ∀ x, pass = some x → PassTracks fold db w.disk x)
    (hrecovered : ∀ d, recovered d = true → w.recovered d = true ∧ (d = o.projectID → ¬ Unfinalized o')) :
    Sound fold ⟨db, w.disk, fun i => if i = k then next else w.requests i, w.strays, pass, recovered⟩ := by
  obtain ⟨p, q, _, hq, _, hactive, _⟩ := hended.project
  have hlaunched : Launched q := ⟨by rw [hactive]; simp, by rw [hactive]; simp⟩
  have hmem := (find?_transfer hended.row).1
  have hproject : ∀ d x, w.db.project d = some x → d ≠ o.projectID → db.project d = some x :=
    fun d x hx hd => (hended.others d hd).trans hx
  have hother : ∀ x ∈ w.db.transfers, x.id ≠ o.id → OpenTransfer x → x.projectID ≠ o.projectID := by
    intro x hx hxid hopen hsame
    exact hxid (congrArg TransferRow.id (h.single hx hmem hsame hopen (.inl hended.pending)))
  have htracks : ∀ i x, i ≠ k → w.requests i = some x → Tracks fold db w.disk x := by
    intro i x hi hx
    refine (h.tracks i x hx).of_rows ?_ (fun _ hy hstate => hended.committed hy hstate)
    rintro P ⟨⟨y, hy, hyp, hyd, hysid⟩, x₀, hx₀, hP⟩ hholds
    have hxs : x.stage ≠ .arrived := by
      intro harrived
      rw [harrived] at hholds
      exact hholds
    have hxid : x.transfer.id ≠ o.id := fun hsame => hi (h.distinct i k x r hx hr hxs hstage (hsame.trans hid))
    obtain ⟨hymem, hyid⟩ := find?_transfer hy
    have hyne : y.projectID ≠ o.projectID := hother y hymem (hyid ▸ hxid) (.inl hyp)
    exact ⟨⟨y, (hended.rest _ hxid).trans hy, hyp, hyd, hysid⟩, x₀, hproject _ x₀ hx₀ (hyd ▸ hyne), hP⟩
  refine ⟨hown, ?_, ?_, ?_, ?_, ?_, ?_, ?_, ?_, h.strays, hpass, ?_⟩
  · intro x hx y hy
    rcases hended.back hx with rfl | ⟨hxmem, hxid⟩
    · rw [hended.projectID, hq] at hy
      cases hy
      exact hlaunched
    · by_cases hd : x.projectID = o.projectID
      · rw [hd, hq] at hy
        cases hy
        exact hlaunched
      · exact h.launched x hxmem y ((hended.others _ hd).symm.trans hy)
  · intro d y hy hl
    by_cases hd : d = o.projectID
    · subst hd
      cases hq.symm.trans hy
      exact absurd hlaunched hl
    · exact h.vacant d y ((hended.others d hd).symm.trans hy) hl
  · intro d y hy hl hstate
    by_cases hd : d = o.projectID
    · subst hd
      exact hsettled y hy
    · obtain ⟨hplace, hjournal⟩ := h.settled d y ((hended.others d hd).symm.trans hy) hl hstate
      refine ⟨hplace, hjournal.imp_right ?_⟩
      rintro ⟨hto, x, hx, hxd, hun⟩
      obtain ⟨x', hx', _⟩ := hended.committed (find?_of_mem hx) hun.1
      have hxid : x.id ≠ o.id := fun heq => hd (hxd.symm.trans (congrArg TransferRow.projectID
        (eq_of_key hx hmem heq)))
      rw [hended.rest _ hxid] at hx'
      cases (find?_of_mem hx).symm.trans hx'
      exact ⟨hto, x, (find?_transfer ((hended.rest _ hxid).trans hx')).1, hxd, hun⟩
  · intro x hx hun
    rcases hended.back hx with rfl | ⟨hxmem, hxid⟩
    · rw [hended.projectID, hended.toSID]
      exact ⟨q, hq, hrecipient hun q hq⟩
    · obtain ⟨y, hy, hysid⟩ := h.recipient x hxmem hun
      exact ⟨y, hproject _ y hy (hother x hxmem hxid (.inr hun)), hysid⟩
  · intro x hx hxp
    rcases hended.back hx with rfl | ⟨hxmem, -⟩
    · exact absurd hxp hover
    · exact h.unset x hxmem hxp
  · intro x hx hxp
    rcases hended.back hx with rfl | ⟨hxmem, hxid⟩
    · exact absurd hxp hover
    · obtain ⟨i, y, hy, hys, hyid⟩ := h.handled x hxmem hxp
      refine ⟨i, y, (if_neg ?_).trans hy, hys, hyid⟩
      rintro rfl
      rw [hr] at hy
      cases hy
      exact hxid (hyid.symm.trans hid.symm)
  · intro i x hx
    dsimp only at hx
    split at hx
    · exact (hnext x hx).2.2
    · rename_i hi
      exact htracks i x hi hx
  · intro i i' x x' hx hx' hxs hxs' hxid
    have hfirst : ∀ j y, (if j = k then next else w.requests j) = some y → y.stage ≠ .arrived →
        ∃ z, w.requests j = some z ∧ z.stage ≠ .arrived ∧ z.transfer = y.transfer := by
      intro j y hy hys
      split at hy
      · rename_i hj
        exact ⟨r, hj ▸ hr, hstage, (hnext y hy).2.1.symm⟩
      · exact ⟨y, hy, hys, rfl⟩
    obtain ⟨z, hz, hzs, hzt⟩ := hfirst i x hx hxs
    obtain ⟨z', hz', hzs', hzt'⟩ := hfirst i' x' hx' hxs'
    exact h.distinct i i' z z' hz hz' hzs hzs' (by rw [hzt, hzt', hxid])
  · intro d hd x hx hxd hun
    obtain ⟨hold, hnot⟩ := hrecovered d hd
    rcases hended.back hx with rfl | ⟨hxmem, -⟩
    · exact hnot (hxd.symm.trans hended.projectID) hun
    · exact h.recovered d hold x hxmem hxd hun

theorem Pends.row_of_find (h : Pends fold w.db transfer P) (ho : w.db.transfers.find? transfer.id = some o) :
    o.projectID = transfer.projectID ∧ o.toSID = transfer.toSID := by
  obtain ⟨x, hx, -, hproject, hsid⟩ := h.row
  cases hx.symm.trans ho
  exact ⟨hproject, hsid⟩

theorem Sound.aborts (h : Sound fold w) (hr : w.requests k = some r) (hstage : r.stage = .aborting)
    (habort : w.db.abortOwnershipTransfer r.transfer.id stamp = .ok ((), db)) :
    Sound fold ((w.withDB db).put k none) := by
  obtain ⟨o, hid, hended⟩ := aborted habort
  have hold : w.db.transfers.find? r.transfer.id = some o := hid ▸ hended.row
  cases h.tracks k r hr with
  | arrived harrived =>
    rw [hstage] at harrived
    cases harrived
  | closing hlate =>
    rw [hstage] at hlate
    exact absurd hlate not_false
  | pending _ hpends hholds =>
    rw [hstage] at hholds
    obtain ⟨hod, -⟩ := hpends.row_of_find hold
    obtain ⟨p, q, hp, hq, -, -, hsid⟩ := hended.project
    obtain ⟨_, hp', hP⟩ := hpends.project
    rw [← hod, hp] at hp'
    cases hp'
    have hnot : ¬ Unfinalized { o with state := .aborted, updatedAt := stamp } := fun hun => by cases hun.1
    refine h.ends hr (by rw [hstage]; simp) hid (ownership_abortOwnershipTransfer h.ownership habort) hended
      (by simp) ?_ ?_ ?_ ?_ ?_
    · intro x hx
      cases hx
    · intro y hy
      cases hq.symm.trans hy
      rw [hsid, hP, hod]
      exact ⟨hholds.1, .inl hholds.2⟩
    · exact fun hun => absurd hun hnot
    · intro x hx
      exact (h.pass x hx).ended hended fun d hd => ⟨hd, fun _ => hnot⟩
    · exact fun d hd => ⟨hd, fun _ => hnot⟩

theorem Sound.completes (h : Sound fold w) (hr : w.requests k = some r) (hstage : r.stage = .prepared)
    (hcomplete : w.db.completeOwnershipTransfer r.transfer.id stamp = .ok (o, db)) :
    Sound fold (((w.withDB db).unrecovered o.projectID).put k (some (r.goes .completed))) := by
  obtain ⟨hid, hended⟩ := completed hcomplete
  have hold : w.db.transfers.find? r.transfer.id = some o := hid ▸ hended.row
  cases h.tracks k r hr with
  | arrived harrived =>
    rw [hstage] at harrived
    cases harrived
  | closing hlate =>
    rw [hstage] at hlate
    exact absurd hlate not_false
  | pending P hpends hholds =>
    rw [hstage] at hholds
    obtain ⟨hod, hosid⟩ := hpends.row_of_find hold
    obtain ⟨p, q, _, hq, -, -, hsid⟩ := hended.project
    have hmoved : Moved w.disk r.transfer.projectID P (fold r.transfer.toSID) := hholds
    have hafter := hended.after
    have hunset := h.unset o (find?_transfer hold).1 hended.pending
    have hcovers : ∀ (f : String → Bool) d, (f d && d ≠ o.projectID) = true → f d = true ∧ d ≠ o.projectID := by
      intro f d hd
      simpa using hd
    refine h.ends hr (by rw [hstage]; simp) hid (ownership_completeOwnershipTransfer h.ownership hcomplete) hended
      (by simp) ?_ ?_ ?_ ?_ ?_
    · intro x hx
      cases hx
      rw [hid] at hafter
      refine ⟨by simp [Request.goes], rfl, .closing trivial ⟨_, hafter, rfl, hod, hosid, ?_⟩⟩
      exact fun hsure => absurd hsure not_false
    · intro y hy
      cases hq.symm.trans hy
      rw [hsid, hosid, hod]
      exact ⟨hmoved.own, .inr ⟨fun root old hroot => (hmoved.journal root old hroot).1, _, (find?_transfer hafter).1,
        hod, rfl, hunset⟩⟩
    · intro _ y hy
      cases hq.symm.trans hy
      exact hsid
    · intro x hx
      obtain ⟨x₀, hx₀, rfl⟩ := Option.map_eq_some_iff.mp hx
      refine (h.pass x₀ hx₀).ended hended ?_
      intro d hd
      obtain ⟨hcover, hne⟩ := hcovers _ d hd
      exact ⟨hcover, fun hsame => absurd hsame hne⟩
    · intro d hd
      obtain ⟨hrec, hne⟩ := hcovers _ d hd
      exact ⟨hrec, fun hsame => absurd hsame hne⟩

end Transfer

section Steps

variable {fold : String → String} {w w' : World} {db : Store} {disk' : Disk} {r : Request} {k : ℕ} {e : Event}

theorem Tracks.over {disk : Disk} (h : Tracks fold db disk r) (hlate : r.stage.Late) :
    ∀ o ∈ db.transfers, o.id = r.transfer.id → o.state ≠ .pending := by
  intro o ho hid hpending
  cases h with
  | arrived hstage =>
    rw [hstage] at hlate
    exact hlate
  | pending _ _ hholds =>
    cases hs : r.stage <;> rw [hs] at hlate hholds
    all_goals first | exact hlate | exact hholds
  | closing _ hclosing =>
    obtain ⟨x, hx, hstate, -⟩ := hclosing
    rw [← hid, find?_of_mem ho] at hx
    cases hx
    rw [hpending] at hstate
    cases hstate

section

variable (h : Sound fold w)
include h

theorem Sound.provisions {d : String} {p : ProjectRow} {acl : Option String}
    (hp : w.db.project d = some p) (hstate : p.state = .provisioning) :
    Sound fold (w.withDisk (w.disk.setPlace (fold p.ownerSID) d acl)) := by
  have hl : ¬ Launched p := fun hl => hl.1 hstate
  have hframe : ∀ x, x ≠ d → Eases w.disk (w.disk.setPlace (fold p.ownerSID) d acl) x := by
    intro x hx
    refine ⟨?_, ?_, fun _ => .inl rfl⟩
    · intro root
      rw [Disk.place_setPlace, if_neg (fun hr => hx hr.2)]
    · intro root hroot
      rw [Disk.place_setPlace, if_neg (fun hr => hx hr.2)]
      exact hroot
  have hnone : ∀ o ∈ w.db.transfers, o.projectID ≠ d := by
    rintro o ho rfl
    exact hl (h.launched o ho p hp)
  refine { h with vacant := ?_, settled := ?_, tracks := ?_, pass := ?_ }
  · intro x y hy hly
    by_cases hx : x = d
    · subst hx
      cases hp.symm.trans hy
      obtain ⟨hplace, hno⟩ := h.vacant x p hp hl
      refine ⟨?_, hno⟩
      intro root hroot
      change (w.disk.setPlace (fold p.ownerSID) x acl).place root x ≠ none at hroot
      rw [Disk.place_setPlace] at hroot
      split at hroot
      · rename_i hr
        exact hr.1
      · exact hplace root hroot
    · exact (hframe x hx).vacant (h.vacant x y hy hly)
  · intro x y hy hly hys
    refine (hframe x ?_).settled (h.settled x y hy hly hys)
    rintro rfl
    cases hp.symm.trans hy
    exact hl hly
  · intro i x hx
    have ht := h.tracks i x hx
    have hrow : ∀ o, w.db.transfers.find? x.transfer.id = some o → o.projectID = x.transfer.projectID →
        x.transfer.projectID ≠ d := fun o ho hod => hod ▸ hnone o (find?_transfer ho).1
    cases ht with
    | arrived harrived => exact .arrived harrived
    | pending P hpends hholds hfrom =>
      obtain ⟨o, ho, -, hod, -⟩ := hpends.row
      exact .pending P hpends ((hframe _ (hrow o ho hod)).holds hholds) hfrom
    | closing hlate hclosing =>
      have hc := hclosing
      obtain ⟨o, ho, -, hod, -⟩ := hc
      exact .closing hlate (hclosing.eases (hframe _ (hrow o ho hod)))
  · intro x hx
    refine (h.pass x hx).eases ?_
    intro o ho
    apply hframe
    obtain ⟨o', ho', -, hod, -⟩ := (h.pass x hx).rows o ho
    exact hod ▸ hnone o' (find?_transfer ho').1

section

variable (hr : w.requests k = some r)
include hr

theorem Sound.works {o : Order} {job job' : Job} (hcall : r.call fold = some (o, job)) (hwork : Work o w.disk job disk' job')
    (hjob : job' ≠ .stuck) : Sound fold ((w.withDisk disk').put k (some (r.goes (r.stage.go job')))) := by
  have htracks := h.tracks k r hr
  have hproject : ∀ P, o.project = r.transfer.projectID → Pends fold w.db r.transfer P →
      ∀ x, Eases w.disk disk' x ∨ x = r.transfer.projectID ∧ ∃ P, Pends fold w.db r.transfer P := by
    intro P hd hpends x
    by_cases hx : x = r.transfer.projectID
    · exact .inr ⟨hx, P, hpends⟩
    · exact .inl (hwork.frame (hd.symm ▸ hx))
  cases hs : r.stage with
  | preparing =>
    rw [call, hs] at hcall
    cases hcall
    cases htracks with
    | arrived harrived =>
      rw [hs] at harrived
      cases harrived
    | closing hlate =>
      rw [hs] at hlate
      exact absurd hlate not_false
    | pending P hpends hholds hfrom =>
      rw [hs] at hholds
      rw [hfrom job hs] at hwork
      refine h.moves hr (by rw [hs]; simp) (by simp [Stage.go]) (hproject P rfl hpends) ?_
      exact .pending P hpends (hwork.preparing hholds hjob) fun _ _ => hfrom job hs
  | rollingBack =>
    rw [call, hs] at hcall
    cases hcall
    cases htracks with
    | arrived harrived =>
      rw [hs] at harrived
      cases harrived
    | closing hlate =>
      rw [hs] at hlate
      exact absurd hlate not_false
    | pending P hpends hholds =>
      rw [hs] at hholds
      refine h.moves hr (by rw [hs]; simp) (by simp [Stage.go]) (hproject P rfl hpends) ?_
      refine .pending P hpends (hwork.rollingBack hholds hjob) ?_
      intro _ h₁
      cases h₁
  | committing =>
    rw [call, hs] at hcall
    cases hcall
    cases htracks with
    | arrived harrived =>
      rw [hs] at harrived
      cases harrived
    | pending _ _ hholds =>
      rw [hs] at hholds
      exact absurd hholds not_false
    | closing hlate hclosing =>
      rw [hs] at hlate
      obtain ⟨hlate', heases, hgone⟩ := hwork.committing rfl hlate
      refine h.moves hr (by rw [hs]; simp) (by simp [Stage.go]) (fun x => .inl (heases x)) ?_
      exact .closing hlate' ((hclosing.eases (heases _)).assure hgone)
  | _ =>
    rw [call, hs] at hcall
    cases hcall

theorem Sound.givesUp {s : Option Stage} {c : Order × Job} (hcall : r.call fold = some c) (hgivesUp : r.stage.givesUp = some s)
    (hreleases : r.stage.Releases) : Sound fold ((w.withStrays (c :: w.strays)).put k (s.map r.goes)) := by
  have hstrays : Inert c → Sound fold (w.withStrays (c :: w.strays)) := by
    intro hinert
    refine h.withStrays ?_
    intro x hx
    rcases mem_cons.mp hx with rfl | hx
    · exact hinert
    · exact h.strays x hx
  have htracks := h.tracks k r hr
  cases hs : r.stage with
  | preparing job =>
    rw [hs] at hgivesUp hreleases
    rw [call, hs] at hcall
    cases hcall
    cases hgivesUp
    have htransfer : ∃ old, Action.transfer (fold r.fromSID) = .transfer old := ⟨_, rfl⟩
    have hinert : Inert (⟨r.transfer.projectID, fold r.transfer.toSID, .transfer (fold r.fromSID)⟩, job) := by
      cases job with
      | sent => exact .inr (.inr (.inr (.inr ⟨htransfer, .inl rfl⟩)))
      | checked => exact .inr (.inr (.inr (.inr ⟨htransfer, .inr rfl⟩)))
      | done ok => exact .inr (.inl ⟨ok, rfl⟩)
      | lost => exact .inr (.inr (.inl rfl))
      | _ => exact absurd hreleases not_false
    cases htracks with
    | arrived harrived =>
      rw [hs] at harrived
      cases harrived
    | closing hlate =>
      rw [hs] at hlate
      exact absurd hlate not_false
    | pending P hpends hholds =>
      rw [hs] at hholds
      have hstill : Still w.disk r.transfer.projectID P := by
        cases job with
        | sent | lost => exact hholds
        | checked => exact hholds.2
        | done ok =>
          cases ok with
          | false => exact hholds
          | true => exact absurd hreleases not_false
        | _ => exact absurd hreleases not_false
      refine (hstrays hinert).goes hr (by rw [hs]; simp) (by simp) (.pending P hpends hstill ?_)
      intro job₁ h₁
      cases h₁
  | rollingBack job =>
    rw [hs] at hgivesUp hreleases
    rw [call, hs] at hcall
    cases hcall
    cases hgivesUp
    have hinert : Inert (⟨r.transfer.projectID, fold r.transfer.toSID, .rollback⟩, job) := by
      cases job with
      | done ok => exact .inr (.inl ⟨ok, rfl⟩)
      | lost => exact .inr (.inr (.inl rfl))
      | _ => exact absurd hreleases not_false
    cases htracks with
    | arrived harrived =>
      rw [hs] at harrived
      cases harrived
    | closing hlate =>
      rw [hs] at hlate
      exact absurd hlate not_false
    | pending P hpends hholds =>
      rw [hs] at hholds
      have hstill : Still w.disk r.transfer.projectID P := by
        cases job with
        | done | lost => exact hholds
        | _ => exact absurd hreleases not_false
      refine (hstrays hinert).goes hr (by rw [hs]; simp) (by simp) (.pending P hpends hstill ?_)
      intro _ h₁
      cases h₁
  | committing =>
    rw [hs] at hgivesUp
    rw [call, hs] at hcall
    cases hcall
    cases hgivesUp
    cases htracks with
    | arrived harrived =>
      rw [hs] at harrived
      cases harrived
    | pending _ _ hholds =>
      rw [hs] at hholds
      exact absurd hholds not_false
    | closing hlate =>
      have hover := (h.tracks k r hr).over hlate
      rw [hs] at hlate
      exact (hstrays (.inl ⟨rfl, hlate⟩)).leaves hr (.inr hover)
  | _ =>
    rw [hs] at hgivesUp
    cases hgivesUp

theorem Sound.answers {s : Option Stage} (hanswered : r.stage.answered = some s) : Sound fold (w.put k (s.map r.goes)) := by
  have htracks := h.tracks k r hr
  cases htracks with
  | arrived harrived =>
    rw [harrived] at hanswered
    cases hanswered
  | pending P hpends hholds =>
    have hgoes : ∀ s', r.stage ≠ .arrived → s' ≠ .arrived → (∀ job, s' ≠ .preparing job) →
        Holds w.disk r.transfer.projectID P (fold r.transfer.toSID) s' → Sound fold (w.put k (some (r.goes s'))) := by
      intro _ hstage hs' hnot hholds'
      exact h.goes hr hstage hs' (.pending P hpends hholds' fun job hjob => absurd hjob (hnot job))
    cases hs : r.stage with
    | preparing job =>
      rw [hs] at hanswered hholds
      cases job with
      | done ok =>
        cases ok with
        | true =>
          cases hanswered
          exact hgoes .prepared (by rw [hs]; simp) (by simp) (by simp) hholds
        | false =>
          cases hanswered
          exact hgoes .aborting (by rw [hs]; simp) (by simp) (by simp) hholds
      | stuck => exact absurd hholds not_false
      | _ => cases hanswered
    | rollingBack job =>
      rw [hs] at hanswered hholds
      cases job with
      | done =>
        cases hanswered
        exact hgoes .aborting (by rw [hs]; simp) (by simp) (by simp) hholds
      | stuck => exact absurd hholds not_false
      | _ => cases hanswered
    | committing =>
      rw [hs] at hholds
      exact absurd hholds not_false
    | _ =>
      rw [hs] at hanswered
      cases hanswered
  | closing hlate hclosing =>
    have hover := (h.tracks k r hr).over hlate
    cases hs : r.stage with
    | committing job =>
      rw [hs] at hanswered hclosing
      cases job with
      | done ok =>
        cases ok with
        | true =>
          cases hanswered
          refine h.goes hr (by rw [hs]; simp) (by simp) (.closing trivial ?_)
          obtain ⟨o, ho, hstate, hod, hosid, hjournal⟩ := hclosing
          exact ⟨o, ho, hstate, hod, hosid, fun _ => hjournal rfl⟩
        | false =>
          cases hanswered
          exact h.leaves hr (.inr hover)
      | _ => cases hanswered
    | preparing | rollingBack =>
      rw [hs] at hlate
      exact absurd hlate not_false
    | _ =>
      rw [hs] at hanswered
      cases hanswered

theorem Sound.sends {s : Stage} (hsends : r.stage.sends = some s)
    (howner : r.stage = .begun → ∃ p, w.db.project r.transfer.projectID = some p ∧ p.ownerSID = r.fromSID) :
    Sound fold (w.put k (some (r.goes s))) := by
  cases h.tracks k r hr with
  | arrived harrived =>
    rw [harrived] at hsends
    cases hsends
  | pending P hpends hholds =>
    cases hs : r.stage with
    | begun =>
      rw [hs] at hsends hholds
      cases hsends
      obtain ⟨p, hp, hsid⟩ := howner hs
      obtain ⟨_, hp', hP⟩ := hpends.project
      cases hp.symm.trans hp'
      refine h.goes hr (by rw [hs]; simp) (by simp) (.pending P hpends hholds ?_)
      exact fun _ _ => (congrArg fold hsid).symm.trans hP
    | failed =>
      rw [hs] at hsends hholds
      cases hsends
      refine h.goes hr (by rw [hs]; simp) (by simp) (.pending P hpends hholds ?_)
      intro _ hjob
      cases hjob
    | completed =>
      rw [hs] at hholds
      exact absurd hholds not_false
    | _ =>
      rw [hs] at hsends
      cases hsends
  | closing hlate hclosing =>
    cases hs : r.stage with
    | completed =>
      rw [hs] at hsends
      cases hsends
      refine h.goes hr (by rw [hs]; simp) (by simp) (.closing trivial (hclosing.unsure.assure ?_))
      intro hsure
      cases hsure
    | begun | failed =>
      rw [hs] at hlate
      exact absurd hlate not_false
    | _ =>
      rw [hs] at hsends
      cases hsends

theorem Sound.unsent {s : Option Stage} (hunsent : r.stage.unsent = some s) (hnot : r.stage ≠ .failed) :
    Sound fold (w.put k (s.map r.goes)) := by
  cases h.tracks k r hr with
  | arrived harrived =>
    rw [harrived] at hunsent
    cases hunsent
  | pending P hpends hholds =>
    cases hs : r.stage with
    | begun =>
      rw [hs] at hunsent hholds
      cases hunsent
      refine h.goes hr (by rw [hs]; simp) (by simp) (.pending P hpends hholds ?_)
      intro _ hjob
      cases hjob
    | failed => exact absurd hs hnot
    | completed =>
      rw [hs] at hholds
      exact absurd hholds not_false
    | _ =>
      rw [hs] at hunsent
      cases hunsent
  | closing hlate =>
    have hover := (h.tracks k r hr).over hlate
    cases hs : r.stage with
    | completed =>
      rw [hs] at hunsent
      cases hunsent
      exact h.leaves hr (.inr hover)
    | begun | failed =>
      rw [hs] at hlate
      exact absurd hlate not_false
    | _ =>
      rw [hs] at hunsent
      cases hunsent

end

end

section Recovery

variable {disk : Disk} {o : TransferRow} {todo : List TransferRow} {s s' : PassStage} {erred : Bool}
  {covers : String → Bool}

section

variable (h : PassTracks fold db disk ⟨o :: todo, s, erred, covers⟩)
include h

theorem PassTracks.first (hs : s ≠ .idle) :
    s.Late ∧ Closing fold db disk o.id o.projectID o.toSID s.Sure := by
  rcases h.head with hidle | ⟨_, _, htodo, hlate, hclosing⟩
  · exact absurd hidle hs
  · cases htodo
    exact ⟨hlate, hclosing⟩

theorem PassTracks.goes (hlate : s'.Late)
    (hclosing : Closing fold db disk o.id o.projectID o.toSID s'.Sure) :
    PassTracks fold db disk ⟨o :: todo, s', erred, covers⟩ :=
  ⟨h.rows, .inr ⟨o, todo, rfl, hlate, hclosing⟩, h.covers⟩

theorem PassTracks.errs :
    PassTracks fold db disk ⟨todo, .idle, true, covers⟩ :=
  ⟨fun x hx => h.rows x (mem_cons_of_mem o hx), .inl rfl, fun _ _ => .inl rfl⟩

theorem PassTracks.drops
    (hfinal : ∀ x ∈ db.transfers, x.id = o.id → ¬ Unfinalized x) :
    PassTracks fold db disk ⟨todo, .idle, erred, covers⟩ := by
  refine ⟨fun x hx => h.rows x (mem_cons_of_mem o hx), .inl rfl, ?_⟩
  intro d hd
  refine (h.covers d hd).imp_right ?_
  intro hall x hx hxd hun
  obtain ⟨y, hy, hyid⟩ := hall x hx hxd hun
  rcases mem_cons.mp hy with rfl | hy
  · exact absurd hun (hfinal x hx hyid.symm)
  · exact ⟨y, hy, hyid⟩

end

theorem PassTracks.begins (htodo : todo.Perm (w.db.transfers.rows.filter (fun o => Unfinalized o))) :
    PassTracks fold w.db w.disk ⟨todo, .idle, false, fun _ => true⟩ := by
  have hmem : ∀ x, x ∈ todo ↔ x ∈ w.db.transfers ∧ Unfinalized x := by
    intro x
    rw [htodo.mem_iff, mem_filter, decide_eq_true_eq]
    rfl
  refine ⟨?_, .inl rfl, ?_⟩
  · intro x hx
    obtain ⟨hrow, hun⟩ := (hmem x).mp hx
    exact ⟨x, find?_of_mem hrow, hun.1, rfl, rfl, False.elim⟩
  · intro d _
    exact .inr fun x hx _ hun => ⟨x, (hmem x).mpr ⟨hx, hun⟩, rfl⟩

theorem Sound.passFinalizes {stamp : ℤ} (h : Sound fold w) (hpass : w.pass = some ⟨o :: todo, .confirmed, erred, covers⟩)
    (hfinal : w.db.finalizeOwnershipTransfer o.id stamp = .ok ((), db)) :
    Sound fold ((w.withDB db).withPass (some ⟨todo, .idle, erred, covers⟩)) := by
  obtain ⟨-, hclosing⟩ := (h.pass _ hpass).first (by simp)
  have hafter := h.finalizes hclosing hfinal
  refine hafter.withPass ?_
  intro x hx
  cases hx
  refine PassTracks.drops (hafter.pass _ hpass) ?_
  intro x hx hid hun
  obtain ⟨-, hback, -⟩ := finalized hfinal
  obtain ⟨y, hy, hcl⟩ := hback x.id x (find?_of_mem hx)
  exact (hcl.unfinalized.mp hun).2 ((find?_transfer hy).2.trans hid)

theorem Sound.passEnds (h : Sound fold w) (hpass : w.pass = some ⟨[], .idle, erred, covers⟩) :
    Sound fold (w.passed ⟨[], .idle, erred, covers⟩) := by
  refine { h with pass := ?_, recovered := ?_ }
  · intro x hx
    cases hx
  · intro d hd o ho hod hun
    have hcases : w.recovered d = true ∨ erred = false ∧ covers d = true := by
      simpa [World.passed] using hd
    rcases hcases with hold | ⟨herred, hcovers⟩
    · exact h.recovered d hold o ho hod hun
    · rcases (h.pass _ hpass).covers d hcovers with hfailed | hall
      · cases herred.symm.trans hfailed
      · obtain ⟨y, hy, -⟩ := hall o ho hod hun
        cases hy

end Recovery

section Deaths

theorem Sound.portalDies {strays : List (Order × Job)} {stamp : ℤ} (h : Sound fold w)
    (hnone : ∀ o ∈ w.db.transfers, o.state ≠ .pending) (hreopened : w.db.reopened stamp = .ok db)
    (hstrays : ∀ c, c ∈ strays ↔ c ∈ w.strays ∨ (∃ k r, w.requests k = some r ∧ r.call fold = some c) ∨
      w.passCall fold = some c) : Sound fold ⟨db, w.disk, fun _ => none, strays, none, w.recovered⟩ := by
  have hsame := (reopened_frame hreopened).1
  have hproject : ∀ d, db.project d = w.db.project d := by
    intro d
    rw [project, hsame.projects]
    rfl
  have hrow : ∀ id o, db.transfers.find? id = some o → ∃ o', w.db.transfers.find? id = some o' ∧ SameRow o' o := by
    intro id o ho
    rw [hsame.transfers] at ho
    exact ⟨o, ho, .refl o⟩
  have hdb : Sound fold (w.withDB db) := by
    refine h.withDB (h.ownership.of_membership hsame) ?_ hrow ?_ ?_ ?_ ?_
    · intro o ho p hp
      rw [hsame.transfers] at ho
      exact h.launched o ho p ((hproject _).symm.trans hp)
    · intro _ o ho
      rw [hsame.transfers]
      exact ⟨o, ho, .refl o⟩
    · exact fun d p hp _ => ⟨p, (hproject d).trans hp, rfl⟩
    · exact fun d q hq hl => h.vacant d q ((hproject d).symm.trans hq) hl
    · intro d q hq hl hstate
      rw [Settled, hsame.transfers]
      exact h.settled d q ((hproject d).symm.trans hq) hl hstate
  refine { hdb with handled := ?_, tracks := ?_, distinct := ?_, strays := ?_, pass := ?_ }
  · intro o ho hpending
    change o ∈ db.transfers at ho
    rw [hsame.transfers] at ho
    exact absurd hpending (hnone o ho)
  · intro k r hr
    cases hr
  · intro k _ r _ hr
    cases hr
  · intro c hc
    rcases (hstrays c).mp hc with hstray | ⟨k, r, hr, hcall⟩ | hcall
    · exact h.strays c hstray
    · have hlate : r.stage.Late ∨ r.stage = .arrived := by
        cases h.tracks k r hr with
        | arrived harrived => exact .inr harrived
        | pending _ hpends =>
          obtain ⟨o, ho, -, hpending, -⟩ := hpends.mem
          exact absurd hpending (hnone o ho)
        | closing hlate => exact .inl hlate
      cases hs : r.stage with
      | committing =>
        rw [call, hs] at hcall
        cases hcall
        rw [hs] at hlate
        exact .inl ⟨rfl, hlate.resolve_right (by simp)⟩
      | preparing | rollingBack =>
        rw [hs] at hlate
        exact absurd hlate (by simp [Stage.Late])
      | _ =>
        rw [call, hs] at hcall
        cases hcall
    · obtain ⟨o, todo, job, erred, covers, hpass, rfl⟩ : ∃ o todo job erred covers,
          w.pass = some ⟨o :: todo, .committing job, erred, covers⟩ ∧ c = (Pass.order fold o, job) := by
        unfold World.passCall at hcall
        split at hcall
        · rename_i o todo job erred covers hpass
          cases hcall
          exact ⟨o, todo, job, erred, covers, hpass, rfl⟩
        · cases hcall
      exact .inl ⟨rfl, ((h.pass _ hpass).first (by simp)).1⟩
  · intro x hx
    cases hx

theorem Tracks.cut {disk : Disk} (h : Tracks fold db disk r) (hreleases : r.stage.Releases) :
    Tracks fold db disk (r.goes (r.stage.go .lost)) := by
  cases h with
  | arrived harrived =>
    rw [harrived]
    exact .arrived rfl
  | pending P hpends hholds hfrom =>
    have hholds' : Holds disk r.transfer.projectID P (fold r.transfer.toSID) (r.stage.go .lost) := by
      cases hs : r.stage with
      | preparing job =>
        rw [hs] at hholds hreleases
        cases job with
        | sent | lost => exact hholds
        | checked => exact hholds.2
        | done ok =>
          cases ok with
          | false => exact hholds
          | true => exact absurd hreleases not_false
        | _ => exact absurd hreleases not_false
      | rollingBack job =>
        rw [hs] at hholds hreleases
        cases job with
        | done | lost => exact hholds
        | _ => exact absurd hreleases not_false
      | _ =>
        rw [hs] at hholds
        exact hholds
    refine .pending P hpends hholds' ?_
    intro _ hjob
    cases hs : r.stage with
    | preparing job₀ => exact hfrom job₀ hs
    | _ =>
      rw [hs] at hjob
      cases hjob
  | closing hlate hclosing =>
    refine .closing ?_ ?_
    · cases hs : r.stage <;> rw [hs] at hlate
      all_goals first | exact hlate | exact trivial
    · obtain ⟨o, ho, hstate, hod, hosid, hjournal⟩ := hclosing
      refine ⟨o, ho, hstate, hod, hosid, ?_⟩
      intro hsure
      apply hjournal
      cases hs : r.stage <;> rw [hs] at hsure
      all_goals first | exact hsure | cases hsure

theorem Sound.managerDies (h : Sound fold w) (hreleases : ∀ k r, w.requests k = some r → r.stage.Releases) :
    Sound fold w.cut := by
  have hgo : ∀ s : Stage, s.go .lost = .arrived ↔ s = .arrived := by
    intro s
    cases s <;> simp [Stage.go]
  refine { h with handled := ?_, tracks := ?_, distinct := ?_, strays := ?_, pass := ?_ }
  · intro o ho hpending
    obtain ⟨k, r, hr, hstage, hid⟩ := h.handled o ho hpending
    refine ⟨k, r.goes (r.stage.go .lost), ?_, fun harrived => hstage ((hgo _).mp harrived), hid⟩
    change (w.requests k).map _ = _
    rw [hr, Option.map_some]
  · intro k x hx
    obtain ⟨r, hr, rfl⟩ := Option.map_eq_some_iff.mp hx
    exact (h.tracks k r hr).cut (hreleases k r hr)
  · intro k k' x _ hx hx' hxs hxs' hid
    obtain ⟨r, hr, rfl⟩ := Option.map_eq_some_iff.mp hx
    obtain ⟨r', hr', rfl⟩ := Option.map_eq_some_iff.mp hx'
    exact h.distinct k k' r r' hr hr' (fun hs => hxs ((hgo _).mpr hs)) (fun hs => hxs' ((hgo _).mpr hs)) hid
  · intro c hc
    cases hc
  · intro x hx
    obtain ⟨⟨_, s, _, _⟩, hx₀, rfl⟩ := Option.map_eq_some_iff.mp hx
    have hp := h.pass _ hx₀
    refine ⟨hp.rows, ?_, hp.covers⟩
    rcases hp.head with hidle | ⟨o, rest, htodo, hlate, hclosing⟩
    · dsimp only at hidle
      subst hidle
      exact .inl rfl
    · refine .inr ⟨o, rest, htodo, ?_, ?_⟩
      · cases s with
        | idle => exact absurd hlate not_false
        | committing | confirmed => exact trivial
      · obtain ⟨x, hx, hstate, hod, hosid, hjournal⟩ := hclosing
        refine ⟨x, hx, hstate, hod, hosid, ?_⟩
        intro hsure
        apply hjournal
        cases s with
        | idle => exact hsure
        | committing => cases hsure
        | confirmed => exact trivial

end Deaths

theorem Sound.step (h : Sound fold w) (hstep : CarefulStep fold w e w') : Sound fold w' := by
  obtain ⟨hstep, hcareful⟩ := hstep
  cases hstep with
  | operates heffect hother hprovisioned => exact h.operates heffect hother hprovisioned
  | provisions hp hstate => exact h.provisions hp hstate
  | reconciles hplace => exact h.withDisk (eases_setPlace hplace)
  | arrives hfree hstage => exact h.arrives hfree hstage
  | refuses hr hstage => exact h.leaves hr (.inl hstage)
  | @begins _ _ _ _ reported hr hstage _ hbegin =>
    obtain rfl : reported = true := hcareful
    exact h.begins hr hstage (ownership_beginOwnershipTransfer h.ownership hbegin) (began hbegin)
  | sends hr hsends howner => exact h.sends hr hsends howner
  | unsent hr hunsent => exact h.unsent hr hunsent (hcareful _ hr)
  | works hr hcall hwork => exact h.works hr hcall hwork hcareful
  | answers hr hanswered => exact h.answers hr hanswered
  | @givesUp _ r _ _ hr hcall hgivesUp => exact h.givesUp hr hcall hgivesUp (hcareful r hr)
  | aborts hr hstage habort => exact h.aborts hr hstage habort
  | unaborted => exact absurd hcareful not_false
  | @completes _ _ _ _ _ reported hr hstage hcomplete =>
    obtain rfl : reported = true := hcareful
    exact h.completes hr hstage hcomplete
  | @uncompleted k r hr hstage =>
    cases h.tracks k r hr with
    | arrived harrived =>
      rw [hstage] at harrived
      cases harrived
    | closing hlate =>
      rw [hstage] at hlate
      exact absurd hlate not_false
    | pending P hpends hholds =>
      rw [hstage] at hholds
      refine h.goes hr (by rw [hstage]; simp) (by simp) (.pending P hpends hholds ?_)
      intro job hjob
      cases hjob
  | @finalizes k r _ _ hr hstage hfinal =>
    cases h.tracks k r hr with
    | arrived harrived =>
      rw [hstage] at harrived
      cases harrived
    | pending _ _ hholds =>
      rw [hstage] at hholds
      exact absurd hholds not_false
    | closing hlate hclosing =>
      rw [hstage] at hclosing
      have hafter := h.finalizes hclosing hfinal
      exact hafter.leaves hr (.inr ((hafter.tracks k r hr).over hlate))
  | @unfinalized k r hr hstage =>
    refine h.leaves hr (.inr ((h.tracks k r hr).over ?_))
    rw [hstage]
    exact trivial
  | @strays _ _ o job _ _ hstrays hwork =>
    have hmem : (o, job) ∈ w.strays := by
      rw [hstrays]
      simp
    obtain ⟨hinert, heases⟩ := hwork.inert (h.strays _ hmem) hcareful
    refine (h.withDisk heases).withStrays ?_
    intro c hc
    rcases mem_append.mp hc with hc | hc
    · exact h.strays c (by rw [hstrays]; simp [hc])
    · rcases mem_cons.mp hc with rfl | hc
      · exact hinert
      · exact h.strays c (by rw [hstrays]; simp [hc])
  | passBegins _ htodo =>
    refine h.withPass ?_
    intro x hx
    cases hx
    exact .begins htodo
  | passSends hpass =>
    refine h.withPass ?_
    intro x hx
    cases hx
    have hp := h.pass _ hpass
    refine hp.goes trivial ((hp.rows _ mem_cons_self).assure ?_)
    intro hsure
    cases hsure
  | passUnsent hpass | passUnfinalized hpass =>
    refine h.withPass ?_
    intro x hx
    cases hx
    exact (h.pass _ hpass).errs
  | passWorks hpass hwork =>
    obtain ⟨hlate, hclosing⟩ := (h.pass _ hpass).first (by simp)
    obtain ⟨hlate', heases, hgone⟩ := hwork.committing rfl hlate
    have hafter := h.withDisk heases
    refine hafter.withPass ?_
    intro x hx
    cases hx
    exact (hafter.pass _ hpass).goes hlate' ((hclosing.eases (heases _)).assure hgone)
  | @passAnswers _ _ ok _ _ hpass =>
    refine h.withPass ?_
    intro x hx
    cases hx
    obtain ⟨-, hclosing⟩ := (h.pass _ hpass).first (by simp)
    cases ok with
    | true =>
      refine (h.pass _ hpass).goes trivial ?_
      obtain ⟨x, hx, hstate, hod, hosid, hjournal⟩ := hclosing
      exact ⟨x, hx, hstate, hod, hosid, fun _ => hjournal rfl⟩
    | false => exact (h.pass _ hpass).errs
  | @passGivesUp o _ job _ _ hpass =>
    obtain ⟨hlate, -⟩ := (h.pass _ hpass).first (by simp)
    have hstrays : Sound fold (w.withStrays ((Pass.order fold o, job) :: w.strays)) := by
      refine h.withStrays ?_
      intro c hc
      rcases mem_cons.mp hc with rfl | hc
      · exact .inl ⟨rfl, hlate⟩
      · exact h.strays c hc
    refine hstrays.withPass ?_
    intro x hx
    cases hx
    exact (h.pass _ hpass).errs
  | passFinalizes hpass hfinal => exact h.passFinalizes hpass hfinal
  | passEnds hpass => exact h.passEnds hpass
  | portalDies hreopened hstrays => exact h.portalDies hcareful hreopened hstrays
  | managerDies => exact h.managerDies hcareful

end Steps

end WorkAgent.Transfers
