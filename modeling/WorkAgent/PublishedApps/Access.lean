import WorkAgent.PublishedApps.Revocation

namespace WorkAgent.PublishedApps.Gateway

open Library Execution List Table
open Quota (Time)

def Stage.ticket : Stage → Option String
  | exchanging _ ticket _ => some ticket
  | exchanged _ ticket _ => some ticket
  | _ => none

def Stage.grant : Stage → Option AppGrant
  | exchanging _ _ grant => some grant
  | exchanged _ _ grant => some grant
  | viewing _ grant => some grant
  | _ => none

def AppGrant.Plain (grant : AppGrant) : Prop := grant.anonymous = true → grant.preview = false

variable {parse : String → Option URL} {s : World} {history : List Event} {w w' : World} {event : Event} {q q' : Request} {stage : Stage} {a : App}
  {ticket token : String} {grant : AppGrant} {viewer : Option AppGrant} {P : World → Prop}

def Observed (parse : String → Option URL) (s : World) (history : List Event) (w : World) (q : Request) (P : World → Prop) : Prop :=
  Passes (Step parse) s history w fun u => (∃ r ∈ u.requests, r.key = q.key) ∧ P u

section

variable (parse s history w) (q : Request) (a : App)

structure OwnerAllowed : Prop where
  read : Observed parse s history w q fun u => u.store.db.get q.appID = .ok a
  owner : ∃ account, Observed parse s history w q (fun u => u.Finds a.ownerSID account) ∧
    (sharedProject a = none ∨ Observed parse s history w q fun u => u.Shares a account)

def Holds (grant : AppGrant) (u : World) : Prop := (∃ pass ∈ u.grants, pass.grant = grant) ∧ u.now.ns < grant.expires.ns ∧
  grant.appID = q.appID ∧ grant.preview = q.preview ∧ grant.revision = a.revision

inductive Admits : Option AppGrant → Prop
  | anyone (hpreview : q.preview = false) (haccess : a.access = "public") (henabled : a.enabled = true)
      (hexpired : Observed parse s history w q fun u => a.expired u.now = false) : Admits none
  | member {grant : AppGrant} {account : Account} (hholds : Observed parse s history w q (Holds q a grant)) (hanonymous : grant.anonymous = false)
      (hallows : Observed parse s history w q fun u => a.allows u.now grant.userID q.preview = true)
      (hviewer : Observed parse s history w q fun u => u.Finds grant.sid account) (hid : account.id = grant.userID) : Admits (some grant)
  | visitor {grant : AppGrant} (hholds : Observed parse s history w q (Holds q a grant)) (hanonymous : grant.anonymous = true)
      (hpreview : q.preview = false)
      (hallows : Observed parse s history w q fun u => a.allows u.now grant.userID false = true ∨
        ((a.access = "token" ∨ a.access = "password") ∧ a.enabled = true ∧ a.expired u.now = false)) : Admits (some grant)

def Backed : Stage → Prop
  | .begun => True
  | .read a => Observed parse s history w q fun u => u.store.db.get q.appID = .ok a
  | .owner a account => (Observed parse s history w q fun u => u.store.db.get q.appID = .ok a) ∧
      Observed parse s history w q fun u => u.Finds a.ownerSID account
  | .allowed a => OwnerAllowed parse s history w q a
  | .sharing a => OwnerAllowed parse s history w q a
  | .exchanging a _ _ => OwnerAllowed parse s history w q a
  | .exchanged a _ _ => OwnerAllowed parse s history w q a
  | .answered a => OwnerAllowed parse s history w q a
  | .viewing a grant => OwnerAllowed parse s history w q a ∧ Observed parse s history w q (Holds q a grant)
  | .admitted a viewer => OwnerAllowed parse s history w q a ∧ Admits parse s history w q a viewer
  | .proxied a viewer => OwnerAllowed parse s history w q a ∧ Admits parse s history w q a viewer

end

structure Plain (w : World) : Prop where
  visits : ∀ a sid userID preview, .admitted a sid userID preview true ∈ w.visits → preview = false
  tickets : ∀ pass ∈ w.tickets, pass.grant.Plain
  grants : ∀ pass ∈ w.grants, pass.grant.Plain
  requests : ∀ q ∈ w.requests, ∀ grant, q.stage.grant = some grant → grant.Plain

theorem Moved.plain (h : Moved w q stage) (hplain : Plain w) (hq : q ∈ w.requests) (hgrant : stage.grant = some grant) : grant.Plain := by
  cases h with
  | advance h =>
    cases h with
    | checks hstage =>
      apply hplain.requests q hq grant
      rw [hstage]
      exact hgrant
    | shows _ hpass =>
      cases hgrant
      exact hplain.grants _ hpass
    | _ => cases hgrant
  | took _ hpass =>
    cases hgrant
    exact hplain.tickets _ hpass
  | _ => cases hgrant

theorem step_plain_requests (hplain : Plain w) (hstep : Step parse w event w') (hq : q ∈ w'.requests) (hgrant : q.stage.grant = some grant) :
    grant.Plain := by
  cases step_requests hstep hq with
  | stays hmem => exact hplain.requests q hmem grant hgrant
  | begins => cases hgrant
  | moves hmem hmoved => exact hmoved.plain hplain hmem hgrant
  | cancelled hmem | dropped hmem => exact hplain.requests _ hmem grant hgrant

theorem Learns.plain {sid : String} {userID : ℤ} {preview : Bool} (h : Learns w (.admitted a sid userID preview true)) : preview = false := by
  generalize hvisit : Visit.admitted a sid userID preview true = visit at h
  cases h with
  | opens => cases hvisit
  | token | password =>
    obtain ⟨-, -, -, rfl, -⟩ := Visit.admitted.inj hvisit
    rfl
  | _ => cases hvisit

theorem step_tickets (hplain : Plain w) (hstep : Step parse w event w') {pass : Pass} (h : pass ∈ w'.tickets) : pass.grant.Plain := by
  cases hstep with
  | restarts => exact absurd h (not_mem_empty pass)
  | prunes => exact hplain.tickets pass (mem_prune h)
  | issues hvisit =>
    rcases Table.mem_set.mp h with rfl | ⟨hpass, -⟩
    · rintro rfl
      exact hplain.visits _ _ _ _ hvisit
    · exact hplain.tickets pass (mem_prune hpass)
  | takes => exact hplain.tickets pass (mem_prune (mem_delete.mp h).1)
  | _ => exact hplain.tickets pass h

theorem step_grants (hplain : Plain w) (hstep : Step parse w event w') {pass : Pass} (h : pass ∈ w'.grants) : pass.grant.Plain := by
  cases hstep with
  | restarts => exact absurd h (not_mem_empty pass)
  | prunes | issues | takes => exact hplain.grants pass (mem_delete.mp h).1
  | shares =>
    rcases Table.mem_set.mp h with rfl | ⟨hpass, -⟩
    · exact fun _ => rfl
    · exact hplain.grants pass hpass
  | @exchanges q _ _ _ grant _ hq hstage =>
    rcases Table.mem_set.mp h with rfl | ⟨hpass, -⟩
    · exact hplain.requests q hq grant (by rw [hstage]; rfl)
    · exact hplain.grants pass hpass
  | _ => exact hplain.grants pass h

theorem step_visits (hplain : Plain w) (hstep : Step parse w event w') {sid : String} {userID : ℤ} {preview : Bool}
    (h : .admitted a sid userID preview true ∈ w'.visits) : preview = false := by
  cases hstep with
  | restarts => exact absurd h not_mem_nil
  | learns hlearns =>
    rcases mem_append.mp h with h | h
    · exact hplain.visits a sid userID preview h
    · obtain rfl := mem_singleton.mp h
      exact hlearns.plain
  | _ => exact hplain.visits a sid userID preview h

theorem Plain.step (h : Plain w) (hstep : Step parse w event w') : Plain w' :=
  ⟨fun _ _ _ _ hvisit => step_visits h hstep hvisit, fun _ hpass => step_tickets h hstep hpass, fun _ hpass => step_grants h hstep hpass,
    fun _ hq _ hgrant => step_plain_requests h hstep hq hgrant⟩

theorem Observed.step (h : Observed parse s history w q P) (hstep : Step parse w event w') (hkey : q.key = q'.key) :
    Observed parse s (history ++ [event]) w' q' P := by
  unfold Observed
  rw [← hkey]
  exact Execution.Passes.step h hstep

theorem observed_now (hrun : Execution (Step parse) s history w) (hq : q ∈ w.requests) (hp : P w) : Observed parse s history w q P :=
  passes_now hrun ⟨⟨q, hq, rfl⟩, hp⟩

theorem OwnerAllowed.step (h : OwnerAllowed parse s history w q a) (hstep : Step parse w event w') (hkey : q.key = q'.key) (happ : q.appID = q'.appID) :
    OwnerAllowed parse s (history ++ [event]) w' q' a := by
  obtain ⟨account, hfinds, hshared⟩ := h.owner
  constructor
  · rw [← happ]
    exact h.read.step hstep hkey
  · refine ⟨account, hfinds.step hstep hkey, ?_⟩
    rcases hshared with hnone | hshares
    · exact .inl hnone
    · exact .inr (hshares.step hstep hkey)

theorem Holds.congr (happ : q.appID = q'.appID) (hpreview : q.preview = q'.preview) : Holds q a grant = Holds q' a grant := by
  funext u
  rw [Holds, Holds, happ, hpreview]

theorem Admits.step (h : Admits parse s history w q a viewer) (hstep : Step parse w event w') (hkey : q.key = q'.key) (happ : q.appID = q'.appID)
    (hpreview : q.preview = q'.preview) : Admits parse s (history ++ [event]) w' q' a viewer := by
  cases h with
  | anyone hpublic haccess henabled hexpired => exact .anyone (hpreview ▸ hpublic) haccess henabled (hexpired.step hstep hkey)
  | member hholds hanonymous hallows hviewer hid =>
    rw [Holds.congr happ hpreview] at hholds
    rw [hpreview] at hallows
    exact .member (hholds.step hstep hkey) hanonymous (hallows.step hstep hkey) (hviewer.step hstep hkey) hid
  | visitor hholds hanonymous hpublic hallows =>
    rw [Holds.congr happ hpreview] at hholds
    exact .visitor (hholds.step hstep hkey) hanonymous (hpreview ▸ hpublic) (hallows.step hstep hkey)

theorem Backed.step (h : Backed parse s history w q stage) (hstep : Step parse w event w') (hkey : q.key = q'.key) (happ : q.appID = q'.appID)
    (hpreview : q.preview = q'.preview) : Backed parse s (history ++ [event]) w' q' stage := by
  cases stage with
  | begun => trivial
  | read a =>
    have hread : Observed parse s history w q fun u => u.store.db.get q.appID = .ok a := h
    rw [happ] at hread
    exact hread.step hstep hkey
  | owner =>
    obtain ⟨hread, hfinds⟩ := h
    rw [happ] at hread
    exact ⟨hread.step hstep hkey, hfinds.step hstep hkey⟩
  | viewing =>
    obtain ⟨howner, hholds⟩ := h
    rw [Holds.congr happ hpreview] at hholds
    exact ⟨howner.step hstep hkey happ, hholds.step hstep hkey⟩
  | admitted | proxied => exact ⟨h.1.step hstep hkey happ, h.2.step hstep hkey happ hpreview⟩
  | allowed | sharing | exchanging | exchanged | answered => exact OwnerAllowed.step h hstep hkey happ

theorem grantAllowed_iff {now : Time} : grantAllowed a grant now = true ↔ a.allows now grant.userID grant.preview = true ∨
    (grant.anonymous = true ∧ (a.access = "token" ∨ a.access = "password") ∧ a.enabled = true ∧ a.expired now = false) := by
  simp [grantAllowed, anonymousMode, and_assoc]

theorem allows_anyone {now : Time} {preview : Bool} (h : a.allows now 0 preview = true) :
    preview = false ∧ a.access = "public" ∧ a.enabled = true ∧ a.expired now = false := by
  unfold App.allows at h
  cases preview with
  | true => simp at h
  | false =>
    by_cases hclosed : a.enabled = true ∧ a.expired now = false
    · obtain ⟨henabled, hexpired⟩ := hclosed
      by_cases haccess : a.access = "public"
      · exact ⟨rfl, haccess, henabled, hexpired⟩
      · simp [henabled, hexpired, haccess] at h
    · exfalso
      apply hclosed
      by_contra _
      cases henabled : a.enabled <;> cases hexpired : a.expired now <;> simp_all

theorem Advance.backed (h : Advance w q stage) (hrun : Execution (Step parse) s history w) (hq : q ∈ w.requests)
    (hplain : Plain w) (hbacked : Backed parse s history w q q.stage) : Backed parse s history w q stage := by
  cases h with
  | reads _ hget => exact observed_now hrun hq hget
  | findsOwner hstage howner =>
    rw [hstage] at hbacked
    exact ⟨hbacked, observed_now hrun hq howner⟩
  | allowsOwner hstage howner hshared =>
    rw [hstage] at hbacked
    exact ⟨hbacked, _, observed_now hrun hq howner, .inl hshared⟩
  | allowsProject hstage hproject =>
    rw [hstage] at hbacked
    exact ⟨hbacked.1, _, hbacked.2, .inr (observed_now hrun hq hproject)⟩
  | shares hstage | checks hstage =>
    rw [hstage] at hbacked
    exact hbacked
  | admits hstage hallows =>
    rw [hstage] at hbacked
    obtain ⟨hpreview, haccess, henabled, hexpired⟩ := allows_anyone hallows
    exact ⟨hbacked, .anyone hpreview haccess henabled (observed_now hrun hq hexpired)⟩
  | shows hstage hpass hexpires happ hpreview hrevision =>
    rw [hstage] at hbacked
    exact ⟨hbacked, observed_now hrun hq ⟨⟨_, hpass, rfl⟩, hexpires, happ, hpreview, hrevision⟩⟩
  | @admitsAnonymous _ grant hstage hallowed hanonymous =>
    have hgrant : grant.preview = false := hplain.requests q hq grant (by rw [hstage]; rfl) hanonymous
    rw [hstage] at hbacked
    obtain ⟨howner, hholds⟩ := hbacked
    refine ⟨howner, .visitor hholds hanonymous ?_ (observed_now hrun hq ?_)⟩
    · obtain ⟨es, fs, u, -, -, -, -, -, -, -, hpreview, -⟩ := hholds
      exact hpreview.symm.trans hgrant
    · rw [grantAllowed_iff, hgrant] at hallowed
      rcases hallowed with hallows | ⟨-, hrest⟩
      · exact .inl hallows
      · exact .inr hrest
  | @admitsViewer _ _ _ hstage hallowed hanonymous hviewer hid =>
    rw [hstage] at hbacked
    obtain ⟨howner, hholds⟩ := hbacked
    refine ⟨howner, .member hholds hanonymous (observed_now hrun hq ?_) (observed_now hrun hq hviewer) hid⟩
    obtain ⟨_, _, u, -, -, -, -, -, -, -, hpreview, -⟩ := hholds
    rw [grantAllowed_iff, hpreview, hanonymous] at hallowed
    rcases hallowed with hallows | ⟨hfalse, -⟩
    · exact hallows
    · cases hfalse

theorem Moved.backed (h : Moved w q stage) (hrun : Execution (Step parse) s history w) (hq : q ∈ w.requests) (hplain : Plain w)
    (hbacked : Backed parse s history w q q.stage) : Backed parse s history w q stage := by
  cases h with
  | advance h => exact h.backed hrun hq hplain hbacked
  | shared h | took h | exchanged h | proxied h =>
    rw [h] at hbacked
    exact hbacked

theorem step_backed (hrun : Execution (Step parse) s history w) (hplain : Plain w) (h : ∀ q ∈ w.requests, Backed parse s history w q q.stage)
    (hstep : Step parse w event w') (hq : q ∈ w'.requests) : Backed parse s (history ++ [event]) w' q q.stage := by
  cases step_requests hstep hq with
  | stays hmem => exact (h q hmem).step hstep rfl rfl rfl
  | begins => trivial
  | moves hmem hmoved => exact (hmoved.backed hrun hmem hplain (h _ hmem)).step hstep rfl rfl rfl
  | cancelled hmem | dropped hmem => exact (h _ hmem).step hstep rfl rfl rfl

def World.outstanding (w : World) (ticket : String) : ℕ :=
  w.tickets.count (fun pass => pass.token = ticket) + w.requests.count fun q => q.stage.ticket = some ticket

theorem outstanding_prune : w.prune.outstanding ticket ≤ w.outstanding ticket := by
  have htickets := count_delete_le (p := fun pass : Pass => pass.token = ticket) w.tickets fun pass => pass.grant.expires.ns < w.now.ns
  exact Nat.add_le_add_right htickets _

theorem outstanding_disconnect (id : String) : (w.disconnect id).outstanding ticket = w.outstanding ticket := by
  have hcount : (w.disconnect id).requests.count (fun q => q.stage.ticket = some ticket) = w.requests.count fun q => q.stage.ticket = some ticket := by
    apply count_update <;> intro r <;> rfl
  exact congrArg (w.tickets.count (fun pass => pass.token = ticket) + ·) hcount

theorem outstanding_progress (hq : q ∈ w.requests) : (w.progress q stage).outstanding ticket + (if q.stage.ticket = some ticket then 1 else 0) =
    w.outstanding ticket + if stage.ticket = some ticket then 1 else 0 := by
  have hcount : (w.requests.set { q with stage := stage }).count (fun q => q.stage.ticket = some ticket) + (if q.stage.ticket = some ticket then 1 else 0) =
      w.requests.count (fun q => q.stage.ticket = some ticket) + (if stage.ticket = some ticket then 1 else 0) := Table.count_set hq rfl
  change w.tickets.count _ + (w.requests.set { q with stage := stage }).count _ + _ = w.tickets.count _ + w.requests.count _ + _
  omega

theorem Advance.ticket_eq (h : Advance w q stage) : stage.ticket = q.stage.ticket := by
  cases h with
  | reads hstage | findsOwner hstage | allowsOwner hstage | allowsProject hstage | shares hstage | checks hstage
  | admits hstage => rw [hstage]; rfl
  | shows hstage => rw [hstage]; rfl
  | admitsAnonymous hstage => rw [hstage]; rfl
  | admitsViewer hstage => rw [hstage]; rfl

theorem outstanding_take {pass : Pass} (hpass : pass ∈ w.tickets) :
    (w.take pass.token).outstanding ticket + (if pass.token = ticket then 1 else 0) ≤ w.outstanding ticket := by
  have hle := count_delete_le (p := fun row : Pass => row.token = ticket) w.tickets fun row => row.token = pass.token
  change (w.tickets.delete fun row => row.token = pass.token).count _ + w.requests.count _ + _ ≤ w.tickets.count _ + w.requests.count _
  by_cases hticket : pass.token = ticket
  · have hnone : (w.tickets.delete fun row => row.token = pass.token).count (fun row => row.token = ticket) = 0 := by
      apply Table.count_eq_zero.mpr
      intro row hrow hsame
      exact (mem_delete.mp hrow).2 (hsame.trans hticket.symm)
    have hsome : w.tickets.count (fun row => row.token = ticket) ≠ 0 := fun hzero => Table.count_eq_zero.mp hzero pass hpass hticket
    rw [if_pos hticket, hnone]
    omega
  · rw [if_neg hticket]
    omega

theorem quiet (hle : w'.outstanding ticket ≤ w.outstanding ticket) (hevent : event ≠ .exchanged ticket) :
    w'.outstanding ticket + (if event = .exchanged ticket then 1 else 0) ≤ w.outstanding ticket + if event = .issued ticket then 1 else 0 := by
  rw [if_neg hevent]
  omega

theorem progress_quiet (hq : q ∈ w.requests) (hticket : stage.ticket = q.stage.ticket) : (w.progress q stage).outstanding ticket = w.outstanding ticket := by
  have hcount : (w.progress q stage).outstanding ticket + _ = w.outstanding ticket + _ := outstanding_progress hq
  rw [hticket] at hcount
  omega

theorem step_outstanding (hstep : Step parse w event w') : w'.outstanding ticket + (if event = .exchanged ticket then 1 else 0) ≤
    w.outstanding ticket + if event = .issued ticket then 1 else 0 := by
  cases hstep with
  | restarts =>
    refine quiet ?_ (by simp)
    simp [World.outstanding, Table.count, Table.empty]
  | @issues a sid token userID preview anonymous =>
    have hprune : w.prune.outstanding ticket ≤ w.outstanding ticket := outstanding_prune
    have hset := count_set_le (p := fun pass : Pass => pass.token = ticket) (t := w.prune.tickets)
      (r := ⟨token, a.id, sid, userID, a.revision, preview, ⟨w.now.ns + 60 * Time.second⟩, anonymous⟩)
    have hissued : Event.issued token = .issued ticket ↔ token = ticket := by simp
    have hnever : Event.issued token ≠ .exchanged ticket := by simp
    simp only [hissued, if_neg hnever]
    unfold World.outstanding at hprune ⊢
    change (w.prune.tickets.set _).count _ + w.requests.count _ + 0 ≤ _
    change _ + w.requests.count _ ≤ _ at hprune
    dsimp only at hset
    omega
  | prunes => exact quiet outstanding_prune (by simp)
  | @changed a =>
    have hsame : (w.disconnect a.id).outstanding ticket = w.outstanding ticket := outstanding_disconnect a.id
    exact quiet (Nat.le_of_eq hsame) (by simp)
  | @stopDisconnects id | @deleteDisconnects id =>
    have hsame : (w.disconnect id).outstanding ticket = w.outstanding ticket := outstanding_disconnect id
    exact quiet (Nat.le_of_eq hsame) (by simp)
  | watches => exact quiet (Nat.le_of_eq (outstanding_disconnect _)) (by simp)
  | @begins id preview =>
    have hcount := count_insertOrIgnore_le (p := fun q : Request => q.stage.ticket = some ticket) (t := w.requests)
      (r := ⟨w.nextRequest, id, preview, .begun, false, true⟩)
    have hnone : Stage.begun.ticket ≠ some ticket := by simp [Stage.ticket]
    rw [if_neg hnone] at hcount
    exact quiet (Nat.add_le_add_left hcount _) (by simp)
  | advances hq hadvance => exact quiet (Nat.le_of_eq (progress_quiet hq hadvance.ticket_eq)) (by simp)
  | @shares q a token hq hstage =>
    have hsame : ((w.accept token ⟨a.id, "", 0, a.revision, false, anonymousGrantExpiry a w.now, true⟩).progress q (.answered a)).outstanding ticket =
        (w.accept token ⟨a.id, "", 0, a.revision, false, anonymousGrantExpiry a w.now, true⟩).outstanding ticket :=
      progress_quiet hq (by rw [hstage]; rfl)
    exact quiet (Nat.le_of_eq hsame) (by simp)
  | @takes q a pass hq _ hpass =>
    have htake : (w.prune.take pass.token).outstanding ticket + _ ≤ w.prune.outstanding ticket := outstanding_take hpass
    have hprune : w.prune.outstanding ticket ≤ w.outstanding ticket := outstanding_prune
    have hprogress : ((w.prune.take pass.token).progress q (.exchanging a pass.token pass.grant)).outstanding ticket + _ =
        (w.prune.take pass.token).outstanding ticket + _ := outstanding_progress hq
    have hticket : (Stage.exchanging a pass.token pass.grant).ticket = some ticket ↔ pass.token = ticket := by simp [Stage.ticket]
    simp only [hticket] at hprogress
    refine quiet ?_ (by simp)
    omega
  | @exchanges q a used token grant expires hq hstage =>
    have hprogress : ((w.accept token { grant with expires := expires }).progress q (.answered a)).outstanding ticket + _ =
        (w.accept token { grant with expires := expires }).outstanding ticket + _ := outstanding_progress hq
    have hused : q.stage.ticket = some ticket ↔ Event.exchanged used = .exchanged ticket := by simp [hstage, Stage.ticket]
    have hnone : (Stage.answered a).ticket ≠ some ticket := by simp [Stage.ticket]
    simp only [hused, if_neg hnone] at hprogress
    change _ = w.outstanding ticket + 0 at hprogress
    omega
  | @proxies _ _ _ hq hstage =>
    exact quiet (Nat.le_of_eq (progress_quiet hq (by rw [hstage]; rfl))) (by simp)
  | @leaves q hq =>
    have hcount : (w.requests.set { q with cancelled := true }).count (fun q => q.stage.ticket = some ticket) +
        (if q.stage.ticket = some ticket then 1 else 0) =
        w.requests.count (fun q => q.stage.ticket = some ticket) + (if q.stage.ticket = some ticket then 1 else 0) := Table.count_set hq rfl
    refine quiet (Nat.add_le_add_left ?_ _) (by simp)
    change (w.requests.set { q with cancelled := true }).count _ ≤ _
    omega
  | ends => exact quiet (Nat.add_le_add_left (count_delete_le _ _) _) (by simp)
  | _ => exact quiet (Nat.le_refl _) (by simp)

theorem exchanged_once (hrun : Execution (Step parse) s history w) (hstart : s.outstanding ticket = 0) :
    history.count (.exchanged ticket) + w.outstanding ticket ≤ history.count (.issued ticket) := by
  induction hrun with
  | start =>
    rw [hstart]
    simp
  | @step _ t u event _ hstep =>
    have hnext : u.outstanding ticket + (if event = .exchanged ticket then 1 else 0) ≤
        t.outstanding ticket + if event = .issued ticket then 1 else 0 := step_outstanding hstep
    rw [count_append, count_append, count_singleton, count_singleton]
    simp only [beq_iff_eq]
    omega

structure Guarded (parse : String → Option URL) (s : World) (history : List Event) (w : World) : Prop where
  admitted : ∀ key w', Step parse w (.proxied key) w' → ∃ q ∈ w.requests, q.key = key ∧ q.cancelled = false ∧ ∃ a viewer,
    OwnerAllowed parse s history w q a ∧ Admits parse s history w q a viewer ∧
    (q.preview = true → ∃ grant, viewer = some grant ∧ grant.anonymous = false ∧ grant.userID = a.ownerID) ∧
    ∀ revision, .changed q.appID revision ∈ history ∨ .stopping q.appID revision ∈ history → revision ≤ a.revision
  once : ∀ ticket, history.count (.exchanged ticket) ≤ history.count (.issued ticket)
  stopped : ∀ q ∈ w.requests, ∀ revision, .stopped q.appID revision ∈ history → q.Old revision → q.cancelled = true ∧
    ∃ event, event ≠ .stopping q.appID revision ∧ Cut parse s history w q event

theorem Admits.owner (h : Admits parse s history w q a viewer) (hpreview : q.preview = true) :
    ∃ grant, viewer = some grant ∧ grant.anonymous = false ∧ grant.userID = a.ownerID := by
  cases h with
  | anyone hpublic | visitor _ _ hpublic =>
    rw [hpreview] at hpublic
    cases hpublic
  | @member grant _ _ hanonymous hallows =>
    obtain ⟨_, _, u, -, -, -, -, hallowed⟩ := hallows
    rw [hpreview] at hallowed
    refine ⟨grant, rfl, hanonymous, ?_⟩
    simp only [App.allows, if_true, Bool.and_eq_true, decide_eq_true_eq] at hallowed
    exact hallowed.2

theorem proxied_step {key : ℕ} (hstep : Step parse w (.proxied key) w') :
    ∃ q ∈ w.requests, q.key = key ∧ q.cancelled = false ∧ ∃ a viewer, q.stage = .admitted a viewer := by
  generalize hevent : Event.proxied key = event at hstep
  cases hstep with
  | proxies hq hstage _ hcancelled =>
    obtain rfl := Event.proxied.inj hevent
    exact ⟨_, hq, rfl, hcancelled, _, _, hstage⟩
  | _ => cases hevent

theorem run_kept {limits : Limits} {now : Time} {users : String → Option Account} {project : String → ℤ → Option Project}
    (hrun : Execution (Step parse) (.start limits now users project) history w) : Recorded history w ∧
      Tracked parse (.start limits now users project) history w ∧ Plain w ∧
      ∀ q ∈ w.requests, Backed parse (.start limits now users project) history w q q.stage := by
  have hempty : ∀ q : Request, q ∉ (World.start limits now users project).requests := not_mem_empty
  have hclosings : ∀ closing : Closing, closing ∉ (World.start limits now users project).closings := not_mem_empty
  apply hrun.history (J := fun history w => Recorded history w ∧ Tracked parse (.start limits now users project) history w ∧ Plain w ∧
    ∀ q ∈ w.requests, Backed parse (.start limits now users project) history w q q.stage)
  · refine ⟨?_, ?_, ?_, fun q hq => absurd hq (hempty q)⟩
    · constructor
      · exact forall_mem_empty
      · exact fun a ha => absurd ha not_mem_nil
      · exact fun closing hclosing => absurd hclosing (hclosings closing)
      · exact fun closing hclosing => absurd hclosing (hclosings closing)
      · exact fun event hevent => absurd hevent not_mem_nil
      · exact fun closing hclosing => absurd hclosing (hclosings closing)
    · constructor
      · exact fun q hq => absurd hq (hempty q)
      · exact fun q hq => absurd hq (hempty q)
      · exact fun closing hclosing => absurd hclosing (hclosings closing)
      · exact fun q hq => absurd hq (hempty q)
    · constructor
      · exact fun _ _ _ _ hvisit => absurd hvisit not_mem_nil
      · exact forall_mem_empty
      · exact forall_mem_empty
      · exact fun q hq => absurd hq (hempty q)
  · rintro _ t _ u hbefore ⟨hrecorded, htracked, hplain, hbacked⟩ hstep
    exact ⟨hrecorded.step hstep, htracked.step hrecorded hbefore hstep, hplain.step hstep,
      fun q hq => step_backed hbefore hplain hbacked hstep hq⟩

/-- In every run a request is proxied only for an owner and a visitor that were allowed as it was
handled, and not past a change that has cut it off. -/
theorem gateway_guarded (parse : String → Option URL) (limits : Limits) (now : Time) (users : String → Option Account)
    (project : String → ℤ → Option Project) (history : List Event) (w : World)
    (hrun : Execution (Step parse) (.start limits now users project) history w) :
    Guarded parse (.start limits now users project) history w := by
  obtain ⟨_, htracked, _, hbacked⟩ := run_kept hrun
  constructor
  · intro _ _ hstep
    obtain ⟨q, hq, hkey, hcancelled, a, viewer, hstage⟩ := proxied_step hstep
    have hback := hbacked q hq
    rw [hstage] at hback
    obtain ⟨howner, hadmits⟩ := hback
    refine ⟨q, hq, hkey, hcancelled, a, viewer, howner, hadmits, hadmits.owner, ?_⟩
    intro revision hsaved
    by_contra hlt
    have hold : q.Old revision := ⟨a, by rw [hstage]; rfl, by omega⟩
    have htrue := htracked.cancelled q hq revision hsaved hold
    rw [hcancelled] at htrue
    cases htrue
  · intro ticket
    have hzero : (World.start limits now users project).outstanding ticket = 0 := by simp [World.outstanding, World.start, Table.count, Table.empty]
    have hbound := exchanged_once hrun hzero
    omega
  · exact htracked.stopped

def World.learn (w : World) (visit : Visit) : World := { w with visits := w.visits ++ [visit] }

def World.write (w : World) (a : App) : World := { w with store := { w.store with db := w.store.db.write a } }

def World.save (w : World) (a : App) : World := { w.write a with changes := w.changes ++ [a] }

def World.begin (w : World) (id : String) (preview : Bool) : World :=
  { w with requests := w.requests.insertOrIgnore ⟨w.nextRequest, id, preview, .begun, false, true⟩, nextRequest := w.nextRequest + 1 }

namespace PageExample

def noOrigins (_ : String) : Option URL := none

def pageID : String := "Zk3vN8sLqT0aYw5RbU7cXe1m"

def page : App :=
  ⟨"", "S-1-5-21-2000", 9, "w2", "Page", "static", "index.html", [], "", [], "", "", [], 0, 0, false, "", "", .zero, 0, .zero⟩

def pageAt (enabled : Bool) (revision : ℤ) : App :=
  { page.created pageID 1024 ⟨0⟩ with
    ownerSID := "S-1-5-21-2000", access := "public", version := "v1", versions := ["v1"], enabled := enabled, revision := revision }

def createdPage : App := { page.created pageID 1024 ⟨0⟩ with ownerSID := "S-1-5-21-2000" }

def accounts (sid : String) : Option Account := if sid = "S-1-5-21-2000" then some ⟨9, false, false⟩ else none

def noAccounts (_ : String) : Option Account := none

def noProjects (_ : String) (_ : ℤ) : Option Project := none

def begun : World := .start ⟨1024, 1031, 3⟩ ⟨0⟩ accounts noProjects

def created : World := { begun with store := (begun.store.call noOrigins (.create page pageID ⟨0⟩)).2 }

def published : World := (((created.learn (.read createdPage)).save (pageAt true 2)).disconnect pageID).changed (pageAt true 2)

def Serves (w : World) (a : App) : Prop := w.store.db.apps.rows = [⟨pageID, "S-1-5-21-2000", a.marshal, false⟩]

theorem Serves.get (h : Serves w a) (hsid : a.ownerSID = "S-1-5-21-2000") : w.store.db.get pageID = .ok a := by
  have hrow : ⟨pageID, "S-1-5-21-2000", a.marshal, false⟩ ∈ w.store.db.apps := by
    rw [← mem_rows, h]
    exact mem_singleton.mpr rfl
  have hget := get_eq hrow rfl rfl
  rw [hget]
  obtain ⟨⟩ := a
  subst hsid
  rfl

theorem Serves.write {b : App} (h : Serves w a) (hid : b.id = pageID) : Serves (w.write b) b := by
  unfold Serves
  change (w.store.db.write b).apps.rows = _
  unfold Database.write
  rw [rows_update, h]
  simp [hid]

theorem created_serves : Serves created createdPage := by
  unfold Serves
  decide

theorem updates {b : App} {expected : ℤ} (h : Serves w a) (hsid : a.ownerSID = "S-1-5-21-2000") (hid : b.id = pageID)
    (hsid' : b.ownerSID = "S-1-5-21-2000") (haccess : validAccess b.access = true) (hmembers : b.members.length ≤ 1000) (hrevision : a.revision = expected) :
    w.store.update b expected = .ok ({ b with revision := expected + 1 }, (w.write { b with revision := expected + 1 }).store) := by
  apply update_eq haccess hmembers _ hrevision (hsid.trans hsid'.symm)
  rw [hid]
  exact h.get hsid

theorem published_run : Execution (Step noOrigins) begun [.moved, .moved, .moved, .changed pageID 2] published := by
  have hcreate : Step noOrigins begun .moved created := @Step.manages noOrigins begun (.create page pageID ⟨0⟩) trivial
  have hlearn : Step noOrigins created .moved (created.learn (.read createdPage)) := .learns (.read (created_serves.get rfl))
  have hsave : Step noOrigins (created.learn (.read createdPage)) .moved ((created.learn (.read createdPage)).save (pageAt true 2)) := by
    have hserves : Serves (created.learn (.read createdPage)) createdPage := created_serves
    have hread : Visit.read createdPage ∈ (created.learn (.read createdPage)).visits := mem_append_right _ (mem_singleton.mpr rfl)
    have hedited : createdPage.Edited (pageAt true 1) := ⟨rfl, rfl, rfl, rfl⟩
    exact .changes hread hedited (updates hserves rfl rfl rfl (by decide) (by decide) rfl)
  have hchange : Step noOrigins ((created.learn (.read createdPage)).save (pageAt true 2)) (.changed pageID 2) published :=
    .changed (a := pageAt true 2) (mem_append_right _ (mem_singleton.mpr rfl))
  exact (((single hcreate).step hlearn).step hsave).step hchange

theorem published_serves : Serves published (pageAt true 2) := created_serves.write rfl

def requestAt (stage : Stage) : Request := ⟨0, pageID, false, stage, false, true⟩

def atRead : World := (published.begin pageID false).progress (requestAt .begun) (.read (pageAt true 2))

def atAllowed : World := atRead.progress (requestAt (.read (pageAt true 2))) (.allowed (pageAt true 2))

def atAdmitted : World := atAllowed.progress (requestAt (.allowed (pageAt true 2))) (.admitted (pageAt true 2) none)

theorem admitted_run : Execution (Step noOrigins) published [.moved, .moved, .moved, .moved] atAdmitted := by
  have hbegin : Step noOrigins published .moved (published.begin pageID false) := .begins
  have hread : Step noOrigins (published.begin pageID false) .moved atRead :=
    .advances (mem_singleton.mpr rfl) (.reads rfl (published_serves.get rfl))
  have hallow : Step noOrigins atRead .moved atAllowed :=
    .advances (mem_singleton.mpr rfl) (.allowsOwner rfl ⟨rfl, rfl⟩ (by decide))
  have hadmits : Step noOrigins atAllowed .moved atAdmitted := .advances (mem_singleton.mpr rfl) (.admits rfl (by decide))
  exact (((single hbegin).step hread).step hallow).step hadmits

def atProxied : World := atAdmitted.progress (requestAt (.admitted (pageAt true 2) none)) (.proxied (pageAt true 2) none)

theorem page_proxied : Step noOrigins atAdmitted (.proxied 0) atProxied := by
  have hq : requestAt (.admitted (pageAt true 2) none) ∈ atAdmitted.requests := mem_singleton.mpr rfl
  refine .proxies hq rfl ?_ rfl
  decide

def atClosed : World := { atAdmitted with users := noAccounts }

theorem closed_proxied : Step noOrigins atClosed (.proxied 0)
    (atClosed.progress (requestAt (.admitted (pageAt true 2) none)) (.proxied (pageAt true 2) none)) := by
  have hq : requestAt (.admitted (pageAt true 2) none) ∈ atClosed.requests := mem_singleton.mpr rfl
  refine .proxies hq rfl ?_ rfl
  decide

/-- `stopApp` with the page read at a revision: the flag, the update, and the call of `disconnect`. -/
def flag (w : World) (enabled : Bool) (revision : ℤ) : World := (w.learn (.read (pageAt enabled revision))).close ⟨pageID, .stopping (pageAt false revision)⟩

def save (w : World) (revision : ℤ) : World :=
  { w.close ⟨pageID, .updated (revision + 1)⟩ with store := (w.write (pageAt false (revision + 1))).store }

def drain (w : World) (revision : ℤ) : World :=
  (w.disconnect pageID).close ⟨pageID, .draining revision (w.pending pageID) ⟨w.now.ns + 20 * Time.second⟩⟩

theorem drain_run {enabled : Bool} {revision : ℤ} (h : Serves w (pageAt enabled revision)) (hfree : w.closings.find? pageID = none) :
    Execution (Step noOrigins) w [.moved, .moved, .moved, .stopping pageID (revision + 1)]
      (drain (save (flag w enabled revision) revision) (revision + 1)) ∧
    Serves (drain (save (flag w enabled revision) revision) (revision + 1)) (pageAt false (revision + 1)) := by
  have hlearn : Step noOrigins w .moved (w.learn (.read (pageAt enabled revision))) := .learns (.read (h.get rfl))
  have hread : Visit.read (pageAt enabled revision) ∈ (w.learn (.read (pageAt enabled revision))).visits :=
    mem_append_right _ (mem_singleton.mpr rfl)
  have hflag : Step noOrigins (w.learn (.read (pageAt enabled revision))) .moved (flag w enabled revision) := .stops hread hfree
  have hserves : Serves (flag w enabled revision) (pageAt enabled revision) := h
  have hclosing : ⟨pageID, .stopping (pageAt false revision)⟩ ∈ (flag w enabled revision).closings := Table.mem_set.mpr (.inl rfl)
  have hsave : Step noOrigins (flag w enabled revision) .moved (save (flag w enabled revision) revision) :=
    .stopUpdates hclosing (updates hserves rfl rfl rfl (show validAccess "public" = true by decide) (Nat.zero_le 1000) rfl)
  have hsaved : ⟨pageID, .updated (revision + 1)⟩ ∈ (save (flag w enabled revision) revision).closings := Table.mem_set.mpr (.inl rfl)
  constructor
  · exact (((single hlearn).step hflag).step hsave).step (.stopDisconnects hsaved)
  · exact hserves.write rfl

def atDraining : World := drain (save (flag atProxied true 2) 2) 3

def atPending : World := World.closed { atDraining with now := ⟨20 * Time.second⟩ } pageID

def atEmpty : World := drain (save (flag atPending false 3) 3) 4

def atStopped : World := atEmpty.closed pageID

def told : List Event :=
  [.moved, .moved, .moved, .changed pageID 2] ++ [.moved, .moved, .moved, .moved] ++ [.proxied 0] ++ [.moved, .moved, .moved, .stopping pageID 3] ++
    [.moved] ++ [.moved] ++ [.moved, .moved, .moved, .stopping pageID 4] ++ [.stopped pageID 4]

theorem stopped_run : Execution (Step noOrigins) begun told atStopped := by
  have hbefore : Serves atProxied (pageAt true 2) := published_serves
  obtain ⟨hfirst, hserves⟩ : Execution (Step noOrigins) atProxied [.moved, .moved, .moved, .stopping pageID 3] atDraining ∧
    Serves atDraining (pageAt false 3) := drain_run hbefore rfl
  have htick : Step noOrigins atDraining .moved { atDraining with now := ⟨20 * Time.second⟩ } := .ticks (by decide)
  have hpending : Step noOrigins { atDraining with now := ⟨20 * Time.second⟩ } .moved atPending := by
    have hclosing : ⟨pageID, .draining 3 [0] ⟨20 * Time.second⟩⟩ ∈ atDraining.closings := by
      rw [← mem_rows]
      decide
    exact .stopPending hclosing (by decide)
  have hserves' : Serves atPending (pageAt false 3) := hserves
  have hfree : atPending.closings.find? pageID = none := by decide
  obtain ⟨hsecond, -⟩ : Execution (Step noOrigins) atPending [.moved, .moved, .moved, .stopping pageID 4] atEmpty ∧
    Serves atEmpty (pageAt false 4) := drain_run hserves' hfree
  have hstopped : Step noOrigins atEmpty (.stopped pageID 4) atStopped := by
    have hclosing : ⟨pageID, .draining 4 [] ⟨40 * Time.second⟩⟩ ∈ atEmpty.closings := by
      rw [← mem_rows]
      decide
    exact .stopped hclosing (by simp)
  have hproxied : Execution (Step noOrigins) begun _ atProxied := (published_run.trans admitted_run).step page_proxied
  exact ((((hproxied.trans hfirst).step htick).step hpending).trans hsecond).step hstopped

theorem page_guarded : Guarded noOrigins begun told atStopped := gateway_guarded noOrigins _ _ _ _ told atStopped stopped_run

/-- The owner's account may be closed before the request is sent, and a second stop may succeed while
the request is still in progress. -/
theorem page_outlives : (Execution (Step noOrigins) begun
      ([.moved, .moved, .moved, .changed pageID 2] ++ [.moved, .moved, .moved, .moved] ++ [.moved]) atClosed ∧
    Step noOrigins atClosed (.proxied 0) (atClosed.progress (requestAt (.admitted (pageAt true 2) none)) (.proxied (pageAt true 2) none)) ∧
    ∀ account, ¬ atClosed.Finds (pageAt true 2).ownerSID account) ∧
  Execution (Step noOrigins) begun told atStopped ∧ .stopped pageID 4 ∈ told ∧
    ∃ q ∈ atStopped.requests, q.appID = pageID ∧ q.stage = .proxied (pageAt true 2) none ∧ q.Old 4 := by
  refine ⟨⟨(published_run.trans admitted_run).step .accounts, closed_proxied, ?_⟩, stopped_run, by simp [told], ?_⟩
  · rintro account ⟨hfinds, -⟩
    cases hfinds
  · refine ⟨⟨0, pageID, false, .proxied (pageAt true 2) none, true, false⟩, ?_, rfl, rfl, pageAt true 2, rfl, by decide⟩
    rw [← mem_rows]
    decide

end PageExample

end WorkAgent.PublishedApps.Gateway
