import WorkAgent.Collaboration.Rooted

namespace WorkAgent.Collaboration

open Library List Table
open Quota (Time)

def Op.linkBegun : Op → Option String
  | .beginInviteLinkAcceptance token _ _ => some token
  | _ => none

def Op.linkAborted : Op → Option String
  | .abortInviteLinkAcceptance token _ => some token
  | _ => none

def linkBegins (token : String) (returned : List (Call × Outcome)) : ℕ :=
  returned.countP (fun x => x.1.op.linkBegun = some token ∧ x.2.isOk)

def linkAborts (token : String) (returned : List (Call × Outcome)) : ℕ :=
  returned.countP (fun x => x.1.op.linkAborted = some token ∧ x.2.isOk)

inductive LinkStep (token : String) (c d : Config Store Call Outcome) : Prop
  | same (h : d.store.inviteLinks.find? token = c.store.inviteLinks.find? token)
      (hbegins : linkBegins token d.returned = linkBegins token c.returned)
      (haborts : linkAborts token d.returned = linkAborts token c.returned)
  | create (l : InviteLink) (stamp : ℤ) (hnone : c.store.inviteLinks.find? token = none)
      (h : d.store.inviteLinks.find? token = some (l.row stamp))
      (hbegins : linkBegins token d.returned = linkBegins token c.returned)
      (haborts : linkAborts token d.returned = linkAborts token c.returned)
  | revoke (l : InviteLinkRow) (stamp : ℤ) (hl : c.store.inviteLinks.find? token = some l)
      (h : d.store.inviteLinks.find? token = some { l with status := .revoked, actedAt := some stamp })
      (hbegins : linkBegins token d.returned = linkBegins token c.returned)
      (haborts : linkAborts token d.returned = linkAborts token c.returned)
  | begin (l : InviteLinkRow) (env : Env) (hl : c.store.inviteLinks.find? token = some l)
      (hactive : l.status = .active)
      (h : d.store.inviteLinks.find? token = some (Store.used l (env.now 0).unixMilli))
      (hbegins : linkBegins token d.returned = linkBegins token c.returned + 1)
      (haborts : linkAborts token d.returned = linkAborts token c.returned)
  | abort (l : InviteLinkRow) (hl : c.store.inviteLinks.find? token = some l) (hpos : 0 < l.useCount)
      (h : d.store.inviteLinks.find? token = some (Store.restored l))
      (hbegins : linkBegins token d.returned = linkBegins token c.returned)
      (haborts : linkAborts token d.returned = linkAborts token c.returned + 1)

section Counts

variable {token : String} {i : Call} {o : Outcome} {returned : List (Call × Outcome)}

theorem Op.linkBegun_eq_none {op : Op} (h : ¬ op.UsesLink) : op.linkBegun = none ∧ op.linkAborted = none := by
  cases op <;> first | exact ⟨rfl, rfl⟩ | exact absurd trivial h

theorem counts_quiet (token : String) (returned : List (Call × Outcome)) (h : ∀ x, o = .ok x → ¬ i.op.UsesLink) :
    linkBegins token ((i, o) :: returned) = linkBegins token returned ∧
      linkAborts token ((i, o) :: returned) = linkAborts token returned := by
  cases o with
  | error => exact ⟨countP_cons_of_neg (by simp [Except.isOk, Except.toBool]),
      countP_cons_of_neg (by simp [Except.isOk, Except.toBool])⟩
  | ok x =>
    obtain ⟨hbegun, haborted⟩ := Op.linkBegun_eq_none (h x rfl)
    exact ⟨countP_cons_of_neg (by simp [hbegun]), countP_cons_of_neg (by simp [haborted])⟩

end Counts

section Effects

variable {env : Env} {op : Op} {a : Option Outcome} {s t : Store}

theorem LinkWrite.not_usesLink (h : LinkWrite env s t op) : ¬ op.UsesLink := by
  cases h with
  | same _ hop => exact hop
  | create | revoke => exact not_false

theorem ConversationEffect.not_usesLink (h : ConversationEffect env s t op a) : ¬ op.UsesLink := by
  cases h with
  | create op _ _ _ hop => cases op <;> first | exact not_false | cases hop
  | seedAssistant _ _ _ hop | seedSession _ _ _ _ _ hop | inviteAssistant _ _ _ hop | updateAssistant _ _ _ _ _ _ hop
  | updateModels _ _ _ _ _ _ hop => exact Op.not_usesLink hop
  | setHidden | metadata | delete | addMessage | touch | found | removeAssistant => exact not_false

theorem RunEffect.not_usesLink (h : RunEffect env s t op a) : ¬ op.UsesLink := by
  cases h with
  | reserve op _ _ _ _ _ hid =>
    cases op <;> first | exact not_false | cases hid
  | finish | stop => exact not_false

theorem TaskEffect.not_usesLink (h : TaskEffect env s t op a) : ¬ op.UsesLink := by
  cases h <;> exact not_false

theorem LinkUse.answered (h : LinkUse env s t op a) : a ≠ none := by
  cases h <;> exact fun h => by cases h

theorem Effect.links (h : Effect env op a s t) (hs : Rooted s) : LinkUse env s t op a ∨
    ((∀ x, a = some (.ok x) → ¬ op.UsesLink) ∧ (t.inviteLinks = s.inviteLinks ∨ LinkWrite env s t op)) := by
  cases h with
  | same h ha => exact .inr ⟨fun x hx => Op.not_usesLink (ha x hx), .inl (h ▸ rfl)⟩
  | member h =>
    rcases h.frame with hframe | ⟨hop, _, p, hp, hl, hdelete⟩
    · rcases hframe.links with ⟨hlinks, hop⟩ | huse
      · exact .inr ⟨fun _ _ => hop, .inl hlinks⟩
      · exact .inl huse
    · exact .inr ⟨fun _ _ => hop, .inl (hs.dropped (find?_eq_some.mp hp).1 hl hdelete).inviteLinks⟩
  | invite h => exact .inr ⟨fun _ _ => h.change.2.2.not_usesLink, .inr h.change.2.2⟩
  | conversation h | run h | task h => exact .inr ⟨fun _ _ => h.not_usesLink, .inl h.frame.1.inviteLinks⟩

end Effects

section Steps

variable {env : Env} {op : Op} {c d : Config Store Call Outcome} {token : String}

theorem LinkWrite.step (h : LinkWrite env c.store d.store op)
    (hbegins : linkBegins token d.returned = linkBegins token c.returned)
    (haborts : linkAborts token d.returned = linkAborts token c.returned) : LinkStep token c d := by
  cases h with
  | same _ _ h => exact .same (by rw [h]) hbegins haborts
  | create l _ _ _ _ hnew h =>
    by_cases htoken : l.token = token
    · subst htoken
      refine .create l (env.stamp 0) hnew ?_ hbegins haborts
      rw [h]
      exact find?_insertOrIgnore_new hnew
    · refine .same ?_ hbegins haborts
      rw [h]
      exact find?_insertOrIgnore_ne htoken
  | revoke token' id owner h =>
    have hfind : d.store.inviteLinks.find? token = (c.store.inviteLinks.find? token).map (fun l =>
        if l.token = token' ∧ l.projectID = id ∧ l.creatorUserID = owner ∧ l.status = .active
        then { l with status := .revoked, actedAt := some (env.stamp 0) } else l) := by
      rw [h, find?_update]
    cases hl : c.store.inviteLinks.find? token with
    | none =>
      rw [hl] at hfind
      exact .same (hfind.trans hl.symm) hbegins haborts
    | some l =>
      rw [hl, Option.map_some] at hfind
      split at hfind
      · exact .revoke l (env.stamp 0) hl hfind hbegins haborts
      · exact .same (hfind.trans hl.symm) hbegins haborts

theorem LinkUse.step {i : Call} {o : Outcome} (h : LinkUse i.env c.store d.store i.op (some o))
    (hret : d.returned = (i, o) :: c.returned) : LinkStep token c d := by
  obtain ⟨_, env, _, _⟩ := i
  cases h with
  | begins token' _ _ _ l hl hactive _ h =>
    have hfind : d.store.inviteLinks.find? token = (c.store.inviteLinks.find? token).map (fun x =>
        if x.token = token' ∧ x.status = .active ∧ x.useCount = l.useCount
        then Store.used x (env.now 0).unixMilli else x) := by
      rw [h, find?_update]
    have haborts : linkAborts token d.returned = linkAborts token c.returned := by
      rw [hret]
      exact countP_cons_of_neg (by simp [Op.linkAborted])
    by_cases htoken : token' = token
    · subst htoken
      rw [hl, Option.map_some, if_pos ⟨(find?_eq_some.mp hl).2, hactive, rfl⟩] at hfind
      refine .begin l env hl hactive hfind ?_ haborts
      rw [hret]
      exact countP_cons_of_pos (by simp [Op.linkBegun, Except.isOk, Except.toBool])
    · refine .same ?_ ?_ haborts
      · rw [hfind]
        cases hx : c.store.inviteLinks.find? token with
        | none => rfl
        | some x =>
          have hother : ¬ (x.token = token' ∧ x.status = .active ∧ x.useCount = l.useCount) :=
            fun hx' => htoken (hx'.1.symm.trans (find?_eq_some.mp hx).2)
          rw [Option.map_some, if_neg hother]
      · rw [hret]
        exact countP_cons_of_neg (by simp [Op.linkBegun, htoken])
  | aborts token' _ l hl hpos h =>
    have hfind : d.store.inviteLinks.find? token = (c.store.inviteLinks.find? token).map (fun x =>
        if x.token = token' then Store.restored x else x) := by
      rw [h, find?_update]
    have hbegins : linkBegins token d.returned = linkBegins token c.returned := by
      rw [hret]
      exact countP_cons_of_neg (by simp [Op.linkBegun])
    by_cases htoken : token' = token
    · subst htoken
      rw [hl, Option.map_some, if_pos (find?_eq_some.mp hl).2] at hfind
      refine .abort l hl hpos hfind hbegins ?_
      rw [hret]
      exact countP_cons_of_pos (by simp [Op.linkAborted, Except.isOk, Except.toBool])
    · refine .same ?_ hbegins ?_
      · rw [hfind]
        cases hx : c.store.inviteLinks.find? token with
        | none => rfl
        | some x =>
          have hother : x.token ≠ token' := fun hx' => htoken (hx'.symm.trans (find?_eq_some.mp hx).2)
          rw [Option.map_some, if_neg hother]
      · rw [hret]
        exact countP_cons_of_neg (by simp [Op.linkAborted, htoken])

theorem link_step (token : String) (hc : system.Reachable c) (h : system.Step c d) : LinkStep token c d := by
  have hs := rooted_reachable hc
  have hsame (hlinks : d.store.inviteLinks = c.store.inviteLinks)
      (hbegins : linkBegins token d.returned = linkBegins token c.returned)
      (haborts : linkAborts token d.returned = linkAborts token c.returned) : LinkStep token c d :=
    .same (by rw [hlinks]) hbegins haborts
  cases labelled.moves hc h with
  | start _ _ hstore _ hret => exact hsame (by rw [hstore]) (by rw [hret]) (by rw [hret])
  | middle _ h _ _ hret =>
    rcases h.links hs with huse | ⟨-, hlinks | hwrite⟩
    · exact absurd rfl huse.answered
    · exact hsame hlinks (by rw [hret]) (by rw [hret])
    · exact hwrite.step (by rw [hret]) (by rw [hret])
  | last _ _ h _ _ hret =>
    rcases h.links hs with huse | ⟨hquiet, hlinks⟩
    · exact huse.step hret
    · obtain ⟨hbegins, haborts⟩ := counts_quiet token c.returned
        (fun x hx => hquiet x (congrArg some hx))
      rcases hlinks with hlinks | hwrite
      · exact hsame hlinks (by rw [hret, hbegins]) (by rw [hret, haborts])
      · exact hwrite.step (by rw [hret, hbegins]) (by rw [hret, haborts])
  | restart h _ hret =>
    obtain ⟨_, h⟩ := h
    exact hsame (Store.reopened_frame h).1.inviteLinks (by rw [hret]) (by rw [hret])

end Steps

structure Metered (l : InviteLinkRow) : Prop where
  bound : 0 < l.maxUses → l.useCount ≤ l.maxUses
  exhausted : l.status = .exhausted ↔ l.status ≠ .revoked ∧ l.useCount = l.maxUses ∧ 0 < l.maxUses

namespace Metered

variable {l : InviteLinkRow}

theorem new (l : InviteLink) (stamp : ℤ) : Metered (l.row stamp) := by
  refine ⟨fun _ => Nat.zero_le _, ?_⟩
  simp only [InviteLink.row]
  constructor
  · intro h
    cases h
  · rintro ⟨-, hzero, hpos⟩
    omega

theorem revoked (h : Metered l) (stamp : ℤ) : Metered { l with status := .revoked, actedAt := some stamp } :=
  ⟨h.bound, by simp⟩

theorem used (h : Metered l) (hactive : l.status = .active) (stamp : ℤ) : Metered (Store.used l stamp) := by
  have hroom : ¬ (l.useCount = l.maxUses ∧ 0 < l.maxUses) := by
    intro hfull
    have hexhausted := h.exhausted.mpr ⟨by rw [hactive]; decide, hfull⟩
    rw [hactive] at hexhausted
    cases hexhausted
  have hbound := h.bound
  unfold Store.used
  split
  · refine ⟨fun _ => ?_, ?_⟩
    · dsimp only
      omega
    · simp only [ne_eq, reduceCtorEq, not_false_eq_true, true_and, true_iff]
      omega
  · refine ⟨fun _ => ?_, ?_⟩
    · dsimp only at *
      omega
    · simp only [ne_eq, reduceCtorEq, not_false_eq_true, true_and, false_iff]
      omega

theorem restored (h : Metered l) (hpos : 0 < l.useCount) : Metered (Store.restored l) := by
  have hbound := h.bound
  unfold Store.restored
  split
  · refine ⟨fun _ => ?_, ?_⟩
    · dsimp only at *
      omega
    · simp only [ne_eq, reduceCtorEq, not_false_eq_true, true_and, false_iff]
      omega
  · rename_i hopen
    refine ⟨fun _ => ?_, ?_⟩
    · dsimp only at *
      omega
    · have hexhausted := h.exhausted
      dsimp only
      constructor
      · intro hstatus
        obtain ⟨-, _, hbounded⟩ := hexhausted.mp hstatus
        exact absurd ⟨hstatus, by omega⟩ hopen
      · rintro ⟨-, hcount, hbounded⟩
        have := hbound hbounded
        omega

end Metered

def Accounted (token : String) (c : Config Store Call Outcome) : Prop :=
  (∀ l, c.store.inviteLinks.find? token = some l →
    Metered l ∧ l.useCount + linkAborts token c.returned = linkBegins token c.returned) ∧
  (c.store.inviteLinks.find? token = none → linkBegins token c.returned = 0 ∧ linkAborts token c.returned = 0)

theorem used_useCount (l : InviteLinkRow) (stamp : ℤ) : (Store.used l stamp).useCount = l.useCount + 1 := by
  unfold Store.used
  split <;> rfl

theorem restored_useCount (l : InviteLinkRow) : (Store.restored l).useCount = l.useCount - 1 := by
  unfold Store.restored
  split <;> rfl

theorem LinkStep.accounted {token : String} {c d : Config Store Call Outcome} (h : LinkStep token c d)
    (hc : Accounted token c) : Accounted token d := by
  obtain ⟨hsome, hnone⟩ := hc
  cases h with
  | same h hbegins haborts =>
    rw [Accounted, h, hbegins, haborts]
    exact ⟨hsome, hnone⟩
  | create l stamp hfree h hbegins haborts =>
    rw [Accounted, h, hbegins, haborts]
    obtain ⟨hzero, hzero'⟩ := hnone hfree
    refine ⟨?_, fun h => by cases h⟩
    rintro _ ⟨⟩
    exact ⟨Metered.new l stamp, by rw [hzero, hzero']; rfl⟩
  | revoke l stamp hl h hbegins haborts =>
    rw [Accounted, h, hbegins, haborts]
    obtain ⟨hmetered, hcount⟩ := hsome l hl
    refine ⟨?_, fun h => by cases h⟩
    rintro _ ⟨⟩
    exact ⟨hmetered.revoked stamp, hcount⟩
  | begin l _ hl hactive h hbegins haborts =>
    rw [Accounted, h, hbegins, haborts]
    obtain ⟨hmetered, hcount⟩ := hsome l hl
    refine ⟨?_, fun h => by cases h⟩
    rintro _ ⟨⟩
    refine ⟨hmetered.used hactive _, ?_⟩
    rw [used_useCount]
    omega
  | abort l hl hpos h hbegins haborts =>
    rw [Accounted, h, hbegins, haborts]
    obtain ⟨hmetered, _⟩ := hsome l hl
    refine ⟨?_, fun h => by cases h⟩
    rintro _ ⟨⟩
    refine ⟨hmetered.restored hpos, ?_⟩
    rw [restored_useCount]
    omega

theorem accounted_reachable {c : Config Store Call Outcome} (hc : system.Reachable c) (token : String) :
    Accounted token c := by
  induction hc with
  | refl =>
    refine ⟨?_, fun _ => ⟨rfl, rfl⟩⟩
    intro l hl
    cases hl
  | tail hc h ih => exact (link_step _ hc h).accounted ih

structure LinkKept (l : InviteLinkRow) (c d : Config Store Call Outcome) : Prop where
  kept : ∃ l', d.store.inviteLinks.find? l.token = some l' ∧ l'.expiresAt = l.expiresAt ∧ l'.maxUses = l.maxUses ∧
    (l.status = .revoked → l'.status = .revoked)
  begins : l.status = .revoked → linkBegins l.token d.returned = linkBegins l.token c.returned

theorem restored_of_revoked {l : InviteLinkRow} (h : l.status = .revoked) : (Store.restored l).status = .revoked := by
  unfold Store.restored
  rw [if_neg (by rw [h]; rintro ⟨⟨⟩, -⟩)]
  exact h

theorem used_terms (l : InviteLinkRow) (stamp : ℤ) :
    (Store.used l stamp).expiresAt = l.expiresAt ∧ (Store.used l stamp).maxUses = l.maxUses := by
  unfold Store.used
  split <;> exact ⟨rfl, rfl⟩

theorem restored_terms (l : InviteLinkRow) :
    (Store.restored l).expiresAt = l.expiresAt ∧ (Store.restored l).maxUses = l.maxUses := by
  unfold Store.restored
  split <;> exact ⟨rfl, rfl⟩

theorem LinkStep.kept {l : InviteLinkRow} {c d : Config Store Call Outcome} (h : LinkStep l.token c d)
    (hl : c.store.inviteLinks.find? l.token = some l) : LinkKept l c d := by
  cases h with
  | same h hbegins => exact ⟨⟨l, h.trans hl, rfl, rfl, id⟩, fun _ => hbegins⟩
  | create _ _ hnone => rw [hl] at hnone; cases hnone
  | revoke _ _ hx h hbegins =>
    cases hl.symm.trans hx
    exact ⟨⟨_, h, rfl, rfl, fun _ => rfl⟩, fun _ => hbegins⟩
  | begin _ env hx hactive h =>
    cases hl.symm.trans hx
    have hrevoked : l.status ≠ .revoked := by
      rw [hactive]
      decide
    obtain ⟨hexpires, hmax⟩ := used_terms l (env.now 0).unixMilli
    exact ⟨⟨_, h, hexpires, hmax, fun h => absurd h hrevoked⟩, fun h => absurd h hrevoked⟩
  | abort _ hx _ h hbegins =>
    cases hl.symm.trans hx
    obtain ⟨hexpires, hmax⟩ := restored_terms l
    exact ⟨⟨_, h, hexpires, hmax, restored_of_revoked⟩, fun _ => hbegins⟩

theorem link_kept {l : InviteLinkRow} {c d : Config Store Call Outcome} (hc : system.Reachable c)
    (hl : c.store.inviteLinks.find? l.token = some l) (hrun : system.Run c d) : LinkKept l c d := by
  induction hrun with
  | refl => exact ⟨⟨l, hl, rfl, rfl, id⟩, fun _ => rfl⟩
  | @tail _ _ hrun hstep ih =>
    obtain ⟨⟨x, hx, hexpires, hmax, hrevoked⟩, hbegins⟩ := ih
    have htoken : x.token = l.token := (find?_eq_some.mp hx).2
    obtain ⟨⟨y, hy, hexpires', hmax', hrevoked'⟩, hbegins'⟩ :=
      (link_step x.token (hc.run hrun) hstep).kept (htoken.symm ▸ hx)
    rw [htoken] at hy hbegins'
    exact ⟨⟨y, hy, hexpires'.trans hexpires, hmax'.trans hmax, fun h => hrevoked' (hrevoked h)⟩,
      fun h => (hbegins' (hrevoked h)).trans (hbegins h)⟩

theorem begun_open {c d : Config Store Call Outcome} (hc : system.Reachable c) (h : system.Step c d) {i : Call}
    {x : Answer} {token : String} (hop : i.op.linkBegun = some token) (hret : d.returned = (i, .ok x) :: c.returned) :
    ∃ l, c.store.inviteLinks.find? token = some l ∧ l.status = .active ∧ ¬ Store.Expired l.expiresAt (i.env.now 0) := by
  have hne {l : List (Call × Outcome)} : (i, .ok x) :: l ≠ l := cons_ne_self _ _
  cases labelled.moves hc h with
  | start _ _ _ _ hret' | middle _ _ _ _ hret' | restart _ _ hret' => exact absurd (hret.symm.trans hret') hne
  | last _ _ h _ _ hret' =>
    obtain ⟨⟨rfl, rfl⟩, -⟩ := cons_eq_cons.mp (hret.symm.trans hret')
    obtain ⟨_, _, _, _⟩ := i
    rcases h.links (rooted_reachable hc) with huse | ⟨hquiet, -⟩
    · cases huse with
      | begins _ _ _ _ l hl hactive hopen =>
        cases hop
        exact ⟨l, hl, hactive, hopen⟩
      | aborts => cases hop
    · have hnone := (Op.linkBegun_eq_none (hquiet x rfl)).1
      rw [hop] at hnone
      cases hnone

/-- Of each link and each run: the uses are those begun less those handed back, they stay within the bound, the
link is exhausted when they have reached it, a revoked link stays revoked, and no use is begun of a link that is
revoked or over. -/
theorem invite_link_uses {c : Config Store Call Outcome} (hc : system.Reachable c) (token : String) :
    (∀ l, c.store.inviteLinks.find? token = some l →
      l.useCount + linkAborts token c.returned = linkBegins token c.returned ∧
      (0 < l.maxUses → linkBegins token c.returned ≤ l.maxUses + linkAborts token c.returned) ∧
      (l.status = .exhausted ↔ l.status ≠ .revoked ∧ l.useCount = l.maxUses ∧ 0 < l.maxUses) ∧
      ∀ d, system.Run c d → LinkKept l c d) ∧
    ∀ d, system.Step c d → ∀ i x, i.op.linkBegun = some token → d.returned = (i, .ok x) :: c.returned →
      ∃ l, c.store.inviteLinks.find? token = some l ∧ l.status = .active ∧
        ¬ Store.Expired l.expiresAt (i.env.now 0) := by
  refine ⟨?_, fun d hd i x hop hret => begun_open hc hd hop hret⟩
  intro l hl
  obtain ⟨⟨hbound, hexhausted⟩, hcount⟩ := (accounted_reachable hc token).1 l hl
  have htoken : l.token = token := (find?_eq_some.mp hl).2
  refine ⟨hcount, ?_, hexhausted, fun d hd => link_kept hc (htoken.symm ▸ hl) hd⟩
  intro hpos
  have := hbound hpos
  omega

namespace LinkUsesExample

open OwnershipExample (reached reachable_reached)

def ops : List Op :=
  [.createProject "project-000000001" 1 "S-1-5-1" "Project", .setProvisioningResult "project-000000001" true,
    .createInviteLink ⟨"token-0000000001", "project-000000001", 1, 1, ⟨1000000000000⟩⟩,
    .beginInviteLinkAcceptance "token-0000000001" 2 "S-1-5-2", .abortInviteLinkAcceptance "token-0000000001" 2,
    .beginInviteLinkAcceptance "token-0000000001" 3 "S-1-5-3"]

def link : InviteLinkRow := ⟨"token-0000000001", "project-000000001", 1, 1, 1, .exhausted, 1000000, 0, some 0⟩

theorem invite_link_uses_exhausted : (reached ops).store.inviteLinks.find? "token-0000000001" = some link ∧
    linkAborts "token-0000000001" (reached ops).returned = 1 ∧
    linkBegins "token-0000000001" (reached ops).returned = 2 := by
  have hlink : (reached ops).store.inviteLinks.find? "token-0000000001" = some link := by decide
  have haborts : linkAborts "token-0000000001" (reached ops).returned = 1 := rfl
  obtain ⟨hcount, -, -, -⟩ := (invite_link_uses (reachable_reached (by decide)) "token-0000000001").1 link hlink
  exact ⟨hlink, haborts, by rw [← hcount, haborts]; rfl⟩

end LinkUsesExample

end WorkAgent.Collaboration
