import WorkAgent.Collaboration.Effects

namespace WorkAgent.Collaboration

open Library
open Quota (Time)

def Writes (env : Env) (op : Op) (s t : Store) : Prop := ∀ a, Effect env op a s t

abbrev Acts (env : Env) (op : Op) {α : Type} (p : Action α) (s₀ s : Store) : Prop :=
  Does Later (Writes env op) (fun _ => Writes env op) p s₀ s

abbrev Answers (env : Env) (op : Op) (p : Action Answer) (s₀ s : Store) : Prop :=
  Does Later (Effect env op none) (fun o => Effect env op (some o)) p s₀ s

section Rules

variable {env : Env} {op : Op} {α β : Type} {s₀ s : Store}

theorem Effect.idle (s : Store) : Effect env op none s s := by
  refine .same rfl ?_
  intro x h
  cases h

theorem Effect.error (s : Store) (e : Error) : Effect env op (some (.error e)) s s := by
  refine .same rfl ?_
  intro x h
  cases h

theorem Answers.guarded {check : Except Error Unit} {next : Action Answer}
    (h : check = .ok () → Answers env op next s s) : Answers env op (guarded check next) s s := by
  cases check with
  | error e => exact Does.ret (Effect.error s e)
  | ok => exact h rfl

section

variable (hN : Effect env op none s₀ s)
include hN

theorem Answers.query {f : Store → Except Error α} {g : α → Action Answer}
    (hok : ∀ t a, Later s t → f t = .ok a → Answers env op (g a) t t) :
    Answers env op ((query f).andThen g) s₀ s :=
  Does.read_andThen hN hok Effect.error

theorem Answers.transaction {body : Store → Except Error (α × Store)} {g : α → Action Answer}
    (hok : ∀ t a u, Later s t → body t = .ok (a, u) → Answers env op (g a) t u) :
    Answers env op ((Prog.transaction body).andThen g) s₀ s :=
  Does.transaction_andThen hN hok Effect.error

theorem Answers.commit {body : Store → Except Error (α × Store)} {mk : α → Answer}
    (hok : ∀ t a u, Later s t → body t = .ok (a, u) → Effect env op (some (.ok (mk a))) t u) :
    Answers env op (answer (Prog.transaction body) mk) s₀ s :=
  Answers.transaction hN (fun t a u hlater h => Does.ret (hok t a u hlater h))

end

theorem Acts.andThen {p : Action α} {g : α → Action β} (hp : Acts env op p s₀ s)
    (hg : ∀ a t₀ t, Writes env op t₀ t → Acts env op (g a) t₀ t) : Acts env op (p.andThen g) s₀ s := by
  refine Does.bind hp ?_
  rintro (e | a) t₀ t h
  · exact Does.ret h
  · exact hg a t₀ t h

variable (hop : ¬ op.Commits)
include hop

theorem Writes.idle (s : Store) : Writes env op s s := fun _ => .same rfl (fun _ _ => hop)

theorem Acts.ret (a : Except Error α) : Acts env op (.ret a : Action α) s s := Does.ret (Writes.idle hop s)

theorem Acts.guarded {check : Except Error Unit} {next : Action α} (h : check = .ok () → Acts env op next s s) :
    Acts env op (guarded check next) s s := by
  cases check with
  | error e => exact Acts.ret hop (.error e)
  | ok => exact h rfl

theorem Acts.read {f : Store → Except Error α} {mk : α → Answer} (hN : Writes env op s₀ s) :
    Acts env op (answer (query f) mk) s₀ s :=
  Does.read_andThen hN (fun _ a _ _ => Acts.ret hop (.ok (mk a))) (fun t _ => Writes.idle hop t)

theorem Acts.query_only {f : Store → Except Error α} {mk : α → Answer} (s : Store) :
    Acts env op (answer (query f) mk) s s :=
  Acts.read hop (Writes.idle hop s)

theorem Acts.query {f : Store → Except Error α} {g : α → Action β} (hN : Writes env op s₀ s)
    (hok : ∀ t a, Later s t → f t = .ok a → Acts env op (g a) t t) : Acts env op ((query f).andThen g) s₀ s :=
  Does.read_andThen hN hok (fun t _ => Writes.idle hop t)

theorem Acts.transaction {body : Store → Except Error (α × Store)} {g : α → Action β} (hN : Writes env op s₀ s)
    (hok : ∀ t a u, Later s t → body t = .ok (a, u) → Acts env op (g a) t u) :
    Acts env op ((Prog.transaction body).andThen g) s₀ s :=
  Does.transaction_andThen hN hok (fun t _ => Writes.idle hop t)

theorem Acts.write {body : Store → Except Error (Unit × Store)}
    (hok : ∀ t u, body t = .ok ((), u) → Writes env op t u) : Acts env op (write body) s s :=
  Does.transaction_andThen (Writes.idle hop s) (fun t _ u _ h => Does.ret (hok t u h)) (fun t _ => Writes.idle hop t)

end Rules

theorem Acts.answers {env : Env} {op : Op} {p : Action Answer} {s : Store} (h : Acts env op p s s) :
    Answers env op p s s :=
  Does.weaken h (fun _ _ hw => hw none) (fun a _ _ hw => hw (some a))

theorem Answers.write {env : Env} {op : Op} {s : Store} {body : Store → Except Error (Unit × Store)} (hop : ¬ op.Commits)
    (hok : ∀ t u, body t = .ok ((), u) → Writes env op t u) : Answers env op (write body) s s := (Acts.write hop hok).answers

theorem launched_of_active {p : ProjectRow} (h : p.state = .active) : Launched p := by
  unfold Launched
  rw [h]
  exact ⟨by decide, by decide⟩

namespace Store

theorem projectForUser_eq_ok {s : Store} {id : String} {user : ℤ} {hidden : Bool} {x : Project}
    (h : s.projectForUser id user hidden = .ok x) : ∃ p m, s.project (trimSpace id) = some p ∧
      s.acceptedMember p.id user = some m ∧ x.id = p.id ∧ x.state = p.state ∧ x.currentRole = m.role := by
  simp only [projectForUser, bind_eq_ok, orError_eq_ok, require_eq_ok, pure_eq_ok] at h
  obtain ⟨p, hp, m, hm, -, -, rfl⟩ := h
  exact ⟨p, m, hp, hm, rfl, rfl, rfl⟩

end Store

section Projects

variable (env : Env) (s : Store)

theorem acts_createProject (id : String) (owner : ℤ) (sid name : String) :
    Acts env (.createProject id owner sid name) (createProject env id owner sid name) s s := by
  have hop : ¬ (Op.createProject id owner sid name).Commits := not_false
  refine Acts.guarded hop (fun _ => Acts.transaction hop (Writes.idle hop s) ?_)
  intro t _ u _ h
  exact Acts.read hop (fun a => .member (.createProject id owner sid name a h))

theorem acts_renameProject (id : String) (owner : ℤ) (name : String) :
    Acts env (.renameProject id owner name) (renameProject env id owner name) s s := by
  have hop : ¬ (Op.renameProject id owner name).Commits := not_false
  refine Acts.guarded hop (fun _ => Acts.transaction hop (Writes.idle hop s) ?_)
  intro t _ u _ h
  exact Acts.read hop (fun a => .member (.renameProject id owner name a h))

theorem acts_createInvite (i : Invite) : Acts env (.createInvite i) (createInvite env i) s s := by
  have hop : ¬ (Op.createInvite i).Commits := not_false
  refine Acts.guarded hop (fun _ => Acts.query hop (Writes.idle hop s) ?_)
  intro t _ _ _
  refine Acts.query hop (Writes.idle hop t) ?_
  intro t _ _ _
  refine Acts.transaction hop (Writes.idle hop t) ?_
  intro t _ u _ hexpire
  cases hexpire
  refine Acts.query hop (fun a => .invite (.expire _ a _ hop rfl)) ?_
  intro t _ _ _
  refine Acts.guarded hop (fun _ => Acts.transaction hop (Writes.idle hop t) ?_)
  intro t _ u _ h
  exact Acts.read hop (fun a => .invite (.create i a h))

theorem acts_beginInviteAcceptance (id : String) (target : ℤ) :
    Acts env (.beginInviteAcceptance id target) (beginInviteAcceptance env id target) s s := by
  have hop : ¬ (Op.beginInviteAcceptance id target).Commits := not_false
  refine Acts.transaction hop (Writes.idle hop s) ?_
  intro t x u _ h
  exact Does.ret (fun a => .member (.beginInviteAcceptance id target x a h))

theorem acts_completeInviteAcceptance (id : String) (target : ℤ) :
    Acts env (.completeInviteAcceptance id target) (completeInviteAcceptance env id target) s s := by
  have hop : ¬ (Op.completeInviteAcceptance id target).Commits := not_false
  refine Acts.transaction hop (Writes.idle hop s) ?_
  intro t x u _ h
  exact Acts.read hop (fun a => .member (.completeInviteAcceptance id target x a h))

theorem acts_invitesForTarget (target : ℤ) :
    Acts env (.invitesForTarget target) (invitesForTarget env target) s s := by
  have hop : ¬ (Op.invitesForTarget target).Commits := not_false
  refine Acts.transaction hop (Writes.idle hop s) ?_
  intro t _ u _ h
  cases h
  exact Acts.read hop (fun a => .invite (.expire _ a _ hop rfl))

theorem acts_projectInvites (id : String) (user : ℤ) :
    Acts env (.projectInvites id user) (projectInvites env id user) s s := by
  have hop : ¬ (Op.projectInvites id user).Commits := not_false
  refine Acts.query hop (Writes.idle hop s) ?_
  intro t _ _ _
  refine Acts.guarded hop (fun _ => Acts.transaction hop (Writes.idle hop t) ?_)
  intro t _ u _ h
  cases h
  exact Acts.read hop (fun a => .invite (.expire _ a _ hop rfl))

theorem acts_beginOwnershipTransfer (transfer : OwnershipTransfer) (owner : ℤ) :
    Acts env (.beginOwnershipTransfer transfer owner) (beginOwnershipTransfer env transfer owner) s s := by
  have hop : ¬ (Op.beginOwnershipTransfer transfer owner).Commits := not_false
  refine Acts.guarded hop (fun _ => Acts.transaction hop (Writes.idle hop s) ?_)
  intro t _ u _ h
  exact Acts.read hop (fun a => .member (.beginOwnershipTransfer transfer owner a h))

theorem acts_completeOwnershipTransfer (id : String) :
    Acts env (.completeOwnershipTransfer id) (completeOwnershipTransfer env id) s s := by
  have hop : ¬ (Op.completeOwnershipTransfer id).Commits := not_false
  refine Acts.transaction hop (Writes.idle hop s) ?_
  intro t o u _ h
  exact Acts.read hop (fun a => .member (.completeOwnershipTransfer id o a h))

theorem answers_beginMemberRemoval (id : String) (requester target : ℤ) :
    Answers env (.beginMemberRemoval id requester target) (beginMemberRemoval id requester target) s s := by
  refine Answers.guarded (fun _ => Answers.commit (Effect.idle s) ?_)
  intro t m u _ h
  exact .member (.beginMemberRemoval id requester target m h)

theorem answers_completeMemberRemoval (id : String) (requester target : ℤ) :
    Answers env (.completeMemberRemoval id requester target) (completeMemberRemoval id requester target) s s := by
  refine Answers.query (Effect.idle s) ?_
  intro t _ _ _
  refine Answers.commit (Effect.idle t) ?_
  intro t _ u _ h
  exact .member (.completeMemberRemoval id requester target h)

theorem answers_abortMemberRemoval (id : String) (requester target : ℤ) :
    Answers env (.abortMemberRemoval id requester target) (abortMemberRemoval id requester target) s s := by
  refine Answers.query (Effect.idle s) ?_
  intro t _ _ _
  refine Answers.commit (Effect.idle t) ?_
  intro t _ u _ h
  exact .member (.abortMemberRemoval id requester target h)

theorem ownedProject_eq_ok {s : Store} {id : String} {user : ℤ} {x : Project} (h : ownedProject id user s = .ok x) :
    ∃ p, s.project (trimSpace id) = some p ∧ p.state = .active := by
  unfold ownedProject at h
  split at h
  · rename_i p hp
    split at h
    · rename_i hactive
      obtain ⟨row, m, hrow, -, -, hstate, -⟩ := Store.projectForUser_eq_ok hp
      exact ⟨row, hrow, hstate ▸ hactive.2⟩
    · cases h
  · cases h

theorem acts_createInviteLink (l : InviteLink) : Acts env (.createInviteLink l) (createInviteLink env l) s s := by
  have hop : ¬ (Op.createInviteLink l).Commits := not_false
  refine Acts.guarded hop (fun _ => Acts.query hop (Writes.idle hop s) ?_)
  intro t _ _ hread
  obtain ⟨p, hp, hactive⟩ := ownedProject_eq_ok hread
  refine Acts.guarded hop (fun _ => Acts.transaction hop (Writes.idle hop t) ?_)
  intro _ _ u hlater h
  obtain ⟨q, hq, hlaunched⟩ := hlater.launched _ p hp (launched_of_active hactive)
  exact Acts.read hop (fun a => .invite (.createLink l a q hq hlaunched h))

theorem answers_beginInviteLinkAcceptance (token : String) (user : ℤ) (sid : String) :
    Answers env (.beginInviteLinkAcceptance token user sid) (beginInviteLinkAcceptance env token user sid) s s := by
  refine Answers.guarded (fun _ => Answers.commit (Effect.idle s) ?_)
  intro t m u _ h
  exact .member (.beginInviteLinkAcceptance token user sid m h)

theorem acts_completeInviteLinkAcceptance (token : String) (user : ℤ) :
    Acts env (.completeInviteLinkAcceptance token user) (completeInviteLinkAcceptance token user) s s := by
  have hop : ¬ (Op.completeInviteLinkAcceptance token user).Commits := not_false
  refine Acts.transaction hop (Writes.idle hop s) ?_
  intro t x u _ h
  exact Acts.read hop (fun a => .member (.completeInviteLinkAcceptance token user x a h))

theorem answers_abortInviteLinkAcceptance (token : String) (user : ℤ) :
    Answers env (.abortInviteLinkAcceptance token user) (write (fun s => s.abortInviteLinkAcceptance token user))
      s s := by
  refine Answers.commit (Effect.idle s) ?_
  intro t _ u _ h
  exact .member (.abortInviteLinkAcceptance token user h)

end Projects

section Conversations

variable (env : Env) (s : Store)

theorem activeProject_eq_ok {s : Store} {id : String} {user : ℤ} (h : activeProject id user s = .ok ()) :
    ∃ p, s.project (trimSpace id) = some p ∧ p.state = .active := by
  unfold activeProject at h
  split at h
  · rename_i p hp
    obtain ⟨row, m, hrow, -, -, hstate, -⟩ := Store.projectForUser_eq_ok hp
    exact ⟨row, hrow, hstate ▸ require_eq_ok.mp h⟩
  · cases h

theorem acts_seedConversationAssistant {op : Op} (hop : ¬ op.Commits) (c : NewConversation) {s₀ s : Store}
    (hN : Writes env op s₀ s) : Acts env op (seedConversationAssistant env c) s₀ s := by
  unfold seedConversationAssistant
  split
  · exact Does.ret hN
  · refine Acts.transaction hop hN ?_
    intro t _ u _ h
    refine Does.transaction (fun a => .conversation (.seedAssistant op a _ hop h)) ?_ ?_
    · intro t' _ _ _ h'
      exact fun a => .conversation (.seedSession op a _ _ _ hop h')
    · exact fun t' _ => Writes.idle hop t'

theorem acts_createConversation_of {op : Op} (hop : ¬ op.Commits) (c : NewConversation) (user : ℤ)
    (hnew : op.newConversation = some c.normal) {s₀ s : Store} (hN : Writes env op s₀ s) :
    Acts env op (createConversation env c user) s₀ s := by
  unfold createConversation guarded
  split
  · refine Acts.query hop hN ?_
    intro t _ _ hread
    obtain ⟨p, hp, hactive⟩ := activeProject_eq_ok hread
    refine Acts.transaction hop (Writes.idle hop t) ?_
    intro _ _ u hlater h
    obtain ⟨q, hq, hlaunched⟩ := hlater.launched _ p hp (launched_of_active hactive)
    refine Acts.andThen (acts_seedConversationAssistant env hop c.normal ?_) (fun _ _ _ hw => Acts.read hop hw)
    exact fun a => .conversation (.create op a c.normal q hnew hq hlaunched h)
  · exact Does.ret hN

theorem acts_createConversation (c : NewConversation) (user : ℤ) :
    Acts env (.createConversation c user) (createConversation env c user) s s := by
  have hop : ¬ (Op.createConversation c user).Commits := not_false
  exact acts_createConversation_of env hop c user rfl (Writes.idle hop s)

theorem Acts.orElse {op : Op} {α : Type} {p : Action α} {next : Error → Action α} {s₀ s : Store}
    (hp : Acts env op p s₀ s) (hnext : ∀ e t₀ t, Writes env op t₀ t → Acts env op (next e) t₀ t) :
    Acts env op (orElse p next) s₀ s := by
  refine Does.bind hp ?_
  rintro (e | a) t₀ t h
  · exact hnext e t₀ t h
  · exact Does.ret h

theorem acts_defaultConversation (id : String) (user : ℤ) :
    Acts env (.defaultConversation id user) (defaultConversation env id user) s s := by
  have hop : ¬ (Op.defaultConversation id user).Commits := not_false
  refine Acts.orElse env (Acts.read hop (Writes.idle hop s)) ?_
  intro e _ t h
  split
  · exact Does.ret h
  · refine Acts.orElse env (acts_createConversation_of env hop (discussion id) user rfl h) ?_
    exact fun _ _ _ hw => Acts.read hop hw

theorem acts_setConversationHidden (id : String) (user : ℤ) (hidden : Bool) :
    Acts env (.setConversationHidden id user hidden) (setConversationHidden id user hidden) s s := by
  have hop : ¬ (Op.setConversationHidden id user hidden).Commits := not_false
  refine Acts.query hop (Writes.idle hop s) ?_
  intro t _ _ _
  refine Acts.transaction hop (Writes.idle hop t) ?_
  intro t _ u _ h
  exact Acts.read hop (fun a => .conversation (.setHidden id user hidden a h))

theorem acts_updateConversationMetadata (id : String) (user : ℤ) (name : Option String) (pinned hidden : Option Bool) :
    Acts env (.updateConversationMetadata id user name pinned hidden)
      (updateConversationMetadata env id user name pinned hidden) s s := by
  have hop : ¬ (Op.updateConversationMetadata id user name pinned hidden).Commits := not_false
  refine Acts.guarded hop (fun _ => Acts.guarded hop (fun _ => Acts.transaction hop (Writes.idle hop s) ?_))
  intro t _ u _ h
  exact Acts.read hop (fun a => .conversation (.metadata id user name pinned hidden a h))

theorem addMessage_eq_ok {s t : Store} {m : NewMessage} {user stamp : ℤ} {r : MessageRow}
    (h : s.addMessage m user stamp = .ok (r, t)) : r.seq = s.lastSeq + 1 ∧ t.lastSeq = s.lastSeq + 1 := by
  simp only [Store.addMessage, Store.insertMessage, bind_eq_ok, Table.insertChecked_eq_ok, pure_eq_ok,
    Prod.mk.injEq] at h
  obtain ⟨u, ⟨_, -, rfl⟩, rfl, rfl⟩ := h
  exact ⟨rfl, rfl⟩

theorem answers_addMessage (m : NewMessage) (user : ℤ) :
    Answers env (.addMessage m user) (addMessage env m user) s s := by
  unfold addMessage
  refine Answers.guarded (fun _ => Answers.query (Effect.idle s) ?_)
  intro t _ _ _
  refine Answers.transaction (Effect.idle t) ?_
  intro t r u _ h
  refine Answers.commit (.conversation (.addMessage m _ user r h)) ?_
  intro _ _ v hlater htouch
  obtain ⟨_, _⟩ := addMessage_eq_ok h
  have hle := hlater.lastSeq
  exact .conversation (.touch m user _ r (by omega) (by omega) htouch)

theorem answers_messageByID (id conversation : String) (user : ℤ) :
    Answers env (.messageByID id conversation user) (messageByID id conversation user) s s := by
  refine Answers.query (Effect.idle s) ?_
  intro t _ _ _
  refine Answers.query (Effect.idle t) ?_
  intro t r _ h
  rw [orError_eq_ok] at h
  exact Does.ret (.conversation (.found _ _ _ r (Table.mem_rows.mp (List.mem_of_find?_eq_some h)) rfl))

end Conversations

section Assistants

variable (env : Env) (s : Store) {op : Op} (hop : ¬ op.Commits)

include hop

theorem acts_projectOfOwner (id : String) (user : ℤ) {s₀ s : Store} (hN : Writes env op s₀ s) :
    Acts env op (projectOfOwner id user) s₀ s := by
  refine Acts.query hop hN ?_
  intro t x _ _
  exact Acts.guarded hop (fun _ => Acts.ret hop _)

theorem acts_assistantMember (id assistant : String) (user : ℤ) {s₀ s : Store} (hN : Writes env op s₀ s) :
    Acts env op (assistantMember id assistant user) s₀ s := by
  refine Acts.query hop hN ?_
  intro t x _ _
  exact Does.read (Writes.idle hop t) (fun u _ => Writes.idle hop u)

theorem acts_updateAssistantSettings (id assistant : String) (user : ℤ) (model effort : String) {s₀ s : Store}
    (hN : Writes env op s₀ s) : Acts env op (updateAssistantSettings id assistant user model effort) s₀ s := by
  refine Acts.andThen (acts_projectOfOwner env hop id user hN) ?_
  intro _ t₀ t hw
  refine Acts.andThen (acts_assistantMember env hop id assistant user hw) ?_
  intro found _ t hw
  cases found with
  | none => exact Does.ret hw
  | some =>
    dsimp only
    split
    · exact Does.ret hw
    · unfold guarded
      split
      · refine Acts.transaction hop hw ?_
        intro u _ _ _ h
        refine Acts.transaction hop (fun a => .conversation (.updateAssistant op a _ _ _ _ hop h)) ?_
        intro v _ _ _ h'
        exact Does.ret (fun a => .conversation (.updateModels op a _ _ _ _ hop h'))
      · exact Does.ret hw

theorem acts_updateConversationRuntime (id : String) (user : ℤ) (model effort : String) {s₀ s : Store}
    (hN : Writes env op s₀ s) : Acts env op (updateConversationRuntime id user model effort) s₀ s := by
  refine Acts.query hop hN ?_
  intro t _ _ _
  refine Acts.andThen (acts_updateAssistantSettings env hop _ _ user model effort (Writes.idle hop t)) ?_
  exact fun _ _ _ hw => Acts.read hop hw

theorem acts_bindAssistant (id : String) (user : ℤ) (assistant backend model effort : String) :
    Acts env op (bindAssistant id user assistant backend model effort) s s := by
  refine Acts.query hop (Writes.idle hop s) ?_
  intro t _ _ _
  refine Acts.guarded hop (fun _ => Acts.guarded hop (fun _ => ?_))
  exact acts_updateConversationRuntime env hop id user model effort (Writes.idle hop t)

theorem acts_inviteAssistant (member : NewAssistant) (user : ℤ) : Acts env op (inviteAssistant env member user) s s := by
  unfold inviteAssistant
  refine Acts.andThen (acts_projectOfOwner env hop _ user (Writes.idle hop s)) ?_
  intro _ _ t hw
  unfold guarded
  split
  · refine Acts.query hop hw ?_
    intro u _ _ _
    refine Acts.transaction hop (Writes.idle hop u) ?_
    intro v _ _ _ h
    refine Acts.andThen (acts_assistantMember env hop _ _ user ?_) (fun _ _ _ hw => Does.ret hw)
    exact fun a => .conversation (.inviteAssistant op a _ hop h)
  · exact Does.ret hw

end Assistants

theorem acts_removeAssistant (env : Env) (s : Store) (id assistant : String) (user : ℤ) :
    Acts env (.removeAssistant id assistant user) (removeAssistant id assistant user) s s := by
  have hop : ¬ (Op.removeAssistant id assistant user).Commits := not_false
  refine Acts.andThen (acts_projectOfOwner env hop id user (Writes.idle hop s)) ?_
  intro _ _ t hw
  refine Acts.transaction hop hw ?_
  intro u _ v _ h
  exact Does.ret (fun a => .conversation (.removeAssistant id assistant user a h))

section Runs

variable (env : Env) (s : Store)

theorem answers_reserve {op : Op} {runID : String} {message : Trigger} (payer : ℤ) (assistant : String)
    (hid : op.runID = some runID) (hmessage : op.trigger = some message) :
    Answers env op (reserveAssistantRun env runID message payer assistant) s s := by
  refine Answers.guarded (fun hcheck => Answers.commit (Effect.idle s) ?_)
  intro t run u _ h
  exact .run (.reserve op runID message payer assistant run hid hmessage (require_eq_ok.mp hcheck).2.1 h)

theorem answers_reserveAIRun (runID : String) (message : Trigger) (payer : ℤ) :
    Answers env (.reserveAIRun runID message payer) (reserveAIRun env runID message payer) s s := by
  refine Answers.query (Effect.idle s) ?_
  intro t c _ _
  exact answers_reserve env t payer _ rfl rfl

theorem answers_finishAIRun (run : AIRun) (result : RunResult) :
    Answers env (.finishAIRun run result) (finishAIRun env run result) s s := by
  refine Answers.guarded (fun _ => Answers.commit (Effect.idle s) ?_)
  intro t m u _ h
  exact .run (.finish run result m h)

theorem answers_stopAssistantRun (id assistant : String) (user : ℤ) (message : String) :
    Answers env (.stopAssistantRun id assistant user message) (stopAssistantRun env id assistant user message) s s := by
  refine Answers.guarded (fun _ => Answers.commit (Effect.idle s) ?_)
  intro t x u _ h
  exact .run (.stop id assistant user message x.1 x.2 h)

end Runs

section PersonalTasks

variable (env : Env) (s : Store)

theorem acts_submitPersonalTask (o : PersonalTask) (depth : ℕ) {s₀ s : Store}
    (hN : Writes env (.beginPersonalTask o) s₀ s) :
    Acts env (.beginPersonalTask o) (submitPersonalTask env o depth) s₀ s := by
  have hop : ¬ (Op.beginPersonalTask o).Commits := not_false
  induction depth generalizing s₀ s with
  | zero => exact Does.ret hN
  | succ _ ih =>
    refine Does.bind (Does.read (Q := fun _ => Writes env (.beginPersonalTask o)) hN
      (fun t _ => Writes.idle hop t)) ?_
    rintro (e | _) _ t hw
    · dsimp only
      split
      · exact Does.ret hw
      · refine Acts.query hop hw ?_
        intro u p _ _
        refine Acts.guarded hop (fun _ => Acts.transaction hop (Writes.idle hop u) ?_)
        intro v _ _ _ h
        exact ih (fun a => .task (.submit o a h))
    · dsimp only [resubmitted, guarded]
      split
      · exact Does.ret hw
      · exact Does.ret hw

theorem acts_beginPersonalTask (o : PersonalTask) (depth : ℕ) :
    Acts env (.beginPersonalTask o) (beginPersonalTask env o depth) s s := by
  have hop : ¬ (Op.beginPersonalTask o).Commits := not_false
  exact Acts.guarded hop (fun _ => acts_submitPersonalTask env o depth (Writes.idle hop s))

theorem acts_recordPersonalTaskSession (o : PersonalTask) (id : String) :
    Acts env (.recordPersonalTaskSession o id) (recordPersonalTaskSession env o id) s s := by
  have hop : ¬ (Op.recordPersonalTaskSession o id).Commits := not_false
  exact Acts.guarded hop (fun _ => Acts.write hop (fun t u h a => .task (.record o id a h)))

theorem acts_enrollPersonalTask (id : String) (user : ℤ) (sid : String) {s₀ s : Store}
    (hN : Writes env (.beginPersonalTaskDeletion id user sid) s₀ s) :
    Acts env (.beginPersonalTaskDeletion id user sid) (enrollPersonalTask env id user sid) s₀ s := by
  have hop : ¬ (Op.beginPersonalTaskDeletion id user sid).Commits := not_false
  refine Acts.query hop hN ?_
  intro t c _ _
  refine Acts.guarded hop (fun _ => Does.transaction (Writes.idle hop t) ?_ (fun u _ => Writes.idle hop u))
  intro u _ v _ h
  exact fun a => .task (.enroll id user sid _ _ _ a h)

theorem acts_beginPersonalTaskDeletion (id : String) (user : ℤ) (sid : String) :
    Acts env (.beginPersonalTaskDeletion id user sid) (beginPersonalTaskDeletion env id user sid) s s := by
  have hop : ¬ (Op.beginPersonalTaskDeletion id user sid).Commits := not_false
  refine Acts.andThen (α := Unit) (Does.bind (Does.read
    (Q := fun _ => Writes env (.beginPersonalTaskDeletion id user sid)) (Writes.idle hop s)
    (fun t _ => Writes.idle hop t)) ?_) ?_
  · rintro (e | _) t₀ t hw
    · cases e with
      | notFound => exact acts_enrollPersonalTask env id user sid hw
      | _ => exact Does.ret hw
    · exact Does.ret hw
  · intro _ _ t hw
    refine Acts.transaction hop hw ?_
    intro u _ v _ h
    exact Acts.read hop (fun a => .task (.mark id user sid a h))

end PersonalTasks

theorem answers_prog (i : Call) (s : Store) : Answers i.env i.op i.prog s s := by
  obtain ⟨name, env, depth, op⟩ := i
  cases op with
  | createProject id owner sid name => exact Acts.answers (acts_createProject env s id owner sid name)
  | setProvisioningResult id active =>
    exact Answers.write not_false fun t u h a => .member (.setProvisioningResult id active a h)
  | abortProjectProvisioning id owner =>
    exact Answers.write not_false fun t u h a => .member (.abortProjectProvisioning id owner a h)
  | projectForUser | conversationForUser | personalTaskOperation =>
    refine Acts.answers (Acts.query_only ?_ s)
    exact not_false
  | renameProject id owner name => exact Acts.answers (acts_renameProject env s id owner name)
  | setHidden id user hidden =>
    exact Answers.write not_false fun t u h a => .member (.setHidden id user hidden a h)
  | archiveProject id owner =>
    exact Answers.write not_false fun t u h a => .member (.archiveProject id owner a h)
  | createInvite i => exact Acts.answers (acts_createInvite env s i)
  | beginInviteAcceptance id target => exact Acts.answers (acts_beginInviteAcceptance env s id target)
  | completeInviteAcceptance id target => exact Acts.answers (acts_completeInviteAcceptance env s id target)
  | abortInviteAcceptance id target =>
    exact Answers.write not_false fun t u h a => .member (.abortInviteAcceptance id target a h)
  | declineInvite id target =>
    exact Answers.write not_false fun t u h a => .invite (.decline id target a h)
  | revokeInvite id owner =>
    exact Answers.write not_false fun t u h a => .invite (.revoke id owner a h)
  | invitesForTarget target => exact Acts.answers (acts_invitesForTarget env s target)
  | projectInvites id user => exact Acts.answers (acts_projectInvites env s id user)
  | beginMemberRemoval id requester target => exact answers_beginMemberRemoval env s id requester target
  | completeMemberRemoval id requester target => exact answers_completeMemberRemoval env s id requester target
  | abortMemberRemoval id requester target => exact answers_abortMemberRemoval env s id requester target
  | beginOwnershipTransfer transfer owner => exact Acts.answers (acts_beginOwnershipTransfer env s transfer owner)
  | completeOwnershipTransfer id => exact Acts.answers (acts_completeOwnershipTransfer env s id)
  | abortOwnershipTransfer id =>
    exact Answers.write not_false fun t u h a => .member (.abortOwnershipTransfer id a h)
  | finalizeOwnershipTransfer id =>
    exact Answers.write not_false fun t u h a => .member (.finalizeOwnershipTransfer id a h)
  | createInviteLink l => exact Acts.answers (acts_createInviteLink env s l)
  | revokeInviteLink token id owner =>
    exact Answers.write not_false fun t u h a => .invite (.revokeLink token id owner a h)
  | beginInviteLinkAcceptance token user sid => exact answers_beginInviteLinkAcceptance env s token user sid
  | completeInviteLinkAcceptance token user => exact Acts.answers (acts_completeInviteLinkAcceptance env s token user)
  | abortInviteLinkAcceptance token user => exact answers_abortInviteLinkAcceptance env s token user
  | createConversation c user => exact Acts.answers (acts_createConversation env s c user)
  | defaultConversation id user => exact Acts.answers (acts_defaultConversation env s id user)
  | setConversationHidden id user hidden => exact Acts.answers (acts_setConversationHidden env s id user hidden)
  | updateConversationMetadata id user name pinned hidden =>
    exact Acts.answers (acts_updateConversationMetadata env s id user name pinned hidden)
  | deleteConversation id user =>
    exact Answers.write not_false fun t u h a => .conversation (.delete id user a h)
  | updateConversationRuntime id user model effort =>
    refine Acts.answers (acts_updateConversationRuntime env ?_ id user model effort (Writes.idle ?_ s))
    all_goals exact not_false
  | bindAssistant id user assistant backend model effort =>
    refine Acts.answers (acts_bindAssistant env s ?_ id user assistant backend model effort)
    exact not_false
  | addMessage m user => exact answers_addMessage env s m user
  | messageByID id conversation user => exact answers_messageByID env s id conversation user
  | inviteAssistant member user =>
    refine Acts.answers (acts_inviteAssistant env s ?_ member user)
    exact not_false
  | updateAssistantSettings id assistant user model effort =>
    refine Acts.answers (Acts.andThen (acts_updateAssistantSettings env ?_ id assistant user model effort
      (Writes.idle ?_ s)) (fun _ _ _ hw => Does.ret hw))
    all_goals exact not_false
  | removeAssistant id assistant user => exact Acts.answers (acts_removeAssistant env s id assistant user)
  | reserveAIRun runID message payer => exact answers_reserveAIRun env s runID message payer
  | reserveAssistantRun _ _ payer assistant => exact answers_reserve env s payer assistant rfl rfl
  | finishAIRun run result => exact answers_finishAIRun env s run result
  | stopAssistantRun id assistant user message => exact answers_stopAssistantRun env s id assistant user message
  | beginPersonalTask o => exact Acts.answers (acts_beginPersonalTask env s o depth)
  | recordPersonalTaskSession o id => exact Acts.answers (acts_recordPersonalTaskSession env s o id)
  | completePersonalTaskCreation o =>
    exact Answers.write not_false fun t u h a => .task (.complete o a h)
  | beginPersonalTaskDeletion id user sid => exact Acts.answers (acts_beginPersonalTaskDeletion env s id user sid)
  | completePersonalTaskDeletion o =>
    exact Answers.write not_false fun t u h a => .task (.completeDeletion o a h)
  | setPersonalTaskError o code rejected =>
    exact Answers.write not_false fun t u h a => .task (.setError o code rejected a h)

end WorkAgent.Collaboration
