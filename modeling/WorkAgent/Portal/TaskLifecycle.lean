import WorkAgent.Collaboration.Rooted
import WorkAgent.Portal.PersonalTasks

namespace WorkAgent.Portal

open Library Collaboration List Service Table Sound Function

def Gone : Option Cause → Prop
  | none => True
  | some cause => IsDeleted cause

def Marked (r r' : TaskRow) : Prop :=
  r' = r ∨ (Store.Deletable r ∧ ∃ stamp, r' = { r with state := .deleting, error := "", updatedAt := stamp })

inductive TaskStep (deletes : List (PersonalTask × Option Cause)) (r : TaskRow) : TaskRow → Prop
  | kept : TaskStep deletes r r
  | marked (stamp : ℤ) (h : Store.Deletable r) :
      TaskStep deletes r { r with state := .deleting, error := "", updatedAt := stamp }
  | recorded (id : String) (stamp : ℤ) (h : r.state = .creating ∨ r.state = .deleting) (hnone : r.runtimeSessionID = "") :
      TaskStep deletes r { r with
        runtimeSessionID := id, state := if r.state = .deleting then .deleting else .linking, error := ""
        updatedAt := stamp }
  | completed (stamp : ℤ) (h : r.state = .linking) :
      TaskStep deletes r { r with state := .ready, error := "", updatedAt := stamp }
  | removed (answer : Option Cause) (stamp : ℤ) (h : r.state = .deleting) (hgone : Gone answer)
      (hdelete : (r.operation, answer) ∈ deletes) :
      TaskStep deletes r { r with state := .deleted, error := "", updatedAt := stamp }
  | failed (code : String) (stamp : ℤ) : TaskStep deletes r { r with error := code, updatedAt := stamp }
  | rejected (code : String) (stamp : ℤ) (h : r.state = .creating) :
      TaskStep deletes r { r with state := .rejected, error := code, updatedAt := stamp }

inductive TaskMove : TaskState → TaskState → Prop
  | link : TaskMove .creating .linking
  | complete : TaskMove .linking .ready
  | delete : TaskMove .ready .deleting
  | cancel : TaskMove .creating .deleting
  | compensate : TaskMove .linking .deleting
  | bury : TaskMove .deleting .deleted
  | reject : TaskMove .creating .rejected

structure SameTask (r r' : TaskRow) : Prop where
  id : r'.id = r.id
  userID : r'.userID = r.userID
  creatorSID : r'.creatorSID = r.creatorSID
  projectID : r'.projectID = r.projectID
  name : r'.name = r.name
  configuration : r'.configuration = r.configuration
  session : r.runtimeSessionID ≠ "" → r'.runtimeSessionID = r.runtimeSessionID

section Rows

variable {deletes : List (PersonalTask × Option Cause)} {r r' r'' : TaskRow}

theorem Marked.refl (r : TaskRow) : Marked r r := .inl rfl

theorem Marked.id (h : Marked r r') : r'.id = r.id := by
  rcases h with rfl | ⟨-, stamp, rfl⟩ <;> rfl

theorem not_deletable_of_deleting (h : r.state = .deleting) : ¬ Store.Deletable r := by
  unfold Store.Deletable
  rw [h]
  decide

theorem Marked.eq_of_deleting (h : Marked r r') (hstate : r.state = .deleting) : r' = r := by
  rcases h with heq | ⟨hdeletable, -⟩
  · exact heq
  · exact absurd hdeletable (not_deletable_of_deleting hstate)

theorem Marked.trans (h : Marked r r') (h' : Marked r' r'') : Marked r r'' := by
  rcases h with rfl | ⟨hdeletable, stamp, rfl⟩
  · exact h'
  · rw [h'.eq_of_deleting rfl]
    exact .inr ⟨hdeletable, stamp, rfl⟩

theorem SameTask.refl (r : TaskRow) : SameTask r r := ⟨rfl, rfl, rfl, rfl, rfl, rfl, fun _ => rfl⟩

theorem TaskStep.same (h : TaskStep deletes r r') : SameTask r r' := by
  cases h with
  | recorded _ _ _ hnone => exact ⟨rfl, rfl, rfl, rfl, rfl, rfl, fun h => absurd hnone h⟩
  | _ => exact ⟨rfl, rfl, rfl, rfl, rfl, rfl, fun _ => rfl⟩

theorem TaskStep.move (h : TaskStep deletes r r') : r'.state = r.state ∨ TaskMove r.state r'.state := by
  cases h with
  | kept | failed => exact .inl rfl
  | marked _ hdeletable =>
    rcases hdeletable with h | h | h <;> rw [h]
    · exact .inr .delete
    · exact .inr .compensate
    · exact .inr .cancel
  | recorded _ _ hstate =>
    rcases hstate with h | h <;> simp only [h]
    · exact .inr .link
    · exact .inl rfl
  | completed _ h => exact .inr (h ▸ .complete)
  | removed _ _ h => exact .inr (h ▸ .bury)
  | rejected _ _ h => exact .inr (h ▸ .reject)

theorem TaskStep.deleted (h : TaskStep deletes r r') (hdeleted : r'.state = .deleted) :
    r.state = .deleted ∨ ∃ answer, Gone answer ∧ (r.operation, answer) ∈ deletes ∧ r.state = .deleting := by
  cases h with
  | kept | failed => exact .inl hdeleted
  | recorded _ _ hstate =>
    rcases hstate with h | h <;> simp [h] at hdeleted
  | removed answer _ h hgone hdelete => exact .inr ⟨answer, hgone, hdelete, h⟩
  | _ => cases hdeleted

end Rows

def Listed (s : Store) : Prop :=
  ∀ x ∈ s.conversations, x.kind = .personalTask →
    ∃ r ∈ s.tasks, r.id = x.id ∧ r.userID = x.creatorUserID ∧ (r.state = .ready ∨ r.state = .deleting)

/-- `Runtime.Delete` has been called with the operation, as it was then, and has told that the session is gone. -/
def Buried (deletes : List (PersonalTask × Option Cause)) (r : TaskRow) : Prop :=
  ∃ o answer, (o, answer) ∈ deletes ∧ Gone answer ∧ o = { r.operation with state := .deleting, error := o.error }

structure Inv (s : Service) : Prop where
  listed : Listed s.store
  buried : ∀ r ∈ s.store.tasks, r.state = .deleted → Buried s.deletes r

structure Keeps (i : Request) (s t : Service) : Prop where
  later : Later s.store t.store
  deletes : s.deletes ⊆ t.deletes
  rows : ∀ r ∈ s.store.tasks, ∃ r' ∈ t.store.tasks, TaskStep s.deletes r r'
  origin : ∀ r' ∈ t.store.tasks, (∃ r ∈ s.store.tasks, TaskStep s.deletes r r') ∨
    ((∀ r ∈ s.store.tasks, r.id ≠ r'.id) ∧ (r'.state = .creating ∨ r'.state = .linking ∨ r'.state = .deleting))
  published : ∀ r ∈ s.store.tasks, ∀ r' ∈ t.store.tasks, r'.id = r.id → r.state ≠ .ready → r'.state = .ready →
    ∃ x ∈ t.store.conversations, Store.IsListRow r'.operation x ∧ x.runtimeSessionID = r'.runtimeSessionID
  others : ∀ id n, s.inflight id = some n → n ≠ i.name → t.inflight id = some n ∧
    ∀ r ∈ s.store.tasks, r.id = id → ∃ r' ∈ t.store.tasks, Marked r r'

structure Relies (i : Request) (s t : Service) : Prop where
  later : Later s.store t.store
  deletes : s.deletes ⊆ t.deletes
  held : ∀ id, s.inflight id = some i.name → t.inflight id = some i.name ∧
    ∀ r ∈ s.store.tasks, r.id = id → ∃ r' ∈ t.store.tasks, Marked r r'

theorem Relies.refl (i : Request) (s : Service) : Relies i s s :=
  ⟨Later.refl _, List.Subset.refl _, fun _ h => ⟨h, fun r hr _ => ⟨r, hr, Marked.refl r⟩⟩⟩

theorem Relies.trans {i : Request} {s t u : Service} (h : Relies i s t) (h' : Relies i t u) : Relies i s u := by
  refine ⟨h.later.trans h'.later, List.Subset.trans h.deletes h'.deletes, ?_⟩
  intro id hid
  obtain ⟨ht, hrows⟩ := h.held id hid
  obtain ⟨hu, hrows'⟩ := h'.held id ht
  refine ⟨hu, ?_⟩
  intro r hr hrid
  obtain ⟨r', hr', hmarked⟩ := hrows r hr hrid
  obtain ⟨r'', hr'', hmarked'⟩ := hrows' r' hr' (hmarked.id.trans hrid)
  exact ⟨r'', hr'', hmarked.trans hmarked'⟩

theorem Keeps.relies {i j : Request} {s t : Service} (h : Keeps i s t) (hne : j.name ≠ i.name) : Relies j s t :=
  ⟨h.later, h.deletes, fun id hid => h.others id j.name hid hne⟩

section Stretches

variable {i : Request} {s t : Service} {r r' : TaskRow}

theorem TaskStep.buried (h : TaskStep s.deletes r r') (hs : r.state = .deleted → Buried s.deletes r)
    (hsub : s.deletes ⊆ t.deletes) (hdeleted : r'.state = .deleted) : Buried t.deletes r' := by
  have hold (hstate : r.state = .deleted) (hcolumns : ∀ error, { r'.operation with state := .deleting, error := error } =
      { r.operation with state := .deleting, error := error }) : Buried t.deletes r' := by
    obtain ⟨o, answer, hmem, hgone, ho⟩ := hs hstate
    exact ⟨o, answer, hsub hmem, hgone, (hcolumns o.error).symm ▸ ho⟩
  cases h with
  | kept | failed => exact hold hdeleted (fun _ => rfl)
  | recorded _ _ hstate =>
    rcases hstate with h | h <;> simp [h] at hdeleted
  | removed answer _ h hgone hdelete =>
    refine ⟨r.operation, answer, hsub hdelete, hgone, ?_⟩
    rw [← h]
    rfl
  | _ => cases hdeleted

theorem Keeps.buried (h : Keeps i s t) (hs : ∀ r ∈ s.store.tasks, r.state = .deleted → Buried s.deletes r) :
    ∀ r ∈ t.store.tasks, r.state = .deleted → Buried t.deletes r := by
  intro r' hr' hdeleted
  rcases h.origin r' hr' with ⟨r, hr, hstep⟩ | ⟨-, hstate⟩
  · exact hstep.buried (hs r hr) h.deletes hdeleted
  · rw [hdeleted] at hstate
    simp at hstate

theorem Keeps.of_store (hstore : t.store = s.store) (hdeletes : s.deletes ⊆ t.deletes)
    (hinflight : ∀ id n, s.inflight id = some n → n ≠ i.name → t.inflight id = some n) : Keeps i s t := by
  refine ⟨hstore ▸ Later.refl _, hdeletes, ?_, ?_, ?_, ?_⟩
  · exact fun r hr => ⟨r, hstore ▸ hr, .kept⟩
  · exact fun r hr => .inl ⟨r, hstore ▸ hr, .kept⟩
  · intro r hr _ hr' hid hnot hready
    rw [hstore] at hr'
    rw [eq_of_key hr' hr hid] at hready
    exact absurd hready hnot
  · exact fun id n hid hne => ⟨hinflight id n hid hne, fun r hr _ => ⟨r, hstore ▸ hr, Marked.refl r⟩⟩

theorem Inv.of_store (hs : Inv s) (hstore : t.store = s.store) (hdeletes : s.deletes ⊆ t.deletes) : Inv t := by
  refine ⟨hstore.symm ▸ hs.listed, ?_⟩
  intro r hr hdeleted
  obtain ⟨o, answer, hmem, hrest⟩ := hs.buried r (hstore ▸ hr) hdeleted
  exact ⟨o, answer, hdeletes hmem, hrest⟩

theorem Keeps.refl (i : Request) (s : Service) : Keeps i s s :=
  .of_store rfl (List.Subset.refl _) (fun _ _ h _ => h)

theorem Keeps.of_update {u : Store} {p : TaskRow → Prop} [DecidablePred p] {f : TaskRow → TaskRow}
    (hrows : u.tasks.rows = s.store.tasks.rows.map (fun r => if p r then f r else r)) (hlater : Later s.store u)
    (hstep : ∀ r ∈ s.store.tasks, p r → TaskStep s.deletes r (f r))
    (hown : ∀ r ∈ s.store.tasks, p r → Marked r (f r) ∨ s.inflight r.id = some i.name)
    (hpublished : ∀ r ∈ s.store.tasks, p r → (f r).state = .ready → r.state ≠ .ready →
      ∃ x ∈ u.conversations, Store.IsListRow (f r).operation x ∧ x.runtimeSessionID = (f r).runtimeSessionID) :
    Keeps i s (s.withStore u) := by
  have hmem {r : TaskRow} (hr : r ∈ s.store.tasks) : (if p r then f r else r) ∈ u.tasks := by
    rw [← mem_rows, hrows]
    exact mem_map_of_mem hr
  have horigin {r' : TaskRow} (hr' : r' ∈ u.tasks) : ∃ r ∈ s.store.tasks, (p r ∧ r' = f r) ∨ (¬ p r ∧ r' = r) := by
    rw [← mem_rows, hrows] at hr'
    obtain ⟨r, hr, rfl⟩ := mem_map.mp hr'
    by_cases hp : p r
    · exact ⟨r, hr, .inl ⟨hp, if_pos hp⟩⟩
    · exact ⟨r, hr, .inr ⟨hp, if_neg hp⟩⟩
  refine ⟨hlater, List.Subset.refl _, ?_, ?_, ?_, ?_⟩
  · intro r hr
    refine ⟨_, hmem hr, ?_⟩
    split
    · rename_i hp
      exact hstep r hr hp
    · exact .kept
  · intro r' hr'
    obtain ⟨r, hr, ⟨hp, rfl⟩ | ⟨-, rfl⟩⟩ := horigin hr'
    · exact .inl ⟨r, hr, hstep r hr hp⟩
    · exact .inl ⟨_, hr, .kept⟩
  · intro r hr _ hr' hid hnot hready
    obtain ⟨x, hx, ⟨hp, rfl⟩ | ⟨-, rfl⟩⟩ := horigin hr'
    · obtain rfl := eq_of_key hx hr ((hstep x hx hp).same.id.symm.trans hid)
      exact hpublished x hr hp hready hnot
    · obtain rfl := eq_of_key hx hr hid
      exact absurd hready hnot
  · intro _ n hinflight hne
    refine ⟨hinflight, ?_⟩
    intro r hr hid
    refine ⟨_, hmem hr, ?_⟩
    split
    · rename_i hp
      rcases hown r hr hp with hmarked | hheld
      · exact hmarked
      · rw [hid, hinflight, Option.some.injEq] at hheld
        exact absurd hheld hne
    · exact Marked.refl r

theorem Listed.of_update {s u : Store} {p : TaskRow → Prop} [DecidablePred p] {f : TaskRow → TaskRow} (hs : Listed s)
    (hrows : u.tasks.rows = s.tasks.rows.map (fun r => if p r then f r else r))
    (hconversations : ∀ x ∈ u.conversations, x.kind = .personalTask → ∃ x' ∈ s.conversations, SameHead x' x)
    (hf : ∀ r ∈ s.tasks, p r → (f r).id = r.id ∧ (f r).userID = r.userID ∧
      (r.state = .ready ∨ r.state = .deleting → (f r).state = .ready ∨ (f r).state = .deleting)) : Listed u := by
  intro x hx hkind
  obtain ⟨x', hx', hsame⟩ := hconversations x hx hkind
  obtain ⟨r, hr, hid, huser, hstate⟩ := hs x' hx' (hsame.kind.symm.trans hkind)
  refine ⟨if p r then f r else r, ?_, ?_⟩
  · rw [← mem_rows, hrows]
    exact mem_map_of_mem hr
  · rw [hsame.id, hsame.creatorUserID]
    split
    · rename_i hp
      obtain ⟨hfid, hfuser, hfstate⟩ := hf r hr hp
      exact ⟨hfid.trans hid, hfuser.trans huser, hfstate hstate⟩
    · exact ⟨hid, huser, hstate⟩

end Stretches

section Calls

variable {env : Env} {op : Op} {a : Option Outcome} {s t : Store}

theorem normal_kind (c : NewConversation) : c.normal.kind = c.kind := by
  unfold NewConversation.normal
  dsimp only
  split <;> rfl

theorem newHead_kind {c : ConversationRow} (h : NewHead s op c) (hop : ¬ Serviced op) : c.kind ≠ .personalTask := by
  obtain ⟨x, p, hnew, hkind, -⟩ := h
  rw [hkind]
  cases op <;> cases hnew
  · rw [normal_kind]
    exact hop
  · rw [normal_kind]
    intro h
    cases h

theorem lists_of_conversations (h : t.conversations = s.conversations) :
    ∀ x ∈ t.conversations, x.kind = .personalTask → ∃ x' ∈ s.conversations, SameHead x' x :=
  fun x hx _ => ⟨x, h ▸ hx, rfl, rfl, rfl, rfl⟩

theorem effect_lists (h : Effect env op a s t) (hop : ¬ Serviced op) :
    ∀ x ∈ t.conversations, x.kind = .personalTask → ∃ x' ∈ s.conversations, SameHead x' x := by
  cases h with
  | same h => exact lists_of_conversations (h ▸ rfl)
  | member h =>
    rcases h.frame with hframe | ⟨-, _, p, -, -, h⟩
    · exact lists_of_conversations hframe.conversations.conversations
    · simp only [Store.deleteProject, bind_eq_ok, pure_eq_ok] at h
      obtain ⟨u, hu, rfl⟩ := h
      obtain ⟨-, rfl⟩ := Store.deleteConversations_eq_ok hu
      exact fun x hx _ => ⟨x, (mem_delete.mp hx).1, rfl, rfl, rfl, rfl⟩
  | invite h => exact lists_of_conversations h.frame.2.1.conversations
  | conversation h =>
    intro x hx hkind
    rcases h.heads x hx with hold | hnew
    · exact hold
    · exact absurd hkind (newHead_kind hnew hop)
  | run h =>
    intro x hx _
    rcases (h.heads : HeadsFrom (fun _ => False) _ _) x hx with hold | hnew
    · exact hold
    · exact hnew.elim
  | task h =>
    cases h with
    | submit _ _ h | enroll _ _ _ _ _ _ _ h | mark _ _ _ _ h =>
      cases h
      exact lists_of_conversations rfl
    | _ => exact absurd trivial hop

inductive Submits (s t : Store) : Prop
  | same (h : t.tasks = s.tasks)
  | added (r : TaskRow) (h : t.tasks = s.tasks.insertOrIgnore r)
      (hstate : r.state = .creating ∨ r.state = .linking ∨ r.state = .deleting)
  | marked (p : TaskRow → Prop) [DecidablePred p] (stamp : ℤ) (hp : ∀ r, p r → Store.Deletable r)
      (h : t.tasks.rows = s.tasks.rows.map (fun r => if p r
        then { r with state := .deleting, error := "", updatedAt := stamp } else r))

theorem submitted_state (o : PersonalTask) (stamp : ℤ) : (o.submitted.row stamp).state = .creating ∨
    (o.submitted.row stamp).state = .linking ∨ (o.submitted.row stamp).state = .deleting := by
  unfold PersonalTask.submitted PersonalTask.row
  dsimp only
  split
  · exact .inl rfl
  · exact .inr (.inl rfl)

theorem effect_submits (h : Effect env op a s t) (hop : ¬ Serviced op) : Submits s t := by
  cases h with
  | same h => exact .same (h ▸ rfl)
  | member h =>
    rcases h.frame with hframe | ⟨-, _, p, -, -, h⟩
    · exact .same hframe.tasks
    · simp only [Store.deleteProject, bind_eq_ok, pure_eq_ok] at h
      obtain ⟨u, hu, rfl⟩ := h
      obtain ⟨-, rfl⟩ := Store.deleteConversations_eq_ok hu
      exact .same rfl
  | invite h => exact .same h.frame.2.2
  | conversation h | run h => exact .same h.frame.2.1
  | task h =>
    cases h with
    | submit o _ h =>
      cases h
      exact .added _ rfl (submitted_state o _)
    | enroll _ _ _ _ _ _ _ h =>
      cases h
      exact .added _ rfl (.inr (.inr rfl))
    | mark _ _ _ _ h =>
      cases h
      exact .marked _ _ (fun r hr => hr.2.2) rfl
    | _ => exact absurd trivial hop

end Calls

section Submitting

variable {i : Request} {s : Service} {u : Store}

theorem Keeps.of_added {r : TaskRow} (h : u.tasks = s.store.tasks.insertOrIgnore r) (hlater : Later s.store u)
    (hstate : r.state = .creating ∨ r.state = .linking ∨ r.state = .deleting) : Keeps i s (s.withStore u) := by
  have hmem {x : TaskRow} (hx : x ∈ s.store.tasks) : x ∈ u.tasks := by
    rw [h]
    exact mem_insertOrIgnore.mpr (.inl hx)
  have horigin {x : TaskRow} (hx : x ∈ u.tasks) : x ∈ s.store.tasks ∨
      ((∀ y ∈ s.store.tasks, y.id ≠ x.id) ∧ x = r) := by
    rw [h] at hx
    rcases mem_insertOrIgnore.mp hx with hx | ⟨rfl, hnone⟩
    · exact .inl hx
    · exact .inr ⟨Table.find?_eq_none.mp hnone, rfl⟩
  refine ⟨hlater, List.Subset.refl _, fun x hx => ⟨x, hmem hx, .kept⟩, ?_, ?_, ?_⟩
  · intro x hx
    rcases horigin hx with hx | ⟨hnew, rfl⟩
    · exact .inl ⟨x, hx, .kept⟩
    · exact .inr ⟨hnew, hstate⟩
  · intro x hx _ hx' hid hnot hready
    rcases horigin hx' with hx' | ⟨hnew, rfl⟩
    · rw [eq_of_key hx' hx hid] at hready
      exact absurd hready hnot
    · exact absurd hid.symm (hnew x hx)
  · exact fun id n hid _ => ⟨hid, fun x hx _ => ⟨x, hmem hx, Marked.refl x⟩⟩

theorem Listed.of_tasks {s u : Store} (hs : Listed s) (htasks : ∀ r ∈ s.tasks, r ∈ u.tasks)
    (hlists : ∀ x ∈ u.conversations, x.kind = .personalTask → ∃ x' ∈ s.conversations, SameHead x' x) : Listed u := by
  intro x hx hkind
  obtain ⟨x', hx', hsame⟩ := hlists x hx hkind
  obtain ⟨r, hr, hid, huser, hstate⟩ := hs x' hx' (hsame.kind.symm.trans hkind)
  exact ⟨r, htasks r hr, hid.trans hsame.id.symm, huser.trans hsame.creatorUserID.symm, hstate⟩

theorem Submits.keeps (h : Submits s.store u) (hs : Inv s) (hlater : Later s.store u)
    (hlists : ∀ x ∈ u.conversations, x.kind = .personalTask → ∃ x' ∈ s.store.conversations, SameHead x' x) :
    Inv (s.withStore u) ∧ Keeps i s (s.withStore u) := by
  suffices hboth : Listed u ∧ Keeps i s (s.withStore u) from ⟨⟨hboth.1, hboth.2.buried hs.buried⟩, hboth.2⟩
  cases h with
  | same h =>
    refine ⟨hs.listed.of_tasks (h ▸ fun r hr => hr) hlists, ⟨hlater, List.Subset.refl _, ?_, ?_, ?_, ?_⟩⟩
    · exact fun r hr => ⟨r, h ▸ hr, .kept⟩
    · exact fun r hr => .inl ⟨r, h ▸ hr, .kept⟩
    · intro r hr r' hr' hid hnot hready
      have hr' : r' ∈ s.store.tasks := h ▸ hr'
      rw [eq_of_key hr' hr hid] at hready
      exact absurd hready hnot
    · exact fun id n hid _ => ⟨hid, fun r hr _ => ⟨r, h ▸ hr, Marked.refl r⟩⟩
  | added _ h hstate =>
    refine ⟨hs.listed.of_tasks ?_ hlists, .of_added h hlater hstate⟩
    intro x hx
    rw [h]
    exact mem_insertOrIgnore.mpr (.inl hx)
  | marked _ stamp hp h =>
    refine ⟨hs.listed.of_update h hlists (fun r _ _ => ⟨rfl, rfl, fun _ => .inr rfl⟩), .of_update h hlater ?_ ?_ ?_⟩
    · exact fun r _ hpr => .marked stamp (hp r hpr)
    · exact fun r _ hpr => .inl (.inr ⟨hp r hpr, stamp, rfl⟩)
    · intro r _ _ hready
      cases hready

theorem sound_store {call : Call} (hop : ¬ Serviced call.op) (s : Service) :
    Sound Inv (Relies (.store call)) (Keeps (.store call)) (fun _ _ _ => True) (Request.store call).prog s s := by
  have hkeeps : ∀ t u, Inv t → (∃ a, Effect call.env call.op a t.store u) →
      Inv { t with store := u } ∧ Keeps (.store call) t { t with store := u } := by
    rintro t u hI ⟨a, h⟩
    exact (effect_submits h hop).keeps hI h.later (effect_lists h hop)
  have hlater : ∀ t t', Relies (.store call) t t' → Later t.store t'.store := fun _ _ h => h.later
  have hends : ∀ t u, Effect call.env call.op none t u → ∃ a, Effect call.env call.op a t u := fun _ _ h => ⟨_, h⟩
  exact Does.within (fun _ _ => rfl) hlater hends (fun _ _ _ h => ⟨_, h⟩) hkeeps (answers_prog call s.store)

end Submitting

def Current (o : PersonalTask) (s : Service) : Prop := o.state = .deleting → ∃ r ∈ s.store.tasks, r.operation = o

section Work

variable {name : ℕ} {w : Weather} {o₀ o : PersonalTask} {id : String} {s₀ s t : Service}

def Answered (name : ℕ) (id : String) (x : Except Error PersonalTask) (_ t : Service) : Prop :=
  t.inflight id = some name ∧ ∀ o, x = .ok o → o.id = id ∧ Current o t

def Held {α : Type} (name : ℕ) (id : String) (_ : Except Error α) (_ t : Service) : Prop := t.inflight id = some name

abbrev Works {α : Type} (i : Request) (Q : Except Error α → Service → Service → Prop) (p : Task α) (s₀ s : Service) :
    Prop :=
  Sound Inv (Relies i) (Keeps i) Q p s₀ s

theorem Current.relies (h : Current o s) (hheld : s.inflight o.id = some name)
    (hrely : Relies (.advance name w o₀) s t) : Current o t := by
  intro hstate
  obtain ⟨r, hr, rfl⟩ := h hstate
  obtain ⟨_, hr', hmarked⟩ := (hrely.held r.id hheld).2 r hr rfl
  rw [hmarked.eq_of_deleting hstate] at hr'
  exact ⟨r, hr', rfl⟩

theorem Answered.error {x : Except Error PersonalTask} (h : Answered name id x s₀ s) (e : Error) :
    Answered name id (.error e) s₀ s := by
  refine ⟨h.1, ?_⟩
  intro o ho
  cases ho

theorem answered_error (h : s.inflight id = some name) (e : Error) : Answered name id (.error e) s₀ s := by
  refine ⟨h, ?_⟩
  intro o ho
  cases ho

theorem works_ask {α : Type} {Q : Except Error α → Service → Service → Prop} {i : Request} (k : ℕ) {p : Action α}
    (hpre : ∀ e, Q (.error e) s₀ s) (herr : ∀ a e t₀ t, Q a t₀ t → Q (.error e) t₀ t)
    (h : Works i Q (p.within Service.store withStore) s₀ s) : Works i Q (w.ask k p) s₀ s := by
  unfold Weather.ask
  cases w.outage k with
  | none => exact h
  | before => exact hpre contextEnded
  | after =>
    refine bind h ?_
    rintro (e | a) _ t hq
    · exact hq
    · exact herr _ contextEnded _ _ hq

theorem works_andThen {g : PersonalTask → Task PersonalTask} {i : Request} {p : Task PersonalTask}
    (hp : Works i (Answered name id) p s₀ s)
    (hg : ∀ o t₀ t, t.inflight id = some name → o.id = id → Current o t → Works i (Answered name id) (g o) t₀ t) :
    Works i (Answered name id) (p.andThen g) s₀ s := by
  refine bind hp ?_
  rintro (e | o) t₀ t hq
  · exact hq
  · obtain ⟨hid, hcurrent⟩ := hq.2 o rfl
    exact hg o t₀ t hq.1 hid hcurrent

theorem works_then {α : Type} {g : α → Task PersonalTask} {i : Request} {p : Task α} (hp : Works i (Held name id) p s₀ s)
    (hg : ∀ a t₀ t, t.inflight id = some name → Works i (Answered name id) (g a) t₀ t) :
    Works i (Answered name id) (p.andThen g) s₀ s := by
  refine bind hp ?_
  rintro (e | a) t₀ t hq
  · exact answered_error hq e
  · exact hg a t₀ t hq

theorem operation_of_ok {s : Store} {id : String} {user : ℤ} (h : s.personalTaskOperation id user = .ok o) :
    ∃ r ∈ s.tasks, r.operation = o ∧ r.id = id := by
  simp only [Store.personalTaskOperation, bind_eq_ok, orError_eq_ok, Option.filter_eq_some_iff, pure_eq_ok] at h
  obtain ⟨r, ⟨hr, -⟩, rfl⟩ := h
  obtain ⟨hmem, hid⟩ := find?_eq_some.mp hr
  exact ⟨r, hmem, rfl, hid⟩

theorem works_read (hheld : s.inflight o.id = some name) (user : ℤ) :
    Works (.advance name w o₀) (Answered name o.id)
      ((query (fun s => s.personalTaskOperation o.id user)).within Service.store withStore) s₀ s := by
  refine read_within (fun _ => rfl) ?_
  intro u hrely _
  refine ⟨Keeps.refl _ _, (hrely.held _ hheld).1, ?_⟩
  intro x hx
  obtain ⟨r, hr, rfl, hid⟩ := operation_of_ok hx
  exact ⟨hid, fun _ => ⟨r, hr, rfl⟩⟩

theorem works_operation (k : ℕ) (hheld : s.inflight o.id = some name) :
    Works (.advance name w o₀) (Answered name o.id) (w.operation k o) s₀ s :=
  works_ask k (answered_error hheld) (fun _ e _ _ h => h.error e) (works_read hheld o.userID)

theorem works_write {body : Store → Except Error (Unit × Store)} (hheld : s.inflight id = some name)
    (hok : ∀ u s', Relies (.advance name w o₀) s u → Inv u → u.inflight id = some name → body u.store = .ok ((), s') →
      Listed s' ∧ Keeps (.advance name w o₀) u (u.withStore s')) :
    Works (.advance name w o₀) (Held name id) ((write body).within Service.store withStore) s₀ s := by
  unfold write answer
  rw [Prog.within_andThen]
  refine bind (Q := Held name id) (transaction_within (fun _ => rfl) ?_ ?_) ?_
  · intro u _ s' hrely hI hbody
    have hu := (hrely.held _ hheld).1
    obtain ⟨hlisted, hkeeps⟩ := hok u s' hrely hI hu hbody
    exact ⟨⟨hlisted, hkeeps.buried hI.buried⟩, hkeeps, hu⟩
  · intro u e hrely _
    exact ⟨Keeps.refl _ _, (hrely.held _ hheld).1⟩
  · rintro (e | a) _ t hq
    · exact hq
    · exact hq

theorem works_setError (k : ℕ) {code : String} {rejected : Bool} (hheld : s.inflight o.id = some name)
    (hrejected : rejected = true → o.state = .creating) :
    Works (.advance name w o₀) (Held name o.id) (w.setError k o code rejected) s₀ s := by
  refine works_ask k (fun _ => hheld) (fun _ _ _ _ h => h) (works_write hheld ?_)
  intro u s' _ hI hu h
  have hlater : Later u.store s' := Effect.later (.task (.setError o code rejected none h))
  cases h
  have hstep (r : TaskRow) (hr : r.id = o.id ∧ r.userID = o.userID ∧ r.state = o.state) :
      TaskStep u.deletes r { r with
        state := if rejected then .rejected else o.state, error := code, updatedAt := (w.call k).stamp 0 } := by
    obtain ⟨_, _, hstate⟩ := hr
    cases rejected with
    | true => exact .rejected code _ (hstate.trans (hrejected rfl))
    | false =>
      rw [if_neg Bool.false_ne_true, ← hstate]
      exact .failed code _
  refine ⟨hI.listed.of_update rfl (lists_of_conversations rfl) ?_, .of_update rfl hlater (fun r _ hr => hstep r hr) ?_ ?_⟩
  · intro r _ hr
    refine ⟨rfl, rfl, ?_⟩
    intro hstate
    dsimp only
    split
    · rename_i hreject
      rw [hr.2.2.trans (hrejected hreject)] at hstate
      simp at hstate
    · rw [← hr.2.2]
      exact hstate
  · exact fun r _ hr => .inr (hr.1 ▸ hu)
  · intro r _ hr hready hnot
    dsimp only at hready
    split at hready
    · cases hready
    · exact absurd (hr.2.2.trans hready) hnot

theorem works_record (k : ℕ) {session : String} (hheld : s.inflight o.id = some name) :
    Works (.advance name w o₀) (Held name o.id) (w.ask k (recordPersonalTaskSession (w.call k) o session)) s₀ s := by
  refine works_ask k (fun _ => hheld) (fun _ _ _ _ h => h) ?_
  unfold recordPersonalTaskSession guarded
  split
  · refine works_write hheld ?_
    intro u s' _ hI hu h
    have hlater : Later u.store s' := Effect.later (.task (.record o session none h))
    simp only [Store.recordPersonalTaskSession, bind_eq_ok, updateOne_eq_ok, pure_eq_ok, Prod.mk.injEq,
      true_and] at h
    obtain ⟨_, ⟨-, rfl⟩, rfl⟩ := h
    refine ⟨hI.listed.of_update rfl (lists_of_conversations rfl) ?_, .of_update rfl hlater ?_ ?_ ?_⟩
    · rintro r _ ⟨-, -, hstate, -⟩
      refine ⟨rfl, rfl, ?_⟩
      rintro (hready | hdeleting)
      · simp [hready] at hstate
      · exact .inr (if_pos hdeleting)
    · exact fun r _ hr => .recorded session _ hr.2.2.1 hr.2.2.2
    · exact fun r _ hr => .inr (hr.1 ▸ hu)
    · intro r _ _ hready _
      dsimp only at hready
      split at hready <;> cases hready
  · exact hheld

theorem works_completeCreation (k : ℕ) (hheld : s.inflight o.id = some name) :
    Works (.advance name w o₀) (Held name o.id)
      (w.ask k (write (fun s => s.completePersonalTaskCreation o ((w.call k).stamp 0)))) s₀ s := by
  refine works_ask k (fun _ => hheld) (fun _ _ _ _ h => h) (works_write hheld ?_)
  intro u s' _ hI hu h
  have hlater : Later u.store s' := Effect.later (.task (.complete o none h))
  simp only [Store.completePersonalTaskCreation, bind_eq_ok, updateOne_eq_ok, insertChecked_eq_ok,
    pure_eq_ok, Prod.mk.injEq, true_and] at h
  obtain ⟨p, -, -, -, -, -, _, ⟨hcount, rfl⟩, _, ⟨hnone, rfl⟩, rfl⟩ := h
  obtain ⟨_, hr₀, hp₀⟩ := exists_of_count_ne_zero (by rw [hcount]; exact Nat.one_ne_zero)
  refine ⟨?_, .of_update rfl hlater ?_ ?_ ?_⟩
  · intro x hx hkind
    dsimp only at hx ⊢
    rcases mem_insertOrIgnore.mp hx with hx | ⟨rfl, -⟩
    · obtain ⟨r, hr, hid, huser, hstate⟩ := hI.listed x hx hkind
      refine ⟨r, mem_update_of_neg hr ?_, hid, huser, hstate⟩
      rintro ⟨-, -, hlinking, -⟩
      simp [hlinking] at hstate
    · exact ⟨_, mem_update_of_pos hr₀ hp₀, hp₀.1, hp₀.2.1, .inl rfl⟩
  · exact fun r _ hr => .completed _ hr.2.2.1
  · exact fun r _ hr => .inr (hr.1 ▸ hu)
  · intro r _ hr _ _
    exact ⟨_, mem_insertOrIgnore.mpr (.inr ⟨rfl, hnone⟩), ⟨hr.1.symm, rfl, hr.2.1.symm⟩, hr.2.2.2.symm⟩

structure Deleting (o : PersonalTask) (s : Service) : Prop where
  state : o.state = .deleting
  current : ∃ r ∈ s.store.tasks, r.operation = o
  gone : ∃ answer, Gone answer ∧ (o, answer) ∈ s.deletes

theorem works_completeDeletion (k : ℕ) (hheld : s.inflight o.id = some name) (hdeleting : Deleting o s) :
    Works (.advance name w o₀) (Held name o.id) (w.completeDeletion k o) s₀ s := by
  refine works_ask k (fun _ => hheld) (fun _ _ _ _ h => h) (works_write hheld ?_)
  intro u s' hrely hI hu h
  have hlater : Later u.store s' := Effect.later (.task (.completeDeletion o none h))
  have hcurrent : Current o u := Current.relies (fun _ => hdeleting.current) hheld hrely
  obtain ⟨r₀, hr₀, hoperation⟩ := hcurrent hdeleting.state
  obtain ⟨answer, hgone, hmem⟩ := hdeleting.gone
  have hdelete := hrely.deletes hmem
  obtain ⟨_, rfl, htasks⟩ := Store.completePersonalTaskDeletion_eq_ok h
  obtain ⟨-, rfl⟩ := updateOne_eq_ok.mp htasks
  refine ⟨?_, .of_update rfl hlater ?_ ?_ ?_⟩
  · intro x hx hkind
    obtain ⟨hx, hnot⟩ := mem_delete.mp hx
    obtain ⟨r, hr, hid, huser, hstate⟩ := hI.listed x hx hkind
    refine ⟨r, mem_update_of_neg hr ?_, hid, huser, hstate⟩
    rintro ⟨hrid, hruser, -⟩
    exact hnot ⟨x, hx, rfl, hid.symm.trans hrid, hkind, huser.symm.trans hruser⟩
  · rintro r hr ⟨hrid, -, hstate⟩
    have hsame : r = r₀ := eq_of_key hr hr₀ (hrid.trans (congrArg PersonalTask.id hoperation).symm)
    refine .removed answer _ hstate hgone ?_
    rw [hsame, hoperation]
    exact hdelete
  · exact fun r _ hr => .inr (hr.1 ▸ hu)
  · intro r _ _ hready
    cases hready

theorem works_mark (k : ℕ) (user : ℤ) (hheld : s.inflight id = some name) :
    Works (.advance name w o₀) (Held name id)
      ((Prog.transaction (fun s => s.markTaskDeleting id user ((w.call k).stamp 1))).within Service.store
        withStore) s₀ s := by
  refine transaction_within (fun _ => rfl) ?_ ?_
  · intro u _ s' hrely hI h
    have hlater : Later u.store s' := Effect.later (.task (.mark id user "" none h))
    cases h
    obtain ⟨hInv, hkeeps⟩ := (Submits.marked _ _ (fun r hr => hr.2.2) rfl).keeps (i := .advance name w o₀) hI hlater
      (lists_of_conversations rfl)
    exact ⟨hInv, hkeeps, (hrely.held _ hheld).1⟩
  · exact fun u e hrely _ => ⟨Keeps.refl _ _, (hrely.held _ hheld).1⟩

theorem works_enroll (k : ℕ) (user : ℤ) (sid : String) (hheld : s.inflight id = some name) :
    Works (.advance name w o₀) (Held name id)
      ((enrollPersonalTask (w.call k) id user sid).within Service.store withStore) s₀ s := by
  unfold enrollPersonalTask
  rw [Prog.within_andThen]
  refine bind (Q := Held name id) (read_within (fun _ => rfl) ?_) ?_
  · exact fun u hrely _ => ⟨Keeps.refl _ _, (hrely.held _ hheld).1⟩
  · rintro (e | c) _ t ht
    · exact ht
    · dsimp only
      unfold guarded
      split
      · refine transaction_within (fun _ => rfl) ?_ ?_
        · intro u _ s' hrely hI h
          have hlater : Later u.store s' := Effect.later (.task (.enroll id user sid _ _ _ none h))
          cases h
          obtain ⟨hInv, hkeeps⟩ := (Submits.added _ rfl (.inr (.inr rfl))).keeps (i := .advance name w o₀) hI hlater
            (lists_of_conversations rfl)
          exact ⟨hInv, hkeeps, (hrely.held _ ht).1⟩
        · exact fun u e hrely _ => ⟨Keeps.refl _ _, (hrely.held _ ht).1⟩
      · exact ht

theorem works_readTask (hheld : s.inflight o.id = some name) (user : ℤ) :
    Works (.advance name w o₀) (fun x s₀ t => Answered name o.id (x.bind fun
        | .task o => .ok o
        | _ => .error (.text "")) s₀ t)
      ((readTask o.id user).within Service.store withStore) s₀ s := by
  unfold readTask answer
  rw [Prog.within_andThen]
  refine bind (works_read hheld user) ?_
  rintro (e | x) _ t ht
  · exact ht
  · exact ht

theorem works_beginDeletion (k : ℕ) (hheld : s.inflight o.id = some name) :
    Works (.advance name w o₀) (Answered name o.id) (w.beginDeletion k o) s₀ s := by
  refine works_ask k (answered_error hheld) (fun _ e _ _ h => h.error e) ?_
  unfold asTask beginPersonalTaskDeletion
  rw [Prog.within_andThen, Prog.within_andThen, Prog.within_bind]
  refine bind (Q := fun x s₀ t => Answered name o.id (x.bind fun
      | .task o => .ok o
      | _ => .error (.text "")) s₀ t) ?_ ?_
  · refine bind (Q := Held name o.id) (bind (Q := Held name o.id) (read_within (fun _ => rfl) ?_) ?_) ?_
    · exact fun u hrely _ => ⟨Keeps.refl _ _, (hrely.held _ hheld).1⟩
    · rintro (e | x) t₀ t ht
      · cases e with
        | notFound => exact works_enroll k o.userID o.creatorSID ht
        | _ => exact ht
      · exact ht
    · rintro (e | x) t₀ t ht
      · exact (answered_error ht e : Answered name o.id _ t₀ t)
      · dsimp only
        rw [Prog.within_andThen]
        refine bind (works_mark k o.userID ht) ?_
        rintro (e | x) u₀ u hu
        · exact (answered_error hu e : Answered name o.id _ u₀ u)
        · exact works_readTask hu o.userID
  · rintro (e | x) _ t ht
    · exact ht
    · cases x with
      | task => exact ht
      | _ => exact ht

theorem works_verdict {cause : Cause} (h : cause = .other ∨ o.state = .creating ∨ o.state = .deleting)
    (hdeleted : ¬ (IsDeleted cause ∧ o.state = .deleting)) : (verdict o cause).2 = true → o.state = .creating := by
  cases cause with
  | other => simp [verdict]
  | runtime _ code =>
    have hstate : o.state = .creating ∨ o.state = .deleting := by
      rcases h with h | h
      · cases h
      · exact h
    rcases hstate with hstate | hstate
    · exact fun _ => hstate
    · have hcode : code ≠ "operation_deleted" := fun hcode => hdeleted ⟨hcode, hstate⟩
      unfold verdict
      simp only [if_neg hcode, hstate]
      split
      · split <;> simp
      · simp

section

variable (hheld : s.inflight o.id = some name)
include hheld

theorem works_failed {cause : Cause} (hcurrent : Current o s)
    (hcause : cause = .other ∨ o.state = .creating ∨ (o.state = .deleting ∧ (o, some cause) ∈ s.deletes)) :
    Works (.advance name w o₀) (Answered name o.id) (failed w o cause) s₀ s := by
  unfold failed
  split
  · exact works_beginDeletion 10 hheld
  · split
    · rename_i hdeleted
      have hmem : (o, some cause) ∈ s.deletes := by
        rcases hcause with rfl | hcreating | ⟨-, hmem⟩
        · exact hdeleted.1.elim
        · rw [hcreating] at hdeleted
          cases hdeleted.2
        · exact hmem
      have hdeleting : Deleting o s := ⟨hdeleted.2, hcurrent hdeleted.2, some cause, hdeleted.1, hmem⟩
      exact works_then (works_completeDeletion 11 hheld hdeleting) (fun _ _ _ ht => works_operation 12 ht)
    · rename_i hnot
      have hstates : cause = .other ∨ o.state = .creating ∨ o.state = .deleting := by
        rcases hcause with h | h | h
        · exact .inl h
        · exact .inr (.inl h)
        · exact .inr (.inr h.1)
      exact works_then (works_setError 13 hheld (works_verdict hstates hnot)) (fun _ _ _ ht => works_operation 14 ht)

theorem works_removing (hcurrent : Current o s) :
    Works (.advance name w o₀) (Answered name o.id) (removing w o) s₀ s := by
  unfold removing
  split
  · rename_i hstate
    refine bind (Q := fun x _ t => x = w.delete o ∧ t.inflight o.id = some name ∧ Current o t ∧
      (o, w.delete o) ∈ t.deletes) ?_ ?_
    · intro u hrely hI
      have hu := (hrely.held _ hheld).1
      have hcurrent' : Current o u := hcurrent.relies hheld hrely
      exact ⟨hI.of_store rfl (subset_cons_self _ _), .of_store rfl (subset_cons_self _ _) (fun _ _ h _ => h),
        rfl, hu, hcurrent', mem_cons_self⟩
    · rintro x _ t ⟨rfl, ht, hcurrent', hmem⟩
      cases hdelete : w.delete o with
      | some =>
        rw [hdelete] at hmem
        exact works_failed ht hcurrent' (.inr (.inr ⟨hstate, hmem⟩))
      | none =>
        rw [hdelete] at hmem
        have hdeleting : Deleting o t := ⟨hstate, hcurrent' hstate, none, trivial, hmem⟩
        exact works_then (works_completeDeletion 8 ht hdeleting) (fun _ _ _ ht' => works_operation 9 ht')
  · exact works_operation 9 hheld

theorem works_linking (hcurrent : Current o s) :
    Works (.advance name w o₀) (Answered name o.id) (linking w o) s₀ s := by
  unfold linking
  split
  · rename_i hstate
    have hany (t : Service) : Current o t := by
      intro hdeleting
      rw [hstate] at hdeleting
      cases hdeleting
    refine bind (works_completeCreation 6 hheld) ?_
    rintro (e | x) _ t ht
    · dsimp only
      split
      · exact works_andThen (works_beginDeletion 7 ht) (fun x _ _ hx hid hcurrent' => hid ▸ works_removing (hid ▸ hx) hcurrent')
      · exact works_failed ht (hany t) (.inl rfl)
    · exact works_removing ht (hany t)
  · exact works_removing hheld hcurrent

theorem works_creating (hcurrent : Current o s) :
    Works (.advance name w o₀) (Answered name o.id) (creating w o) s₀ s := by
  unfold creating
  split
  · rename_i hstate
    have hother : Works (.advance name w o₀) (Answered name o.id) (failed w o .other) s₀ s :=
      works_failed hheld hcurrent (.inl rfl)
    split
    · exact works_failed hheld hcurrent (.inr (.inl hstate))
    · split
      · exact hother
      · split
        · exact hother
        · refine works_then (works_record 4 hheld) ?_
          intro _ _ t ht
          refine works_andThen (works_operation 5 ht) ?_
          exact fun x _ _ hx hid hcurrent' => hid ▸ works_linking (hid ▸ hx) hcurrent'
  · exact works_linking hheld hcurrent

theorem works_verified (hstate : o.state = .creating ∨ o.state = .linking) :
    Works (.advance name w o₀) (Answered name o.id) (verified w o) s₀ s := by
  have hcurrent (t : Service) : Current o t := by
    intro hdeleting
    simp [hdeleting] at hstate
  have hcompensate (t₀ t : Service) (ht : t.inflight o.id = some name) :
      Works (.advance name w o₀) (Answered name o.id) ((w.beginDeletion 3 o).andThen (creating w)) t₀ t :=
    works_andThen (works_beginDeletion 3 ht) (fun x _ _ hx hid hcurrent' => hid ▸ works_creating (hid ▸ hx) hcurrent')
  unfold verified
  split
  · refine bind (Q := Held name o.id) ?_ ?_
    · refine works_ask 2 (fun _ => hheld) (fun _ _ _ _ h => h) (read_within (fun _ => rfl) ?_)
      exact fun u hrely _ => ⟨Keeps.refl _ _, (hrely.held _ hheld).1⟩
    · rintro (e | p) t₀ t ht
      · dsimp only
        split
        · exact hcompensate t₀ t ht
        · exact (answered_error ht e : Answered name o.id _ t₀ t)
      · dsimp only
        split
        · exact hcompensate t₀ t ht
        · exact works_creating ht (hcurrent t)
  · refine works_then (works_setError 1 hheld ?_) ?_
    · intro h
      cases h
    · intro _ _ t ht
      refine ⟨ht, ?_⟩
      rintro x ⟨⟩
      exact ⟨rfl, hcurrent t⟩

theorem works_advanceHeld :
    Works (.advance name w o₀) (Answered name o.id) (advanceHeld w o) s₀ s := by
  refine works_andThen (works_operation 0 hheld) ?_
  intro x _ t hx hid hcurrent
  rw [← hid] at hx ⊢
  split
  · exact answered_error hx contextEnded
  · split
    · rename_i hstate
      exact works_verified hx hstate
    · exact works_creating hx hcurrent

end

theorem sound_advance (s : Service) :
    Works (.advance name w o) (fun _ _ _ => True) (Request.advance name w o).prog s s := by
  refine bind (Q := fun _ _ _ => True) ?_ ?_
  · intro u _ hI
    dsimp only
    by_cases hfree : u.inflight o.id = none
    · rw [if_pos hfree, if_pos hfree]
      refine ⟨hI.of_store rfl (List.Subset.refl _), .of_store rfl (List.Subset.refl _) ?_, ?_⟩
      · intro id n hid hne
        have hother : id ≠ o.id := by
          rintro rfl
          rw [hfree] at hid
          cases hid
        exact (update_of_ne hother _ _).trans hid
      · refine bind (works_advanceHeld (update_self _ _ _)) ?_
        rintro x t₀ t ⟨ht, -⟩ v hrely' hI'
        refine ⟨hI'.of_store rfl (List.Subset.refl _), .of_store rfl (List.Subset.refl _) ?_, trivial⟩
        intro id n hid hne
        have hother : id ≠ o.id := by
          rintro rfl
          rw [(hrely'.held _ ht).1, Option.some.injEq] at hid
          exact hne hid.symm
        exact (update_of_ne hother _ _).trans hid
    · rw [if_neg hfree, if_neg hfree]
      exact ⟨hI, Keeps.refl _ _, trivial⟩
  · rintro (e | x) t₀ t -
    · trivial
    · trivial

end Work

theorem reopened_heads {s t : Store} {stamp : ℤ} (h : s.reopened stamp = .ok t) :
    ∀ x ∈ t.conversations, ∃ x' ∈ s.conversations, SameHead x' x := by
  refine Store.recovered_all (P := fun u => ∀ x ∈ u.conversations, ∃ x' ∈ s.conversations, SameHead x' x) ?_ ?_ h
  · intro u r v hu hr x hx
    obtain ⟨_, _, rfl, -⟩ := hr
    dsimp only at hx
    obtain ⟨y, hy, -, ⟨-, rfl⟩ | ⟨-, rfl⟩⟩ := exists_of_mem_update hx
    · obtain ⟨x', hx', hsame⟩ := hu y hy
      exact ⟨x', hx', hsame.id, hsame.projectID, hsame.kind, hsame.creatorUserID⟩
    · exact hu _ hy
  · obtain ⟨_, _, he, -⟩ := Store.migrateAssistantMembers_spec s
    rw [he]
    exact fun x hx => ⟨x, hx, rfl, rfl, rfl, rfl⟩

theorem Inv.reopened {s t : Service} (hs : Inv s) (h : portal.reopen s t) : Inv t := by
  obtain ⟨⟨_, hstore⟩, -, hdeletes⟩ := h
  obtain ⟨-, htasks, -⟩ := Store.reopened_frame hstore
  refine ⟨hs.listed.of_tasks (htasks ▸ fun r hr => hr) (fun x hx _ => reopened_heads hstore x hx), ?_⟩
  rw [htasks, hdeletes]
  exact hs.buried

theorem concurrent : Concurrent portal Request.name Inv Relies Keeps where
  refl := Relies.refl
  trans := fun _ _ _ _ => Relies.trans
  guarantee := fun _ _ _ _ hne h => h.relies hne
  fresh := fun _ _ _ h => h.name
  init := ⟨forall_mem_empty, forall_mem_empty⟩
  reopen := fun _ _ => Inv.reopened
  prog := by
    intro _ _ i s h _
    cases i with
    | store call => exact sound_store (h.op call rfl) s
    | advance => exact sound_advance s

/-- The life of a personal task's operation in one step, with its list entry and the calls of `Runtime.Delete`. -/
structure TaskAdvances (s t : Service) (r r' : TaskRow) : Prop where
  same : SameTask r r'
  move : r'.state = r.state ∨ TaskMove r.state r'.state
  ready : r.state ≠ .ready → r'.state = .ready →
    ∃ x ∈ t.store.conversations, Store.IsListRow r'.operation x ∧ x.runtimeSessionID = r'.runtimeSessionID
  deleted : r.state ≠ .deleted → r'.state = .deleted → ∃ answer, Gone answer ∧ (r.operation, answer) ∈ s.deletes

theorem task_step {c d : Config Service Request Outcome} (hc : portal.Reachable c) (h : portal.Step c d) :
    (∀ r ∈ c.store.store.tasks, ∃ r' ∈ d.store.store.tasks, TaskAdvances c.store d.store r r') ∧
      ∀ r' ∈ d.store.store.tasks, (∃ r ∈ c.store.store.tasks, r.id = r'.id) ∨
        r'.state = .creating ∨ r'.state = .linking ∨ r'.state = .deleting := by
  have hsame (htasks : d.store.store.tasks = c.store.store.tasks) :
      (∀ r ∈ c.store.store.tasks, ∃ r' ∈ d.store.store.tasks, TaskAdvances c.store d.store r r') ∧
        ∀ r' ∈ d.store.store.tasks, (∃ r ∈ c.store.store.tasks, r.id = r'.id) ∨
          r'.state = .creating ∨ r'.state = .linking ∨ r'.state = .deleting := by
    rw [htasks]
    refine ⟨fun r hr => ⟨r, hr, .refl r, .inl rfl, ?_, ?_⟩, fun r hr => .inl ⟨r, hr, rfl⟩⟩
    · exact fun hnot h => absurd h hnot
    · exact fun hnot h => absurd h hnot
  rcases concurrent.moves hc h with hstore | ⟨i, hkeeps⟩ | ⟨⟨_, hstore⟩, -⟩
  · exact hsame (by rw [hstore])
  · refine ⟨?_, ?_⟩
    · intro r hr
      obtain ⟨r', hr', hstep⟩ := hkeeps.rows r hr
      refine ⟨r', hr', hstep.same, hstep.move, hkeeps.published r hr r' hr' hstep.same.id, ?_⟩
      intro hnot hdeleted
      rcases hstep.deleted hdeleted with h | ⟨answer, hgone, hmem, -⟩
      · exact absurd h hnot
      · exact ⟨answer, hgone, hmem⟩
    · intro r' hr'
      rcases hkeeps.origin r' hr' with ⟨r, hr, hstep⟩ | ⟨-, hstate⟩
      · exact .inl ⟨r, hr, hstep.same.id.symm⟩
      · exact .inr hstate
  · exact hsame (Store.reopened_frame hstore).2.1

structure TaskLifecycle (c : Config Service Request Outcome) : Prop where
  listed : ∀ x ∈ c.store.store.conversations, x.kind = .personalTask →
    ∃ r ∈ c.store.store.tasks, r.id = x.id ∧ r.userID = x.creatorUserID ∧ (r.state = .ready ∨ r.state = .deleting)
  buried : ∀ r ∈ c.store.store.tasks, r.state = .deleted → Buried c.store.deletes r
  step : ∀ d, portal.Step c d → ∀ r ∈ c.store.store.tasks,
    ∃ r' ∈ d.store.store.tasks, TaskAdvances c.store d.store r r'
  entered : ∀ d, portal.Step c d → ∀ r' ∈ d.store.store.tasks, (∃ r ∈ c.store.store.tasks, r.id = r'.id) ∨
    r'.state = .creating ∨ r'.state = .linking ∨ r'.state = .deleting
  run : ∀ d, portal.Run c d → ∀ r ∈ c.store.store.tasks, ∃ r' ∈ d.store.store.tasks,
    SameTask r r' ∧ Relation.ReflTransGen TaskMove r.state r'.state

theorem SameTask.trans {r r' r'' : TaskRow} (h : SameTask r r') (h' : SameTask r' r'') : SameTask r r'' := by
  refine ⟨h'.id.trans h.id, h'.userID.trans h.userID, h'.creatorSID.trans h.creatorSID,
    h'.projectID.trans h.projectID, h'.name.trans h.name, h'.configuration.trans h.configuration, ?_⟩
  intro hne
  have hsession := h.session hne
  exact (h'.session (hsession.symm ▸ hne)).trans hsession

theorem task_run {c d : Config Service Request Outcome} (hc : portal.Reachable c) (h : portal.Run c d) :
    ∀ r ∈ c.store.store.tasks, ∃ r' ∈ d.store.store.tasks,
      SameTask r r' ∧ Relation.ReflTransGen TaskMove r.state r'.state := by
  induction h with
  | refl => exact fun r hr => ⟨r, hr, .refl r, Relation.ReflTransGen.refl⟩
  | tail hr hs ih =>
    intro r hr'
    obtain ⟨x, hx, hsame, hmoves⟩ := ih r hr'
    obtain ⟨r', hr', hadvances⟩ := (task_step (hc.run hr) hs).1 x hx
    refine ⟨r', hr', hsame.trans hadvances.same, ?_⟩
    rcases hadvances.move with heq | hmove
    · rw [heq]
      exact hmoves
    · exact hmoves.tail hmove

theorem task_lifecycle {c : Config Service Request Outcome} (hc : portal.Reachable c) : TaskLifecycle c := by
  have hs := concurrent.invariant hc
  exact ⟨hs.listed, hs.buried, fun d hd => (task_step hc hd).1, fun d hd => (task_step hc hd).2,
    fun d hd => task_run hc hd⟩

theorem allowedAll {c : Config Service Request Outcome} {l : List Request}
    (hnew : ∀ i ∈ l, ∀ j ∈ c.started, j.name ≠ i.name) (hnodup : (l.map Request.name).Nodup)
    (hop : ∀ call, .store call ∈ l → ¬ Serviced call.op) : portal.AllowedAll c l := by
  induction l generalizing c with
  | nil => trivial
  | cons i _ ih =>
    rw [map_cons, nodup_cons] at hnodup
    refine ⟨⟨hnew i mem_cons_self, ?_⟩, ih ?_ hnodup.2 (fun call hcall => hop call (mem_cons_of_mem i hcall))⟩
    · rintro call rfl
      exact hop call mem_cons_self
    · intro j hj k hk hname
      rcases mem_cons.mp hk with rfl | hk
      · exact hnodup.1 (hname ▸ mem_map_of_mem hj)
      · exact hnew j (mem_cons_of_mem i hj) k hk hname

namespace LifecycleExample

def env : Env := ⟨fun _ => ⟨0⟩, "session-key", fun _ _ => true, fun _ => true⟩

def weather : Weather where
  call := fun _ => env
  outage := fun _ => .none
  expired := false
  account := fun _ => some ⟨1, false⟩
  create := fun _ => .ok "session-000000001"
  sessionID := some
  delete := fun _ => none

def task : PersonalTask := ⟨"ptask_1_operation-00001", 1, "S-1-5-1", "project-000000001", "Task", "{}", "", .creating, ""⟩

def requests : List Request :=
  [.store ⟨0, env, 1, .createProject "project-000000001" 1 "S-1-5-1" "Project"⟩,
    .store ⟨1, env, 1, .setProvisioningResult "project-000000001" true⟩, .store ⟨2, env, 2, .beginPersonalTask task⟩,
    .advance 3 weather task, .store ⟨4, env, 1, .beginPersonalTaskDeletion task.id 1 "S-1-5-1"⟩,
    .advance 5 weather task]

def deleted : Config Service Request Outcome := portal.after ⟨portal.init, [], [], []⟩ requests

theorem reachable_deleted : portal.Reachable deleted := by
  refine System.Run.after rfl (allowedAll ?_ (by decide) ?_)
  · intro i _ j hj
    cases hj
  · intro _ hcall
    simp only [requests, mem_cons, Request.store.injEq, reduceCtorEq, not_mem_nil, or_false, false_or] at hcall
    rcases hcall with rfl | rfl | rfl | rfl <;> exact not_false

theorem session_deleted : ∃ o answer, (o, answer) ∈ deleted.store.deletes ∧ Gone answer ∧
    o.runtimeSessionID = "session-000000001" := by
  have hrow : ∃ r ∈ deleted.store.store.tasks.rows, r.state = .deleted ∧ r.runtimeSessionID = "session-000000001" := by
    decide
  obtain ⟨r, hr, hstate, hsession⟩ := hrow
  obtain ⟨o, answer, hmem, hgone, ho⟩ := (task_lifecycle reachable_deleted).buried r hr hstate
  refine ⟨o, answer, hmem, hgone, ?_⟩
  rw [ho]
  exact hsession

end LifecycleExample

end WorkAgent.Portal
