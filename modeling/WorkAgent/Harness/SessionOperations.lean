import WorkAgent.Harness.SessionIndex
import WorkAgent.Library.Executions

namespace WorkAgent.Harness.SessionIndex

open Library List Option Table

variable {x x' y : Index} {s s' : Store} {w w' : World} {r : Running} {session row row' record stored : StoredSession}
  {creation : Creation} {operationID id : String} {writes : Bool} {failure : Failure}

theorem sessionOf_inj {a b : String} (h : sessionOf a = sessionOf b) : a = b := by
  have hlist := congrArg String.toList h
  simp only [sessionOf, String.toList_append, append_cancel_left_eq] at hlist
  exact String.toList_injective hlist

def StoredSession.Named (session : StoredSession) : Prop := ∀ operationID, session.id = sessionOf operationID ↔ session.operationID = some operationID

theorem StoredSession.Named.congr (h : session.Named) (hid : row.id = session.id) (hcreation : row.creation = session.creation) : row.Named := by
  intro operationID
  rw [hid, StoredSession.operationID, hcreation]
  exact h operationID

def Index.Named (x : Index) : Prop := ∀ row ∈ x.sessions, row.Named

theorem Index.Named.eq (h : x.Named) (hrow : row ∈ x.sessions) (hrow' : row' ∈ x.sessions) (hsome : row.operationID = some operationID)
    (hsome' : row'.operationID = some operationID) : row = row' := by
  apply eq_of_key hrow hrow'
  rw [(h row hrow operationID).mpr hsome, (h row' hrow' operationID).mpr hsome']

theorem find_eq_some (h : x.Named) : x.find operationID = some row ↔ row ∈ x.sessions ∧ row.operationID = some operationID := by
  constructor
  · intro hfind
    exact ⟨mem_of_find?_eq_some hfind, by simpa using find?_some hfind⟩
  · rintro ⟨hrow, hsome⟩
    cases hfind : x.find operationID with
    | none =>
      have hnot := List.find?_eq_none.mp hfind row hrow
      simp [hsome] at hnot
    | some found =>
      have hfound : found ∈ x.sessions := mem_of_find?_eq_some hfind
      have hsome' : found.operationID = some operationID := by simpa using find?_some hfind
      rw [h.eq hfound hrow hsome' hsome]

theorem find_eq_none : x.find operationID = none ↔ ∀ row ∈ x.sessions, row.operationID ≠ some operationID := by
  simp [Index.find, List.find?_eq_none, mem_rows]

structure Moves (x x' : Index) : Prop where
  named : x'.Named
  cancelled : ∀ operationID ∈ x.cancelled, operationID ∈ x'.cancelled
  kept : ∀ row ∈ x.sessions, ∀ creation, row.creation = some creation → creation.operationID ∉ x'.cancelled →
    ∃ row' ∈ x'.sessions, row'.id = row.id ∧ row'.creation = some creation
  came : ∀ row' ∈ x'.sessions, ∀ creation, row'.creation = some creation →
    (∃ row ∈ x.sessions, row.id = row'.id ∧ row.creation = some creation) ∨
      (x.find creation.operationID = none ∧ creation.operationID ∉ x.cancelled)

theorem Moves.refl (h : x.Named) : Moves x x :=
  ⟨h, fun _ hmem => hmem, fun row hrow _ hsome _ => ⟨row, hrow, rfl, hsome⟩, fun row hrow _ hsome => .inl ⟨row, hrow, rfl, hsome⟩⟩

theorem Moves.trans (h : Moves x x') (h' : Moves x' y) : Moves x y where
  named := h'.named
  cancelled := fun operationID hmem => h'.cancelled _ (h.cancelled _ hmem)
  kept := by
    intro row hrow creation hsome hnot
    obtain ⟨row', hrow', hid, hsome'⟩ := h.kept row hrow creation hsome fun hmem => hnot (h'.cancelled _ hmem)
    obtain ⟨row'', hrow'', hid', hsome''⟩ := h'.kept row' hrow' creation hsome' hnot
    exact ⟨row'', hrow'', hid'.trans hid, hsome''⟩
  came := by
    intro row'' hrow'' creation hsome
    rcases h'.came row'' hrow'' creation hsome with ⟨row', hrow', hid', hsome'⟩ | ⟨hnone, hnot⟩
    · rcases h.came row' hrow' creation hsome' with ⟨row, hrow, hid, hsome''⟩ | hnew
      · exact .inl ⟨row, hrow, hid.trans hid', hsome''⟩
      · exact .inr hnew
    · refine .inr ⟨find_eq_none.mpr fun row hrow hoperation => ?_, fun hmem => hnot (h.cancelled _ hmem)⟩
      obtain ⟨c, hc, hcid⟩ := map_eq_some_iff.mp hoperation
      obtain ⟨row', hrow', -, hsome'⟩ := h.kept row hrow c hc (hcid.symm ▸ hnot)
      apply find_eq_none.mp hnone row' hrow'
      rw [StoredSession.operationID, hsome', map_some, hcid]

def Index.cancel (x : Index) (operationID : String) : Index := { x with cancelled := x.cancelled ++ [operationID] }

def Index.put (x : Index) (session : StoredSession) : Index := { x with sessions := x.sessions.set session }

def Index.drop (x : Index) (id : String) : Index := { x with sessions := x.sessions.delete fun row => row.id = id }

theorem moves_cancel (h : x.Named) (operationID : String) : Moves x (x.cancel operationID) where
  named := h
  cancelled := fun _ hmem => mem_append_left _ hmem
  kept := fun row hrow _ hsome _ => ⟨row, hrow, rfl, hsome⟩
  came := fun row hrow _ hsome => .inl ⟨row, hrow, rfl, hsome⟩

theorem moves_put (h : x.Named) (hsession : session.Named) (hcame : ∀ creation, session.creation = some creation →
    (∃ row ∈ x.sessions, row.id = session.id ∧ row.creation = some creation) ∨
      (x.find creation.operationID = none ∧ creation.operationID ∉ x.cancelled)) : Moves x (x.put session) where
  named := forall_mem_set hsession h
  cancelled := fun _ hmem => hmem
  kept := by
    intro row hrow creation hsome _
    by_cases hid : row.id = session.id
    · refine ⟨session, Table.mem_set.mpr (.inl rfl), hid.symm, ?_⟩
      have hoperation : row.operationID = some creation.operationID := by simp [StoredSession.operationID, hsome]
      have hmine := (hsession creation.operationID).mp (hid.symm.trans ((h row hrow creation.operationID).mpr hoperation))
      obtain ⟨c, hc, hcid⟩ := map_eq_some_iff.mp hmine
      rcases hcame c hc with ⟨row', hrow', hid', hsome'⟩ | ⟨hnone, -⟩
      · have hsame : row' = row := eq_of_key hrow' hrow (hid'.trans hid.symm)
        rw [hsame, hsome] at hsome'
        rw [hc, hsome']
      · exact absurd (hcid ▸ hoperation) (find_eq_none.mp hnone row hrow)
    · exact ⟨row, Table.mem_set.mpr (.inr ⟨hrow, hid⟩), rfl, hsome⟩
  came := by
    intro row hrow creation hsome
    rcases Table.mem_set.mp hrow with rfl | ⟨hrow, -⟩
    · exact hcame creation hsome
    · exact .inl ⟨row, hrow, rfl, hsome⟩

theorem mem_drop : row ∈ (x.drop id).sessions ↔ row ∈ x.sessions ∧ row.id ≠ id := mem_delete

theorem moves_drop (h : x.Named) (hcancelled : ∀ operationID, id = sessionOf operationID → operationID ∈ x.cancelled) : Moves x (x.drop id) where
  named := fun row hrow => h row (mem_drop.mp hrow).1
  cancelled := fun _ hmem => hmem
  kept := by
    intro row hrow creation hsome hnot
    refine ⟨row, mem_drop.mpr ⟨hrow, fun hid => hnot ?_⟩, rfl, hsome⟩
    apply hcancelled
    rw [← hid]
    exact (h row hrow creation.operationID).mpr (by simp [StoredSession.operationID, hsome])
  came := fun row hrow _ hsome => .inl ⟨row, (mem_drop.mp hrow).1, rfl, hsome⟩

def Index.store (x : Index) : Store := ⟨x, x⟩

open Except

theorem cancelOperation_ok (h : x.store.cancelOperation operationID writes = .ok s) :
    (operationID ∈ x.cancelled ∧ s = x.store) ∨ s = (x.cancel operationID).store := by
  unfold Store.cancelOperation at h
  split at h
  · rename_i hmem
    exact .inl ⟨hmem, (ok.inj h).symm⟩
  · split at h
    · exact .inr (ok.inj h).symm
    · cases h

theorem set_ok (h : x.store.set session writes = .ok s) : s = (x.put session).store := by
  unfold Store.set at h
  split at h
  · exact (ok.inj h).symm
  · cases h

theorem operation_none (h : x.operation creation = .ok none) : creation.operationID ∉ x.cancelled ∧ x.find creation.operationID = none := by
  unfold Index.operation at h
  split at h
  · cases h
  · rename_i hnot
    split at h
    · rename_i hnone
      exact ⟨hnot, hnone⟩
    · split at h <;> cases h

theorem operation_some (h : x.operation creation = .ok (some stored)) : creation.operationID ∉ x.cancelled ∧
    x.find creation.operationID = some stored ∧ stored.creation.map Creation.input = some creation.input := by
  unfold Index.operation at h
  split at h
  · cases h
  · rename_i hnot
    split at h
    · cases h
    · rename_i existing hfind
      split at h
      · cases h
      · rename_i hinput
        obtain rfl := Option.some.inj (ok.inj h)
        exact ⟨hnot, hfind, not_not.mp hinput⟩

theorem operation_creation (hx : x.Named) (h : x.operation creation = .ok (some stored)) : stored ∈ x.sessions ∧ stored.creation = some creation := by
  obtain ⟨-, hfind, hinput⟩ := operation_some h
  obtain ⟨hmem, hoperation⟩ := (find_eq_some hx).mp hfind
  refine ⟨hmem, ?_⟩
  obtain ⟨c, hc, hcid⟩ := map_eq_some_iff.mp hoperation
  rw [hc] at hinput ⊢
  obtain ⟨cid, cinput⟩ := c
  obtain ⟨did, dinput⟩ := creation
  obtain rfl : cid = did := hcid
  obtain rfl : cinput = dinput := Option.some.inj hinput
  rfl

theorem createOnce_ok (h : x.store.createOnce session creation writes = .ok (stored, s)) :
    (x.operation creation = .ok (some stored) ∧ s = x.store) ∨
    (x.operation creation = .ok none ∧ stored = session ∧ s = (x.put session).store) := by
  unfold Store.createOnce at h
  split at h
  · cases h
  · rename_i existing hoperation
    obtain ⟨rfl, rfl⟩ := Prod.mk.inj (ok.inj h)
    exact .inl ⟨hoperation, rfl⟩
  · rename_i hoperation
    split at h
    · cases h
    · rename_i s' hset
      obtain ⟨rfl, rfl⟩ := Prod.mk.inj (ok.inj h)
      exact .inr ⟨hoperation, rfl, set_ok hset⟩

theorem cancelFor_ok (hx : x.Named) (h : x.store.cancelFor record writes = .ok s) : ∃ x', s = x'.store ∧ Moves x x' ∧ x'.sessions = x.sessions ∧
    ∀ creation, record.creation = some creation → creation.operationID ∈ x'.cancelled := by
  unfold Store.cancelFor at h
  split at h
  · rename_i hnone
    cases h
    exact ⟨x, rfl, .refl hx, rfl, by simp [hnone]⟩
  · rename_i creation hsome
    rcases cancelOperation_ok h with ⟨hmem, rfl⟩ | rfl
    · refine ⟨x, rfl, .refl hx, rfl, fun c hc => ?_⟩
      obtain rfl := Option.some.inj (hsome.symm.trans hc)
      exact hmem
    · refine ⟨x.cancel creation.operationID, rfl, moves_cancel hx _, rfl, fun c hc => ?_⟩
      obtain rfl := Option.some.inj (hsome.symm.trans hc)
      exact mem_append_right _ (mem_singleton.mpr rfl)

theorem delete_ok {writesOperation writesSessions : Bool} {result : Option Failure} (hx : x.Named)
    (hcancelled : ∀ operationID, id = sessionOf operationID → operationID ∈ x.cancelled)
    (h : x.store.delete id writesOperation writesSessions = (result, s)) :
    (result = none ∧ ((s = x.store ∧ x.sessions.find? id = none) ∨ s = (x.drop id).store)) ∨ (result ≠ none ∧ s = x.store) := by
  unfold Store.delete at h
  split at h
  · rename_i hnone
    obtain ⟨rfl, rfl⟩ := Prod.mk.inj h
    exact .inl ⟨rfl, .inl ⟨rfl, hnone⟩⟩
  · rename_i session hfind
    obtain ⟨hmem, rfl⟩ := find?_eq_some.mp hfind
    have hsame : x.store.cancelFor session writesOperation = .ok x.store := by
      unfold Store.cancelFor
      split
      · rfl
      · rename_i creation hsome
        have hoperation : session.operationID = some creation.operationID := by simp [StoredSession.operationID, hsome]
        exact if_pos (hcancelled _ ((hx session hmem _).mpr hoperation))
    rw [hsame] at h
    dsimp only at h
    split at h
    · obtain ⟨rfl, rfl⟩ := Prod.mk.inj h
      exact .inl ⟨rfl, .inr rfl⟩
    · obtain ⟨rfl, rfl⟩ := Prod.mk.inj h
      exact .inr ⟨by simp, rfl⟩

def StoredSession.KeptIn (record : StoredSession) (x : Index) : Prop :=
  ∀ creation, record.creation = some creation → ∃ row ∈ x.sessions, row.id = record.id ∧ row.creation = some creation

structure Running.Sound (r : Running) (x : Index) : Prop where
  memory : r.memory = x
  named : ∀ record ∈ r.live, record.Named
  live : ∀ record ∈ r.live, record.KeptIn x
  record : ∀ deletion ∈ r.deletions, deletion.record.id = deletion.id ∧ deletion.record.Named ∧ deletion.record.KeptIn x
  cancelled : ∀ deletion ∈ r.deletions, ∀ operationID, deletion.id = sessionOf operationID → operationID ∈ x.cancelled
  apart : ∀ deletion ∈ r.deletions, ∀ record ∈ r.live, record.id ≠ deletion.id

structure World.Sound (w : World) : Prop where
  named : w.disk.Named
  running : ∀ r, w.running = some r → r.Sound w.disk

def Keeps (x x' : Index) : Prop := ∀ record : StoredSession, record.KeptIn x → record.KeptIn x'

theorem keeps_of_sessions (h : x'.sessions = x.sessions) : Keeps x x' := by
  intro _ hkept creation hsome
  rw [h]
  exact hkept creation hsome

theorem keeps_put (h : x.Named) (hsession : session.Named) (hcame : ∀ creation, session.creation = some creation →
    (∃ row ∈ x.sessions, row.id = session.id ∧ row.creation = some creation) ∨ x.find creation.operationID = none) : Keeps x (x.put session) := by
  intro _ hkept creation hsome
  obtain ⟨row, hrow, hid, hcreation⟩ := hkept creation hsome
  by_cases hsame : row.id = session.id
  · refine ⟨session, Table.mem_set.mpr (.inl rfl), hsame.symm.trans hid, ?_⟩
    have hoperation : row.operationID = some creation.operationID := by simp [StoredSession.operationID, hcreation]
    have hmine := (hsession creation.operationID).mp (hsame.symm.trans ((h row hrow creation.operationID).mpr hoperation))
    obtain ⟨c, hc, hcid⟩ := map_eq_some_iff.mp hmine
    rcases hcame c hc with ⟨row', hrow', hid', hsome'⟩ | hnone
    · have hrows : row' = row := eq_of_key hrow' hrow (hid'.trans hsame.symm)
      rw [hrows, hcreation] at hsome'
      rw [hc, hsome']
    · exact absurd (hcid ▸ hoperation) (find_eq_none.mp hnone row hrow)
  · exact ⟨row, Table.mem_set.mpr (.inr ⟨hrow, hsame⟩), hid, hcreation⟩

theorem Running.Sound.moves (h : r.Sound x) (hkeeps : Keeps x x') (hmoves : Moves x x') : Running.Sound { r with memory := x' } x' :=
  { h with
    memory := rfl
    live := fun record hrecord => hkeeps record (h.live record hrecord)
    record := fun deletion hdeletion =>
      ⟨(h.record deletion hdeletion).1, (h.record deletion hdeletion).2.1, hkeeps _ (h.record deletion hdeletion).2.2⟩
    cancelled := fun deletion hdeletion operationID hid => hmoves.cancelled _ (h.cancelled deletion hdeletion operationID hid) }

theorem Running.Sound.setLive (h : r.Sound x) (hnamed : record.Named) (hkept : record.KeptIn x) (hapart : ∀ deletion ∈ r.deletions, record.id ≠ deletion.id)
    (creations : List Creation) : Running.Sound { r with live := r.live.set record, creations := creations } x :=
  { h with
    named := forall_mem_set hnamed h.named
    live := forall_mem_set hkept h.live
    apart := by
      intro deletion hdeletion other hother
      rcases Table.mem_set.mp hother with rfl | ⟨hother, -⟩
      · exact hapart deletion hdeletion
      · exact h.apart deletion hdeletion other hother }

theorem Running.Sound.drop (h : r.Sound x) (deletion : Deletion) :
    Running.Sound { r with deletions := r.deletions.delete fun row => row.id = deletion.id } x :=
  { h with
    record := fun other hother => h.record other (mem_delete.mp hother).1
    cancelled := fun other hother => h.cancelled other (mem_delete.mp hother).1
    apart := fun other hother => h.apart other (mem_delete.mp hother).1 }

theorem Running.Sound.restore {deletion : Deletion} (h : r.Sound x) (hdeletion : deletion ∈ r.deletions) : Running.Sound
    { r with live := r.live.set deletion.record, deletions := r.deletions.delete fun row => row.id = deletion.id } x := by
  obtain ⟨hid, hnamed, hkept⟩ := h.record deletion hdeletion
  refine (h.drop deletion).setLive hnamed hkept ?_ r.creations
  intro _ hother hsame
  exact (mem_delete.mp hother).2 (hsame.symm.trans hid)

theorem deleteSession_ok {r' : Running} (hx : x.Named) (h : r.Sound x) (hnamed : record.Named) (hkept : record.KeptIn x)
    (hdelete : r.deleteSession x record writes = .ok (x', r')) : Moves x x' ∧ x'.sessions = x.sessions ∧ r'.Sound x' ∧
      ∃ deletion ∈ r'.deletions, deletion.id = record.id := by
  unfold Running.deleteSession at hdelete
  split at hdelete
  · rename_i hhas
    obtain ⟨rfl, rfl⟩ := Prod.mk.inj (ok.inj hdelete)
    exact ⟨.refl hx, rfl, h, has_eq_true.mp hhas⟩
  · rename_i hhas
    have hnone : r.deletions.find? record.id = none := has_eq_false.mp ((Bool.not_eq_true _).mp hhas)
    rw [h.memory] at hdelete
    split at hdelete
    · cases hdelete
    · rename_i s hcancel
      obtain ⟨rfl, rfl⟩ := Prod.mk.inj (ok.inj hdelete)
      obtain ⟨x', rfl, hmoves, hsessions, hcancelled⟩ := cancelFor_ok hx hcancel
      have hkeeps : Keeps x x' := keeps_of_sessions hsessions
      have hnew : ∀ deletion, deletion ∈ r.deletions.insertOrIgnore ⟨record.id, record⟩ ↔ deletion ∈ r.deletions ∨ deletion = ⟨record.id, record⟩ := by
        intro deletion
        rw [mem_insertOrIgnore]
        simp [hnone]
      refine ⟨hmoves, hsessions, ?_, _, (hnew _).mpr (.inr rfl), rfl⟩
      have hbase := h.moves hkeeps hmoves
      constructor
      · rfl
      · exact fun other hother => hbase.named other (mem_delete.mp hother).1
      · exact fun other hother => hbase.live other (mem_delete.mp hother).1
      · intro deletion hdeletion
        rcases (hnew deletion).mp hdeletion with hdeletion | rfl
        · exact hbase.record deletion hdeletion
        · exact ⟨rfl, hnamed, hkeeps record hkept⟩
      · intro deletion hdeletion operationID hid
        rcases (hnew deletion).mp hdeletion with hdeletion | rfl
        · exact hbase.cancelled deletion hdeletion operationID hid
        · obtain ⟨creation, hcreation, rfl⟩ := map_eq_some_iff.mp ((hnamed operationID).mp hid)
          exact hcancelled creation hcreation
      · intro deletion hdeletion other hother
        obtain ⟨hother, hdifferent⟩ := mem_delete.mp hother
        rcases (hnew deletion).mp hdeletion with hdeletion | rfl
        · exact hbase.apart deletion hdeletion other hother
        · exact hdifferent

theorem kept_drop (hkept : record.KeptIn x) (hid : record.id ≠ id) : record.KeptIn (x.drop id) := by
  intro creation hsome
  obtain ⟨row, hrow, hrid, hcreation⟩ := hkept creation hsome
  exact ⟨row, mem_drop.mpr ⟨hrow, fun hsame => hid (hrid.symm.trans hsame)⟩, hrid, hcreation⟩

open StoredSession (Named cancelledIn)

theorem named_new (creation : Creation) (updatedAt : ℤ) (rest : String) :
    Named ⟨sessionOf creation.operationID, some creation, updatedAt, rest⟩ := by
  intro _
  constructor
  · intro hid
    rw [← sessionOf_inj hid]
    rfl
  · intro hsome
    rw [← Option.some.inj hsome]

theorem createOnce_moves {updatedAt : ℤ} {rest : String} (hx : x.Named)
    (honce : x.store.createOnce ⟨sessionOf creation.operationID, some creation, updatedAt, rest⟩ creation writes = .ok (stored, s)) :
    ∃ x', s = x'.store ∧ Moves x x' ∧ Keeps x x' ∧ stored ∈ x'.sessions ∧ stored.creation = some creation ∧ creation.operationID ∉ x.cancelled := by
  rcases createOnce_ok honce with ⟨hoperation, rfl⟩ | ⟨hoperation, rfl, rfl⟩
  · obtain ⟨hmem, hcreation⟩ := operation_creation hx hoperation
    exact ⟨x, rfl, .refl hx, fun _ h => h, hmem, hcreation, (operation_some hoperation).1⟩
  · obtain ⟨hnot, hnone⟩ := operation_none hoperation
    have hnamed := named_new creation updatedAt rest
    refine ⟨_, rfl, moves_put hx hnamed ?_, keeps_put hx hnamed ?_, Table.mem_set.mpr (.inl rfl), rfl, hnot⟩
    · intro c hc
      cases hc
      exact .inr ⟨hnone, hnot⟩
    · intro c hc
      cases hc
      exact .inr hnone

theorem frozen_ok {frozen : StoredSession} (hx : x.Named) (h : r.Sound x) (hstored : stored ∈ x.sessions) (hcreation : stored.creation = some creation)
    (hfrozen : frozen = { (r.live.find? (sessionOf creation.operationID)).getD stored with id := sessionOf creation.operationID }) :
    frozen.Named ∧ frozen.KeptIn x ∧ frozen.id = sessionOf creation.operationID := by
  have hoperation : stored.operationID = some creation.operationID := by simp [StoredSession.operationID, hcreation]
  have hid := (hx stored hstored creation.operationID).mpr hoperation
  cases hfind : r.live.find? (sessionOf creation.operationID) with
  | none =>
    have hsame : frozen = stored := by
      rw [hfrozen, hfind, getD_none, ← hid]
    rw [hsame]
    exact ⟨hx stored hstored, fun c hc => ⟨stored, hstored, rfl, hc⟩, hid⟩
  | some live =>
    obtain ⟨hlive, hliveID⟩ := find?_eq_some.mp hfind
    have hsame : frozen = live := by
      rw [hfrozen, hfind, getD_some, ← hliveID]
    rw [hsame]
    exact ⟨h.named live hlive, h.live live hlive, hliveID⟩

theorem Running.Sound.undisturbed (h : r.Sound x) (hnot : operationID ∉ x.cancelled) {deletion : Deletion} (hdeletion : deletion ∈ r.deletions) :
    sessionOf operationID ≠ deletion.id := fun hid => hnot (h.cancelled deletion hdeletion operationID hid.symm)

theorem createOnce_cancelled {updatedAt : ℤ} {rest : String}
    (honce : x.store.createOnce ⟨sessionOf creation.operationID, some creation, updatedAt, rest⟩ creation writes = .ok (stored, s)) :
    s.memory.cancelled = x.cancelled := by
  rcases createOnce_ok honce with ⟨-, rfl⟩ | ⟨-, -, rfl⟩ <;> rfl

theorem mem_start {disk : Index} (h : record ∈ (Running.start disk).live) :
    record ∈ disk.sessions ∧ record.cancelledIn disk.cancelled = false := by
  have hfold : ∀ (rows : List StoredSession) (t : Table StoredSession.id), record ∈ rows.foldl insertOrIgnore t → record ∈ t ∨ record ∈ rows := by
    intro rows
    induction rows with
    | nil => exact fun t ht => .inl ht
    | cons _ _ ih =>
      intro t ht
      rcases ih _ ht with ht | hmem
      · rcases mem_insertOrIgnore.mp ht with ht | ⟨rfl, -⟩
        · exact .inl ht
        · exact .inr (by simp)
      · exact .inr (mem_cons_of_mem _ hmem)
  rcases hfold _ _ h with hempty | hmem
  · exact absurd hempty (not_mem_empty record)
  · unfold Index.list at hmem
    obtain ⟨hrow, hlisted⟩ := mem_filter.mp ((mergeSort_perm _ _).mem_iff.mp hmem)
    exact ⟨hrow, by simpa using hlisted⟩

theorem put_ok (hx : x.Named) (hnamed : record.Named) (hkept : record.KeptIn x) :
    Moves x (x.put record) ∧ Keeps x (x.put record) ∧ record.KeptIn (x.put record) :=
  ⟨moves_put hx hnamed fun creation hsome => .inl (hkept creation hsome), keeps_put hx hnamed fun creation hsome => .inl (hkept creation hsome),
    fun _ hsome => ⟨record, Table.mem_set.mpr (.inl rfl), rfl, hsome⟩⟩

theorem plain_named (hcreation : session.creation = none) (hid : ∀ operationID, session.id ≠ sessionOf operationID) : session.Named := by
  intro operationID
  simp [hid operationID, StoredSession.operationID, hcreation]

theorem plain_kept (hcreation : session.creation = none) : session.KeptIn x := by
  intro _ hsome
  rw [hcreation] at hsome
  cases hsome

theorem apart_of_find {deletions : Table Deletion.id} (h : deletions.find? id = none) : ∀ deletion ∈ deletions, id ≠ deletion.id :=
  fun deletion hdeletion hsame => Table.find?_eq_none.mp h deletion hdeletion hsame.symm

theorem cancelOperation_moves (hx : x.Named) (h : x.store.cancelOperation operationID writes = .ok s) :
    ∃ x', s = x'.store ∧ Moves x x' ∧ x'.sessions = x.sessions ∧ operationID ∈ x'.cancelled := by
  rcases cancelOperation_ok h with ⟨hmem, rfl⟩ | rfl
  · exact ⟨x, rfl, .refl hx, rfl, hmem⟩
  · exact ⟨_, rfl, moves_cancel hx operationID, rfl, mem_append_right _ (mem_singleton.mpr rfl)⟩

theorem found_record (hx : x.Named) (h : r.Sound x) (hstored : stored ∈ x.sessions) :
    ((r.live.find? stored.id).getD stored).Named ∧ ((r.live.find? stored.id).getD stored).KeptIn x ∧
      ((r.live.find? stored.id).getD stored).id = stored.id := by
  cases hfind : r.live.find? stored.id with
  | none => exact ⟨hx stored hstored, fun creation hsome => ⟨stored, hstored, rfl, hsome⟩, rfl⟩
  | some live =>
    obtain ⟨hlive, hid⟩ := find?_eq_some.mp hfind
    exact ⟨h.named live hlive, h.live live hlive, hid⟩

theorem step_sound {event : Event} (h : w.Sound) (hstep : Step w event w') : Moves w.disk w'.disk ∧ w'.Sound := by
  obtain ⟨hx, hrunning⟩ := h
  cases hstep with
  | @boots =>
    refine ⟨.refl hx, hx, ?_⟩
    intro r hr
    cases hr
    constructor
    · rfl
    · exact fun record hrecord => hx record (mem_start hrecord).1
    · exact fun record hrecord creation hsome => ⟨record, (mem_start hrecord).1, rfl, hsome⟩
    · exact forall_mem_empty
    · exact forall_mem_empty
    · exact forall_mem_empty
  | crashes => exact ⟨.refl hx, hx, by simp⟩
  | @finds | refuses | cancelFails | deleteFails => exact ⟨.refl hx, hx, hrunning⟩
  | @begins _ r | @abandons _ r | @commitFails _ r =>
    refine ⟨.refl hx, hx, ?_⟩
    intro r' hr
    cases hr
    have hr := hrunning r rfl
    exact ⟨hr.memory, hr.named, hr.live, hr.record, hr.cancelled, hr.apart⟩
  | @commits _ r _ _ _ _ _ _ _ _ _ honce hfrozen hset =>
    have hr := hrunning r rfl
    rw [hr.memory] at honce
    obtain ⟨x', rfl, hmoves, hkeeps, hstored, hcreation, hnot⟩ := createOnce_moves hx honce
    have hr' := hr.moves hkeeps hmoves
    obtain ⟨hnamed, hkept, hid⟩ := frozen_ok hmoves.named hr' hstored hcreation hfrozen
    obtain rfl := set_ok hset
    obtain ⟨hmoves', hkeeps', hkept'⟩ := put_ok hmoves.named hnamed hkept
    refine ⟨hmoves.trans hmoves', hmoves'.named, ?_⟩
    intro r' hr'
    cases hr'
    apply ((hr.moves hkeeps hmoves).moves hkeeps' hmoves').setLive hnamed hkept'
    intro deletion hdeletion
    rw [hid]
    exact hr.undisturbed hnot hdeletion
  | @persistFails _ r _ _ _ _ _ _ _ _ honce hfrozen =>
    have hr := hrunning r rfl
    rw [hr.memory] at honce
    obtain ⟨x', rfl, hmoves, hkeeps, hstored, hcreation, hnot⟩ := createOnce_moves hx honce
    obtain ⟨hnamed, hkept, hid⟩ := frozen_ok hmoves.named (hr.moves hkeeps hmoves) hstored hcreation hfrozen
    refine ⟨hmoves, hmoves.named, ?_⟩
    intro r' hr'
    cases hr'
    apply (hr.moves hkeeps hmoves).setLive hnamed hkept
    intro deletion hdeletion
    rw [hid]
    exact hr.undisturbed hnot hdeletion
  | @diesCreating _ r _ _ _ _ _ _ _ honce =>
    have hr := hrunning r rfl
    rw [hr.memory] at honce
    obtain ⟨x', rfl, hmoves, -⟩ := createOnce_moves hx honce
    exact ⟨hmoves, hmoves.named, by simp⟩
  | @plain _ r _ _ hcreation hid _ hdeletions hset =>
    have hr := hrunning r rfl
    rw [hr.memory] at hset
    obtain rfl := set_ok hset
    have hnamed := plain_named hcreation hid
    obtain ⟨hmoves, hkeeps, hkept⟩ := put_ok hx hnamed (plain_kept hcreation)
    refine ⟨hmoves, hmoves.named, ?_⟩
    intro r' hr'
    cases hr'
    exact (hr.moves hkeeps hmoves).setLive hnamed hkept (apart_of_find hdeletions) r.creations
  | @plainFails _ r _ hcreation hid _ hdeletions =>
    refine ⟨.refl hx, hx, ?_⟩
    intro r' hr'
    cases hr'
    exact (hrunning r rfl).setLive (plain_named hcreation hid) (plain_kept hcreation) (apart_of_find hdeletions) r.creations
  | @persists _ r record updatedAt rest _ hlive hset =>
    have hr := hrunning r rfl
    rw [hr.memory] at hset
    obtain rfl := set_ok hset
    have hnamed : Named { record with updatedAt := updatedAt, rest := rest } := (hr.named record hlive).congr rfl rfl
    obtain ⟨hmoves, hkeeps, hkept⟩ := put_ok hx hnamed (hr.live record hlive)
    refine ⟨hmoves, hmoves.named, ?_⟩
    intro r' hr'
    cases hr'
    exact (hr.moves hkeeps hmoves).setLive hnamed hkept (fun deletion hdeletion => hr.apart deletion hdeletion record hlive) r.creations
  | @loses _ r record updatedAt rest hlive =>
    have hr := hrunning r rfl
    refine ⟨.refl hx, hx, ?_⟩
    intro r' hr'
    cases hr'
    have hnamed : Named { record with updatedAt := updatedAt, rest := rest } := (hr.named record hlive).congr rfl rfl
    exact hr.setLive hnamed (hr.live record hlive) (fun deletion hdeletion => hr.apart deletion hdeletion record hlive) r.creations
  | @cancels _ r _ _ _ hcancel =>
    have hr := hrunning r rfl
    rw [hr.memory] at hcancel
    obtain ⟨x', rfl, hmoves, hsessions, -⟩ := cancelOperation_moves hx hcancel
    refine ⟨hmoves, hmoves.named, ?_⟩
    intro r' hr'
    cases hr'
    exact hr.moves (keeps_of_sessions hsessions) hmoves
  | @cancelsStored _ _ r _ _ _ _ _ _ hcancel hstored hdelete =>
    have hr := hrunning r rfl
    rw [hr.memory] at hcancel
    obtain ⟨_, rfl, hmoves, hsessions, -⟩ := cancelOperation_moves hx hcancel
    have hr₁ := hr.moves (keeps_of_sessions hsessions) hmoves
    obtain ⟨hmem, -⟩ := (find_eq_some hmoves.named).mp hstored
    obtain ⟨hnamed, hkept, -⟩ := found_record hmoves.named hr₁ hmem
    obtain ⟨hmoves', -, hr₂, -⟩ := deleteSession_ok hmoves.named hr₁ hnamed hkept hdelete
    refine ⟨hmoves.trans hmoves', hmoves'.named, ?_⟩
    intro r'' hr''
    cases hr''
    exact hr₂
  | @deletes _ _ r _ record _ hlive hdelete =>
    have hr := hrunning r rfl
    obtain ⟨hmoves, -, hr', -⟩ := deleteSession_ok hx hr (hr.named record hlive) (hr.live record hlive) hdelete
    refine ⟨hmoves, hmoves.named, ?_⟩
    intro _ hr''
    cases hr''
    exact hr'
  | @finishes _ r deletion _ _ _ hdeletion hdelete =>
    have hr := hrunning r rfl
    rw [hr.memory] at hdelete
    rcases delete_ok hx (hr.cancelled deletion hdeletion) hdelete with ⟨-, ⟨rfl, -⟩ | rfl⟩ | ⟨hfailed, -⟩
    · refine ⟨.refl hx, hx, ?_⟩
      intro r' hr'
      cases hr'
      have hdropped := hr.drop deletion
      exact { hdropped with memory := rfl }
    · have hmoves := moves_drop hx (hr.cancelled deletion hdeletion)
      refine ⟨hmoves, hmoves.named, ?_⟩
      intro r' hr'
      cases hr'
      constructor
      · rfl
      · exact hr.named
      · exact fun record hrecord => kept_drop (hr.live record hrecord) (hr.apart deletion hdeletion record hrecord)
      · intro other hother
        obtain ⟨hother, hdifferent⟩ := mem_delete.mp hother
        obtain ⟨hid, hnamed, hkept⟩ := hr.record other hother
        exact ⟨hid, hnamed, kept_drop hkept fun hsame => hdifferent (hid.symm.trans hsame)⟩
      · exact fun other hother => hr.cancelled other (mem_delete.mp hother).1
      · exact fun other hother => hr.apart other (mem_delete.mp hother).1
    · exact absurd rfl hfailed
  | @restores _ r deletion _ _ _ _ hdeletion hdelete =>
    have hr := hrunning r rfl
    rw [hr.memory] at hdelete
    rcases delete_ok hx (hr.cancelled deletion hdeletion) hdelete with ⟨hnone, -⟩ | ⟨-, rfl⟩
    · cases hnone
    · refine ⟨.refl hx, hx, ?_⟩
      intro r' hr'
      cases hr'
      have hrestored := hr.restore hdeletion
      exact { hrestored with memory := rfl }
  | @closeFails _ r _ hdeletion =>
    refine ⟨.refl hx, hx, ?_⟩
    intro _ hr'
    cases hr'
    exact (hrunning r rfl).restore hdeletion
  | @diesDeleting _ r deletion _ _ hdeletion hdelete =>
    have hr := hrunning r rfl
    rw [hr.memory] at hdelete
    rcases delete_ok hx (hr.cancelled deletion hdeletion) hdelete with ⟨hnone, -⟩ | ⟨-, rfl⟩
    · cases hnone
    · exact ⟨.refl hx, hx, by simp⟩

theorem operationID_of_creation (h : row.creation = some creation) : row.operationID = some creation.operationID := by
  rw [StoredSession.operationID, h, map_some]

def Index.Settled (x : Index) (id : String) (creation : Creation) : Prop :=
  (∃ row ∈ x.sessions, row.id = id ∧ row.creation = some creation) ∨
    (creation.operationID ∈ x.cancelled ∧ x.find creation.operationID = none)

theorem Moves.settled (hmoves : Moves x x') (hx : x.Named) (h : x.Settled id creation) : x'.Settled id creation := by
  rcases h with ⟨row, hrow, hid, hcreation⟩ | ⟨hmem, hnone⟩
  · cases hfind : x'.find creation.operationID with
    | some row' =>
      left
      obtain ⟨hrow', hoperation⟩ := (find_eq_some hmoves.named).mp hfind
      obtain ⟨c, hc, hcid⟩ := map_eq_some_iff.mp hoperation
      rcases hmoves.came row' hrow' c hc with ⟨row₀, hrow₀, hid₀, hc₀⟩ | ⟨hnone, -⟩
      · have hsame : row₀ = row :=
          hx.eq hrow₀ hrow (operationID_of_creation hc₀) (hcid ▸ operationID_of_creation hcreation)
        rw [hsame] at hid₀ hc₀
        exact ⟨row', hrow', hid₀.symm.trans hid, hc.trans (hc₀.symm.trans hcreation)⟩
      · exact absurd (hcid ▸ operationID_of_creation hcreation) (find_eq_none.mp hnone row hrow)
    | none =>
      right
      refine ⟨by_contra fun hnot => ?_, hfind⟩
      obtain ⟨row', hrow', -, hcreation'⟩ := hmoves.kept row hrow creation hcreation hnot
      exact find_eq_none.mp hfind row' hrow' (operationID_of_creation hcreation')
  · right
    refine ⟨hmoves.cancelled _ hmem, find_eq_none.mpr fun row hrow hoperation => ?_⟩
    obtain ⟨c, hc, hcid⟩ := map_eq_some_iff.mp hoperation
    rcases hmoves.came row hrow c hc with ⟨row₀, hrow₀, -, hc₀⟩ | ⟨-, hnot⟩
    · exact find_eq_none.mp hnone row₀ hrow₀ (hcid ▸ operationID_of_creation hc₀)
    · exact hnot (hcid ▸ hmem)

theorem runs_sound {more : List Event} (h : w.Sound) (hrun : Execution Step w more w') : Moves w.disk w'.disk ∧ w'.Sound := by
  have hall : Moves w.disk w'.disk ∧ w'.Sound := by
    apply hrun.invariant (I := fun w' => Moves w.disk w'.disk ∧ w'.Sound)
    · exact ⟨.refl h.named, h⟩
    · rintro u _ v ⟨hmoves, hsound⟩ hstep
      obtain ⟨hmoves', hsound'⟩ := step_sound hsound hstep
      exact ⟨hmoves.trans hmoves', hsound'⟩
  exact hall

theorem created_step (h : w.Sound) (hstep : Step w (.created creation id) w') : id = sessionOf creation.operationID ∧
    creation.operationID ∉ w.disk.cancelled ∧ (∀ row ∈ w.disk.sessions, row.operationID = some creation.operationID → row.creation = some creation) ∧
    ∃ row ∈ w'.disk.sessions, row.id = id ∧ row.creation = some creation := by
  obtain ⟨hmoves, hsound⟩ := step_sound h hstep
  obtain ⟨hx, hrunning⟩ := h
  generalize hevent : Event.created creation id = event at hstep
  have hold : ∀ row' ∈ w'.disk.sessions, row'.id = sessionOf creation.operationID → row'.creation = some creation → creation.operationID ∉ w'.disk.cancelled →
      ∀ row ∈ w.disk.sessions, row.operationID = some creation.operationID → row.creation = some creation := by
    intro row' hrow' _ hcreation' hnot row hrow hoperation
    obtain ⟨c, hc, hcid⟩ := map_eq_some_iff.mp hoperation
    obtain ⟨row'', hrow'', -, hc''⟩ := hmoves.kept row hrow c hc (hcid.symm ▸ hnot)
    have hsame : row'' = row' :=
      hsound.named.eq hrow'' hrow' (operationID_of_creation hc'') (hcid.symm ▸ operationID_of_creation hcreation')
    rw [hsame, hcreation'] at hc''
    rw [hc, hc'']
  cases hstep with
  | @finds _ r _ existing hoperation =>
    obtain ⟨rfl, rfl⟩ := Event.created.inj hevent
    rw [(hrunning r rfl).memory] at hoperation
    obtain ⟨hmem, hcreation⟩ := operation_creation hx hoperation
    have hid := (hx existing hmem _).mpr (operationID_of_creation hcreation)
    have hnot := (operation_some hoperation).1
    exact ⟨hid, hnot, hold existing hmem hid hcreation hnot, existing, hmem, rfl, hcreation⟩
  | @commits disk r creation _ _ _ _ stored _ _ _ honce hfrozen hset =>
    obtain ⟨rfl, rfl⟩ := Event.created.inj hevent
    have hr := hrunning r rfl
    rw [hr.memory] at honce
    have hcancelled := createOnce_cancelled honce
    obtain ⟨x', rfl, hmoves', hkeeps, hstored, hcreation, hnot⟩ := createOnce_moves hx honce
    obtain ⟨hnamed, hkept, _⟩ := frozen_ok hmoves'.named (hr.moves hkeeps hmoves') hstored hcreation hfrozen
    obtain rfl := set_ok hset
    obtain ⟨-, hkeeps', -⟩ := put_ok hmoves'.named hnamed hkept
    have hstoredID := (hmoves'.named stored hstored _).mpr (operationID_of_creation hcreation)
    obtain ⟨row, hrow, hrowID, hrowCreation⟩ := hkeeps' stored (fun c hc => ⟨stored, hstored, rfl, hc⟩) creation hcreation
    refine ⟨rfl, hnot, ?_, row, hrow, hrowID.trans hstoredID, hrowCreation⟩
    apply hold row hrow (hrowID.trans hstoredID) hrowCreation
    change creation.operationID ∉ x'.cancelled
    change x'.cancelled = disk.cancelled at hcancelled
    rw [hcancelled]
    exact hnot
  | _ => cases hevent

theorem cancelled_step (h : w.Sound) (hstep : Step w (.cancelled operationID) w') : operationID ∈ w'.disk.cancelled := by
  obtain ⟨hx, hrunning⟩ := h
  generalize hevent : Event.cancelled operationID = event at hstep
  cases hstep with
  | @cancels _ r _ _ _ hcancel =>
    obtain rfl := Event.cancelled.inj hevent
    rw [(hrunning r rfl).memory] at hcancel
    obtain ⟨x', rfl, -, -, hmem⟩ := cancelOperation_moves hx hcancel
    exact hmem
  | @cancelsStored _ _ r _ _ _ _ _ _ hcancel hstored hdelete =>
    obtain rfl := Event.cancelled.inj hevent
    have hr := hrunning r rfl
    rw [hr.memory] at hcancel
    obtain ⟨_, rfl, hmoves, hsessions, hmem⟩ := cancelOperation_moves hx hcancel
    have hr' := hr.moves (keeps_of_sessions hsessions) hmoves
    obtain ⟨hnamed, hkept, -⟩ := found_record hmoves.named hr' ((find_eq_some hmoves.named).mp hstored).1
    exact (deleteSession_ok hmoves.named hr' hnamed hkept hdelete).1.cancelled _ hmem
  | _ => cases hevent

theorem deleted_step (h : w.Sound) (hstep : Step w (.deleted (sessionOf operationID)) w') :
    operationID ∈ w'.disk.cancelled ∧ w'.disk.find operationID = none := by
  obtain ⟨hmoves, hsound⟩ := step_sound h hstep
  obtain ⟨hx, hrunning⟩ := h
  generalize hevent : Event.deleted (sessionOf operationID) = event at hstep
  cases hstep with
  | @finishes _ r deletion _ _ _ hdeletion hdelete =>
    have hid := Event.deleted.inj hevent
    have hr := hrunning r rfl
    rw [hr.memory] at hdelete
    refine ⟨hmoves.cancelled _ (hr.cancelled deletion hdeletion operationID hid.symm), find_eq_none.mpr fun row hrow hoperation => ?_⟩
    have hrowID := ((hsound.named row hrow) operationID).mpr hoperation
    rcases delete_ok hx (hr.cancelled deletion hdeletion) hdelete with ⟨-, ⟨rfl, hnone⟩ | rfl⟩ | ⟨hfailed, -⟩
    · exact Table.find?_eq_none.mp hnone row hrow (hrowID.trans hid)
    · exact (mem_drop.mp hrow).2 (hrowID.trans hid)
    · exact hfailed rfl
  | _ => cases hevent

theorem conflict_step {other : Creation} {event : Event} (h : w.Sound) (hrow : row ∈ w.disk.sessions) (hcreation : row.creation = some creation)
    (hoperation : other.operationID = creation.operationID) (hother : other ≠ creation) (hstep : Step w event w') :
    (∀ id, event ≠ .created other id) ∧ event ≠ .begun other ∧ ∀ failure, event = .rejected other failure → w'.disk = w.disk := by
  have hfind : w.disk.find other.operationID = some row :=
    (find_eq_some h.named).mpr ⟨hrow, hoperation ▸ operationID_of_creation hcreation⟩
  refine ⟨?_, ?_, ?_⟩
  · rintro _ rfl
    have hsame := (created_step h hstep).2.2.1 row hrow (hoperation ▸ operationID_of_creation hcreation)
    rw [hcreation] at hsame
    exact hother (Option.some.inj hsame).symm
  · rintro rfl
    generalize hevent : Event.begun other = event at hstep
    cases hstep with
    | @begins _ r _ hnone =>
      obtain rfl := Event.begun.inj hevent
      rw [(h.running r rfl).memory] at hnone
      have hfind' := (operation_none hnone).2
      rw [hfind] at hfind'
      cases hfind'
    | _ => cases hevent
  · rintro failure rfl
    generalize hevent : Event.rejected other failure = event at hstep
    cases hstep with
    | refuses => rfl
    | @persistFails _ r _ _ _ _ _ _ _ _ honce =>
      obtain ⟨rfl, -⟩ := Event.rejected.inj hevent
      rw [(h.running r rfl).memory] at honce
      rcases createOnce_ok honce with ⟨hsome, -⟩ | ⟨hnone, -⟩
      · obtain ⟨hstored, hsame⟩ := operation_creation h.named hsome
        have hrows := h.named.eq hrow hstored (operationID_of_creation hcreation) (hoperation ▸ operationID_of_creation hsame)
        rw [← hrows, hcreation] at hsame
        exact absurd (Option.some.inj hsame).symm hother
      · have hfind' := (operation_none hnone).2
        rw [hfind] at hfind'
        cases hfind'
    | commitFails => rfl
    | _ => cases hevent

theorem not_mem_list (h : operationID ∈ x.cancelled) (hrow : row ∈ x.list) : row.operationID ≠ some operationID := by
  intro hoperation
  unfold Index.list at hrow
  obtain ⟨-, hlisted⟩ := mem_filter.mp ((mergeSort_perm _ _).mem_iff.mp hrow)
  simp [cancelledIn, hoperation, h] at hlisted

theorem not_mem_start (h : operationID ∈ x.cancelled) (hrecord : record ∈ (Running.start x).live) : record.operationID ≠ some operationID := by
  intro hoperation
  have hlisted := (mem_start hrecord).2
  simp [cancelledIn, hoperation, h] at hlisted

theorem lookup_ready : x.lookupOperation operationID = some (some row, .ready) ↔ x.find operationID = some row ∧ operationID ∉ x.cancelled := by
  unfold Index.lookupOperation
  cases x.find operationID <;> by_cases hmem : operationID ∈ x.cancelled <;> simp [hmem]

theorem lookup_deleting : x.lookupOperation operationID = some (some row, .deleting) ↔ x.find operationID = some row ∧ operationID ∈ x.cancelled := by
  unfold Index.lookupOperation
  cases x.find operationID <;> by_cases hmem : operationID ∈ x.cancelled <;> simp [hmem]

theorem lookup_deleted : x.lookupOperation operationID = some (none, .deleted) ↔ x.find operationID = none ∧ operationID ∈ x.cancelled := by
  unfold Index.lookupOperation
  cases x.find operationID <;> by_cases hmem : operationID ∈ x.cancelled <;> simp [hmem]

theorem cancelFor_cancelled (h : ∀ creation, record.creation = some creation → creation.operationID ∈ x.cancelled) :
    x.store.cancelFor record writes = .ok x.store := by
  unfold Store.cancelFor
  split
  · rfl
  · rename_i creation hsome
    exact if_pos (h creation hsome)

theorem deleteSession_cancelled (hr : r.memory = x) (h : ∀ creation, record.creation = some creation → creation.operationID ∈ x.cancelled) :
    ∃ r', r.deleteSession x record writes = .ok (x, r') := by
  subst hr
  have hfor : Store.cancelFor ⟨r.memory, r.memory⟩ record writes = .ok ⟨r.memory, r.memory⟩ := cancelFor_cancelled h
  unfold Running.deleteSession
  split
  · exact ⟨r, rfl⟩
  · rw [hfor]
    exact ⟨_, rfl⟩

theorem delete_cancelled (hfind : x.sessions.find? id = some stored)
    (h : ∀ creation, stored.creation = some creation → creation.operationID ∈ x.cancelled) :
    x.store.delete id writes true = (none, (x.drop id).store) := by
  have hfor : x.store.cancelFor stored writes = .ok x.store := cancelFor_cancelled h
  have hmemory : x.store.memory.sessions.find? id = some stored := hfind
  unfold Store.delete
  rw [hmemory]
  dsimp only
  rw [hfor]
  rfl

theorem retried_steps {disk : Index} (h : World.Sound ⟨disk, some r⟩) (hfind : disk.find operationID = some stored)
    (hcancelled : operationID ∈ disk.cancelled) :
    ∃ w₁ w₂, Step ⟨disk, some r⟩ (.cancelled operationID) w₁ ∧ Step w₁ (.deleted (sessionOf operationID)) w₂ := by
  obtain ⟨hx, hrunning⟩ := h
  have hr := hrunning r rfl
  obtain ⟨hstored, hoperation⟩ := (find_eq_some hx).mp hfind
  have hid : stored.id = sessionOf operationID := (hx stored hstored operationID).mpr hoperation
  have hcancel : Store.cancelOperation ⟨r.memory, disk⟩ operationID true = .ok disk.store := by
    rw [hr.memory]
    exact if_pos hcancelled
  obtain ⟨hnamed, hkept, hrecordID⟩ := found_record hx hr hstored
  have hmine : ∀ creation, ((r.live.find? stored.id).getD stored).creation = some creation → creation.operationID ∈ disk.cancelled := by
    intro creation hsome
    have hsame := (hnamed operationID).mp (hrecordID.trans hid)
    rw [operationID_of_creation hsome] at hsame
    rw [Option.some.inj hsame]
    exact hcancelled
  have hdelete : ∃ r', Running.deleteSession { r with memory := disk } disk ((r.live.find? stored.id).getD stored) true = .ok (disk, r') :=
    deleteSession_cancelled rfl hmine
  obtain ⟨r', hdelete⟩ := hdelete
  have hr₁ : Running.Sound { r with memory := disk } disk := hr.moves (fun _ h => h) (.refl hx)
  obtain ⟨-, -, hr', deletion, hdeletion, hdeletionID⟩ := deleteSession_ok hx hr₁ hnamed hkept hdelete
  have hgone : Store.delete ⟨r'.memory, disk⟩ deletion.id true true = (none, (disk.drop deletion.id).store) := by
    rw [hr'.memory]
    apply delete_cancelled (find?_eq_some.mpr ⟨hstored, (hdeletionID.trans hrecordID).symm⟩)
    intro _ hsome
    rw [operationID_of_creation hsome] at hoperation
    rw [Option.some.inj hoperation]
    exact hcancelled
  have hstep := Step.finishes hdeletion hgone
  rw [hdeletionID.trans (hrecordID.trans hid)] at hstep
  exact ⟨_, _, .cancelsStored hcancel hfind hdelete, hstep⟩

/-- What holds of the operations in a state that a history of the runtime has led to. -/
structure Lawful (history : List Event) (w : World) : Prop where
  single : ∀ row ∈ w.disk.sessions, ∀ row' ∈ w.disk.sessions, ∀ operationID,
    row.operationID = some operationID → row'.operationID = some operationID → row = row'
  -- the session of an operation stays the one it is, until there is none for ever
  same : ∀ row ∈ w.disk.sessions, ∀ creation, row.creation = some creation → ∀ more w', Execution Step w more w' → w'.disk.Settled row.id creation
  gone : ∀ operationID, w.disk.lookupOperation operationID = some (none, .deleted) → ∀ more w', Execution Step w more w' →
    w'.disk.lookupOperation operationID = some (none, .deleted)
  created : ∀ creation id, .created creation id ∈ history → id = sessionOf creation.operationID ∧
    ∀ other id', .created other id' ∈ history → other.operationID = creation.operationID → other = creation
  conflict : ∀ row ∈ w.disk.sessions, ∀ creation, row.creation = some creation → ∀ other, other.operationID = creation.operationID → other ≠ creation →
    ∀ event w', Step w event w' →
      (∀ id, event ≠ .created other id) ∧ event ≠ .begun other ∧ ∀ failure, event = .rejected other failure → w'.disk = w.disk
  cancelled : ∀ operationID, .cancelled operationID ∈ history → (∀ row ∈ w.disk.list, row.operationID ≠ some operationID) ∧
    (∀ record ∈ (Running.start w.disk).live, record.operationID ≠ some operationID) ∧
    ∀ more w', Execution Step w more w' → ∀ creation id, .created creation id ∈ more → creation.operationID ≠ operationID
  ready : ∀ operationID row, w.disk.lookupOperation operationID = some (some row, .ready) ↔
    (row ∈ w.disk.sessions ∧ row.operationID = some operationID) ∧ operationID ∉ w.disk.cancelled
  deleting : ∀ operationID row, w.disk.lookupOperation operationID = some (some row, .deleting) ↔
    (row ∈ w.disk.sessions ∧ row.operationID = some operationID) ∧ operationID ∈ w.disk.cancelled
  deleted : ∀ operationID w', Step w (.deleted (sessionOf operationID)) w' → w'.disk.lookupOperation operationID = some (none, .deleted)
  retried : ∀ operationID row, w.disk.lookupOperation operationID = some (some row, .deleting) → w.running.isSome →
    ∃ w₁ w₂, Step w (.cancelled operationID) w₁ ∧ Step w₁ (.deleted (sessionOf operationID)) w₂
  agree : ∀ r, w.running = some r → r.memory = w.disk

structure Remembered (history : List Event) (w : World) : Prop where
  sound : w.Sound
  created : ∀ creation id, .created creation id ∈ history → id = sessionOf creation.operationID ∧ w.disk.Settled id creation
  cancelled : ∀ operationID, .cancelled operationID ∈ history → operationID ∈ w.disk.cancelled
  once : ∀ creation id other id', .created creation id ∈ history → .created other id' ∈ history → other.operationID = creation.operationID →
    other = creation

theorem settled_created {other : Creation} {id' : String} (h : w.Sound) (hsettled : w.disk.Settled id creation)
    (hstep : Step w (.created other id') w') (hoperation : other.operationID = creation.operationID) : other = creation := by
  obtain ⟨-, hnot, hrows, -⟩ := created_step h hstep
  rcases hsettled with ⟨row, hrow, -, hcreation⟩ | ⟨hcancelled, -⟩
  · have hsame := hrows row hrow (hoperation ▸ operationID_of_creation hcreation)
    rw [hcreation] at hsame
    exact (Option.some.inj hsame).symm
  · exact absurd (hoperation ▸ hcancelled) hnot

theorem remembered_step {history : List Event} {event : Event} (h : Remembered history w) (hstep : Step w event w') :
    Remembered (history ++ [event]) w' := by
  obtain ⟨hmoves, hsound⟩ := step_sound h.sound hstep
  constructor
  · exact hsound
  · intro creation id hmem
    rcases mem_append.mp hmem with hmem | hmem
    · obtain ⟨hid, hsettled⟩ := h.created creation id hmem
      exact ⟨hid, hmoves.settled h.sound.named hsettled⟩
    · obtain rfl := mem_singleton.mp hmem
      obtain ⟨hid, -, -, hrow⟩ := created_step h.sound hstep
      exact ⟨hid, .inl hrow⟩
  · intro operationID hmem
    rcases mem_append.mp hmem with hmem | hmem
    · exact hmoves.cancelled _ (h.cancelled operationID hmem)
    · obtain rfl := mem_singleton.mp hmem
      exact cancelled_step h.sound hstep
  · intro creation id other id' hmem hmem' hoperation
    rcases mem_append.mp hmem with hold | hnew <;> rcases mem_append.mp hmem' with hold' | hnew'
    · exact h.once creation id other id' hold hold' hoperation
    · obtain rfl := mem_singleton.mp hnew'
      exact settled_created h.sound (h.created creation id hold).2 hstep hoperation
    · obtain rfl := mem_singleton.mp hnew
      exact (settled_created h.sound (h.created other id' hold').2 hstep hoperation.symm).symm
    · rw [mem_singleton] at hnew hnew'
      exact (Event.created.inj (hnew'.trans hnew.symm)).1

theorem remembered {history : List Event} (hrun : Execution Step .start history w) : Remembered history w := by
  apply hrun.history (J := Remembered)
  · constructor
    · constructor
      · exact forall_mem_empty
      · exact fun r hr => by cases hr
    · exact fun _ _ hmem => absurd hmem not_mem_nil
    · exact fun _ hmem => absurd hmem not_mem_nil
    · exact fun _ _ _ _ hmem => absurd hmem not_mem_nil
  · exact fun _ _ _ _ _ hremembered hstep => remembered_step hremembered hstep

theorem not_created {more : List Event} (h : w.Sound) (hcancelled : operationID ∈ w.disk.cancelled) (hrun : Execution Step w more w') :
    ∀ creation id, .created creation id ∈ more → creation.operationID ≠ operationID := by
  have hall : ∀ event ∈ more, ∀ creation id, event = .created creation id → creation.operationID ≠ operationID := by
    induction hrun with
    | start => simp
    | @step _ _ _ _ hbefore hstep ih =>
      intro event' hmem creation id hevent
      rcases mem_append.mp hmem with hmem | hmem
      · exact ih event' hmem creation id hevent
      · obtain rfl := mem_singleton.mp hmem
        subst hevent
        obtain ⟨hmoves, hsound⟩ := runs_sound h hbefore
        rintro rfl
        exact (created_step hsound hstep).2.1 (hmoves.cancelled _ hcancelled)
  exact fun creation id hmem => hall _ hmem creation id rfl

/-- Whatever is created, cancelled, deleted and restarted in whatever order, an operation has one
session, or it is cancelled and has none. -/
theorem operations_lawful {history : List Event} (hrun : Execution Step .start history w) : Lawful history w := by
  have hremembered := remembered hrun
  have hsound := hremembered.sound
  constructor
  · intro row hrow _ hrow' operationID hsome hsome'
    exact hsound.named.eq hrow hrow' hsome hsome'
  · intro row hrow creation hsome more w' hmore
    exact (runs_sound hsound hmore).1.settled hsound.named (.inl ⟨row, hrow, rfl, hsome⟩)
  · intro operationID hlookup more w' hmore
    obtain ⟨hnone, hcancelled⟩ := lookup_deleted.mp hlookup
    have hmoves := (runs_sound hsound hmore).1
    refine lookup_deleted.mpr ⟨find_eq_none.mpr fun row hrow hoperation => ?_, hmoves.cancelled _ hcancelled⟩
    obtain ⟨creation, hcreation, hid⟩ := map_eq_some_iff.mp hoperation
    rcases hmoves.came row hrow creation hcreation with ⟨row₀, hrow₀, -, hcreation₀⟩ | ⟨-, hnot⟩
    · exact find_eq_none.mp hnone row₀ hrow₀ (hid ▸ operationID_of_creation hcreation₀)
    · exact hnot (hid ▸ hcancelled)
  · intro creation id hmem
    exact ⟨(hremembered.created creation id hmem).1, fun other id' hmem' => hremembered.once creation id other id' hmem hmem'⟩
  · intro row hrow _ hsome _ hoperation hother _ w' hstep
    exact conflict_step hsound hrow hsome hoperation hother hstep
  · intro operationID hmem
    have hcancelled := hremembered.cancelled operationID hmem
    exact ⟨fun row => not_mem_list hcancelled, fun record => not_mem_start hcancelled, fun more w' hmore => not_created hsound hcancelled hmore⟩
  · intro operationID row
    rw [lookup_ready, find_eq_some hsound.named]
  · intro operationID row
    rw [lookup_deleting, find_eq_some hsound.named]
  · intro operationID _ hstep
    obtain ⟨hcancelled, hnone⟩ := deleted_step hsound hstep
    exact lookup_deleted.mpr ⟨hnone, hcancelled⟩
  · intro _ _ hlookup hsome
    obtain ⟨hfind, hcancelled⟩ := lookup_deleting.mp hlookup
    obtain ⟨_, _⟩ := w
    obtain ⟨r, rfl⟩ := isSome_iff_exists.mp hsome
    exact retried_steps hsound hfind hcancelled
  · exact fun r hr => (hsound.running r hr).memory

namespace OperationExample

def report : Creation := ⟨"task_1", ⟨.codex, none, "Report", "ws_1", "builtin-codex", none, none, some .readOnly⟩⟩

def reportSession : StoredSession := ⟨sessionOf "task_1", some report, 1700000000000, ""⟩

def begun : Running := ⟨.empty, .empty, .empty, [report]⟩

def kept : Index := ⟨⟨[reportSession], by simp⟩, []⟩

def running : Running := ⟨kept, (Table.empty : Table StoredSession.id).set reportSession, .empty, []⟩

def closing : Running := ⟨kept.cancel "task_1", running.live.delete fun row => row.id = reportSession.id, ⟨[⟨reportSession.id, reportSession⟩], by simp⟩, []⟩

def closed : Running := ⟨(kept.cancel "task_1").drop reportSession.id, closing.live, closing.deletions.delete fun row => row.id = reportSession.id, []⟩

theorem report_created : Execution Step .start [.booted, .begun report, .created report reportSession.id] ⟨kept, some running⟩ := by
  have hstart : Running.start .empty = ⟨.empty, .empty, .empty, []⟩ := by simp [Running.start, Index.list, Index.empty, Table.empty]
  have hboots : Step .start .booted ⟨.empty, some ⟨.empty, .empty, .empty, []⟩⟩ := hstart ▸ .boots
  have hbegins : Step ⟨.empty, some ⟨.empty, .empty, .empty, []⟩⟩ (.begun report) ⟨.empty, some begun⟩ := .begins rfl
  have honce : Store.createOnce ⟨begun.memory, .empty⟩ reportSession report true = .ok (reportSession, kept.store) := rfl
  have hset : kept.store.set reportSession true = .ok kept.store := rfl
  have hcommits : Step ⟨.empty, some begun⟩ (.created report reportSession.id) ⟨kept, some running⟩ :=
    @Step.commits .empty begun report 1700000000000 "" true reportSession reportSession _ _ (mem_singleton.mpr rfl) honce rfl hset
  exact ((Execution.single hboots).step hbegins).step hcommits

theorem report_deleted : Step ⟨kept, some running⟩ (.cancelled "task_1") ⟨kept.cancel "task_1", some closing⟩ ∧
    Step ⟨kept.cancel "task_1", some closing⟩ (.deleted reportSession.id) ⟨closed.memory, some closed⟩ := by
  have hcancel : Store.cancelOperation kept.store "task_1" true = .ok (kept.cancel "task_1").store := rfl
  have hdelete : Running.deleteSession { running with memory := kept.cancel "task_1" } (kept.cancel "task_1") reportSession true =
      .ok (kept.cancel "task_1", closing) := rfl
  have hgone : (kept.cancel "task_1").store.delete reportSession.id true true = (none, closed.memory.store) := rfl
  have hmem : (⟨reportSession.id, reportSession⟩ : Deletion) ∈ closing.deletions := mem_singleton.mpr rfl
  exact ⟨.cancelsStored hcancel rfl hdelete, .finishes hmem hgone⟩

theorem report_lawful : Lawful [.booted, .begun report, .created report reportSession.id, .cancelled "task_1", .deleted reportSession.id]
    ⟨closed.memory, some closed⟩ :=
  operations_lawful ((report_created.step report_deleted.1).step report_deleted.2)

end OperationExample

end WorkAgent.Harness.SessionIndex
