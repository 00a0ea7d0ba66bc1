import WorkAgent.PublishedApps.Ports
import WorkAgent.PublishedApps.Gateway

namespace WorkAgent.PublishedApps

open Library
open Quota (Time)

variable {parse : String → Option URL} {db db' db'' : Database} {s s' : Store} {a updated : App} {row : AppRow} {id ownerSID : String}
  {first last port expected revision : ℤ}

def Database.Ident (db : Database) : Prop := ∀ row ∈ db.apps, row.payload.id = row.id

def Database.Reached (db : Database) (id : String) (revision : ℤ) : Prop := ∃ row ∈ db.apps, row.id = id ∧ revision ≤ row.payload.revision

structure Database.Later (db db' : Database) : Prop where
  ident : db'.Ident
  reached : ∀ row ∈ db.apps, db'.Reached row.id row.payload.revision

theorem Database.Reached.mono (h : db.Reached id revision) {lower : ℤ} (hle : lower ≤ revision) : db.Reached id lower := by
  obtain ⟨row, hrow, hid, _⟩ := h
  exact ⟨row, hrow, hid, by omega⟩

theorem Database.Later.move (h : db.Later db') (hreached : db.Reached id revision) : db'.Reached id revision := by
  obtain ⟨row, hrow, rfl, hrevision⟩ := hreached
  exact (h.reached row hrow).mono hrevision

theorem Database.Later.refl (h : db.Ident) : db.Later db := ⟨h, fun row hrow => ⟨row, hrow, rfl, by omega⟩⟩

theorem Database.Later.trans (h : db.Later db') (h' : db'.Later db'') : db.Later db'' :=
  ⟨h'.ident, fun row hrow => h'.move (h.reached row hrow)⟩

theorem later_of_apps (h : db.Ident) (happs : db'.apps = db.apps) : db.Later db' := by
  constructor
  · rw [Database.Ident, happs]
    exact h
  · intro row hrow
    rw [Database.Reached, happs]
    exact ⟨row, hrow, rfl, by omega⟩

theorem write_later (h : db.Ident) (hrevision : ∀ row ∈ db.apps, row.id = a.id → row.payload.revision ≤ a.revision) : db.Later (db.write a) := by
  constructor
  · intro row hrow
    rcases mem_write.mp hrow with ⟨r, -, hid, rfl⟩ | ⟨hrow, -⟩
    · exact hid.symm
    · exact h row hrow
  · intro row hrow
    by_cases hid : row.id = a.id
    · exact ⟨_, mem_write.mpr (.inl ⟨row, hrow, hid, rfl⟩), rfl, hrevision row hrow hid⟩
    · exact ⟨row, mem_write.mpr (.inr ⟨hrow, hid⟩), rfl, by omega⟩

theorem reserve_later (h : db.Ident) (hreserve : db.reserve a = .ok db') : db.Later db' := later_of_apps h (reserve_ok hreserve).1

theorem remap_later (apps : List App) {changed : List String} (h : db.Ident)
    (happs : ∀ a ∈ apps, ∀ row ∈ db.apps, row.id = a.id → row.payload.revision = a.revision) (hremap : db.remap port apps = .ok (changed, db')) :
    db.Later db' := by
  induction apps generalizing db port changed with
  | nil =>
    obtain ⟨-, rfl⟩ := Prod.mk.inj (Except.ok.inj hremap)
    exact .refl h
  | cons a rest ih =>
    let moved : App := { a with port := port, previewPort := port + 1 }
    unfold Database.remap at hremap
    cases hreserve : (db.write moved).reserve moved with
    | error => simp [moved, hreserve, bind, Except.bind] at hremap
    | ok next =>
      cases hrest : next.remap (port + 2) rest with
      | error => simp [moved, hreserve, hrest, bind, Except.bind] at hremap
      | ok result =>
        obtain ⟨_, _⟩ := result
        simp only [moved, hreserve, hrest, bind, Except.bind, pure, Except.pure] at hremap
        obtain ⟨-, rfl⟩ := Prod.mk.inj (Except.ok.inj hremap)
        have hwrite : db.Later (db.write moved) := write_later h fun row hrow hid => Int.le_of_eq (happs a (by simp) row hrow hid)
        have hnext := hwrite.trans (reserve_later hwrite.ident hreserve)
        apply hnext.trans
        apply ih hnext.ident _ hrest
        intro b hb row hrow hid
        rw [(reserve_ok hreserve).1] at hrow
        rcases mem_write.mp hrow with ⟨r, hr, hrid, rfl⟩ | ⟨hrow, -⟩
        · change a.revision = b.revision
          rw [← happs a (by simp) r hr hrid, happs b (by simp [hb]) r hr hid]
        · exact happs b (by simp [hb]) row hrow hid

theorem setRange_later {changed : List String} (h : s.db.Ident) (hset : s.setRange first last = .ok (changed, s')) : s.db.Later s'.db := by
  unfold Store.setRange at hset
  split at hset
  · cases hset
  · split at hset
    · cases hset
    · cases hremap : s.db.clear.remap first (s.db.live.map AppRow.payload) with
      | error => simp [hremap, bind, Except.bind] at hset
      | ok result =>
        obtain ⟨_, db⟩ := result
        simp only [hremap, bind, Except.bind, pure, Except.pure] at hset
        obtain ⟨-, rfl⟩ := Prod.mk.inj (Except.ok.inj hset)
        have hclear : s.db.clear.Ident := h
        have hlater : s.db.clear.Later db := by
          apply remap_later _ hclear _ hremap
          intro a ha _ hrow hid
          obtain ⟨r, hr, rfl⟩ := List.mem_map.mp ha
          have hmem := (mem_live.mp hr).1
          rw [Table.eq_of_key hrow hmem (hid.trans (h r hmem))]
        exact ⟨hlater.ident, hlater.reached⟩

theorem setMax_later {max : ℤ} (h : s.db.Ident) (hset : s.setMaxEmployeePorts max = .ok s') : s.db.Later s'.db := by
  unfold Store.setMaxEmployeePorts at hset
  split at hset
  · cases hset
  · cases hset
    exact later_of_apps h rfl

theorem create_later {made : App} {now : Time} (h : s.db.Ident) (hcreate : s.create parse a id now = .ok (made, s')) : s.db.Later s'.db := by
  obtain ⟨-, _, -, rfl, _, -, -, happs, -⟩ := create_ok hcreate
  constructor
  · intro row hrow
    rw [happs] at hrow
    rcases Table.mem_insertOrIgnore.mp hrow with hrow | ⟨rfl, -⟩
    · exact h row hrow
    · rfl
  · intro row hrow
    rw [Database.Reached, happs]
    exact ⟨row, Table.mem_insertOrIgnore.mpr (.inl hrow), rfl, by omega⟩

theorem update_later (h : s.db.Ident) (hupdate : s.update a expected = .ok (updated, s')) : s.db.Later s'.db ∧ updated.id = a.id ∧
    updated.revision = expected + 1 ∧ s'.db.Reached a.id updated.revision ∧ ∀ revision, s.db.Reached a.id revision → revision ≤ expected := by
  have hupdated : updated = { a with revision := expected + 1 } := by
    unfold Store.update at hupdate
    split at hupdate
    · cases hupdate
    · cases hget : s.db.get a.id with
      | error => simp [hget, bind, Except.bind] at hupdate
      | ok =>
        simp only [hget, bind, Except.bind, pure, Except.pure] at hupdate
        split at hupdate
        · cases hupdate
        · exact (Prod.mk.inj (Except.ok.inj hupdate)).1.symm
  obtain ⟨-, -, ⟨row, hrow, -, hid, -, hrevision⟩, rfl⟩ := update_ok hupdate
  have hmine : ∀ r ∈ s.db.apps, r.id = a.id → r = row := fun r hr hrid => Table.eq_of_key hr hrow (hrid.trans hid.symm)
  subst hupdated
  refine ⟨?_, rfl, rfl, ?_, ?_⟩
  · apply write_later h
    intro r hr hrid
    rw [hmine r hr hrid, hrevision]
    change expected ≤ expected + 1
    omega
  · exact ⟨_, mem_write.mpr (.inl ⟨row, hrow, hid, rfl⟩), hid, Int.le_refl _⟩
  · rintro _ ⟨r, hr, hrid, hle⟩
    rw [hmine r hr hrid, hrevision] at hle
    exact hle

theorem update_eq {current : App} (haccess : validAccess a.access = true) (hmembers : a.members.length ≤ 1000) (hget : s.db.get a.id = .ok current)
    (hrevision : current.revision = expected) (hsid : current.ownerSID = a.ownerSID) :
    s.update a expected = .ok ({ a with revision := expected + 1 }, { s with db := s.db.write { a with revision := expected + 1 } }) := by
  have hcurrent : ¬ (current.revision ≠ expected ∨ current.ownerSID ≠ a.ownerSID) := by simp [hrevision, hsid]
  simp [Store.update, haccess, hmembers, hget, hcurrent, bind, Except.bind, pure, Except.pure]

theorem get_eq (hrow : row ∈ db.apps) (hid : row.id = id) (hlive : row.deleted = false) : db.get id = .ok row.app := by
  unfold Database.get
  rw [Table.find?_eq_some.mpr ⟨hrow, hid⟩]
  simp [hlive]

theorem delete_later (h : s.db.Ident) (hdelete : s.delete id ownerSID = .ok s') : s.db.Later s'.db := by
  obtain ⟨rfl, -⟩ := delete_ok hdelete
  constructor
  · intro row hrow
    obtain ⟨r, hr, rfl⟩ := mem_remove.mp hrow
    split <;> exact h r hr
  · intro row hrow
    refine ⟨_, mem_remove.mpr ⟨row, hrow, rfl⟩, ?_⟩
    split <;> exact ⟨rfl, Int.le_refl _⟩

theorem get_reached (hget : db.get id = .ok a) : ∃ row ∈ db.apps, row.id = id ∧ row.payload.revision = a.revision ∧ row.payload.id = a.id := by
  unfold Database.get at hget
  split at hget
  · cases hget
  · rename_i row hfind
    split at hget
    · cases hget
    · cases hget
      obtain ⟨hrow, hid⟩ := Table.find?_eq_some.mp hfind
      exact ⟨row, hrow, hid, rfl, rfl⟩

theorem le_of_get (hget : db.get id = .ok a) (h : db.Reached id revision) : revision ≤ a.revision := by
  obtain ⟨_, hrow, hid, hrevision, -⟩ := get_reached hget
  obtain ⟨_, hrow', hid', hle⟩ := h
  rw [Table.eq_of_key hrow' hrow (hid'.trans hid.symm), hrevision] at hle
  exact hle

theorem start_later {max : ℤ} (h : db.Ident) (hstart : db.start first last max = .ok s) : db.Later s.db := by
  unfold Database.start at hstart
  split at hstart
  · cases hstart
  · dsimp only at hstart
    cases hload : db.loadSettings ⟨first, last, if max < 1 then defaultMaxEmployeePorts else max⟩ with
    | error => simp [hload, bind, Except.bind] at hstart
    | ok read =>
      obtain ⟨saved, limits⟩ := read
      simp only [hload, bind, Except.bind] at hstart
      cases saved with
      | true =>
        cases hstart
        exact .refl h
      | false =>
        simp only [Bool.false_eq_true, if_false] at hstart
        cases hrange : Store.setRange ⟨db, limits⟩ first last with
        | error => simp [hrange] at hstart
        | ok result =>
          obtain ⟨_, s₁⟩ := result
          simp only [hrange] at hstart
          have hfirst : db.Later s₁.db := setRange_later (s := ⟨db, limits⟩) h hrange
          exact hfirst.trans (setMax_later hfirst.ident hstart)

theorem manages_later {call : Call} (h : s.db.Ident) (hcall : Gateway.Manages call) : s.db.Later (s.call parse call).2.db := by
  cases call with
  | create =>
    dsimp only [Store.call]
    split
    · rename_i hcreate
      exact create_later h hcreate
    · exact .refl h
  | get =>
    dsimp only [Store.call]
    split <;> exact .refl h
  | update => exact absurd hcall id
  | delete => exact absurd hcall (by simp [Gateway.Manages])
  | setRange =>
    dsimp only [Store.call]
    split
    · rename_i hset
      exact setRange_later h hset
    · exact .refl h
  | setMaxEmployeePorts =>
    dsimp only [Store.call]
    split
    · rename_i hset
      exact setMax_later h hset
    · exact .refl h

end WorkAgent.PublishedApps
