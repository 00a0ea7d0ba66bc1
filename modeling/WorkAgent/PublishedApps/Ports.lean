import Mathlib.Data.List.Perm.Subperm
import WorkAgent.PublishedApps.Store
import WorkAgent.Library.Executions

namespace WorkAgent.PublishedApps

open Library List Table
open Database (live loadMax remap remove reserve)
open AppRow (payload)
open Quota (Time)

variable {parse : String → Option URL} {db db' : Database} {s s' : Store} {a : App} {row row' : AppRow} {p : PortRow}
  {pending : List String} {first last port expected : ℤ} {id ownerSID : String} {w w' : World} {history : List Event}

structure Database.Mapped (db : Database) (pending : List String) (first last : ℤ) : Prop where
  ident : ∀ row ∈ db.apps, row.payload.id = row.id
  backed : ∀ p ∈ db.ports, ∃ row ∈ db.apps, row.deleted = false ∧ row.id ∉ pending ∧ p ∈ row.payload.portRows
  owned : ∀ row ∈ db.apps, row.deleted = false → row.id ∉ pending → ∀ p ∈ row.payload.portRows, p ∈ db.ports
  placed : ∀ row ∈ db.apps, row.deleted = false → row.id ∉ pending → ∃ i : ℕ, row.payload.port = first + 2 * i ∧
    row.payload.previewPort = row.payload.port + 1 ∧ row.payload.port + 1 ≤ last

theorem mem_portRows : p ∈ a.portRows ↔ p = ⟨a.port, a.id, false⟩ ∨ p = ⟨a.previewPort, a.id, true⟩ := by
  simp [App.portRows]

theorem appID_of_portRows (h : p ∈ a.portRows) : p.appID = a.id := by
  rcases mem_portRows.mp h with rfl | rfl <;> rfl

theorem mem_write : row ∈ (db.write a).apps ↔
    (∃ r ∈ db.apps, r.id = a.id ∧ row = { r with payload := a.marshal }) ∨ (row ∈ db.apps ∧ row.id ≠ a.id) := by
  unfold Database.write
  rw [mem_update]
  constructor
  · rintro ⟨r, hr, rfl⟩
    by_cases hid : r.id = a.id
    · rw [if_pos hid]
      exact .inl ⟨r, hr, hid, rfl⟩
    · rw [if_neg hid]
      exact .inr ⟨hr, hid⟩
  · rintro (⟨r, hr, hid, rfl⟩ | ⟨hrow, hid⟩)
    · exact ⟨r, hr, (if_pos hid).symm⟩
    · exact ⟨row, hrow, (if_neg hid).symm⟩

theorem reserve_ok (h : db.reserve a = .ok db') : db'.apps = db.apps ∧ db'.savedRange = db.savedRange ∧ db'.savedMax = db.savedMax ∧
    ∀ p, p ∈ db'.ports ↔ p ∈ db.ports ∨ p ∈ a.portRows := by
  unfold reserve at h
  split at h
  · cases h
  · rename_i ports hfirst
    split at h
    · cases h
    · rename_i ports' hsecond
      cases h
      obtain ⟨hfree, rfl⟩ := insert?_eq_some.mp hfirst
      obtain ⟨hfree', rfl⟩ := insert?_eq_some.mp hsecond
      refine ⟨rfl, rfl, rfl, fun p => ?_⟩
      rw [mem_insertOrIgnore, mem_insertOrIgnore, mem_portRows]
      simp only [hfree, hfree', and_true]
      exact or_assoc

namespace Database.Mapped

theorem apart (h : db.Mapped pending first last) (hrow : row ∈ db.apps) (hlive : row.deleted = false) (hnot : row.id ∉ pending)
    (hrow' : row' ∈ db.apps) (hlive' : row'.deleted = false) (hnot' : row'.id ∉ pending) {q : PortRow}
    (hp : p ∈ row.payload.portRows) (hq : q ∈ row'.payload.portRows) (hport : p.port = q.port) : row = row' := by
  have hsame : p = q := eq_of_key (h.owned row hrow hlive hnot p hp) (h.owned row' hrow' hlive' hnot' q hq) hport
  apply eq_of_key hrow hrow'
  rw [← h.ident row hrow, ← h.ident row' hrow', ← appID_of_portRows hp, ← appID_of_portRows hq, hsame]

theorem weaken (h : db.Mapped pending first last) {last' : ℤ} (hle : last ≤ last') : db.Mapped pending first last' :=
  { h with
    placed := by
      intro row hrow hlive hnot
      obtain ⟨i, hport, hpreview, _⟩ := h.placed row hrow hlive hnot
      exact ⟨i, hport, hpreview, by omega⟩ }

theorem begin (hident : ∀ row ∈ db.apps, row.payload.id = row.id) (hports : db.ports = .empty)
    (hpending : ∀ row ∈ db.apps, row.deleted = false → row.id ∈ pending) : db.Mapped pending first last where
  ident := hident
  backed := fun p hp => absurd (hports ▸ hp) (not_mem_empty p)
  owned := fun row hrow hlive hnot => absurd (hpending row hrow hlive) hnot
  placed := fun row hrow hlive hnot => absurd (hpending row hrow hlive) hnot

theorem moved (h : db.Mapped (a.id :: pending) first (first + 2 * (n : ℕ) - 1)) (hnot : a.id ∉ pending) (hrow : row ∈ db.apps)
    (hid : row.id = a.id) (hlive : row.deleted = false) (hport : a.port = first + 2 * (n : ℕ)) (hpreview : a.previewPort = a.port + 1)
    (hreserve : (db.write a).reserve a = .ok db') : db'.Mapped pending first (first + 2 * ((n + 1 : ℕ) : ℤ) - 1) := by
  obtain ⟨happs, -, -, hports⟩ := reserve_ok hreserve
  constructor
  · intro r hr
    rw [happs] at hr
    rcases mem_write.mp hr with ⟨r, -, hrid, rfl⟩ | ⟨hr, -⟩
    · exact hrid.symm
    · exact h.ident r hr
  · intro p hp
    rw [hports] at hp
    rw [happs]
    rcases hp with hp | hp
    · obtain ⟨r, hr, hrlive, hrnot, hmem⟩ := h.backed p hp
      rw [mem_cons, not_or] at hrnot
      exact ⟨r, mem_write.mpr (.inr ⟨hr, hrnot.1⟩), hrlive, hrnot.2, hmem⟩
    · exact ⟨_, mem_write.mpr (.inl ⟨row, hrow, hid, rfl⟩), hlive, hid.symm ▸ hnot, hp⟩
  · intro r hr hrlive hrnot p hp
    rw [happs] at hr
    rw [hports]
    rcases mem_write.mp hr with ⟨r, -, -, rfl⟩ | ⟨hr, hrid⟩
    · exact .inr hp
    · exact .inl (h.owned r hr hrlive (by simp [hrid, hrnot]) p hp)
  · intro r hr hrlive hrnot
    rw [happs] at hr
    rcases mem_write.mp hr with ⟨r, -, -, rfl⟩ | ⟨hr, hrid⟩
    · refine ⟨n, hport, hpreview, ?_⟩
      change a.port + 1 ≤ _
      omega
    · obtain ⟨i, hi, hpreview, _⟩ := h.placed r hr hrlive (by simp [hrid, hrnot])
      exact ⟨i, hi, hpreview, by omega⟩

end Database.Mapped

theorem remap_ok (apps : List App) (n : ℕ) {changed : List String} (h : db.Mapped (apps.map App.id) first (first + 2 * (n : ℤ) - 1))
    (hnodup : (apps.map App.id).Nodup) (hlive : ∀ a ∈ apps, ∃ row ∈ db.apps, row.id = a.id ∧ row.deleted = false)
    (hremap : db.remap (first + 2 * (n : ℤ)) apps = .ok (changed, db')) :
    db'.Mapped [] first (first + 2 * ((n + apps.length : ℕ) : ℤ) - 1) := by
  induction apps generalizing db n changed with
  | nil =>
    obtain ⟨-, rfl⟩ := Prod.mk.inj (Except.ok.inj hremap)
    exact h
  | cons a rest ih =>
    obtain ⟨hnot, hnodup⟩ := nodup_cons.mp hnodup
    obtain ⟨row, hrow, hid, hdeleted⟩ := hlive a (by simp)
    let moved : App := { a with port := first + 2 * (n : ℤ), previewPort := first + 2 * (n : ℤ) + 1 }
    unfold remap at hremap
    cases hreserve : (db.write moved).reserve moved with
    | error => simp [moved, hreserve, bind, Except.bind] at hremap
    | ok next =>
      have hnext : next.Mapped (rest.map App.id) first (first + 2 * ((n + 1 : ℕ) : ℤ) - 1) :=
        Database.Mapped.moved (a := moved) h hnot hrow hid hdeleted rfl rfl hreserve
      cases hrest : next.remap (first + 2 * (n : ℤ) + 2) rest with
      | error => simp [moved, hreserve, hrest, bind, Except.bind] at hremap
      | ok result =>
        obtain ⟨_, _⟩ := result
        simp only [moved, hreserve, hrest, bind, Except.bind, pure, Except.pure] at hremap
        obtain ⟨-, rfl⟩ := Prod.mk.inj (Except.ok.inj hremap)
        have hport : first + 2 * (n : ℤ) + 2 = first + 2 * ((n + 1 : ℕ) : ℤ) := by omega
        rw [hport] at hrest
        have hstill : ∀ b ∈ rest, ∃ row ∈ next.apps, row.id = b.id ∧ row.deleted = false := by
          intro b hb
          obtain ⟨r, hr, hrid, hrlive⟩ := hlive b (mem_cons_of_mem a hb)
          have hother : r.id ≠ moved.id := fun hsame => hnot (mem_map.mpr ⟨b, hb, hrid.symm.trans hsame⟩)
          exact ⟨r, (reserve_ok hreserve).1 ▸ mem_write.mpr (.inr ⟨hr, hother⟩), hrid, hrlive⟩
        have hfinal := ih (n + 1) hnext hnodup hstill hrest
        rw [length_cons]
        convert hfinal using 3
        omega

theorem mem_live : row ∈ db.live ↔ row ∈ db.apps ∧ row.deleted = false := by
  simp [live, mem_rows]

theorem live_ids (hident : ∀ row ∈ db.apps, row.payload.id = row.id) :
    (db.live.map payload).map App.id = db.live.map AppRow.id := by
  rw [map_map]
  apply map_congr_left
  intro row hrow
  exact hident row (mem_live.mp hrow).1

theorem live_nodup : (db.live.map AppRow.id).Nodup := (filter_sublist.map AppRow.id).nodup db.apps.nodup

theorem setRange_ok {changed : List String} (hident : ∀ row ∈ s.db.apps, row.payload.id = row.id)
    (h : s.setRange first last = .ok (changed, s')) : s'.db.Mapped [] first last ∧ s'.db.savedRange = some (first, last) ∧
      s'.limits = { s.limits with first := first, last := last } := by
  unfold Store.setRange at h
  split at h
  · cases h
  · split at h
    · cases h
    · rename_i hroom
      cases hremap : s.db.clear.remap first (s.db.live.map payload) with
      | error => simp [hremap, bind, Except.bind] at h
      | ok result =>
        obtain ⟨_, db⟩ := result
        simp only [hremap, bind, Except.bind, pure, Except.pure] at h
        obtain ⟨-, rfl⟩ := Prod.mk.inj (Except.ok.inj h)
        refine ⟨?_, rfl, rfl⟩
        have hbegin : s.db.clear.Mapped ((s.db.live.map payload).map App.id) first (first + 2 * ((0 : ℕ) : ℤ) - 1) := by
          have hcleared : ∀ row ∈ s.db.clear.apps, row.payload.id = row.id := hident
          apply Database.Mapped.begin hcleared rfl
          intro row hrow hlive
          rw [live_ids hident]
          exact mem_map_of_mem (mem_live.mpr ⟨hrow, hlive⟩)
        have hzero : first + 2 * ((0 : ℕ) : ℤ) = first := by omega
        have hmapped : db.Mapped [] first (first + 2 * ((0 + (s.db.live.map payload).length : ℕ) : ℤ) - 1) :=
          remap_ok (s.db.live.map payload) 0 hbegin
          (by rw [live_ids hident]; exact live_nodup) (by
            intro a ha
            obtain ⟨row, hrow, rfl⟩ := mem_map.mp ha
            obtain ⟨hmem, hlive⟩ := mem_live.mp hrow
            exact ⟨row, hmem, (hident row hmem).symm, hlive⟩) (hzero.symm ▸ hremap)
        rw [length_map] at hmapped
        have hwithin : db.Mapped [] first last := hmapped.weaken (by omega)
        exact ⟨hwithin.ident, hwithin.backed, hwithin.owned, hwithin.placed⟩

theorem aligned (h : s.db.Mapped [] s.limits.first last) (hfind : s.candidates.find? s.free = some port) :
    (∃ i : ℕ, port = s.limits.first + 2 * i) ∧ port + 1 ≤ s.limits.last ∧
      (∀ p ∈ s.db.ports, p.port ≠ port ∧ p.port ≠ port + 1) := by
  unfold Store.candidates at hfind
  rw [find?_map] at hfind
  obtain ⟨k, hk, rfl⟩ := Option.map_eq_some_iff.mp hfind
  obtain ⟨hfree, hrange, hlower⟩ := find?_range_eq_some.mp hk
  have hlast := mem_range.mp hrange
  have hunused (q : ℤ) (hq : s.db.ports.has q = false) : ∀ p ∈ s.db.ports, p.port ≠ q := by
    intro p hp hport
    have hhas : s.db.ports.has q = true := has_eq_true.mpr ⟨p, hp, hport⟩
    rw [hq] at hhas
    cases hhas
  have hpair : s.db.ports.has (s.limits.first + k) = false ∧ s.db.ports.has (s.limits.first + k + 1) = false := by
    simpa [Store.free] using hfree
  refine ⟨?_, by omega, fun p hp => ⟨hunused _ hpair.1 p hp, hunused _ hpair.2 p hp⟩⟩
  obtain ⟨i, rfl | rfl⟩ : ∃ i, k = 2 * i ∨ k = 2 * i + 1 := ⟨k / 2, by omega⟩
  · exact ⟨i, by omega⟩
  · exfalso
    -- the pair below is not free, and whichever port of it is taken stands in an aligned pair
    have hbelow := hlower (2 * i) (by omega)
    have htaken : s.db.ports.has (s.limits.first + (2 * i : ℕ)) = true := by
      by_contra hnot
      have hnext : s.limits.first + ((2 * i : ℕ) : ℤ) + 1 = s.limits.first + ((2 * i + 1 : ℕ) : ℤ) := by omega
      have hfree : s.free (s.limits.first + ((2 * i : ℕ) : ℤ)) = true := by
        rw [Store.free, hnext, hpair.1, (Bool.not_eq_true _).mp hnot]
        rfl
      rw [Function.comp_apply, hfree] at hbelow
      cases hbelow
    obtain ⟨p, hp, hport⟩ := has_eq_true.mp htaken
    obtain ⟨row, hrow, hlive, hnot, hmem⟩ := h.backed p hp
    obtain ⟨j, _, _, -⟩ := h.placed row hrow hlive hnot
    rcases mem_portRows.mp hmem with rfl | rfl
    · have hupper := h.owned row hrow hlive hnot _ (mem_portRows.mpr (.inr rfl))
      apply hunused _ hpair.1 _ hupper
      change row.payload.previewPort = _
      change row.payload.port = _ at hport
      omega
    · change row.payload.previewPort = _ at hport
      omega

variable {now : Time}

theorem create_ok {made : App} (h : s.create parse a id now = .ok (made, s')) :
    (s.db.held a.ownerSID : ℤ) < s.limits.maxPerEmployee ∧
    ∃ port, s.candidates.find? s.free = some port ∧ made = a.created id port now ∧ s.db.apps.find? id = none ∧
      s'.limits = s.limits ∧ s'.db.savedRange = s.db.savedRange ∧
      s'.db.apps = s.db.apps.insertOrIgnore ⟨id, a.ownerSID, made.marshal, false⟩ ∧
      ∀ p, p ∈ s'.db.ports ↔ p ∈ s.db.ports ∨ p ∈ made.portRows := by
  unfold Store.create at h
  split at h
  · cases h
  · split at h
    · cases h
    · rename_i hheld
      split at h
      · cases h
      · rename_i port hport
        dsimp only at h
        split at h
        · cases h
        · rename_i apps happs
          obtain ⟨hfresh, rfl⟩ := insert?_eq_some.mp happs
          cases hreserve : reserve { s.db with apps := s.db.apps.insertOrIgnore ⟨id, a.ownerSID, (a.created id port now).marshal, false⟩ }
              (a.created id port now) with
          | error error => simp [hreserve, bind, Except.bind] at h
          | ok db =>
            simp only [hreserve, bind, Except.bind, pure, Except.pure] at h
            obtain ⟨rfl, rfl⟩ := Prod.mk.inj (Except.ok.inj h)
            obtain ⟨happs, hsaved, -, hports⟩ := reserve_ok hreserve
            exact ⟨by omega, port, hport, rfl, hfresh, rfl, hsaved, happs, hports⟩

theorem mapped_create {made : App} (h : s.db.Mapped [] s.limits.first s.limits.last)
    (hcreate : s.create parse a id now = .ok (made, s')) : s'.db.Mapped [] s.limits.first s.limits.last := by
  obtain ⟨-, port, hfind, rfl, hfresh, -, -, happs, hports⟩ := create_ok hcreate
  obtain ⟨⟨i, hi⟩, hlast, -⟩ := aligned h hfind
  have hnew : ∀ r, r ∈ s'.db.apps ↔ r ∈ s.db.apps ∨ r = ⟨id, a.ownerSID, (a.created id port now).marshal, false⟩ := by
    intro r
    rw [happs, mem_insertOrIgnore]
    simp [hfresh]
  constructor
  · intro r hr
    rcases (hnew r).mp hr with hr | rfl
    · exact h.ident r hr
    · rfl
  · intro p hp
    rcases (hports p).mp hp with hp | hp
    · obtain ⟨r, hr, hlive, hnot, hmem⟩ := h.backed p hp
      exact ⟨r, (hnew r).mpr (.inl hr), hlive, hnot, hmem⟩
    · exact ⟨_, (hnew _).mpr (.inr rfl), rfl, not_mem_nil, hp⟩
  · intro r hr hlive hnot p hp
    rcases (hnew r).mp hr with hr | rfl
    · exact (hports p).mpr (.inl (h.owned r hr hlive hnot p hp))
    · exact (hports p).mpr (.inr hp)
  · intro r hr hlive hnot
    rcases (hnew r).mp hr with hr | rfl
    · exact h.placed r hr hlive hnot
    · exact ⟨i, hi, rfl, hlast⟩

theorem create_ports (h : s.db.Mapped [] s.limits.first s.limits.last) (hcreate : s.create parse a id now = .error .ports) :
    s.limits.last - s.limits.first + 1 < 2 * (s.db.live.length : ℤ) + 2 := by
  have hnone : s.candidates.find? s.free = none := by
    unfold Store.create at hcreate
    split at hcreate
    · cases hcreate
    · split at hcreate
      · cases hcreate
      · split at hcreate
        · assumption
        · rename_i port _
          dsimp only at hcreate
          split at hcreate
          · cases hcreate
          · exfalso
            unfold reserve at hcreate
            split at hcreate
            · cases hcreate
            · split at hcreate <;> cases hcreate
  have htaken (i : ℕ) (hi : 2 * (i : ℤ) + 1 ≤ s.limits.last - s.limits.first) :
      s.limits.first + 2 * (i : ℤ) ∈ s.db.live.map fun row => row.payload.port := by
    have hmem : s.limits.first + ((2 * i : ℕ) : ℤ) ∈ s.candidates :=
      mem_map.mpr ⟨2 * i, mem_range.mpr (by omega), rfl⟩
    have hused : ∃ p ∈ s.db.ports, p.port = s.limits.first + 2 * (i : ℤ) ∨ p.port = s.limits.first + 2 * (i : ℤ) + 1 := by
      by_contra hnot
      push Not at hnot
      have hfree : s.db.ports.has (s.limits.first + ((2 * i : ℕ) : ℤ)) = false ∧ s.db.ports.has (s.limits.first + ((2 * i : ℕ) : ℤ) + 1) = false := by
        simp only [has_eq_false, Table.find?_eq_none]
        constructor
        · intro p hp hport
          exact (hnot p hp).1 (by omega)
        · intro p hp hport
          exact (hnot p hp).2 (by omega)
      apply List.find?_eq_none.mp hnone _ hmem
      rw [Store.free, hfree.1, hfree.2]
      rfl
    obtain ⟨p, hp, hport⟩ := hused
    obtain ⟨row, hrow, hlive, hnot, hrows⟩ := h.backed p hp
    obtain ⟨j, _, _, -⟩ := h.placed row hrow hlive hnot
    refine mem_map.mpr ⟨row, mem_live.mpr ⟨hrow, hlive⟩, ?_⟩
    rcases mem_portRows.mp hrows with rfl | rfl
    · change row.payload.port = _ ∨ row.payload.port = _ at hport
      omega
    · change row.payload.previewPort = _ ∨ row.payload.previewPort = _ at hport
      omega
  let slots := (List.range ((s.limits.last - s.limits.first + 1) / 2).toNat).map fun i : ℕ => s.limits.first + 2 * (i : ℤ)
  have hnodup : slots.Nodup := by
    apply List.Nodup.map _ nodup_range
    intro i j hij
    dsimp only at hij
    omega
  have hsub : slots ⊆ s.db.live.map fun row => row.payload.port := by
    intro _ hport
    obtain ⟨i, hi, rfl⟩ := mem_map.mp hport
    have := mem_range.mp hi
    exact htaken i (by omega)
  have hlength := (hnodup.subperm hsub).length_le
  simp only [slots, length_map, length_range] at hlength
  omega

def Stale (db : Database) (a : App) (expected : ℤ) : Prop :=
  validAccess a.access = true ∧ a.members.length ≤ 1000 ∧
    ∃ row ∈ db.apps, row.deleted = false ∧ row.id = a.id ∧ row.ownerSID = a.ownerSID ∧ row.payload.revision = expected ∧
      ¬ (row.payload.port = a.port ∧ row.payload.previewPort = a.previewPort)

variable {updated : App}

theorem update_ok (h : s.update a expected = .ok (updated, s')) :
    validAccess a.access = true ∧ a.members.length ≤ 1000 ∧
    (∃ row ∈ s.db.apps, row.deleted = false ∧ row.id = a.id ∧ row.ownerSID = a.ownerSID ∧ row.payload.revision = expected) ∧
    s' = { s with db := s.db.write { a with revision := expected + 1 } } := by
  unfold Store.update at h
  split at h
  · cases h
  · rename_i hvalid
    rw [not_or, not_not, Nat.not_lt] at hvalid
    unfold Database.get at h
    cases hfind : s.db.apps.find? a.id with
    | none => simp [hfind, bind, Except.bind] at h
    | some row =>
      obtain ⟨hrow, hid⟩ := find?_eq_some.mp hfind
      cases hlive : row.deleted with
      | true => simp [hfind, hlive, bind, Except.bind] at h
      | false =>
        simp only [hfind, hlive, bind, Except.bind, pure, Except.pure, Bool.false_eq_true, if_false] at h
        split at h
        · cases h
        · rename_i hcurrent
          rw [not_or, not_not, not_not] at hcurrent
          obtain ⟨-, rfl⟩ := Prod.mk.inj (Except.ok.inj h)
          exact ⟨hvalid.1, hvalid.2, ⟨row, hrow, hlive, hid, hcurrent.2, hcurrent.1⟩, rfl⟩

theorem mapped_update (h : s.db.Mapped [] first last) (hstale : ¬ Stale s.db a expected)
    (hupdate : s.update a expected = .ok (updated, s')) : s'.db.Mapped [] first last := by
  obtain ⟨haccess, hmembers, ⟨row, hrow, hlive, hid, hsid, hrevision⟩, rfl⟩ := update_ok hupdate
  have hports : row.payload.port = a.port ∧ row.payload.previewPort = a.previewPort := by
    by_contra hnot
    exact hstale ⟨haccess, hmembers, row, hrow, hlive, hid, hsid, hrevision, hnot⟩
  have hmine : ∀ r ∈ s.db.apps, r.id = a.id → r = row := fun r hr hrid => eq_of_key hr hrow (hrid.trans hid.symm)
  have hrows : ∀ p, p ∈ row.payload.portRows ↔ p ∈ ({ a with revision := expected + 1 } : App).marshal.portRows := by
    intro p
    rw [mem_portRows, mem_portRows, hports.1, hports.2, h.ident row hrow, hid]
    rfl
  constructor
  · intro r hr
    rcases mem_write.mp hr with ⟨r, -, hrid, rfl⟩ | ⟨hr, -⟩
    · exact hrid.symm
    · exact h.ident r hr
  · intro p hp
    obtain ⟨r, hr, hrlive, hnot, hmem⟩ := h.backed p hp
    by_cases hrid : r.id = a.id
    · obtain rfl := hmine r hr hrid
      exact ⟨_, mem_write.mpr (.inl ⟨r, hr, hrid, rfl⟩), hrlive, hnot, (hrows p).mp hmem⟩
    · exact ⟨r, mem_write.mpr (.inr ⟨hr, hrid⟩), hrlive, hnot, hmem⟩
  · intro r hr hrlive hnot p hp
    rcases mem_write.mp hr with ⟨r, hold, hrid, rfl⟩ | ⟨hr, -⟩
    · obtain rfl := hmine r hold hrid
      exact h.owned r hold hrlive hnot p ((hrows p).mpr hp)
    · exact h.owned r hr hrlive hnot p hp
  · intro r hr hrlive hnot
    rcases mem_write.mp hr with ⟨r, hold, hrid, rfl⟩ | ⟨hr, -⟩
    · obtain rfl := hmine r hold hrid
      obtain ⟨i, hi, hpreview, _⟩ := h.placed r hold hrlive hnot
      refine ⟨i, hports.1.symm.trans hi, hports.2.symm.trans (hpreview.trans (by rw [hports.1]; rfl)), ?_⟩
      change a.port + 1 ≤ last
      omega
    · exact h.placed r hr hrlive hnot

theorem mem_remove : row ∈ (db.remove id ownerSID).apps ↔ ∃ r ∈ db.apps,
    row = if r.id = id ∧ r.ownerSID = ownerSID ∧ r.deleted = false then { r with deleted := true } else r := by
  rw [remove, mem_update]

theorem delete_ok (h : s.delete id ownerSID = .ok s') : s' = { s with db := s.db.remove id ownerSID } ∧
    ∃ row ∈ s.db.apps, row.id = id ∧ row.ownerSID = ownerSID ∧ row.deleted = false := by
  unfold Store.delete at h
  split at h
  · cases h
  · rename_i hcount
    cases h
    exact ⟨rfl, exists_of_count_ne_zero hcount⟩

theorem mapped_delete (h : s.db.Mapped [] first last) (hdelete : s.delete id ownerSID = .ok s') : s'.db.Mapped [] first last := by
  obtain ⟨rfl, _, hrow, hid, hsid, hlive⟩ := delete_ok hdelete
  have hrows : ∀ r ∈ (s.db.remove id ownerSID).apps, r.deleted = false → r ∈ s.db.apps ∧ r.id ≠ id := by
    intro r hr hrlive
    obtain ⟨r, hold, rfl⟩ := mem_remove.mp hr
    by_cases hgone : r.id = id ∧ r.ownerSID = ownerSID ∧ r.deleted = false
    · rw [if_pos hgone] at hrlive
      cases hrlive
    · rw [if_neg hgone] at hrlive ⊢
      refine ⟨hold, fun hrid => hgone ?_⟩
      rw [eq_of_key hold hrow (hrid.trans hid.symm)]
      exact ⟨hid, hsid, hlive⟩
  constructor
  · intro r hr
    obtain ⟨r, hold, rfl⟩ := mem_remove.mp hr
    split <;> exact h.ident r hold
  · intro p hp
    obtain ⟨hp, happ⟩ := mem_delete.mp hp
    obtain ⟨r, hr, hrlive, hnot, hmem⟩ := h.backed p hp
    have hrid : r.id ≠ id := by
      rw [appID_of_portRows hmem, h.ident r hr] at happ
      exact happ
    exact ⟨r, mem_remove.mpr ⟨r, hr, (if_neg fun hgone => hrid hgone.1).symm⟩, hrlive, hnot, hmem⟩
  · intro r hr hrlive hnot p hp
    obtain ⟨hr, hrid⟩ := hrows r hr hrlive
    refine mem_delete.mpr ⟨h.owned r hr hrlive hnot p hp, ?_⟩
    rw [appID_of_portRows hp, h.ident r hr]
    exact hrid
  · intro r hr hrlive hnot
    exact h.placed r (hrows r hr hrlive).1 hrlive hnot

structure World.Orderly (w : World) : Prop where
  saved : ∀ first last, w.db.savedRange = some (first, last) → w.db.Mapped [] first last
  unsaved : w.db.savedRange = none → w.db.apps = .empty ∧ w.db.ports = .empty
  limits : ∀ limits, w.limits = some limits → w.db.savedRange = some (limits.first, limits.last)

theorem World.Orderly.ident (h : w.Orderly) : ∀ row ∈ w.db.apps, row.payload.id = row.id := by
  cases hsaved : w.db.savedRange with
  | none =>
    intro row hrow
    rw [(h.unsaved hsaved).1] at hrow
    exact absurd hrow (not_mem_empty row)
  | some range => exact (h.saved range.1 range.2 hsaved).ident

theorem orderly_of_mapped {reads : List App} (hsaved : s.db.savedRange = some (s.limits.first, s.limits.last))
    (h : s.db.Mapped [] s.limits.first s.limits.last) {limits : Option Limits} (hlimits : ∀ l, limits = some l → l = s.limits) :
    World.Orderly ⟨s.db, limits, reads⟩ where
  saved := by
    intro _ _ hrange
    obtain ⟨rfl, rfl⟩ := Prod.mk.inj (Option.some.inj (hsaved.symm.trans hrange))
    exact h
  unsaved := by
    intro hnone
    rw [hsaved] at hnone
    cases hnone
  limits := by
    intro l hl
    rw [hlimits l hl]
    exact hsaved

variable {call : Call}

theorem call_mapped (hsaved : s.db.savedRange = some (s.limits.first, s.limits.last))
    (h : s.db.Mapped [] s.limits.first s.limits.last) (hfresh : ∀ a expected, call = .update a expected → ¬ Stale s.db a expected) :
    (s.call parse call).2.db.savedRange = some ((s.call parse call).2.limits.first, (s.call parse call).2.limits.last) ∧
      (s.call parse call).2.db.Mapped [] (s.call parse call).2.limits.first (s.call parse call).2.limits.last := by
  unfold Store.call
  cases call with
  | create =>
    dsimp only
    split
    · rename_i hcreate
      obtain ⟨-, -, -, -, -, hlimits, hrange, -⟩ := create_ok hcreate
      rw [hlimits, hrange]
      exact ⟨hsaved, mapped_create h hcreate⟩
    · exact ⟨hsaved, h⟩
  | get =>
    dsimp only
    split <;> exact ⟨hsaved, h⟩
  | update a expected =>
    dsimp only
    split
    · rename_i hupdate
      have hmapped := mapped_update h (hfresh a expected rfl) hupdate
      obtain ⟨-, -, -, rfl⟩ := update_ok hupdate
      exact ⟨hsaved, hmapped⟩
    · exact ⟨hsaved, h⟩
  | delete =>
    dsimp only
    split
    · rename_i hdelete
      have hmapped := mapped_delete h hdelete
      obtain ⟨rfl, -⟩ := delete_ok hdelete
      exact ⟨hsaved, hmapped⟩
    · exact ⟨hsaved, h⟩
  | setRange =>
    dsimp only
    split
    · rename_i hrange
      obtain ⟨hmapped, hsaved, hlimits⟩ := setRange_ok h.ident hrange
      rw [hlimits]
      exact ⟨hsaved, hmapped⟩
    · exact ⟨hsaved, h⟩
  | setMaxEmployeePorts =>
    dsimp only
    split
    · rename_i hmax
      unfold Store.setMaxEmployeePorts at hmax
      split at hmax
      · cases hmax
      · cases hmax
        exact ⟨hsaved, h.ident, h.backed, h.owned, h.placed⟩
    · exact ⟨hsaved, h⟩

theorem loadMax_ok {read limits : Limits} (h : db.loadMax read = .ok limits) : limits.first = read.first ∧ limits.last = read.last := by
  unfold loadMax at h
  split at h
  · cases h
    exact ⟨rfl, rfl⟩
  · split at h
    · cases h
    · cases h
      exact ⟨rfl, rfl⟩

theorem loadSettings_ok {defaults limits : Limits} {saved : Bool} (h : db.loadSettings defaults = .ok (saved, limits)) :
    saved = db.savedRange.isSome ∧ ∀ first last, db.savedRange = some (first, last) → limits.first = first ∧ limits.last = last := by
  unfold Database.loadSettings at h
  cases hrange : db.loadRange defaults with
  | error => simp [hrange, bind, Except.bind] at h
  | ok result =>
    obtain ⟨_, read⟩ := result
    cases hmax : db.loadMax read with
    | error => simp [hrange, hmax, bind, Except.bind] at h
    | ok =>
      simp only [hrange, hmax, bind, Except.bind, pure, Except.pure] at h
      obtain ⟨rfl, rfl⟩ := Prod.mk.inj (Except.ok.inj h)
      obtain ⟨hfirst, hlast⟩ := loadMax_ok hmax
      unfold Database.loadRange at hrange
      cases hsaved : db.savedRange with
      | none =>
        simp only [hsaved, Except.ok.injEq, Prod.mk.injEq] at hrange
        exact ⟨hrange.1.symm, by simp⟩
      | some =>
        simp only [hsaved] at hrange
        split at hrange
        · obtain ⟨rfl, rfl⟩ := Prod.mk.inj (Except.ok.inj hrange)
          refine ⟨rfl, fun first last hsame => ?_⟩
          cases hsame
          exact ⟨hfirst, hlast⟩
        · cases hrange

theorem start_ok {max : ℤ} (hident : ∀ row ∈ db.apps, row.payload.id = row.id)
    (hmapped : ∀ first last, db.savedRange = some (first, last) → db.Mapped [] first last) (h : db.start first last max = .ok s) :
    s.db.savedRange = some (s.limits.first, s.limits.last) ∧ s.db.Mapped [] s.limits.first s.limits.last := by
  unfold Database.start at h
  split at h
  · cases h
  · generalize (if max < 1 then defaultMaxEmployeePorts else max) = max at h
    cases hload : db.loadSettings ⟨first, last, max⟩ with
    | error => simp [hload, bind, Except.bind] at h
    | ok result =>
      obtain ⟨_, limits⟩ := result
      obtain ⟨rfl, hlimits⟩ := loadSettings_ok hload
      cases hsaved : db.savedRange with
      | some range =>
        simp only [hload, hsaved, Option.isSome_some, bind, Except.bind, pure, Except.pure, if_true] at h
        cases h
        obtain ⟨hfirst, hlast⟩ := hlimits range.1 range.2 hsaved
        rw [hfirst, hlast]
        exact ⟨hsaved, hmapped _ _ hsaved⟩
      | none =>
        cases hrange : Store.setRange ⟨db, limits⟩ first last with
        | error => simp [hload, hsaved, hrange, bind, Except.bind] at h
        | ok result =>
          obtain ⟨_, _⟩ := result
          simp only [hload, hsaved, hrange, Option.isSome_none, bind, Except.bind, Bool.false_eq_true, if_false] at h
          obtain ⟨hmap, hnow, hlimits'⟩ := setRange_ok (s := ⟨db, limits⟩) hident hrange
          unfold Store.setMaxEmployeePorts at h
          split at h
          · cases h
          · cases h
            dsimp only
            rw [hlimits']
            exact ⟨hnow, hmap.ident, hmap.backed, hmap.owned, hmap.placed⟩

/-- Every live app has just the two ports that it names, no port is of two apps, and a deleted app has none. -/
structure Database.Consistent (db : Database) : Prop where
  owned : ∀ row ∈ db.apps, row.deleted = false → row.payload.previewPort = row.payload.port + 1 ∧
    ∀ p, p ∈ db.ports ∧ p.appID = row.id ↔ p = ⟨row.payload.port, row.id, false⟩ ∨ p = ⟨row.payload.port + 1, row.id, true⟩
  apart : ∀ row ∈ db.apps, ∀ row' ∈ db.apps, row.deleted = false → row'.deleted = false → row.id ≠ row'.id →
    ∀ port, (port = row.payload.port ∨ port = row.payload.previewPort) → port ≠ row'.payload.port ∧ port ≠ row'.payload.previewPort
  gone : ∀ row ∈ db.apps, row.deleted = true → ∀ p ∈ db.ports, p.appID ≠ row.id

theorem Database.Mapped.consistent (h : db.Mapped [] first last) : db.Consistent := by
  constructor
  · intro row hrow hlive
    obtain ⟨i, -, hpreview, -⟩ := h.placed row hrow hlive not_mem_nil
    refine ⟨hpreview, fun p => ?_⟩
    rw [← hpreview, ← h.ident row hrow, ← mem_portRows]
    constructor
    · rintro ⟨hp, happ⟩
      obtain ⟨r, hr, -, -, hmem⟩ := h.backed p hp
      have hsame : r = row := by
        apply eq_of_key hr hrow
        rw [← h.ident r hr, ← h.ident row hrow, ← appID_of_portRows hmem, happ]
      exact hsame ▸ hmem
    · intro hmem
      exact ⟨h.owned row hrow hlive not_mem_nil p hmem, appID_of_portRows hmem⟩
  · intro row hrow _ hrow' hlive hlive' hid port hport
    have hmine : ∃ p ∈ row.payload.portRows, p.port = port := by
      rcases hport with rfl | rfl
      · exact ⟨_, mem_portRows.mpr (.inl rfl), rfl⟩
      · exact ⟨_, mem_portRows.mpr (.inr rfl), rfl⟩
    obtain ⟨p, hp, rfl⟩ := hmine
    constructor
    · intro hsame
      exact hid (congrArg AppRow.id (h.apart hrow hlive not_mem_nil hrow' hlive' not_mem_nil hp (mem_portRows.mpr (.inl rfl)) hsame))
    · intro hsame
      exact hid (congrArg AppRow.id (h.apart hrow hlive not_mem_nil hrow' hlive' not_mem_nil hp (mem_portRows.mpr (.inr rfl)) hsame))
  · intro row hrow hgone p hp happ
    obtain ⟨r, hr, hlive, -, hmem⟩ := h.backed p hp
    have hsame : r = row := by
      apply eq_of_key hr hrow
      rw [← h.ident r hr, ← appID_of_portRows hmem, happ]
    rw [hsame, hgone] at hlive
    cases hlive

theorem held_eq (h : db.Mapped [] first last) (ownerSID : String) :
    db.held ownerSID = db.live.countP fun row => row.ownerSID = ownerSID := by
  let owned := fun id : String => db.apps.rows.any fun existing => existing.id = id && !existing.deleted && existing.ownerSID = ownerSID
  let shown := (db.ports.rows.filter fun p => !p.preview).map PortRow.appID
  have hshown : ∀ p, p ∈ db.ports → p.preview = false → ∃ row ∈ db.live, p = ⟨row.payload.port, row.id, false⟩ := by
    intro p hp hpublic
    obtain ⟨row, hrow, hlive, -, hmem⟩ := h.backed p hp
    refine ⟨row, mem_live.mpr ⟨hrow, hlive⟩, ?_⟩
    rcases mem_portRows.mp hmem with rfl | rfl
    · rw [h.ident row hrow]
    · cases hpublic
  have hperm : shown.Perm (db.live.map AppRow.id) := by
    rw [perm_ext_iff_of_nodup _ live_nodup]
    · intro _
      constructor
      · intro hid
        obtain ⟨p, hp, rfl⟩ := mem_map.mp hid
        obtain ⟨hp, hpublic⟩ := mem_filter.mp hp
        obtain ⟨row, hrow, rfl⟩ := hshown p hp (by simpa using hpublic)
        exact mem_map_of_mem hrow
      · intro hid
        obtain ⟨row, hrow, rfl⟩ := mem_map.mp hid
        obtain ⟨hmem, hlive⟩ := mem_live.mp hrow
        have hp := h.owned row hmem hlive not_mem_nil _ (mem_portRows.mpr (.inl rfl))
        exact mem_map.mpr ⟨_, mem_filter.mpr ⟨hp, rfl⟩, h.ident row hmem⟩
    · apply List.Nodup.map_on _ (List.Nodup.filter _ (List.Nodup.of_map _ db.ports.nodup))
      intro p hp q hq hsame
      obtain ⟨hp, hpublic⟩ := mem_filter.mp hp
      obtain ⟨hq, hpublic'⟩ := mem_filter.mp hq
      obtain ⟨row, hrow, rfl⟩ := hshown p hp (by simpa using hpublic)
      obtain ⟨row', hrow', rfl⟩ := hshown q hq (by simpa using hpublic')
      have hrows : row = row' := eq_of_key (mem_live.mp hrow).1 (mem_live.mp hrow').1 hsame
      rw [hrows]
  have hheld : db.held ownerSID = shown.countP owned := by
    rw [countP_map, countP_filter]
    apply countP_congr
    intro p _
    simp [owned, and_comm]
  rw [hheld, hperm.countP_eq, countP_map]
  apply countP_congr
  intro row hrow
  obtain ⟨hmem, hlive⟩ := mem_live.mp hrow
  simp only [owned, Function.comp_apply, any_eq_true, Bool.and_eq_true, decide_eq_true_eq, Bool.not_eq_true']
  constructor
  · rintro ⟨existing, hexisting, ⟨hid, -⟩, hsid⟩
    have hsame : existing = row := eq_of_key (t := db.apps) hexisting hmem hid
    exact hsame ▸ hsid
  · intro hsid
    exact ⟨row, hmem, ⟨rfl, hlive⟩, hsid⟩

def CarefulStep (parse : String → Option URL) (w : World) (event : Event) (w' : World) : Prop :=
  Step parse w event w' ∧ ∀ a expected answer, event = .called (.update a expected) answer → ¬ Stale w.db a expected

theorem World.Orderly.step {event : Event} (h : w.Orderly) (hstep : CarefulStep parse w event w') : w'.Orderly := by
  obtain ⟨hstep, hfresh⟩ := hstep
  cases hstep with
  | @calls db limits _ call =>
    have hsaved := h.limits limits rfl
    have hfresh' : ∀ a expected, call = .update a expected → ¬ Stale db a expected :=
      fun a expected hcall => hfresh a expected _ (by rw [hcall])
    apply orderly_of_mapped
    · exact (call_mapped (s := ⟨db, limits⟩) hsaved (h.saved _ _ hsaved) hfresh').1
    · exact (call_mapped (s := ⟨db, limits⟩) hsaved (h.saved _ _ hsaved) hfresh').2
    · exact fun l hl => (Option.some.inj hl).symm
  | fails => exact h
  | opens hstart =>
    obtain ⟨hsaved, hmapped⟩ := start_ok h.ident h.saved hstart
    exact orderly_of_mapped hsaved hmapped (fun l hl => (Option.some.inj hl).symm)
  | breaks _ hrange =>
    obtain ⟨hmapped, hsaved, hlimits⟩ := setRange_ok h.ident hrange
    apply orderly_of_mapped
    · rw [hlimits]
      exact hsaved
    · rw [hlimits]
      exact hmapped
    · simp
  | closes => exact ⟨h.saved, h.unsaved, by simp⟩

theorem World.Orderly.consistent (h : w.Orderly) : w.db.Consistent := by
  cases hsaved : w.db.savedRange with
  | none =>
    obtain ⟨happs, _⟩ := h.unsaved hsaved
    have hnone : ∀ row, row ∉ w.db.apps := fun row hrow => not_mem_empty row (happs ▸ hrow)
    exact ⟨fun row hrow => absurd hrow (hnone row), fun row hrow => absurd hrow (hnone row), fun row hrow => absurd hrow (hnone row)⟩
  | some range => exact (h.saved range.1 range.2 hsaved).consistent

structure PortsKept (parse : String → Option URL) (w : World) : Prop where
  consistent : w.db.Consistent
  inside : ∀ limits, w.limits = some limits → ∀ row ∈ w.db.apps, row.deleted = false →
    limits.first ≤ row.payload.port ∧ row.payload.previewPort ≤ limits.last
  quota : ∀ a id now made w', Step parse w (.called (.create a id now) (.app made)) w' → ∀ limits, w.limits = some limits →
    ((w'.db.live.countP fun row => row.ownerSID = a.ownerSID : ℕ) : ℤ) ≤ limits.maxPerEmployee
  full : ∀ a id now w', Step parse w (.called (.create a id now) (.failed .ports)) w' → ∀ limits, w.limits = some limits →
    limits.last - limits.first + 1 < 2 * (w.db.live.length : ℤ) + 2
  unchanged : ∀ call error w', Step parse w (.called call (.failed error)) w' → w' = w
  exact : ∀ a expected updated w', Step parse w (.called (.update a expected) (.app updated)) w' →
    (w'.db.Consistent ↔ ¬ Stale w.db a expected)

theorem call_failed {error : Error} (h : (s.call parse call).1 = .failed error) : (s.call parse call).2 = s := by
  unfold Store.call at h ⊢
  cases call <;> dsimp only at h ⊢ <;> split at h <;> simp_all

theorem called_step {answer : Answer} (h : Step parse w (.called call answer) w') :
    (∃ limits, w.limits = some limits ∧ answer = (Store.call parse ⟨w.db, limits⟩ call).1 ∧
      w' = ⟨(Store.call parse ⟨w.db, limits⟩ call).2.db, some (Store.call parse ⟨w.db, limits⟩ call).2.limits, w.reads ++ call.read answer⟩) ∨
    (answer = .failed .database ∧ w' = w) := by
  generalize hevent : Event.called call answer = event at h
  cases h with
  | @calls _ limits =>
    obtain ⟨rfl, rfl⟩ := Event.called.inj hevent
    exact .inl ⟨limits, rfl, rfl, rfl⟩
  | fails =>
    obtain ⟨rfl, rfl⟩ := Event.called.inj hevent
    exact .inr ⟨rfl, rfl⟩
  | opens | breaks | closes => cases hevent

theorem update_step (h : Step parse w (.called (.update a expected) (.app updated)) w') :
    ∃ limits s', w.limits = some limits ∧ Store.update ⟨w.db, limits⟩ a expected = .ok (updated, s') ∧ w'.db = s'.db := by
  rcases called_step h with ⟨limits, hlimits, hanswer, rfl⟩ | ⟨hanswer, -⟩
  · unfold Store.call at hanswer ⊢
    dsimp only at hanswer ⊢
    cases hupdate : Store.update ⟨w.db, limits⟩ a expected with
    | error =>
      rw [hupdate] at hanswer
      cases hanswer
    | ok result =>
      obtain ⟨_, s'⟩ := result
      rw [hupdate] at hanswer
      obtain rfl := Answer.app.inj hanswer
      exact ⟨limits, s', hlimits, hupdate, rfl⟩
  · cases hanswer

theorem create_step {answer : Answer} (h : Step parse w (.called (.create a id now) answer) w') (hanswer : answer ≠ .failed .database) :
    ∃ limits, w.limits = some limits ∧
      ((∃ made s', answer = .app made ∧ Store.create ⟨w.db, limits⟩ parse a id now = .ok (made, s') ∧ w'.db = s'.db) ∨
        (∃ error, answer = .failed error ∧ Store.create ⟨w.db, limits⟩ parse a id now = .error error)) := by
  rcases called_step h with ⟨limits, hlimits, rfl, rfl⟩ | ⟨hfailed, -⟩
  · refine ⟨limits, hlimits, ?_⟩
    unfold Store.call
    dsimp only
    cases hcreate : Store.create ⟨w.db, limits⟩ parse a id now with
    | error error =>
      right
      exact ⟨error, rfl, rfl⟩
    | ok result =>
      left
      exact ⟨result.1, result.2, rfl, rfl, rfl⟩
  · exact absurd hfailed hanswer

theorem stale_inconsistent (h : s.db.Mapped [] first last) (hstale : Stale s.db a expected)
    (hupdate : s.update a expected = .ok (updated, s')) : ¬ s'.db.Consistent := by
  intro hconsistent
  obtain ⟨-, -, -, rfl⟩ := update_ok hupdate
  obtain ⟨-, -, row, hrow, hlive, hid, -, -, hports⟩ := hstale
  have hstored : (⟨row.payload.port, row.payload.id, false⟩ : PortRow) ∈ s.db.ports :=
    h.owned row hrow hlive not_mem_nil _ (mem_portRows.mpr (.inl rfl))
  obtain ⟨i, -, _, -⟩ := h.placed row hrow hlive not_mem_nil
  have hnew : (⟨row.id, row.ownerSID, ({ a with revision := expected + 1 } : App).marshal, row.deleted⟩ : AppRow) ∈
      (s.db.write { a with revision := expected + 1 }).apps := mem_write.mpr (.inl ⟨row, hrow, hid, rfl⟩)
  obtain ⟨hpair, howned⟩ := hconsistent.owned _ hnew hlive
  change a.previewPort = a.port + 1 at hpair
  have hfirst := (howned ⟨row.payload.port, row.payload.id, false⟩).mp ⟨hstored, h.ident row hrow⟩
  rcases hfirst with hfirst | hfirst
  · have hport : row.payload.port = a.port := congrArg PortRow.port hfirst
    exact hports ⟨hport, by omega⟩
  · have hpublic := congrArg PortRow.preview hfirst
    cases hpublic

/-- In a run whose updates all carry the ports that are stored, the ports stay as promised. -/
theorem ports_kept (parse : String → Option URL) (history : List Event) (w : World) (h : Execution (CarefulStep parse) .start history w) :
    PortsKept parse w := by
  have horderly : w.Orderly := by
    apply h.invariant (I := World.Orderly)
    · constructor
      · intro _ _ hsaved
        cases hsaved
      · exact fun _ => ⟨rfl, rfl⟩
      · intro limits hlimits
        cases hlimits
    · exact fun _ _ _ hold hstep => hold.step hstep
  constructor
  · exact horderly.consistent
  · intro limits hlimits row hrow hlive
    obtain ⟨i, _, _, _⟩ := (horderly.saved _ _ (horderly.limits limits hlimits)).placed row hrow hlive not_mem_nil
    omega
  · intro a id now _ w' hstep limits hlimits
    obtain ⟨l, hl, ⟨made', s', hmade, hcreate, hdb⟩ | ⟨error, hfailed, -⟩⟩ := create_step hstep (by simp)
    · obtain rfl := Option.some.inj (hlimits.symm.trans hl)
      have hmapped := horderly.saved _ _ (horderly.limits limits hlimits)
      obtain ⟨hheld, _, -, -, hfresh, -, -, happs, -⟩ := create_ok hcreate
      have hrows : w'.db.live.countP (fun row => row.ownerSID = a.ownerSID) = w.db.live.countP (fun row => row.ownerSID = a.ownerSID) + 1 := by
        unfold Database.live
        rw [hdb, happs, rows_insertOrIgnore hfresh, filter_append, countP_append]
        simp
      rw [held_eq hmapped] at hheld
      dsimp only at hheld
      omega
    · cases hfailed
  · intro a _ _ w' hstep limits hlimits
    obtain ⟨l, hl, ⟨_, s', hmade, -⟩ | ⟨error, hfailed, hcreate⟩⟩ := create_step hstep (by simp)
    · cases hmade
    · obtain rfl := Option.some.inj (hlimits.symm.trans hl)
      obtain rfl := Answer.failed.inj hfailed
      exact create_ports (s := ⟨w.db, limits⟩) (horderly.saved _ _ (horderly.limits limits hlimits)) hcreate
  · intro call error w' hstep
    rcases called_step hstep with ⟨limits, hlimits, hanswer, rfl⟩ | ⟨-, rfl⟩
    · have hsame := call_failed hanswer.symm
      have hread : call.read (.failed error) = [] := by cases call <;> rfl
      rw [hsame, hread, append_nil, ← hlimits]
    · rfl
  · intro a _ _ _ hstep
    obtain ⟨limits, _, hlimits, hupdate, hdb⟩ := update_step hstep
    have hmapped := horderly.saved _ _ (horderly.limits limits hlimits)
    rw [hdb]
    constructor
    · intro hconsistent hstale
      exact stale_inconsistent (s := ⟨w.db, limits⟩) hmapped hstale hupdate hconsistent
    · intro hfresh
      exact (mapped_update (s := ⟨w.db, limits⟩) hmapped hfresh hupdate).consistent

def Store.world (s : Store) (reads : List App) : World := ⟨s.db, some s.limits, reads⟩

theorem Store.steps (parse : String → Option URL) (s : Store) (reads : List App) (call : Call) (h : call.Made reads) :
    Step parse (s.world reads) (.called call (s.call parse call).1)
      ((s.call parse call).2.world (reads ++ call.read (s.call parse call).1)) := .calls call h

theorem Store.gets (parse : String → Option URL) (s : Store) (reads : List App) {id : String} {row : AppRow}
    (hrow : row ∈ s.db.apps) (hid : row.id = id) (hlive : row.deleted = false) :
    Step parse (s.world reads) (.called (.get id) (.app row.app)) (s.world (reads ++ [row.app])) := by
  have hget : s.call parse (.get id) = (.app row.app, s) := by
    unfold Store.call Database.get
    dsimp only
    rw [find?_eq_some.mpr ⟨hrow, hid⟩]
    simp [hlive]
  have hstep := s.steps parse reads (.get id) trivial
  rw [hget] at hstep
  exact hstep

namespace SiteExample

def noOrigins (_ : String) : Option URL := none

def siteID : String := "q0bJ7wYtA1xLr9ZkVhE2mNfu"

def site : App :=
  ⟨"", "S-1-5-21-1000", 7, "w1", "Site", "static", "index.html", [], "", [], "", "", [], 0, 0, false, "", "", .zero, 0, .zero⟩

def opened : Store := ⟨⟨.empty, .empty, some (1024, 1031), some 3⟩, ⟨1024, 1031, 3⟩⟩

def created : Store := (opened.call noOrigins (.create site siteID ⟨0⟩)).2

def siteAt (port : ℤ) : App := { site.created siteID port ⟨0⟩ with ownerSID := "S-1-5-21-1000" }

def moved : Store := (created.call noOrigins (.setRange 2000 2009)).2

theorem created_apps : created.db.apps.rows = [⟨siteID, "S-1-5-21-1000", (siteAt 1024).marshal, false⟩] := by decide

theorem moved_apps : moved.db.apps.rows = [⟨siteID, "S-1-5-21-1000", (siteAt 2000).marshal, false⟩] := by decide

theorem begins : CarefulStep noOrigins .start (.opened 1024 1031 3) (opened.world []) := by
  refine ⟨.opens (s := opened) rfl, ?_⟩
  intro a _ _ hevent
  cases hevent

theorem creates : CarefulStep noOrigins (opened.world []) (.called (.create site siteID ⟨0⟩) (opened.call noOrigins (.create site siteID ⟨0⟩)).1)
    (created.world []) := by
  refine ⟨opened.steps noOrigins [] (.create site siteID ⟨0⟩) trivial, ?_⟩
  intro a _ _ hevent
  cases hevent

def enabled : Store := (moved.call noOrigins (.update (siteAt 2000) 1)).2

theorem enables : Execution (CarefulStep noOrigins) .start
    [.opened 1024 1031 3, .called (.create site siteID ⟨0⟩) (opened.call noOrigins (.create site siteID ⟨0⟩)).1,
      .called (.setRange 2000 2009) (created.call noOrigins (.setRange 2000 2009)).1, .called (.get siteID) (.app (siteAt 2000)),
      .called (.update (siteAt 2000) 1) (moved.call noOrigins (.update (siteAt 2000) 1)).1]
    (enabled.world [siteAt 2000]) := by
  have hmoves : CarefulStep noOrigins (created.world []) (.called (.setRange 2000 2009) (created.call noOrigins (.setRange 2000 2009)).1)
      (moved.world []) := by
    refine ⟨created.steps noOrigins [] (.setRange 2000 2009) trivial, ?_⟩
    intro a expected answer hevent
    cases hevent
  have hrow : ⟨siteID, "S-1-5-21-1000", (siteAt 2000).marshal, false⟩ ∈ moved.db.apps := by
    rw [← mem_rows, moved_apps]
    exact mem_singleton.mpr rfl
  have hreads : CarefulStep noOrigins (moved.world []) (.called (.get siteID) (.app (siteAt 2000))) (moved.world [siteAt 2000]) := by
    refine ⟨moved.gets noOrigins [] hrow rfl rfl, ?_⟩
    intro a expected answer hevent
    cases hevent
  have hupdates : CarefulStep noOrigins (moved.world [siteAt 2000])
      (.called (.update (siteAt 2000) 1) (moved.call noOrigins (.update (siteAt 2000) 1)).1) (enabled.world [siteAt 2000]) := by
    constructor
    · have hmade : Call.Made [siteAt 2000] (.update (siteAt 2000) 1) :=
        ⟨siteAt 2000, mem_singleton.mpr rfl, ⟨rfl, rfl, rfl, rfl⟩, rfl⟩
      have hstep := moved.steps noOrigins [siteAt 2000] (.update (siteAt 2000) 1) hmade
      have hread : ∀ answer, Call.read (.update (siteAt 2000) 1) answer = [] := fun answer => by cases answer <;> rfl
      rw [hread, append_nil] at hstep
      exact hstep
    · intro a _ _ hevent hstale
      obtain ⟨hcall, -⟩ := Event.called.inj hevent
      obtain ⟨rfl, rfl⟩ := Call.update.inj hcall
      obtain ⟨-, -, row, hmem, -, -, -, -, hports⟩ := hstale
      change row ∈ moved.db.apps at hmem
      rw [← mem_rows, moved_apps] at hmem
      obtain rfl := mem_singleton.mp hmem
      exact hports ⟨rfl, rfl⟩
  exact ((((Execution.start.step begins).step creates).step hmoves).step hreads).step hupdates

theorem site_kept : PortsKept noOrigins (enabled.world [siteAt 2000]) := ports_kept noOrigins _ _ enables

def restored : Store := (moved.call noOrigins (.update (siteAt 1024) 1)).2

/-- The site is read before the range moves and updated after, so that its payload names its former ports. -/
theorem site_strays : ¬ ∀ parse history w, Execution (Step parse) .start history w → PortsKept parse w := by
  intro hall
  have hold : ⟨siteID, "S-1-5-21-1000", (siteAt 1024).marshal, false⟩ ∈ created.db.apps := by
    rw [← mem_rows, created_apps]
    exact mem_singleton.mpr rfl
  have hreads : Step noOrigins (created.world []) (.called (.get siteID) (.app (siteAt 1024))) (created.world [siteAt 1024]) :=
    created.gets noOrigins [] hold rfl rfl
  have hmoves := created.steps noOrigins [siteAt 1024] (.setRange 2000 2009) trivial
  have hmade : Call.Made ([siteAt 1024] ++ Call.read (.setRange 2000 2009) (created.call noOrigins (.setRange 2000 2009)).1)
      (.update (siteAt 1024) 1) :=
    ⟨siteAt 1024, mem_append_left _ (mem_singleton.mpr rfl), ⟨rfl, rfl, rfl, rfl⟩, rfl⟩
  have hupdates := moved.steps noOrigins _ (.update (siteAt 1024) 1) hmade
  have hrun := ((((Execution.start.step begins.1).step creates.1).step hreads).step hmoves).step hupdates
  have hkept := (hall noOrigins _ _ hrun).consistent
  have happs : restored.db.apps.rows = [⟨siteID, "S-1-5-21-1000", { siteAt 1024 with ownerSID := "", revision := 2 }, false⟩] := by decide
  have hports : restored.db.ports.rows = [⟨2000, siteID, false⟩, ⟨2001, siteID, true⟩] := by decide
  have hrow : ⟨siteID, "S-1-5-21-1000", { siteAt 1024 with ownerSID := "", revision := 2 }, false⟩ ∈ restored.db.apps := by
    rw [← mem_rows, happs]
    exact mem_singleton.mpr rfl
  have hport : (⟨2000, siteID, false⟩ : PortRow) ∈ restored.db.ports := by
    rw [← mem_rows, hports]
    simp
  obtain ⟨-, howned⟩ := hkept.owned _ hrow rfl
  have hnamed := (howned ⟨2000, siteID, false⟩).mp ⟨hport, rfl⟩
  revert hnamed
  decide

end SiteExample

end WorkAgent.PublishedApps
