import WorkAgent.Library.Sums
import WorkAgent.SharedTrash.Inventory

namespace WorkAgent.SharedTrash

open Library Int64 List StoredEntry Prod

structure Store where
  limit : Int64
  limit_nonneg : 0 ≤ limit.toInt

inductive Fate
  | kept
  | removed
  | stuck
  deriving DecidableEq

structure Pruned where
  fates : List (StoredEntry × Fate)
  cut : Bool

def Pruned.after (item : StoredEntry) (fate : Fate) (run : Pruned) : Pruned := { run with fates := (item, fate) :: run.fates }

section Loop

variable (store : Store) (now : ℤ) (incomplete : Bool) (ended fails : ℕ → Bool)

/-- The loop of `prune` from its `i`-th turn: `ended i` is the look at the context, `fails i` the answer of `removeEntry`. -/
def pruneLoop (i : ℕ) (total : Int64) : List StoredEntry → Pruned
  | [] => ⟨[], false⟩
  | item :: rest =>
    if ended i then ⟨[], true⟩
    else if now < item.expiresAt && (incomplete || total ≤ store.limit) then (pruneLoop (i + 1) total rest).after item .kept
    else if fails i then (pruneLoop (i + 1) total rest).after item .stuck
    else (pruneLoop (i + 1) (total - item.size) rest).after item .removed

def pruneItems (inventory : Inventory) : Pruned :=
  pruneLoop store now inventory.incomplete ended fails 0 (sumWrap (inventory.items.map (·.size))) inventory.items

def prune (toLower : Char → Char) (slice : SliceSort) (root : Answer (List Project)) : Answer Pruned := do
  let inventory ← entries toLower slice root
  .ok (pruneItems store now ended fails inventory)

end Loop

def bytesOf (items : List StoredEntry) : ℤ := total (items.map (·.size))

def removedBytes (fates : List (StoredEntry × Fate)) : ℤ :=
  bytesOf ((fates.filter fun x => x.2 = .removed).map Prod.fst)

def heldBytes (items : List StoredEntry) (fates : List (StoredEntry × Fate)) : ℤ := bytesOf items - removedBytes fates

def unexpired (now : ℤ) (items : List StoredEntry) : List StoredEntry := items.filter fun item => now < item.expiresAt

structure OldestFirst (limit : ℤ) (now : ℤ) (inventory : Inventory) (run : Pruned) : Prop where
  looked : run.fates.map Prod.fst <+: inventory.items
  whole : run.cut = false → run.fates.map Prod.fst = inventory.items
  expired : ∀ item, (item, Fate.kept) ∈ run.fates → now < item.expiresAt
  needed : ∀ before item fate after, run.fates = before ++ (item, fate) :: after → fate ≠ .kept → now < item.expiresAt →
    inventory.incomplete = false ∧ limit < heldBytes inventory.items before
  oldest : ∀ item fate, (item, fate) ∈ run.fates → fate ≠ .kept → now < item.expiresAt →
    ∀ older ∈ inventory.items, older.less item = true → ∃ fate', fate' ≠ Fate.kept ∧ (older, fate') ∈ run.fates
  within : run.cut = false → inventory.incomplete = false → (∀ x ∈ run.fates, x.2 ≠ .stuck) → heldBytes inventory.items run.fates ≤ limit
  least : inventory.incomplete = false → (∀ x ∈ run.fates, x.2 ≠ .stuck) →
    ∀ before item after, run.fates = before ++ (item, Fate.removed) :: after → now < item.expiresAt → (∀ x ∈ after, x.2 ≠ .removed) →
      limit < heldBytes inventory.items run.fates + item.size.toInt

@[simp] theorem bytesOf_nil : bytesOf [] = 0 := rfl

@[simp] theorem bytesOf_cons (item : StoredEntry) (items : List StoredEntry) : bytesOf (item :: items) = item.size.toInt + bytesOf items := by
  simp [bytesOf]

theorem bytesOf_nonneg (items : List StoredEntry) : 0 ≤ bytesOf items := by
  apply total_nonneg
  intro _ hsize
  obtain ⟨item, -, rfl⟩ := mem_map.mp hsize
  exact item.size_nonneg

theorem bytesOf_append (items rest : List StoredEntry) : bytesOf (items ++ rest) = bytesOf items + bytesOf rest := by
  simp [bytesOf, total_append]

theorem bytesOf_le {items rest : List StoredEntry} (h : items.Sublist rest) : bytesOf items ≤ bytesOf rest := by
  apply total_le_of_sublist (h.map _)
  intro _ hsize
  obtain ⟨item, -, rfl⟩ := mem_map.mp hsize
  exact item.size_nonneg

@[simp] theorem removedBytes_nil : removedBytes [] = 0 := rfl

@[simp] theorem removedBytes_cons (item : StoredEntry) (fate : Fate) (fates : List (StoredEntry × Fate)) :
    removedBytes ((item, fate) :: fates) = (if fate = .removed then item.size.toInt else 0) + removedBytes fates := by
  by_cases h : fate = .removed
  · simp [removedBytes, h]
  · simp [removedBytes, h]

@[simp] theorem removedBytes_append (before after : List (StoredEntry × Fate)) :
    removedBytes (before ++ after) = removedBytes before + removedBytes after := by
  simp [removedBytes, bytesOf_append]

theorem removedBytes_eq_zero {fates : List (StoredEntry × Fate)} (h : ∀ x ∈ fates, x.2 ≠ .removed) : removedBytes fates = 0 := by
  induction fates with
  | nil => rfl
  | cons x _ ih =>
    obtain ⟨item, fate⟩ := x
    have hfate : fate ≠ .removed := h (item, fate) (by simp)
    have hrest := ih fun x hx => h x (by simp [hx])
    simp [hfate, hrest]

theorem removedBytes_le (fates : List (StoredEntry × Fate)) : removedBytes fates ≤ bytesOf (fates.map fst) := by
  induction fates with
  | nil => simp
  | cons x =>
    obtain ⟨item, _⟩ := x
    have hsize := item.size_nonneg
    simp only [removedBytes_cons, map_cons, bytesOf_cons]
    split <;> omega

section Runs

variable {store : Store} {now : ℤ} {incomplete : Bool} {ended fails : ℕ → Bool} {i : ℕ} {held : ℤ}
  {item : StoredEntry} {fate : Fate} {items rest : List StoredEntry} {before after : List (StoredEntry × Fate)}

theorem toInt_ofInt (n : ℤ) : (ofInt n).toInt = n.bmod (2 ^ 64) := Int64.toInt_ofInt

theorem held_of_above (hheld : 0 ≤ held) (h : ¬ ofInt held ≤ store.limit) :
    store.limit.toInt < held ∧ (held < 2 ^ 63 ∨ 2 ^ 64 ≤ held) := by
  have hlimit := store.limit_nonneg
  rw [le_iff_toInt_le, toInt_ofInt, Int.bmod_def] at h
  split at h <;> omega

theorem held_of_below (hheld : 0 ≤ held) (hbound : held < 2 ^ 63) (h : ofInt held ≤ store.limit) : held ≤ store.limit.toInt := by
  rw [le_iff_toInt_le, toInt_ofInt, Int.bmod_def] at h
  split at h <;> omega

theorem pruneLoop_cons (hended : ended i = false) :
    ∃ fate, pruneLoop store now incomplete ended fails i (ofInt held) (item :: rest) =
        (pruneLoop store now incomplete ended fails (i + 1) (ofInt (held - if fate = .removed then item.size.toInt else 0)) rest).after
          item fate ∧
      (fate = .kept ↔ now < item.expiresAt ∧ (incomplete = true ∨ ofInt held ≤ store.limit)) ∧ (fate = .stuck → fails i = true) := by
  by_cases hkept : now < item.expiresAt ∧ (incomplete = true ∨ ofInt held ≤ store.limit)
  · refine ⟨.kept, ?_, by simp [hkept], by simp⟩
    simp [pruneLoop, hended, hkept]
  · have hattempt : (decide (now < item.expiresAt) && (incomplete || decide (ofInt held ≤ store.limit))) = false := by
      rw [← Bool.not_eq_true]
      simpa using hkept
    cases hfails : fails i with
    | true =>
      refine ⟨.stuck, ?_, by simp [hkept], by simp⟩
      simp only [pruneLoop, hended, hattempt, hfails]
      simp
    | false =>
      refine ⟨.removed, ?_, by simp [hkept], by simp⟩
      simp only [pruneLoop, hended, hattempt, hfails]
      simp [ofInt_sub]

theorem pruneLoop_looked : (pruneLoop store now incomplete ended fails i (ofInt held) items).fates.map fst <+: items ∧
    ((pruneLoop store now incomplete ended fails i (ofInt held) items).cut = false →
      (pruneLoop store now incomplete ended fails i (ofInt held) items).fates.map fst = items) := by
  induction items generalizing i held with
  | nil => simp [pruneLoop]
  | cons item rest ih =>
    cases hended : ended i with
    | true => simp [pruneLoop, hended]
    | false =>
      obtain ⟨fate, hrun, -, -⟩ := @pruneLoop_cons store now incomplete ended fails i held item rest hended
      rw [hrun]
      obtain ⟨hlooked, hwhole⟩ := @ih (i + 1) (held - if fate = .removed then item.size.toInt else 0)
      constructor
      · simpa [Pruned.after] using hlooked
      · intro hcut
        simpa [Pruned.after] using hwhole hcut

theorem pruneLoop_fate
    (h : (pruneLoop store now incomplete ended fails i (ofInt held) items).fates = before ++ (item, fate) :: after) :
    fate = .kept ↔ now < item.expiresAt ∧ (incomplete = true ∨ ofInt (held - removedBytes before) ≤ store.limit) := by
  induction items generalizing i held before with
  | nil => simp [pruneLoop] at h
  | cons head rest ih =>
    cases hended : ended i with
    | true => simp [pruneLoop, hended] at h
    | false =>
      obtain ⟨_, hrun, hfirst, -⟩ := @pruneLoop_cons store now incomplete ended fails i held head rest hended
      rw [hrun] at h
      cases before with
      | nil =>
        obtain ⟨hhead, -⟩ := List.cons.inj h
        obtain ⟨rfl, rfl⟩ := Prod.mk.inj hhead
        simpa using hfirst
      | cons =>
        obtain ⟨rfl, hrest⟩ := List.cons.inj h
        rw [ih hrest, removedBytes_cons, sub_sub]

theorem pruneLoop_stuck (hnever : ∀ i, fails i = false) :
    ∀ x ∈ (pruneLoop store now incomplete ended fails i (ofInt held) items).fates, x.2 ≠ .stuck := by
  induction items generalizing i held with
  | nil => simp [pruneLoop]
  | cons item rest ih =>
    cases hended : ended i with
    | true => simp [pruneLoop, hended]
    | false =>
      obtain ⟨_, hrun, -, hstuck⟩ := @pruneLoop_cons store now incomplete ended fails i held item rest hended
      rw [hrun]
      intro x hx
      rcases mem_cons.mp hx with rfl | hx
      · intro h
        simp [hnever] at hstuck
        exact hstuck h
      · exact ih x hx

theorem pruneLoop_cut (hnever : ∀ i, ended i = false) :
    (pruneLoop store now incomplete ended fails i (ofInt held) items).cut = false := by
  induction items generalizing i held with
  | nil => rfl
  | cons item rest ih =>
    obtain ⟨_, hrun, -, -⟩ := @pruneLoop_cons store now incomplete ended fails i held item rest (hnever i)
    rw [hrun]
    exact ih

end Runs

section Pool

variable {store : Store} {now : ℤ} {ended fails : ℕ → Bool} {inventory : Inventory} {fates before after : List (StoredEntry × Fate)}
  {item older : StoredEntry} {fate : Fate}

theorem pruneItems_eq : pruneItems store now ended fails inventory =
    pruneLoop store now inventory.incomplete ended fails 0 (ofInt (bytesOf inventory.items)) inventory.items := by
  have htotal : sumWrap (inventory.items.map (·.size)) = ofInt (bytesOf inventory.items) := by
    apply toInt_inj.mp
    rw [toInt_sumWrap, toInt_ofInt]
    rfl
  unfold pruneItems
  rw [htotal]

theorem looked (h : (pruneItems store now ended fails inventory).fates = fates) : fates.map fst <+: inventory.items := by
  rw [pruneItems_eq] at h
  rw [← h]
  exact pruneLoop_looked.1

theorem heldBytes_nonneg (h : fates.map fst <+: inventory.items) : 0 ≤ heldBytes inventory.items fates := by
  obtain ⟨rest, hrest⟩ := h
  have hsum : bytesOf inventory.items = bytesOf (fates.map fst) + bytesOf rest := by
    rw [← hrest, bytesOf_append]
  have hremoved := removedBytes_le fates
  have hnonneg := bytesOf_nonneg rest
  unfold heldBytes
  omega

theorem heldBytes_before (h : (pruneItems store now ended fails inventory).fates = before ++ after) :
    0 ≤ heldBytes inventory.items before := by
  apply heldBytes_nonneg
  apply (prefix_append (before.map fst) (after.map fst)).trans
  rw [← map_append]
  exact looked h

theorem heldBytes_kept (hwhole : fates.map fst = inventory.items) (hstuck : ∀ x ∈ fates, x.2 ≠ .stuck) :
    heldBytes inventory.items fates = bytesOf ((fates.filter fun x => x.2 = .kept).map fst) := by
  unfold heldBytes
  rw [← hwhole]
  clear hwhole
  induction fates with
  | nil => rfl
  | cons x _ ih =>
    obtain ⟨item, fate⟩ := x
    have hrest := ih fun y hy => hstuck y (by simp [hy])
    cases fate with
    | kept | removed =>
      simp
      omega
    | stuck => exact absurd rfl (hstuck (item, .stuck) (by simp))

section

variable (h : (pruneItems store now ended fails inventory).fates = before ++ (item, fate) :: after)
include h

theorem fate_iff :
    fate = .kept ↔ now < item.expiresAt ∧
      (inventory.incomplete = true ∨ ofInt (heldBytes inventory.items before) ≤ store.limit) := by
  rw [pruneItems_eq] at h
  exact pruneLoop_fate h

theorem attempt_needed (hfate : fate ≠ .kept)
    (hitem : now < item.expiresAt) : inventory.incomplete = false ∧
      store.limit.toInt < heldBytes inventory.items before ∧
      (heldBytes inventory.items before < 2 ^ 63 ∨ 2 ^ 64 ≤ heldBytes inventory.items before) := by
  have hroom : ¬ (inventory.incomplete = true ∨ ofInt (heldBytes inventory.items before) ≤ store.limit) :=
    fun hroom => hfate ((fate_iff h).mpr ⟨hitem, hroom⟩)
  rw [not_or, Bool.not_eq_true] at hroom
  exact ⟨hroom.1, held_of_above (heldBytes_before h) hroom.2⟩

variable (hordered : inventory.items.Pairwise fun a b => b.less a = false)
include hordered

theorem mem_before (holder : older ∈ inventory.items) (hless : older.less item = true) : older ∈ before.map fst := by
  obtain ⟨_, hrest⟩ := looked h
  rw [← hrest] at holder hordered
  simp only [map_append, map_cons, append_assoc, cons_append] at holder hordered
  rcases mem_append.mp holder with hmem | hmem
  · exact hmem
  · exfalso
    obtain ⟨hfirst, -⟩ := pairwise_cons.mp (pairwise_append.mp hordered).2.1
    rcases mem_cons.mp hmem with rfl | hmem
    · rw [less_irrefl] at hless
      cases hless
    · rw [hfirst older hmem] at hless
      cases hless

theorem unexpired_after (hitem : now < item.expiresAt) :
    ∀ x ∈ after, now < x.1.expiresAt := by
  intro x hx
  have hsorted := hordered.sublist (looked h).sublist
  rw [map_append, map_cons] at hsorted
  obtain ⟨hfirst, -⟩ := pairwise_cons.mp (pairwise_append.mp hsorted).2.1
  exact hitem.trans_le (expires_le (hfirst x.1 (mem_map_of_mem hx)))

theorem expired_before (hitem : item.expiresAt ≤ now) :
    ∀ x ∈ before, x.1.expiresAt ≤ now := by
  intro x hx
  have hsorted := hordered.sublist (looked h).sublist
  rw [map_append, map_cons] at hsorted
  have hless := (pairwise_append.mp hsorted).2.2 x.1 (mem_map_of_mem hx) item (by simp)
  exact (expires_le hless).trans hitem

end

theorem heldBytes_le_unexpired (h : (pruneItems store now ended fails inventory).fates = fates)
    (hwhole : fates.map fst = inventory.items) (hstuck : ∀ x ∈ fates, x.2 ≠ .stuck) :
    heldBytes inventory.items fates ≤ bytesOf (unexpired now inventory.items) := by
  rw [heldBytes_kept hwhole hstuck]
  apply bytesOf_le
  have hkept : ∀ x ∈ fates, (decide (x.2 = .kept) && decide (now < x.1.expiresAt)) = decide (x.2 = .kept) := by
    rintro ⟨_, fate⟩ hx
    obtain ⟨_, _, rfl⟩ := append_of_mem hx
    have hfate := fate_iff h
    by_cases hsame : fate = .kept
    · simp [hsame, (hfate.mp hsame).1]
    · simp [hsame]
  unfold unexpired
  rw [← hwhole, filter_map, ← filter_congr hkept, ← filter_filter]
  exact (filter_sublist).map fst

section

variable (hordered : inventory.items.Pairwise fun a b => b.less a = false)
include hordered

theorem kept_between {middle : List (StoredEntry × Fate)}
    (h : (pruneItems store now ended fails inventory).fates = before ++ (item, .kept) :: (middle ++ after)) : ∀ x ∈ middle, x.2 = .kept := by
  obtain ⟨hitem, hroom⟩ := (fate_iff h).mp rfl
  have hunexpired := unexpired_after h hordered hitem
  induction middle using List.reverseRecOn generalizing after with
  | nil => simp
  | append_singleton middle x ih =>
    have hmiddle : ∀ y ∈ middle, y.2 = .kept := by
      apply @ih (x :: after)
      · simpa using h
      · simpa using hunexpired
    have hnone : removedBytes middle = 0 := by
      apply removedBytes_eq_zero
      intro y hy
      simp [hmiddle y hy]
    have hsame : heldBytes inventory.items (before ++ (item, .kept) :: middle) = heldBytes inventory.items before := by
      simp [heldBytes, hnone]
    obtain ⟨last, fate⟩ := x
    have hlast : fate = .kept := by
      apply (@fate_iff _ _ _ _ _ (before ++ (item, .kept) :: middle) after _ _ (by simpa using h)).mpr
      rw [hsame]
      exact ⟨hunexpired (last, fate) (by simp), hroom⟩
    intro y hy
    rcases mem_append.mp hy with hy | hy
    · exact hmiddle y hy
    · rw [mem_singleton.mp hy]
      exact hlast

theorem kept_after (h : (pruneItems store now ended fails inventory).fates = before ++ (item, .kept) :: after) : ∀ x ∈ after, x.2 = .kept := by
  apply @kept_between _ _ _ _ _ before [] item hordered after
  simpa using h

theorem attempt_oldest (h : (pruneItems store now ended fails inventory).fates = before ++ (item, fate) :: after) (hfate : fate ≠ .kept)
    (holder : older ∈ inventory.items) (hless : older.less item = true) :
    ∃ fate', fate' ≠ Fate.kept ∧ (older, fate') ∈ before := by
  obtain ⟨⟨_, fate'⟩, hmem, rfl⟩ := mem_map.mp (mem_before h hordered holder hless)
  refine ⟨fate', ?_, hmem⟩
  rintro rfl
  obtain ⟨first, last, rfl⟩ := append_of_mem hmem
  apply hfate
  apply @kept_after _ _ _ _ _ first (last ++ (item, fate) :: after) _ hordered (by simpa using h) (item, fate)
  simp

theorem remaining_within
    (h : (pruneItems store now ended fails inventory).fates = fates) (hwhole : fates.map fst = inventory.items)
    (hcomplete : inventory.incomplete = false) (hstuck : ∀ x ∈ fates, x.2 ≠ .stuck)
    (hfits : bytesOf (unexpired now inventory.items) < 2 ^ 63) : heldBytes inventory.items fates ≤ store.limit.toInt := by
  have hbound := (heldBytes_le_unexpired h hwhole hstuck).trans_lt hfits
  by_cases hkept : ∃ item, (item, Fate.kept) ∈ fates
  · obtain ⟨item, hitem⟩ := hkept
    obtain ⟨before, after, rfl⟩ := append_of_mem hitem
    have hnone : removedBytes after = 0 := by
      apply removedBytes_eq_zero
      intro x hx
      simp [kept_after hordered h x hx]
    have hsame : heldBytes inventory.items (before ++ (item, .kept) :: after) = heldBytes inventory.items before := by
      simp [heldBytes, hnone]
    rw [hsame] at hbound ⊢
    have hroom := ((fate_iff h).mp rfl).2
    rw [hcomplete] at hroom
    exact held_of_below (heldBytes_before h) hbound (hroom.resolve_left (by simp))
  · have hnone : (fates.filter fun x => x.2 = .kept) = [] := by
      apply filter_eq_nil_iff.mpr
      rintro ⟨item, _⟩ hx
      simp only [decide_eq_true_eq]
      rintro rfl
      exact hkept ⟨item, hx⟩
    rw [heldBytes_kept hwhole hstuck, hnone]
    exact store.limit_nonneg

theorem held_above_range
    (h : (pruneItems store now ended fails inventory).fates = before ++ after)
    (hover : 2 ^ 63 ≤ bytesOf (unexpired now inventory.items)) : 2 ^ 63 ≤ heldBytes inventory.items before := by
  induction before using List.reverseRecOn generalizing after with
  | nil =>
    have hall := bytesOf_le (filter_sublist (l := inventory.items) (p := fun item => decide (now < item.expiresAt)))
    apply hover.trans
    simpa [heldBytes, unexpired] using hall
  | append_singleton before x ih =>
    obtain ⟨item, fate⟩ := x
    have hturn : (pruneItems store now ended fails inventory).fates = before ++ (item, fate) :: after := by simpa using h
    have hbefore := ih hturn
    by_cases hremoved : fate = .removed
    · by_cases hitem : now < item.expiresAt
      · have hwrapped := (attempt_needed hturn (by simp [hremoved]) hitem).2.2
        have hsize := item.size.toInt_lt
        simp only [heldBytes, removedBytes_append, removedBytes_cons, hremoved, if_true, removedBytes_nil] at hbefore hwrapped ⊢
        omega
      · obtain ⟨rest, hrest⟩ := looked h
        rw [map_append, append_assoc] at hrest
        have hexpired : unexpired now ((before ++ [(item, fate)]).map fst) = [] := by
          apply filter_eq_nil_iff.mpr
          intro _ hentry
          obtain ⟨x, hx, rfl⟩ := mem_map.mp hentry
          simp only [decide_eq_true_eq, not_lt]
          rcases mem_append.mp hx with hx | hx
          · exact expired_before hturn hordered (not_lt.mp hitem) x hx
          · rw [mem_singleton.mp hx]
            exact not_lt.mp hitem
        have hrestOver : bytesOf (unexpired now inventory.items) ≤ bytesOf (after.map fst ++ rest) := by
          rw [← hrest, unexpired, filter_append]
          rw [unexpired] at hexpired
          rw [hexpired, nil_append]
          exact bytesOf_le filter_sublist
        have hremovedBytes := removedBytes_le (before ++ [(item, fate)])
        have hsum : bytesOf inventory.items = bytesOf ((before ++ [(item, fate)]).map fst) + bytesOf (after.map fst ++ rest) := by
          rw [← hrest, bytesOf_append]
        unfold heldBytes
        omega
    · have hsame : heldBytes inventory.items (before ++ [(item, fate)]) = heldBytes inventory.items before := by
        simp [heldBytes, hremoved]
      rw [hsame]
      exact hbefore

end

theorem pruneItems_whole (h : (pruneItems store now ended fails inventory).cut = false) :
    (pruneItems store now ended fails inventory).fates.map fst = inventory.items := by
  rw [pruneItems_eq] at h ⊢
  exact pruneLoop_looked.2 h

theorem pruneItems_oldestFirst (hordered : inventory.items.Pairwise fun a b => b.less a = false)
    (hfits : inventory.incomplete = true ∨ bytesOf (unexpired now inventory.items) < 2 ^ 63) :
    OldestFirst store.limit.toInt now inventory (pruneItems store now ended fails inventory) where
  looked := looked rfl
  whole := pruneItems_whole
  expired := by
    intro item hitem
    obtain ⟨before, after, h⟩ := append_of_mem hitem
    exact ((fate_iff h).mp rfl).1
  needed := by
    intro before item fate after h hfate hitem
    obtain ⟨hcomplete, habove, -⟩ := attempt_needed h hfate hitem
    exact ⟨hcomplete, habove⟩
  oldest := by
    intro item _ hmem hfate hitem _ holder hless
    obtain ⟨before, after, h⟩ := append_of_mem hmem
    obtain ⟨fate', hfate', hbefore⟩ := attempt_oldest hordered h hfate holder hless
    refine ⟨fate', hfate', ?_⟩
    rw [h]
    exact mem_append_left _ hbefore
  within := by
    intro hcut hcomplete hstuck
    rw [hcomplete] at hfits
    exact remaining_within hordered rfl (pruneItems_whole hcut) hcomplete hstuck (hfits.resolve_left (by simp))
  least := by
    intro _ _ _ _ _ h hitem hlast
    have habove := (attempt_needed h (by simp) hitem).2.1
    rw [h]
    have hnone := removedBytes_eq_zero hlast
    simp only [heldBytes, removedBytes_append, removedBytes_cons, hnone, if_true] at habove ⊢
    omega

end Pool

section Pruning

variable (toLower : Char → Char) (slice : SliceSort) (store : Store) (now : ℤ) (root : Answer (List Project))

/-- Whatever the removals answer and whenever the context ends, `prune` does to the pool what it is for. -/
def PrunesOldestFirst : Prop :=
  ∀ (ended fails : ℕ → Bool) (inventory : Inventory) (run : Pruned), entries toLower slice root = .ok inventory →
    prune store now ended fails toLower slice root = .ok run → OldestFirst store.limit.toInt now inventory run

/-- The bytes of the unexpired entries of a pool that could be read whole have a sum in the range of `int64`. -/
def TotalFits : Prop :=
  ∀ inventory, entries toLower slice root = .ok inventory → inventory.incomplete = true ∨ bytesOf (unexpired now inventory.items) < 2 ^ 63

theorem prune_overflows {inventory : Inventory} (hentries : entries toLower slice root = .ok inventory)
    (hcomplete : inventory.incomplete = false) (hover : 2 ^ 63 ≤ bytesOf (unexpired now inventory.items)) :
    ¬ PrunesOldestFirst toLower slice store now root := by
  intro hprunes
  have hordered := entries_ordered hentries
  have hrun : prune store now (fun _ => false) (fun _ => false) toLower slice root =
      .ok (pruneItems store now (fun _ => false) (fun _ => false) inventory) := by
    unfold prune
    rw [hentries]
    rfl
  have hdone := hprunes _ _ inventory _ hentries hrun
  have hcut : (pruneItems store now (fun _ => false) (fun _ => false) inventory).cut = false := by
    rw [pruneItems_eq]
    exact pruneLoop_cut fun _ => rfl
  have hstuck : ∀ x ∈ (pruneItems store now (fun _ => false) (fun _ => false) inventory).fates, x.2 ≠ .stuck := by
    rw [pruneItems_eq]
    exact pruneLoop_stuck fun _ => rfl
  have hwithin := hdone.within hcut hcomplete hstuck
  have hall : (pruneItems store now (fun _ => false) (fun _ => false) inventory).fates =
      (pruneItems store now (fun _ => false) (fun _ => false) inventory).fates ++ [] := (append_nil _).symm
  have habove := held_above_range hordered hall hover
  have hlimit := store.limit.toInt_lt
  omega

/-- Pruning is minimal and oldest first as long as the total of the unexpired entries does not wrap, and only then. -/
theorem prune_oldestFirst : PrunesOldestFirst toLower slice store now root ↔ TotalFits toLower slice now root := by
  constructor
  · intro hprunes inventory hentries
    by_contra hover
    rw [not_or, Bool.not_eq_true, not_lt] at hover
    exact prune_overflows toLower slice store now root hentries hover.1 hover.2 hprunes
  · intro hfits _ _ inventory _ hentries hrun
    unfold prune at hrun
    rw [hentries] at hrun
    cases hrun
    exact pruneItems_oldestFirst (entries_ordered hentries) (hfits inventory hentries)

end Pruning

section Overflow

def StoredEntry.atMost (a b : StoredEntry) : Prop := b.less a = false

instance : DecidableRel atMost := fun a b => inferInstanceAs (Decidable (b.less a = false))

theorem atMost_iff {a b : StoredEntry} :
    a.atMost b ↔ a.deletedAt < b.deletedAt ∨ a.deletedAt = b.deletedAt ∧ a.order.toInt ≤ b.order.toInt := by
  unfold atMost
  rw [← Bool.not_eq_true, less_iff]
  omega

instance : Std.Total atMost := ⟨fun a b => by rw [atMost_iff, atMost_iff]; omega⟩

instance : IsTrans StoredEntry atMost :=
  ⟨fun a b c hab hbc => by rw [atMost_iff] at *; omega⟩

def insertionSlice : SliceSort where
  sort := List.insertionSort atMost
  perm := perm_insertionSort _
  ordered := pairwise_insertionSort atMost

def hugeRecord (id : String) (order : Int64) : Metadata where
  version := 1
  projectID := "project-000000001".toList
  id := id.toList
  order := order
  phase := .settled
  name := "a.bin".toList
  path := "a.bin".toList
  kind := .file
  size := 2 ^ 62
  deletedAt := 0
  expiresAt := retention

def hugeItem (id : String) (order : Int64) : Item where
  name := id.toList
  isDir := true
  directory := .ok .directory
  journal := .ok .file
  content := .ok (some (hugeRecord id order))
  payload := .ok .file
  treeSize := .error .notExist

def hugePool : Answer (List Project) :=
  .ok [{
    name := "project-000000001".toList
    isDir := true
    directory := .ok .directory
    items := .ok [hugeItem "entry-000000000000000001" 1, hugeItem "entry-000000000000000002" 2] }]

def limitStore : Store := ⟨60 * 1024 * 1024 * 1024, by decide⟩

set_option maxRecDepth 100000 in
theorem hugePool_kept : ¬ PrunesOldestFirst Char.toLower insertionSlice limitStore 0 hugePool := by
  have hentries : ∃ inventory, entries Char.toLower insertionSlice hugePool = .ok inventory ∧ inventory.incomplete = false ∧
      2 ^ 63 ≤ bytesOf (unexpired 0 inventory.items) := ⟨_, rfl, rfl, by decide⟩
  obtain ⟨_, hentries, hcomplete, hover⟩ := hentries
  exact prune_overflows _ _ _ _ _ hentries hcomplete hover

end Overflow

end WorkAgent.SharedTrash
