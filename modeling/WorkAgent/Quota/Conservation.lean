import WorkAgent.Quota.Consistency

namespace WorkAgent.Quota

open Library List Table

namespace Store

variable {s t : Store}

def recorded (s : Store) (first last : ℤ) : List GatewayUsageRow :=
  s.gatewayUsage.rows.filter (fun g => first ≤ g.occurredAt ∧ g.occurredAt ≤ last)

def pinnedTo (s : Store) (runID : String) : List GatewayUsageRow :=
  s.gatewayUsage.rows.filter (fun g => g.matchedRunID = some runID)

def Exact (s : Store) : Prop :=
  ∀ x r u, s.reservationByRun x = some r → r.settleSource = some .gateway → r.actualUnits = some u →
    u.toInt = total (tokens (s.pinnedTo x))

/-- A sum that int64 addition either reports exactly or turns into a negative number, which the
`CHECK` of `actual_units` refuses. -/
def Sums (rows : List GatewayUsageRow) : Prop :=
  total (tokens rows) < 2 ^ 63 ∨ 2 ^ 63 ≤ total (tokens rows) % 2 ^ 64

theorem counted_sum (sid : String) (first last : ℤ) :
    total (tokens (s.counted sid first last)) =
      (((s.recorded first last).filter (fun g => s.chargedSID g = sid)).map
        (fun g => g.totalTokens.toInt)).sum := by
  have hrows : s.counted sid first last = s.gatewayUsage.rows.filter (fun g =>
      decide (g.failed = false ∨ 0 < g.totalTokens.toInt) &&
        decide (s.chargedSID g = sid ∧ first ≤ g.occurredAt ∧ g.occurredAt ≤ last)) := by
    unfold counted
    apply filter_congr
    intro g _
    rw [← Bool.decide_and, decide_eq_decide]
    tauto
  have hwindow : (s.recorded first last).filter (fun g => s.chargedSID g = sid) =
      s.gatewayUsage.rows.filter (fun g =>
        decide (s.chargedSID g = sid ∧ first ≤ g.occurredAt ∧ g.occurredAt ≤ last)) := by
    unfold recorded
    rw [filter_filter]
    apply filter_congr
    intro g _
    rw [← Bool.decide_and]
  unfold total tokens
  rw [map_map, hrows, hwindow]
  apply sum_filter_nonzero
  intro g hg
  have hpos := g.totalTokens.nonneg
  simp only [decide_eq_false_iff_not, not_or, not_lt] at hg
  have hle : g.totalTokens.val.toInt ≤ 0 := hg.2
  exact le_antisymm hle hpos

theorem charges_sum (sids : Finset String) (first last : ℤ)
    (h : ∀ g ∈ s.gatewayUsage, s.chargedSID g ∈ sids) :
    ∑ sid ∈ sids, total (tokens (s.counted sid first last)) = total (tokens (s.recorded first last)) := by
  simp only [counted_sum]
  rw [sum_charges]
  · unfold total tokens
    rw [map_map]
    rfl
  · intro g hg
    exact h g (mem_of_mem_filter hg)

theorem tokens_pinnedTo_other (env : Env) (r : ReservationRow) {x : String} (hx : x ≠ r.runID) :
    tokens ((s.pin env r).pinnedTo x) = tokens (s.pinnedTo x) := by
  unfold pinnedTo pin tokens
  rw [rows_update]
  induction s.gatewayUsage.rows with
  | nil => rfl
  | cons g _ ih =>
    rw [map_cons, filter_cons, filter_cons]
    by_cases hm : s.Matches env r g
    · have hnone : g.matchedRunID = none := hm.1
      have hother : ¬ r.runID = x := fun h => hx h.symm
      simp only [if_pos hm, hnone, Option.some_inj, hother, decide_false, Bool.false_eq_true, if_false,
        reduceCtorEq]
      exact ih
    · rw [if_neg hm]
      split
      · rw [map_cons, map_cons, ih]
      · exact ih

theorem tokens_pinnedTo_run (env : Env) (r : ReservationRow)
    (hnew : ∀ g ∈ s.gatewayUsage, g.matchedRunID ≠ some r.runID) :
    tokens ((s.pin env r).pinnedTo r.runID) = tokens (s.matching env r) := by
  have hrows : ∀ g ∈ s.gatewayUsage.rows, g.matchedRunID ≠ some r.runID := hnew
  unfold pinnedTo pin matching tokens
  rw [rows_update]
  generalize s.gatewayUsage.rows = rows at hrows ⊢
  induction rows with
  | nil => rfl
  | cons g _ ih =>
    have ih' := ih (fun x hx => hrows x (by simp [hx]))
    rw [map_cons, filter_cons, filter_cons]
    by_cases hm : s.Matches env r g
    · simp only [hm, decide_true, ↓reduceIte, map_cons]
      rw [ih']
    · have hg := hrows g (by simp)
      simp only [hg, hm, decide_false, Bool.false_eq_true, if_false]
      exact ih'

theorem Exact.of_eq (h : s.Exact) (hg : t.gatewayUsage = s.gatewayUsage)
    (hr : ∀ x r, t.reservationByRun x = some r → r.settleSource = some .gateway →
      s.reservationByRun x = some r) : t.Exact := by
  intro x r u hx hsource hu
  have hpinned : t.pinnedTo x = s.pinnedTo x := by
    unfold pinnedTo
    rw [hg]
  rw [hpinned]
  exact h x r u (hr x r hx hsource) hsource hu

theorem Exact.record (h : s.Exact) {g : GatewayUsageRow} (hg : g.matchedRunID = none) :
    Exact { s with gatewayUsage := s.gatewayUsage.insertOrIgnore g } := by
  intro x r u hx hsource hu
  rw [h x r u hx hsource hu]
  have hpinned : ({ s with gatewayUsage := s.gatewayUsage.insertOrIgnore g } : Store).pinnedTo x =
      s.pinnedTo x := by
    unfold pinnedTo
    cases hf : s.gatewayUsage.find? g.requestID with
    | none =>
      simp only
      rw [rows_insertOrIgnore hf, filter_append]
      simp [hg]
    | some =>
      simp only
      rw [insertOrIgnore_of_some hf]
  rw [hpinned]

variable {r : ReservationRow}

theorem unpinned (hs : Consistent s) (hr : s.reservationByRun r.runID = some r)
    (hst : r.status = .reserved) : ∀ g ∈ s.gatewayUsage, g.matchedRunID ≠ some r.runID := by
  intro g hg hmatched
  obtain ⟨z, hz, hgate⟩ := hs.pinned g _ hg hmatched
  cases hr.symm.trans hz
  rw [r.source_none hst] at hgate
  cases hgate

variable {env : Env}

theorem Exact.closed (h : s.Exact) {actual units : Units}
    {amount : Int64} {source : Option SettleSource} {pinned : Store}
    (c : Closed s env r actual amount source pinned units t)
    (hnew : ∀ g ∈ s.gatewayUsage, g.matchedRunID ≠ some r.runID)
    (hsums : s.SettlesByRecords r → Sums (s.matching env r)) : t.Exact := by
  have husage (x : String) : t.pinnedTo x = pinned.pinnedTo x := by
    unfold pinnedTo
    rw [c.usage]
  intro x y u hx hsource hu
  rw [husage]
  have hby := c.settledBy
  have hval := c.value
  by_cases hrun : x = r.runID
  · subst hrun
    cases c.run.symm.trans hx
    cases hu
    generalize hsrc : source = src at hby
    cases hby with
    | estimate _ hne => exact absurd (hsrc.symm.trans hsource) hne
    | records hrec =>
      rw [tokens_pinnedTo_run env r hnew]
      rcases hsums hrec with hlt | _
      · change units.val.toInt = _
        rw [hval]
        exact (sumWrap_eq_total (tokens_nonneg _)).mpr hlt
      · have := sumWrap_nonneg.mp (hval ▸ units.nonneg)
        omega
  · rw [c.others x hrun] at hx
    have hold := h x y u hx hsource hu
    cases hby with
    | estimate => exact hold
    | records =>
      rw [tokens_pinnedTo_other env r hrun]
      exact hold

def SumsFor (s : Store) (env : Env) (runtimeSID : String) (r : ReservationRow) (actual : Units) : Prop :=
  ((s.retained env runtimeSID r actual).awaiting env r).SettlesByRecords r →
    Sums (((s.retained env runtimeSID r actual).awaiting env r).matching env r)

theorem Exact.settles (h : s.Exact) (hs : Consistent s) {sid runtimeSID : String} {actual : Units} {result : Except QuotaError Unit}
    (hr : s.reservationByRun r.runID = some r) (hset : Settles s env sid runtimeSID r actual result t)
    (hsums : r.status = .reserved → s.SumsFor env runtimeSID r actual) : t.Exact := by
  have hawaiting (hst : r.status = .reserved) :
      ((s.retained env runtimeSID r actual).awaiting env r).Exact := by
    apply h.of_eq
    · rw [awaiting_gatewayUsage, retained_gatewayUsage]
    · intro x y hx _
      rwa [held_reservationByRun] at hx
  cases hset with
  | replay => exact h
  | pending hst => exact hawaiting hst
  | closed _ hst hc =>
    have hnew := unpinned hs hr hst
    obtain ⟨_, _, _, _, c⟩ := hc.closed ((held_reservationByRun ..).trans hr) hst
    refine (hawaiting hst).closed c ?_ (hsums hst)
    rw [awaiting_gatewayUsage, retained_gatewayUsage]
    exact hnew

theorem Exact.reserve (h : s.Exact) {a : Authorizer} {request : ReserveRequest}
    {auth : Option RunAuthorization} {v : Reservation × Bool} (hres : s.reserve a request auth = .ok (v, t)) :
    t.Exact := by
  cases hr : s.reservationByRun request.runID with
  | some =>
    obtain ⟨-, -, rfl, -⟩ := reserve_existing hr hres
    exact h
  | none =>
    obtain ⟨_, _, _, -, -, -, -, rfl⟩ := reserve_new hr hres
    refine h.of_eq ?_ ?_
    · rfl
    intro x y hx hsource
    rcases mem_insertOrIgnore.mp (find?_eq_some.mp hx).1 with hy | ⟨rfl, -⟩
    · exact find?_eq_some.mpr ⟨hy, runID_of_reservation hx⟩
    · cases hsource

theorem Exact.release (h : s.Exact) {payerSID runID : String}
    (hc : s.cancelUnacceptedSharedRun env payerSID runID = .ok t) : t.Exact := by
  obtain ⟨r, a, hr, -, -, -, ⟨-, rfl⟩ | ⟨hst, -, rfl⟩⟩ := cancelUnacceptedSharedRun_ok hc
  · exact h
  · refine h.of_eq ?_ ?_
    · rfl
    intro x y hx hsource
    unfold reservationByRun at hx
    rw [find?_update, Option.map_eq_some_iff] at hx
    obtain ⟨z, hz, hzy⟩ := hx
    split at hzy
    · rename_i hrun
      subst hzy
      have hzr : z = r := by
        have hx : z.runID = x := runID_of_reservation hz
        rw [← hx, hrun] at hz
        exact Option.some_inj.mp (hz.symm.trans hr)
      subst hzr
      change z.settleSource = some .gateway at hsource
      rw [z.source_none hst] at hsource
      cases hsource
    · subst hzy
      exact hz

theorem Exact.effect (h : s.Exact) (hs : Consistent s) {i : Call} (he : Effect i s t)
    (hsums : ∀ env sid runtimeSID runID actual result r, s.settle env sid runtimeSID runID actual = .ok (result, t) →
      s.reservationByRun runID = some r → r.status = .reserved → s.SumsFor env runtimeSID r actual) :
    t.Exact := by
  cases he with
  | same => exact h
  | ledger _ _ hr _ hg =>
    apply h.of_eq hg
    intro x r hx _
    unfold reservationByRun at hx ⊢
    rwa [hr] at hx
  | record _ _ _ hg => exact h.record hg
  | reserve _ _ _ _ _ _ hres => exact h.reserve hres
  | claim _ _ _ _ _ _ hc =>
    cases claimRuntime_ok hc with
    | unknown | settled => exact h
    | accepted => exact h.of_eq rfl (fun _ _ hx _ => hx)
  | settle env sid runtimeSID request actual result _ _ _ hset =>
    obtain ⟨r, hr, -, hsettles⟩ := settle_ok hset
    have hr' := hr
    rw [← runID_of_reservation hr] at hr'
    exact h.settles hs hr' hsettles (hsums env sid runtimeSID request.runID actual result r hset hr)
  | release _ _ _ _ hc => exact h.release hc
  | recover _ _ _ hc =>
    obtain ⟨x, -, -, ⟨-, rfl⟩ | ⟨-, ⟨-, -, -, rfl⟩ | ⟨-, rfl⟩⟩⟩ := recoverSharedRunAuthorization_ok hc
    · exact h
    · exact h
    · exact h.of_eq rfl (fun _ _ hx _ => hx)

end Store

def SummingStep (c d : Config Store Call Outcome) : Prop :=
  system.Step c d ∧ ∀ env sid runtimeSID runID actual result r,
    c.store.settle env sid runtimeSID runID actual = .ok (result, d.store) →
      c.store.reservationByRun runID = some r → r.status = .reserved →
        c.store.SumsFor env runtimeSID r actual

def SummingRun : Config Store Call Outcome → Config Store Call Outcome → Prop :=
  Relation.ReflTransGen SummingStep

variable {d : Config Store Call Outcome}

theorem SummingRun.run {c : Config Store Call Outcome} (h : SummingRun c d) : system.Run c d := by
  have hle : SummingStep ≤ system.Step := fun _ _ hs => hs.1
  exact Relation.ReflTransGen.mono hle _ _ h

theorem SummingRun.exact (h : SummingRun ⟨.empty, [], [], []⟩ d) :
    d.store.Exact := by
  induction h with
  | refl =>
    intro x r u hx
    cases hx
  | @tail c d hc hs ih =>
    have hreach : system.Reachable c := SummingRun.run hc
    have hcons := Consistent.reachable hreach
    rcases sequential.moves (sequential.holds hreach) hs.1 with
      ⟨he, -⟩ | ⟨i, -, he, -⟩ | ⟨i, a, he | ⟨-, he⟩, -, -⟩ | ⟨he, -⟩
    · rwa [he]
    · exact ih.effect hcons he hs.2
    · rwa [he]
    · exact ih.effect hcons he hs.2
    · have he : c.store = d.store := he
      rwa [← he]

namespace Store

variable {s t : Store}

theorem total_pin (env : Env) (r : ReservationRow) :
    total (tokens (s.pin env r).gatewayUsage.rows) = total (tokens s.gatewayUsage.rows) := by
  unfold pin tokens
  rw [rows_update, map_map]
  congr 1
  apply map_congr_left
  intro g _
  simp only [Function.comp_apply]
  split <;> rfl

theorem Settles.total_eq {env : Env} {sid runtimeSID : String} {r : ReservationRow} {actual : Units}
    {result : Except QuotaError Unit} (hr : s.reservationByRun r.runID = some r)
    (h : Settles s env sid runtimeSID r actual result t) :
    total (tokens t.gatewayUsage.rows) = total (tokens s.gatewayUsage.rows) := by
  cases h with
  | replay => rfl
  | pending => rw [awaiting_gatewayUsage, retained_gatewayUsage]
  | closed _ hst hc =>
    obtain ⟨_, _, _, _, c⟩ := hc.closed (by
      unfold reservationByRun
      rw [awaiting_reservations, retained_reservations]
      exact hr) hst
    rw [c.usage]
    cases c.settledBy with
    | estimate => rw [awaiting_gatewayUsage, retained_gatewayUsage]
    | records => rw [total_pin, awaiting_gatewayUsage, retained_gatewayUsage]

theorem total_le_of_effect {i : Call} (he : Effect i s t) :
    total (tokens s.gatewayUsage.rows) ≤ total (tokens t.gatewayUsage.rows) := by
  cases he with
  | same => exact le_refl _
  | ledger _ _ _ _ hg => rw [hg]
  | record _ g =>
    apply total_le_of_sublist _ (tokens_nonneg _)
    apply List.Sublist.map
    simp only
    cases hf : s.gatewayUsage.find? g.requestID with
    | none =>
      rw [rows_insertOrIgnore hf]
      exact sublist_append_left _ _
    | some => rw [insertOrIgnore_of_some hf]
  | reserve _ request _ _ _ _ hres =>
    cases hr : s.reservationByRun (request.dated (i.env 0)).runID with
    | some =>
      obtain ⟨-, -, rfl, -⟩ := reserve_existing hr hres
      exact le_refl _
    | none =>
      obtain ⟨_, _, _, -, -, -, -, rfl⟩ := reserve_new hr hres
      exact le_refl _
  | claim _ _ _ _ _ _ hc => cases claimRuntime_ok hc <;> exact le_refl _
  | settle _ _ _ _ _ _ _ _ _ hset =>
    obtain ⟨r, hr, -, hsettles⟩ := settle_ok hset
    rw [← runID_of_reservation hr] at hr
    exact le_of_eq (hsettles.total_eq hr).symm
  | release _ _ _ _ hc =>
    obtain ⟨r, a, _, -, -, -, ⟨-, rfl⟩ | ⟨_, -, rfl⟩⟩ := cancelUnacceptedSharedRun_ok hc
    · exact le_refl _
    · exact le_refl _
  | recover _ _ _ hc =>
    obtain ⟨x, -, -, ⟨-, rfl⟩ | ⟨-, ⟨-, -, -, rfl⟩ | ⟨-, rfl⟩⟩⟩ := recoverSharedRunAuthorization_ok hc
    · exact le_refl _
    · exact le_refl _
    · exact le_refl _

theorem sumsFor_of_total_lt (h : total (tokens s.gatewayUsage.rows) < 2 ^ 63) (env : Env)
    (runtimeSID : String) (r : ReservationRow) (actual : Units) : s.SumsFor env runtimeSID r actual := by
  intro _
  left
  refine lt_of_le_of_lt ?_ h
  apply total_le_of_sublist _ (tokens_nonneg _)
  apply List.Sublist.map
  unfold matching
  rw [awaiting_gatewayUsage, retained_gatewayUsage]
  exact filter_sublist

end Store

theorem total_le_of_step {c : Config Store Call Outcome} (hc : system.Reachable c)
    (hs : system.Step c d) :
    total (Store.tokens c.store.gatewayUsage.rows) ≤ total (Store.tokens d.store.gatewayUsage.rows) := by
  rcases sequential.moves (sequential.holds hc) hs with
    ⟨he, -⟩ | ⟨i, -, he, -⟩ | ⟨i, a, he | ⟨-, he⟩, -, -⟩ | ⟨he, -⟩
  · rw [he]
  · exact Store.total_le_of_effect he
  · rw [he]
  · exact Store.total_le_of_effect he
  · have he : c.store = d.store := he
    rw [he]

theorem summingRun_of_total_lt (hd : system.Reachable d)
    (h : total (Store.tokens d.store.gatewayUsage.rows) < 2 ^ 63) : SummingRun ⟨.empty, [], [], []⟩ d := by
  induction hd with
  | refl => exact .refl
  | @tail c _ hc hs ih =>
    have hle := total_le_of_step hc hs
    have hlt : total (Store.tokens c.store.gatewayUsage.rows) < 2 ^ 63 := by omega
    refine (ih hlt).tail ⟨hs, ?_⟩
    intro env _ runtimeSID _ actual _ r _ _ _
    exact Store.sumsFor_of_total_lt hlt env runtimeSID r actual

/-- In every run the records keep their run once they have one and each is charged to one SID, so
that the charges of all SIDs add up; and the runs settled by records have exactly their sum as long
as no settlement wraps it. -/
theorem ledger_conserved {c d : Config Store Call Outcome} (hc : system.Reachable c)
    (hd : system.Run c d) :
    (∀ g ∈ c.store.gatewayUsage, ∀ x, g.matchedRunID = some x → g ∈ d.store.gatewayUsage) ∧
    (∀ g ∈ d.store.gatewayUsage, (g.matchedRunID = none → d.store.chargedSID g = g.sid) ∧
      ∀ x, g.matchedRunID = some x →
        ∃ r, d.store.reservationByRun x = some r ∧ d.store.chargedSID g = r.sid) ∧
    (∀ (sids : Finset String) (first last : ℤ), (∀ g ∈ d.store.gatewayUsage, d.store.chargedSID g ∈ sids) →
      ∑ sid ∈ sids, total (Store.tokens (d.store.counted sid first last)) =
        total (Store.tokens (d.store.recorded first last))) ∧
    (SummingRun ⟨.empty, [], [], []⟩ d → d.store.Exact) := by
  refine ⟨?_, ?_, ?_, SummingRun.exact⟩
  · intro g hg x hx
    obtain ⟨_, hg', -, hkeep⟩ := (sequential.rely_run hc hd).usage _ g (find?_of_mem hg)
    obtain rfl := hkeep (by rw [hx]; rfl)
    exact (find?_eq_some.mp hg').1
  · intro g hg
    unfold Store.chargedSID
    constructor
    · intro hnone
      rw [hnone]
      rfl
    · intro x hx
      obtain ⟨r, hr, -⟩ := (Consistent.reachable (hc.run hd)).pinned g x hg hx
      refine ⟨r, hr, ?_⟩
      rw [hx, Option.bind_some, hr]
  · intro sids first last h
    exact Store.charges_sum sids first last h

namespace Wrapping

def setBudget : Call := ⟨0, fun _ => .still ⟨0⟩, .setBudget ⟨"S-1-5", "model", "daily", 100⟩⟩

def reserve : Call := ⟨1, fun _ => .still ⟨0⟩, .reserve ⟨"run", "S-1-5", "model", 10, ⟨0⟩, ""⟩⟩

def record (name : ℕ) (requestID : String) (units : Int64) : Call :=
  ⟨name, fun _ => .still ⟨0⟩, .recordGatewayUsage
    ⟨requestID, "S-1-5", "provider", "model", "", "", "", false, 0, 0, 0, 0, units, ⟨0⟩⟩⟩

def settle (name : ℕ) : Call := ⟨name, fun _ => .still ⟨0⟩, .settle ⟨"run", 5⟩⟩

def calls : List Call :=
  [setBudget, reserve, record 2 "first" 9223372036854775807, record 3 "second" 9223372036854775807,
    record 4 "third" 2, settle 5]

def few : List Call := [setBudget, reserve, record 2 "first" 7, settle 3]

end Wrapping

theorem ledger_wraps : ¬ ∀ c : Config Store Call Outcome, system.Reachable c → c.store.Exact := by
  intro hall
  obtain ⟨_, hreach⟩ := reachable_calls Wrapping.calls (by decide)
  have hexact := hall _ hreach
  have hrow : ((storeAfter Wrapping.calls).reservationByRun "run").map
      (fun r => (r.settleSource, r.actualUnits.map Units.toInt)) = some (some .gateway, some 0) := by
    decide
  have htotal : total (Store.tokens ((storeAfter Wrapping.calls).pinnedTo "run")) = 2 ^ 64 := by
    decide
  obtain ⟨r, hr, hpair⟩ := Option.map_eq_some_iff.mp hrow
  obtain ⟨hsource, hactual⟩ := Prod.mk.inj hpair
  obtain ⟨u, hu, hzero⟩ := Option.map_eq_some_iff.mp hactual
  have hsum := hexact "run" r u hr hsource hu
  exact absurd (hzero.symm.trans (hsum.trans htotal)) (by decide)

theorem ledger_conserved_seven : ∃ c : Config Store Call Outcome, c.store = storeAfter Wrapping.few ∧
    c.store.Exact := by
  obtain ⟨_, hreach⟩ := reachable_calls Wrapping.few (by decide)
  have hlt : total (Store.tokens (storeAfter Wrapping.few).gatewayUsage.rows) < 2 ^ 63 := by
    decide
  exact ⟨_, rfl, (ledger_conserved hreach .refl).2.2.2 (summingRun_of_total_lt hreach hlt)⟩

end WorkAgent.Quota
