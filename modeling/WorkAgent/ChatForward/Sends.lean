import WorkAgent.ChatForward.Ledger
import WorkAgent.Library.Executions

namespace WorkAgent.ChatForward

open Library List Table
open Quota (Time)

variable {l m : Ledger} {s s' send : Send} {e : Event} {now : Time} {subject : ℕ} {sid logical attempt model : String}
  {reservation : Reservation} {history : List (Call × Answer)}

def State.final (state : State) : Prop := state = .dispatched ∨ state = .cancelled

structure Send.Sound (send : Send) : Prop where
  resolved : send.resolved = true → send.state.final
  model : send.model = "" → send.state = .cancelled
  week : send.weekStart = weekOf (send.reservedAt / 1000)

structure Send.Kept (s s' : Send) : Prop where
  subject : s'.subject = s.subject
  logicalID : s'.logicalID = s.logicalID
  attemptID : s'.attemptID = s.attemptID
  model : s'.model = s.model
  weekStart : s'.weekStart = s.weekStart
  reservedAt : s'.reservedAt = s.reservedAt
  final : s.state.final → s'.state = s.state
  resolved : s.resolved = true → s'.resolved = true ∧ s'.state = s.state

theorem Send.Kept.refl (s : Send) : s.Kept s := ⟨rfl, rfl, rfl, rfl, rfl, rfl, fun _ => rfl, fun h => ⟨h, rfl⟩⟩

theorem weekOf_unixMilli (now : Time) : weekOf (now.unixMilli / 1000) = (week now).1 := by
  unfold week Time.unixMilli Time.unix Time.second
  rw [Int.ediv_ediv_of_nonneg (by omega)]
  rfl

theorem Send.apply_ok (hsound : s.Sound) (h : s.apply e now = .ok s') :
    s.Kept s' ∧ s'.Sound ∧ s.attemptID = e.attemptID ∧ (e.kind = .cancel → s'.state.final) := by
  unfold Send.apply at h
  split at h
  · cases h
  · rename_i hattempt
    split at h
    · cases h
    · cases h
      by_cases hover : s.resolved = true ∨ s.state = .cancelled
      · have hfinal : s.state.final := hover.elim hsound.resolved Or.inr
        have hstate : ∀ other : State, (if s.resolved = true ∨ s.state = .cancelled then s.state else other) = s.state :=
          fun other => if_pos hover
        refine ⟨⟨rfl, rfl, rfl, rfl, rfl, rfl, fun _ => hstate _, fun hresolved => ⟨hresolved, hstate _⟩⟩, ⟨fun _ => ?_, fun hmodel => ?_, hsound.week⟩,
          by simpa using hattempt, fun _ => ?_⟩
        · change State.final (if _ then _ else _)
          rwa [hstate]
        · change (if _ then _ else _) = _
          rw [hstate]
          exact hsound.model hmodel
        · change State.final (if _ then _ else _)
          rwa [hstate]
      · rw [not_or] at hover
        have hmodel : s.model ≠ "" := fun hmodel => hover.2 (hsound.model hmodel)
        refine ⟨⟨rfl, rfl, rfl, rfl, rfl, rfl, ?_, fun hresolved => absurd hresolved hover.1⟩,
          ⟨fun hresolved => absurd hresolved hover.1, fun hblank => absurd hblank hmodel, hsound.week⟩, by simpa using hattempt, ?_⟩
        · rintro (hdispatched | hcancelled)
          · simp [hover, hdispatched]
          · exact absurd hcancelled hover.2
        · intro hcancel
          by_cases hdispatched : s.state = .dispatched
          · left
            simp [hover, hdispatched]
          · by_cases hshows : e.shows = true
            · left
              simp [hover, hshows]
            · right
              simp [hover, hshows, hcancel, hdispatched]

structure Ledger.Fine (l : Ledger) : Prop where
  sound : ∀ s ∈ l.sends, s.Sound
  marked : ∀ row ∈ l.events, row.payload.kind = .cancel → ∃ s ∈ l.sends, s.key = (row.subject, row.payload.logicalID) ∧ s.state.final

theorem Send.Kept.key (h : s.Kept s') : s'.key = s.key := by
  rw [Send.key, Send.key, h.subject, h.logicalID]

structure Grows (l m : Ledger) : Prop where
  sends : ∀ s ∈ l.sends, ∃ s' ∈ m.sends, s.Kept s'
  events : ∀ row ∈ l.events, row ∈ m.events
  fine : m.Fine

theorem Grows.refl (h : l.Fine) : Grows l l := ⟨fun s hs => ⟨s, hs, .refl s⟩, fun _ hrow => hrow, h⟩

theorem final_of_kept {key : ℕ × String} (hsends : ∀ s ∈ l.sends, ∃ s' ∈ m.sends, s.Kept s')
    (h : ∃ s ∈ l.sends, s.key = key ∧ s.state.final) : ∃ s ∈ m.sends, s.key = key ∧ s.state.final := by
  obtain ⟨s, hs, rfl, hfinal⟩ := h
  obtain ⟨s', hs', hkept⟩ := hsends s hs
  exact ⟨s', hs', hkept.key, (hkept.final hfinal).symm ▸ hfinal⟩

theorem grows_set (h : l.Fine) (hs : s ∈ l.sends) (hkept : s.Kept s') (hsound : s'.Sound) (hsends : m.sends = l.sends.set s')
    (hevents : ∀ row ∈ l.events, row ∈ m.events)
    (hnew : ∀ row ∈ m.events, row ∈ l.events ∨
      (row.payload.kind = .cancel → s'.key = (row.subject, row.payload.logicalID) ∧ s'.state.final)) : Grows l m := by
  have hthere : ∀ x ∈ l.sends, ∃ x' ∈ m.sends, x.Kept x' := by
    intro x hx
    rw [hsends]
    by_cases hkey : x.key = s'.key
    · have hsame : x = s := eq_of_key hx hs (hkey.trans hkept.key)
      exact ⟨s', Table.mem_set.mpr (.inl rfl), hsame ▸ hkept⟩
    · exact ⟨x, Table.mem_set.mpr (.inr ⟨hx, hkey⟩), .refl x⟩
  refine ⟨hthere, hevents, ?_, ?_⟩
  · intro x hx
    rw [hsends] at hx
    rcases Table.mem_set.mp hx with rfl | ⟨hx, -⟩
    · exact hsound
    · exact h.sound x hx
  · intro row hrow hkind
    rcases hnew row hrow with hold | hmine
    · exact final_of_kept hthere (h.marked row hold hkind)
    · exact ⟨s', hsends ▸ Table.mem_set.mpr (.inl rfl), hmine hkind⟩

theorem grows_insert (h : l.Fine) (hsound : send.Sound) (hsends : m.sends = l.sends.insertOrIgnore send)
    (hevents : m.events = l.events) : Grows l m := by
  have hthere : ∀ x ∈ l.sends, ∃ x' ∈ m.sends, x.Kept x' := by
    intro x hx
    rw [hsends]
    exact ⟨x, mem_insertOrIgnore.mpr (.inl hx), .refl x⟩
  refine ⟨hthere, fun row hrow => hevents.symm ▸ hrow, ?_, ?_⟩
  · intro x hx
    rw [hsends] at hx
    rcases mem_insertOrIgnore.mp hx with hx | ⟨rfl, -⟩
    · exact h.sound x hx
    · exact hsound
  · intro row hrow hkind
    rw [hevents] at hrow
    exact final_of_kept hthere (h.marked row hrow hkind)

theorem Send.Kept.trans {s'' : Send} (h : s.Kept s') (h' : s'.Kept s'') : s.Kept s'' where
  subject := h'.subject.trans h.subject
  logicalID := h'.logicalID.trans h.logicalID
  attemptID := h'.attemptID.trans h.attemptID
  model := h'.model.trans h.model
  weekStart := h'.weekStart.trans h.weekStart
  reservedAt := h'.reservedAt.trans h.reservedAt
  final := by
    intro hfinal
    have hstate := h.final hfinal
    exact (h'.final (hstate.symm ▸ hfinal)).trans hstate
  resolved := by
    intro hresolved
    obtain ⟨hresolved', hstate⟩ := h.resolved hresolved
    exact ⟨(h'.resolved hresolved').1, (h'.resolved hresolved').2.trans hstate⟩

theorem Grows.trans {n : Ledger} (h : Grows l m) (h' : Grows m n) : Grows l n where
  sends := by
    intro s hs
    obtain ⟨s', hs', hkept⟩ := h.sends s hs
    obtain ⟨s'', hs'', hkept'⟩ := h'.sends s' hs'
    exact ⟨s'', hs'', hkept.trans hkept'⟩
  events := fun row hrow => h'.events row (h.events row hrow)
  fine := h'.fine

theorem found_ok (h : l.Fine) (hfound : l.found subject e now = .ok (m, send)) :
    Grows l m ∧ send ∈ m.sends ∧ send.key = (subject, e.logicalID) ∧ m.events = l.events := by
  unfold Ledger.found at hfound
  split at hfound
  · rename_i hsend
    obtain ⟨rfl, rfl⟩ := Prod.mk.inj (Except.ok.inj hfound)
    obtain ⟨hmem, hkey⟩ := find?_eq_some.mp hsend
    exact ⟨.refl h, hmem, hkey, rfl⟩
  · rename_i hnone
    split at hfound
    · cases hfound
    · split at hfound
      · cases hfound
      · obtain ⟨rfl, rfl⟩ := Prod.mk.inj (Except.ok.inj hfound)
        refine ⟨grows_insert h ⟨by simp, fun _ => rfl, (weekOf_unixMilli now).symm⟩ rfl rfl, ?_, rfl, rfl⟩
        exact mem_insertOrIgnore.mpr (.inr ⟨rfl, hnone⟩)

theorem applyEvent_ok (h : l.Fine) (happly : l.applyEvent subject e now = .ok m) :
    Grows l m ∧ ⟨subject, e.eventID, e⟩ ∈ m.events := by
  unfold Ledger.applyEvent at happly
  split at happly
  · cases happly
  · split at happly
    · rename_i previous hprevious
      split at happly
      · cases happly
      · rename_i hpayload
        cases happly
        obtain ⟨hmem, hkey⟩ := find?_eq_some.mp hprevious
        obtain ⟨_, _⟩ := Prod.mk.inj hkey
        refine ⟨.refl h, ?_⟩
        have hrow : previous = ⟨subject, e.eventID, e⟩ := by
          cases previous
          simp_all
        exact hrow ▸ hmem
    · rename_i hnone
      cases hfound : l.found subject e now with
      | error => simp [hfound, bind, Except.bind] at happly
      | ok found =>
        obtain ⟨n, send⟩ := found
        obtain ⟨hgrows, hsend, hkey, hevents⟩ := found_ok h hfound
        cases happlied : send.apply e now with
        | error => simp [hfound, happlied, bind, Except.bind] at happly
        | ok =>
          simp only [hfound, happlied, bind, Except.bind, pure, Except.pure] at happly
          cases happly
          obtain ⟨hkept, hsound, -, hcancel⟩ := Send.apply_ok (hgrows.fine.sound send hsend) happlied
          refine ⟨hgrows.trans (grows_set hgrows.fine hsend hkept hsound rfl ?_ ?_), ?_⟩
          · exact fun row hrow => mem_insertOrIgnore.mpr (.inl hrow)
          · intro _ hrow
            rcases mem_insertOrIgnore.mp hrow with hold | ⟨rfl, -⟩
            · exact .inl hold
            · exact .inr fun hkind => ⟨hkept.key.trans hkey, hcancel hkind⟩
          · exact mem_insertOrIgnore.mpr (.inr ⟨rfl, hevents ▸ hnone⟩)

theorem resolve_ok {decision : State} {actor reason : String} (h : l.Fine)
    (hresolve : l.resolve sid logical decision actor reason now = .ok m) : Grows l m := by
  unfold Ledger.resolve at hresolve
  split at hresolve
  · cases hresolve
  · rename_i hvalid
    split at hresolve
    · cases hresolve
    · split at hresolve
      · cases hresolve
      · rename_i send hsend
        split at hresolve
        · cases hresolve
        · rename_i hopen
          split at hresolve
          · cases hresolve
          · cases hresolve
            have hmem := (find?_eq_some.mp hsend).1
            have hsound := h.sound send hmem
            have hnotFinal : ¬ send.state.final := by
              rintro (hfinal | hfinal) <;> exact hopen ⟨by simp [hfinal], by simp [hfinal]⟩
            have hdecision : decision.final := by
              by_contra hnot
              simp only [State.final, not_or] at hnot
              exact hvalid (.inr (.inl hnot))
            have hmodel : send.model ≠ "" := fun hmodel => hnotFinal (.inr (hsound.model hmodel))
            have hkept : send.Kept { send with state := decision, resolved := true, updatedAt := now.unixMilli } :=
              ⟨rfl, rfl, rfl, rfl, rfl, rfl, fun hfinal => absurd hfinal hnotFinal,
                fun hresolved => absurd (hsound.resolved hresolved) hnotFinal⟩
            exact grows_set h hmem hkept ⟨fun _ => hdecision, fun hblank => absurd hblank hmodel, hsound.week⟩ rfl (fun _ hrow => hrow)
              (fun _ hrow => .inl hrow)

theorem reserve_ok (hreserve : l.reserve subject logical attempt model now = .ok (reservation, m)) : model ≠ "" ∧
    ∃ sid, l.subjectSID subject = some sid ∧
    ((∃ old, l.sends.find? (subject, logical) = some old ∧ m = l ∧ old.attemptID = attempt ∧ (old.model = "" ∨ old.model = model) ∧
        reservation.allowed = decide (old.state = .reserved)) ∨
      (l.sends.find? (subject, logical) = none ∧ m = l ∧ reservation.allowed = false) ∨
      (l.sends.find? (subject, logical) = none ∧ (l.usage sid now).remaining ≠ 0 ∧ reservation.allowed = true ∧
        m = { l with
          sends := l.sends.insertOrIgnore
            ⟨subject, logical, attempt, model, (week now).1, .reserved, .pending, 0, now.unixMilli, now.unixMilli, false⟩ })) := by
  unfold Ledger.reserve at hreserve
  split at hreserve
  · cases hreserve
  · rename_i hvalid
    refine ⟨fun hmodel => hvalid (.inr (.inr (.inr hmodel))), ?_⟩
    split at hreserve
    · cases hreserve
    · rename_i sid hsid
      refine ⟨sid, hsid, ?_⟩
      split at hreserve
      · rename_i old hold
        split at hreserve
        · cases hreserve
        · rename_i hsame
          obtain ⟨rfl, rfl⟩ := Prod.mk.inj (Except.ok.inj hreserve)
          rw [not_or, not_not, not_and, not_not] at hsame
          exact .inl ⟨old, hold, rfl, hsame.1, or_iff_not_imp_left.mpr hsame.2, rfl⟩
      · rename_i hnone
        dsimp only at hreserve
        split at hreserve
        · obtain ⟨rfl, rfl⟩ := Prod.mk.inj (Except.ok.inj hreserve)
          exact .inr (.inl ⟨hnone, rfl, rfl⟩)
        · rename_i hremaining
          split at hreserve
          · cases hreserve
          · obtain ⟨rfl, rfl⟩ := Prod.mk.inj (Except.ok.inj hreserve)
            exact .inr (.inr ⟨hnone, hremaining, rfl, rfl⟩)

theorem grows_reserve (h : l.Fine) (hreserve : l.reserve subject logical attempt model now = .ok (reservation, m)) : Grows l m := by
  obtain ⟨hmodel, _, -, ⟨_, -, rfl, -⟩ | ⟨-, rfl, -⟩ | ⟨-, -, -, rfl⟩⟩ := reserve_ok hreserve
  · exact .refl h
  · exact .refl h
  · exact grows_insert h ⟨by simp, fun hblank => absurd hblank hmodel, (weekOf_unixMilli now).symm⟩ rfl rfl

theorem grows_call (h : l.Fine) (call : Call) : Grows l (l.call call).2 := by
  cases call with
  | subject sid =>
    unfold Ledger.call Ledger.subject
    dsimp only
    by_cases hvalid : Ledger.validSID sid = true
    · rw [if_neg (by simpa using hvalid)]
      cases l.subjects.find? sid <;> exact ⟨fun s hs => ⟨s, hs, .refl s⟩, fun _ hrow => hrow, h.sound, h.marked⟩
    · rw [if_pos (by simpa using hvalid)]
      exact .refl h
  | setLimit =>
    unfold Ledger.call Ledger.setLimit
    dsimp only
    split
    · rename_i hlimit
      split at hlimit
      · cases hlimit
      · cases hlimit
        exact ⟨fun s hs => ⟨s, hs, .refl s⟩, fun _ hrow => hrow, h.sound, h.marked⟩
    · exact .refl h
  | reserve =>
    unfold Ledger.call
    dsimp only
    split
    · rename_i hreserve
      exact grows_reserve h hreserve
    · exact .refl h
  | applyEvent =>
    unfold Ledger.call
    dsimp only
    split
    · rename_i happly
      exact (applyEvent_ok h happly).1
    · exact .refl h
  | resolve =>
    unfold Ledger.call
    dsimp only
    split
    · rename_i hresolve
      exact resolve_ok h hresolve
    · exact .refl h

theorem call_refused {call : Call} (h : (∃ error, (l.call call).1 = .failed error) ∨
    ∃ reservation : Reservation, (l.call call).1 = .reserved reservation ∧ reservation.allowed = false) : (l.call call).2 = l := by
  cases call with
  | reserve subject logical attempt model now =>
    unfold Ledger.call at h ⊢
    dsimp only at h ⊢
    cases hreserve : l.reserve subject logical attempt model now with
    | error => rfl
    | ok answer =>
      obtain ⟨_, m⟩ := answer
      simp only [hreserve, reduceCtorEq, exists_false, false_or, Answer.reserved.injEq, exists_eq_left'] at h
      obtain ⟨-, _, -, ⟨_, -, rfl, -⟩ | ⟨-, rfl, -⟩ | ⟨-, -, hallowed, -⟩⟩ := reserve_ok hreserve
      · rfl
      · rfl
      · rw [hallowed] at h
        cases h
  | subject | setLimit | applyEvent | resolve =>
    unfold Ledger.call at h ⊢
    dsimp only at h ⊢
    split at h <;> simp_all

def Ledger.counted (l : Ledger) (subject : ℕ) (start : ℤ) : ℕ :=
  l.sends.rows.countP fun s => s.subject = subject && s.weekStart = start && s.state ≠ .cancelled

theorem countP_add {p q r : Send → Bool} {sends : List Send} (h : ∀ s ∈ sends, r s = (p s || q s) ∧ (p s && q s) = false) :
    sends.countP p + sends.countP q = sends.countP r := by
  induction sends with
  | nil => rfl
  | cons s _ ih =>
    obtain ⟨⟨hor, _⟩, hrest⟩ := forall_mem_cons.mp h
    have hih := ih hrest
    simp only [countP_cons, hor]
    cases hp : p s <;> cases hq : q s <;> simp_all <;> omega

theorem usage_counted (hsid : l.subjectSID subject = some sid) (now : Time) :
    (l.usage sid now).used + (l.usage sid now).pending = l.counted subject (week now).1 := by
  obtain ⟨p, hp, rfl⟩ := Option.map_eq_some_iff.mp hsid
  have hid : p.id = subject := by simpa using find?_some hp
  have hfind : l.subjects.find? p.sid = some p := find?_of_mem (mem_of_find?_eq_some hp)
  unfold Ledger.usage Ledger.weekly Ledger.counted
  dsimp only
  rw [countP_filter, countP_filter]
  apply countP_add
  intro s _
  have hsame : decide (subject = s.subject) = decide (s.subject = subject) := decide_eq_decide.mpr eq_comm
  rw [hfind, Option.any_some, hid, hsame]
  cases hstate : s.state <;> by_cases hsubject : s.subject = subject <;> by_cases hweek : s.weekStart = (week now).1 <;>
    simp [hsubject, hweek]

structure Lawful (history : List (Call × Answer)) (l : Ledger) : Prop where
  within : ∀ subject logical attempt model now reservation m, l.reserve subject logical attempt model now = .ok (reservation, m) →
    reservation.allowed = true → l.sends.find? (subject, logical) = none → ∃ sid, l.subjectSID subject = some sid ∧
      (∃ send ∈ m.sends, send.key = (subject, logical) ∧ send.state = .reserved ∧ send.weekStart = (week now).1) ∧
      m.counted subject (week now).1 ≤ m.weeklyLimit sid
  once : ∀ s ∈ l.sends, ∀ s' ∈ l.sends, s.subject = s'.subject → s.logicalID = s'.logicalID → s = s'
  week : ∀ s ∈ l.sends, s.weekStart = weekOf (s.reservedAt / 1000)
  recovers : ∀ subject logical attempt model now reservation m send, l.reserve subject logical attempt model now = .ok (reservation, m) →
    l.sends.find? (subject, logical) = some send → reservation.allowed = true →
      send.state = .reserved ∧ send.attemptID = attempt ∧ send.model = model
  cancelled : ∀ subject e now, (Call.applyEvent subject e now, Answer.done) ∈ history → e.kind = .cancel →
    ∀ attempt model now reservation m, l.reserve subject e.logicalID attempt model now = .ok (reservation, m) → reservation.allowed = false
  kept : ∀ call, ∀ s ∈ l.sends, ∃ s' ∈ (l.call call).2.sends, s.Kept s'
  replayed : ∀ subject e now, (Call.applyEvent subject e now, Answer.done) ∈ history → ∀ now e', e'.eventID = e.eventID →
    if e' = e then l.applyEvent subject e' now = .ok l else ∃ error, l.applyEvent subject e' now = .error error
  refused : ∀ call, (∃ error, (l.call call).1 = .failed error) ∨
    (∃ reservation : Reservation, (l.call call).1 = .reserved reservation ∧ reservation.allowed = false) → (l.call call).2 = l

structure Recorded (history : List (Call × Answer)) (l : Ledger) : Prop where
  fine : l.Fine
  event : ∀ subject e now, (Call.applyEvent subject e now, Answer.done) ∈ history → e.valid = true ∧ ⟨subject, e.eventID, e⟩ ∈ l.events

theorem Recorded.grow {more : List (Call × Answer)} (h : Recorded history l) (hgrows : Grows l m)
    (hmore : ∀ subject e now, (Call.applyEvent subject e now, Answer.done) ∈ more →
      e.valid = true ∧ ⟨subject, e.eventID, e⟩ ∈ m.events) : Recorded (history ++ more) m where
  fine := hgrows.fine
  event := by
    intro subject e now hmem
    rcases mem_append.mp hmem with hmem | hmem
    · obtain ⟨hvalid, hevent⟩ := h.event subject e now hmem
      exact ⟨hvalid, hgrows.events _ hevent⟩
    · exact hmore subject e now hmem

theorem applyEvent_valid (h : l.applyEvent subject e now = .ok m) : e.valid = true := by
  by_contra hnot
  rw [Ledger.applyEvent, if_pos hnot] at h
  cases h

theorem applyEvent_again {e' : Event} (hevent : ⟨subject, e.eventID, e⟩ ∈ l.events) (hvalid : e.valid = true) (hid : e'.eventID = e.eventID) :
    if e' = e then l.applyEvent subject e' now = .ok l else ∃ error, l.applyEvent subject e' now = .error error := by
  have hfind : l.events.find? (subject, e.eventID) = some ⟨subject, e.eventID, e⟩ := find?_eq_some.mpr ⟨hevent, rfl⟩
  split
  · rename_i hsame
    rw [hsame, Ledger.applyEvent, if_neg (by simp [hvalid]), hfind]
    simp
  · rename_i hother
    by_cases hvalid' : e'.valid = true
    · refine ⟨.conflict, ?_⟩
      rw [Ledger.applyEvent, if_neg (by simp [hvalid']), hid, hfind]
      simp [Ne.symm hother]
    · exact ⟨.invalid, if_pos (by simpa using hvalid')⟩

theorem Recorded.step {entry : Call × Answer} (h : Recorded history l) (hstep : Step l entry m) : Recorded (history ++ [entry]) m := by
  cases hstep with
  | calls call =>
    apply h.grow (grows_call h.fine call)
    intro subject e now hmem
    obtain ⟨rfl, hanswer⟩ := Prod.mk.inj (mem_singleton.mp hmem)
    unfold Ledger.call at hanswer ⊢
    dsimp only at hanswer ⊢
    cases happly : l.applyEvent subject e now with
    | error =>
      rw [happly] at hanswer
      cases hanswer
    | ok =>
      exact ⟨applyEvent_valid happly, (applyEvent_ok h.fine happly).2⟩
  | fails =>
    apply h.grow (.refl h.fine)
    intro _ e _ hmem
    cases mem_singleton.mp hmem

/-- Every run of the ledger, in any order of its calls, keeps its promise. -/
theorem ledger_lawful (history : List (Call × Answer)) (l : Ledger) (h : Execution Step .empty history l) : Lawful history l := by
  have hrecorded : Recorded history l := by
    apply h.history (J := Recorded)
    · exact ⟨⟨forall_mem_empty, forall_mem_empty⟩, by simp⟩
    · exact fun _ _ _ _ _ hold hstep => hold.step hstep
  have hfine := hrecorded.fine
  constructor
  · intro subject logical attempt model now reservation m hreserve hallowed hnone
    obtain ⟨-, sid, hsid, ⟨old, hold, -⟩ | ⟨-, -, hrefused⟩ | ⟨-, _, -, rfl⟩⟩ := reserve_ok hreserve
    · rw [hnone] at hold
      cases hold
    · rw [hallowed] at hrefused
      cases hrefused
    · refine ⟨sid, hsid, ⟨_, mem_insertOrIgnore.mpr (.inr ⟨rfl, hnone⟩), rfl, rfl, rfl⟩, ?_⟩
      have hcounted := usage_counted hsid now
      have hremains : (l.usage sid now).remaining = l.weeklyLimit sid - (l.usage sid now).used - (l.usage sid now).pending := rfl
      have hrows := rows_insertOrIgnore (t := l.sends)
        (r := (⟨subject, logical, attempt, model, (week now).1, .reserved, .pending, 0, now.unixMilli, now.unixMilli, false⟩ : Send)) hnone
      unfold Ledger.counted at hcounted ⊢
      dsimp only
      rw [hrows, countP_append]
      change _ ≤ l.weeklyLimit sid
      simp only [countP_singleton]
      split <;> omega
  · intro s hs _ hs' hsubject hlogical
    exact eq_of_key hs hs' (by rw [Send.key, Send.key, hsubject, hlogical])
  · exact fun s hs => (hfine.sound s hs).week
  · intro subject _ attempt model now reservation m _ hreserve hsend hallowed
    obtain ⟨_, sid, -, ⟨old, hold, -, hattempt, hsame, hallows⟩ | ⟨hnone, -⟩ | ⟨hnone, -⟩⟩ := reserve_ok hreserve
    · obtain rfl := Option.some.inj (hold.symm.trans hsend)
      have hstate : old.state = .reserved := of_decide_eq_true (hallows.symm.trans hallowed)
      refine ⟨hstate, hattempt, hsame.resolve_left fun hblank => ?_⟩
      have hcancelled := (hfine.sound old (find?_eq_some.mp hold).1).model hblank
      rw [hstate] at hcancelled
      cases hcancelled
    · rw [hnone] at hsend
      cases hsend
    · rw [hnone] at hsend
      cases hsend
  · intro subject e now hmem hkind _ _ now _ m hreserve
    obtain ⟨-, hevent⟩ := hrecorded.event subject e _ hmem
    obtain ⟨s, hs, hkey, hfinal⟩ := hfine.marked _ hevent hkind
    have hfind : l.sends.find? (subject, e.logicalID) = some s := find?_eq_some.mpr ⟨hs, hkey⟩
    obtain ⟨-, _, -, ⟨_, hold, -, -, -, hallows⟩ | ⟨hnone, -⟩ | ⟨hnone, -⟩⟩ := reserve_ok hreserve
    · obtain rfl := Option.some.inj (hold.symm.trans hfind)
      rw [hallows]
      rcases hfinal with hstate | hstate <;> simp [hstate]
    · rw [hfind] at hnone
      cases hnone
    · rw [hfind] at hnone
      cases hnone
  · exact fun call => (grows_call hfine call).sends
  · intro subject e _ hmem _ _ hid
    obtain ⟨hvalid, hevent⟩ := hrecorded.event subject e _ hmem
    exact applyEvent_again hevent hvalid hid
  · exact fun call => call_refused

namespace CancelExample

def sunday : Time := ⟨1789315140000000000⟩

def cancel : Event := ⟨"request_1234567892_cancel", "request_1234567892", "request_1234567892", .cancel, .blank, 0, false⟩

def known : Ledger := (Ledger.empty.call (.subject "S-1-5-21-101")).2

def marked : Ledger := (known.call (.applyEvent 1 cancel sunday)).2

theorem cancel_first : Lawful [(.subject "S-1-5-21-101", .subject 1), (.applyEvent 1 cancel sunday, .done)] marked := by
  have hsubject : (Ledger.empty.call (.subject "S-1-5-21-101")).1 = .subject 1 := by decide
  have hdone : (known.call (.applyEvent 1 cancel sunday)).1 = .done := by decide
  have h : Execution Step .empty [(.subject "S-1-5-21-101", .subject 1)] known :=
    hsubject ▸ Execution.single (Step.calls (.subject "S-1-5-21-101"))
  have h : Execution Step .empty [(.subject "S-1-5-21-101", .subject 1), (.applyEvent 1 cancel sunday, .done)] marked :=
    h.step (hdone ▸ Step.calls (.applyEvent 1 cancel sunday))
  exact ledger_lawful _ _ h

example : (marked.sends.rows.map fun s => (s.state, s.model)) = [(.cancelled, "")] := by decide

end CancelExample

end WorkAgent.ChatForward
