import Mathlib
import WorkAgent.Library.Executions

namespace WorkAgent.Wiki

open Library

/-- The record in `lock.json`. Instants are in microseconds. -/
structure Lease where
  runID : String
  expiresAt : ℤ

/-- `creator` is the call whose `os.open` made the file; `lease` is `none` until the call has written it. -/
structure LockFile where
  creator : ℕ
  lease : Option Lease

/-- How far a call is: `create` to `acquired` is `acquire_lock`, with `last` in the second turn of its loop, and
`look` to `returned` is `release_lock`. `seen` is the creator of the file whose record was read. -/
inductive Stage
  | create (last : Bool)
  | read (last : Bool)
  | unlink (last : Bool) (seen : ℕ)
  | write
  | acquired
  | look
  | compare
  | remove (seen : ℕ)
  | returned
  | failed
  deriving DecidableEq

structure Call where
  runID : String
  ttlMinutes : ℤ
  breakStale : Bool
  now : ℤ
  stage : Stage

def Call.value (c : Call) : Lease := ⟨c.runID, c.now + 60000000 * c.ttlMinutes⟩

/-- The file that the call is about to remove, as it was when it was read. -/
def Stage.removes : Stage → Option ℕ
  | .unlink _ seen => some seen
  | .remove seen => some seen
  | _ => none

/-- The next step of the call `k`: what it leaves of the lock file, and where it is then. -/
def Call.turn (k : ℕ) (c : Call) (lock : Option LockFile) : Option LockFile × Stage :=
  match c.stage, lock with
  | .create _, none => (some ⟨k, none⟩, .write)
  | .create last, some f => (some f, .read last)
  | .read last, some ⟨creator, some lease⟩ =>
    (lock, if c.breakStale ∧ lease.expiresAt ≤ c.now then .unlink last creator else .failed)
  | .read _, _ => (lock, .failed)
  | .unlink _ _, none => (none, .failed)
  | .unlink last _, some _ => (none, if last then .failed else .create true)
  -- the descriptor still is that of the file the call has created
  | .write, _ => (lock.map (fun f => if f.creator = k then ⟨k, some c.value⟩ else f), .acquired)
  | .look, none => (none, .returned)
  | .look, some f => (some f, .compare)
  | .compare, some ⟨creator, some lease⟩ => (lock, if lease.runID = c.runID then .remove creator else .failed)
  | .compare, _ => (lock, .failed)
  | .remove _, none => (none, .failed)
  | .remove _, some _ => (none, .returned)
  | stage, _ => (lock, stage)

/-- `held` are the calls of `acquire_lock` that have returned and whose run has not removed a lock since. -/
structure World where
  clock : ℤ
  lock : Option LockFile
  calls : ℕ → Option Call
  held : List ℕ

def World.free : World := ⟨0, none, fun _ => none, []⟩

def World.put (w : World) (k : ℕ) (c : Call) : World :=
  { w with calls := fun j => if j = k then some c else w.calls j }

def World.holds (w : World) (k : ℕ) (c : Call) : List ℕ :=
  match c.stage, w.lock with
  | .write, _ => k :: w.held
  | .remove _, some _ => w.held.filter (fun j => (w.calls j).all (fun d => d.runID != c.runID))
  | _, _ => w.held

def World.turn (w : World) (k : ℕ) (c : Call) : World :=
  { w.put k { c with stage := (c.turn k w.lock).2 } with lock := (c.turn k w.lock).1, held := w.holds k c }

/-- `RUN_ID_RE` -/
def validRunID (id : String) : Bool :=
  match id.toList with
  | [] => false
  | c :: cs => c.isAlphanum && cs.length ≤ 127 && cs.all (fun d => d.isAlphanum || d = '.' || d = '_' || d = '-')

inductive Event
  | acquire (k : ℕ) (runID : String) (ttlMinutes : ℤ) (breakStale : Bool)
  | release (k : ℕ) (runID : String)
  | turn (k : ℕ)
  | crash (k : ℕ)
  | tick (d : ℕ)

def World.next (w : World) : Event → World
  | .acquire k runID ttlMinutes breakStale =>
    if (w.calls k).isNone ∧ 0 < ttlMinutes ∧ validRunID runID then
      w.put k ⟨runID, ttlMinutes, breakStale, w.clock, .create false⟩
    else w
  | .release k runID =>
    if (w.calls k).isNone ∧ validRunID runID then w.put k ⟨runID, 0, false, w.clock, .look⟩ else w
  | .turn k => (w.calls k).elim w (w.turn k)
  | .crash k => (w.calls k).elim w (fun c => if c.stage = .acquired then w else w.put k { c with stage := .failed })
  | .tick d => { w with clock := w.clock + d }

/-- A file that is removed is the one whose record was read, and no call dies with its own file unwritten. -/
def World.careful (w : World) : Event → Bool
  | .turn k => (w.calls k).all (fun c => c.stage.removes.all (fun seen => w.lock.all (fun f => f.creator == seen)))
  | .crash k => (w.calls k).all (fun c => c.stage != .write)
  | _ => true

def Step (w : World) (e : Event) (t : World) : Prop := t = w.next e

def CarefulStep (w : World) (e : Event) (t : World) : Prop := w.careful e ∧ t = w.next e

def World.Unexpired (w : World) (k : ℕ) : Prop := ∃ c, w.calls k = some c ∧ w.clock < c.value.expiresAt

/-- `acquire_lock` with `break_stale`, where nobody else does anything meanwhile. -/
def World.takeOver (w : World) (k : ℕ) (runID : String) (ttlMinutes : ℤ) : World :=
  [.acquire k runID ttlMinutes true, .turn k, .turn k, .turn k, .turn k, .turn k].foldl World.next w

/-- The lease is exclusive, nobody removes a valid one of another run, and one that has expired can be replaced. -/
structure Leased (w : World) : Prop where
  exclusive : ∀ k ∈ w.held, ∀ j ∈ w.held, w.Unexpired k → w.Unexpired j → k = j
  kept : ∀ k c, w.calls k = some c → w.careful (.turn k) → ∀ f, w.lock = some f → (w.next (.turn k)).lock = none →
    ∃ l, f.lease = some l ∧ (l.runID = c.runID ∨ l.expiresAt ≤ w.clock)
  replaceable : ∀ f, w.lock = some f → (∃ c, w.calls f.creator = some c ∧ c.stage = .write) ∨
    ∃ l, f.lease = some l ∧ (l.expiresAt ≤ w.clock → ∀ k runID ttlMinutes, w.calls k = none → 0 < ttlMinutes →
      validRunID runID → k ∈ (w.takeOver k runID ttlMinutes).held ∧
        (w.takeOver k runID ttlMinutes).lock = some ⟨k, some ⟨runID, w.clock + 60000000 * ttlMinutes⟩⟩)

variable {w t : World} {e : Event} {k j s : ℕ} {c d : Call} {f : LockFile} {stage : Stage}

@[simp] theorem calls_put (w : World) (k j : ℕ) (c : Call) :
    (w.put k c).calls j = if j = k then some c else w.calls j := rfl

def World.Acquired (w : World) (s : ℕ) (d : Call) : Prop := w.calls s = some d ∧ d.stage = .acquired

/-- What a call that is about to remove a lock has read. -/
structure Informed (w : World) : Prop where
  past : ∀ k c, w.calls k = some c → c.now ≤ w.clock
  unlinks : ∀ k c last seen, w.calls k = some c → c.stage = .unlink last seen →
    ∃ d, w.Acquired seen d ∧ d.value.expiresAt ≤ w.clock
  removes : ∀ k c seen, w.calls k = some c → c.stage = .remove seen → ∃ d, w.Acquired seen d ∧ d.runID = c.runID

structure Sound (w : World) : Prop extends Informed w where
  file : ∀ f, w.lock = some f → (∃ c, w.calls f.creator = some c ∧ c.stage = .write) ∨
    ∃ c, w.Acquired f.creator c ∧ f.lease = some c.value
  writing : ∀ k c, w.calls k = some c → c.stage = .write → w.lock = some ⟨k, none⟩
  held : ∀ k ∈ w.held, ∃ c, w.Acquired k c ∧ (w.clock < c.value.expiresAt → w.lock = some ⟨k, some c.value⟩)

theorem turn_eq {lock : Option LockFile} {held : List ℕ} (hturn : c.turn k w.lock = (lock, stage))
    (hholds : w.holds k c = held) : w.turn k c = { w.put k { c with stage } with lock, held } := by
  unfold World.turn
  rw [hturn, hholds]

theorem calls_cases (h : (w.put k c).calls j = some d) : (j = k ∧ d = c) ∨ (j ≠ k ∧ w.calls j = some d) := by
  rw [calls_put] at h
  split at h
  · exact .inl ⟨‹_›, (Option.some.inj h).symm⟩
  · exact .inr ⟨‹_›, h⟩

theorem World.Acquired.put (h : w.Acquired s d) (hk : ∀ c, w.calls k = some c → c.stage ≠ .acquired) (c : Call) :
    (w.put k c).Acquired s d := by
  have hne : s ≠ k := by
    rintro rfl
    exact hk d h.1 h.2
  exact ⟨by simp [hne, h.1], h.2⟩

theorem Informed.put (h : Informed w) (hk : ∀ c, w.calls k = some c → c.stage ≠ .acquired) (hpast : c.now ≤ w.clock)
    (hunlink : ∀ last seen, c.stage = .unlink last seen → ∃ d, w.Acquired seen d ∧ d.value.expiresAt ≤ w.clock)
    (hremove : ∀ seen, c.stage = .remove seen → ∃ d, w.Acquired seen d ∧ d.runID = c.runID) :
    Informed (w.put k c) := by
  refine ⟨?_, ?_, ?_⟩
  · intro j d hd
    obtain ⟨-, rfl⟩ | ⟨-, hd⟩ := calls_cases hd
    · exact hpast
    · exact h.past j d hd
  · intro j d last seen hd hs
    obtain ⟨-, rfl⟩ | ⟨-, hd⟩ := calls_cases hd
    · obtain ⟨x, hx, he⟩ := hunlink last seen hs
      exact ⟨x, hx.put hk _, he⟩
    · obtain ⟨x, hx, he⟩ := h.unlinks j d last seen hd hs
      exact ⟨x, hx.put hk _, he⟩
  · intro j d seen hd hs
    obtain ⟨-, rfl⟩ | ⟨-, hd⟩ := calls_cases hd
    · obtain ⟨x, hx, he⟩ := hremove seen hs
      exact ⟨x, hx.put hk _, he⟩
    · obtain ⟨x, hx, he⟩ := h.removes j d seen hd hs
      exact ⟨x, hx.put hk _, he⟩

/-- A call that neither makes, writes nor removes a file. -/
theorem Sound.put (h : Sound w) (hk : ∀ c, w.calls k = some c → c.stage ≠ .acquired ∧ c.stage ≠ .write)
    (hi : Informed (w.put k c)) (hwrite : c.stage ≠ .write) : Sound (w.put k c) := by
  refine { hi with file := ?_, writing := ?_, held := ?_ }
  · intro f hf
    obtain ⟨d, hd, hs⟩ | ⟨d, hd, hl⟩ := h.file f hf
    · have hne : f.creator ≠ k := fun he => (hk d (he ▸ hd)).2 hs
      exact .inl ⟨d, by simp [hne, hd], hs⟩
    · exact .inr ⟨d, hd.put (fun c hc => (hk c hc).1) _, hl⟩
  · intro j d hd hs
    obtain ⟨-, rfl⟩ | ⟨-, hd⟩ := calls_cases hd
    · exact absurd hs hwrite
    · exact h.writing j d hd hs
  · intro j hj
    obtain ⟨d, hd, hl⟩ := h.held j hj
    exact ⟨d, hd.put (fun c hc => (hk c hc).1) _, hl⟩

section

variable (h : Sound w) (hc : w.calls k = some c)
include hc

theorem stage_ne (hs : c.stage ≠ stage) : ∀ d, w.calls k = some d → d.stage ≠ stage := by
  intro d hd
  rw [hc] at hd
  cases hd
  exact hs

include h

theorem Sound.informed (hs : c.stage ≠ .acquired)
    (hunlink : ∀ last seen, stage = .unlink last seen → ∃ d, w.Acquired seen d ∧ d.value.expiresAt ≤ w.clock)
    (hremove : ∀ seen, stage = .remove seen → ∃ d, w.Acquired seen d ∧ d.runID = c.runID) :
    Informed (w.put k { c with stage }) :=
  @Informed.put w k { c with stage } h.toInformed (stage_ne hc hs) (h.past k c hc) hunlink hremove

theorem Sound.quiet (hs : c.stage ≠ .acquired ∧ c.stage ≠ .write) (hstage : stage ≠ .write)
    (hunlink : ∀ last seen, stage = .unlink last seen → ∃ d, w.Acquired seen d ∧ d.value.expiresAt ≤ w.clock)
    (hremove : ∀ seen, stage = .remove seen → ∃ d, w.Acquired seen d ∧ d.runID = c.runID)
    (hturn : c.turn k w.lock = (w.lock, stage)) (hholds : w.holds k c = w.held) : Sound (w.turn k c) := by
  rw [turn_eq hturn hholds]
  exact h.put (fun d hd => ⟨stage_ne hc hs.1 d hd, stage_ne hc hs.2 d hd⟩) (h.informed hc hs.1 hunlink hremove) hstage

theorem Sound.creates {last : Bool} (hs : c.stage = .create last) (hlock : w.lock = none) : Sound (w.turn k c) := by
  have hturn : c.turn k w.lock = (some ⟨k, none⟩, .write) := by simp [Call.turn, hs, hlock]
  have hholds : w.holds k c = w.held := by simp [World.holds, hs]
  have hk : c.stage ≠ .acquired := by simp [hs]
  rw [turn_eq hturn hholds]
  refine { h.informed hc hk (by simp) (by simp) with file := ?_, writing := ?_, held := ?_ }
  · intro f hf
    cases hf
    exact .inl ⟨_, if_pos rfl, rfl⟩
  · intro j d hd hw
    obtain ⟨rfl, -⟩ | ⟨-, hd⟩ := calls_cases hd
    · rfl
    · rw [h.writing j d hd hw] at hlock
      cases hlock
  · intro j hj
    obtain ⟨d, hd, hl⟩ := h.held j hj
    refine ⟨d, hd.put (stage_ne hc hk) _, fun hlt => ?_⟩
    rw [hl hlt] at hlock
    cases hlock

theorem Sound.writes (hs : c.stage = .write) : Sound (w.turn k c) := by
  have hlock := h.writing k c hc hs
  have hturn : c.turn k w.lock = (some ⟨k, some c.value⟩, .acquired) := by simp [Call.turn, hs, hlock]
  have hholds : w.holds k c = k :: w.held := by simp [World.holds, hs]
  have hk : c.stage ≠ .acquired := by simp [hs]
  have hown : (w.put k { c with stage := .acquired }).Acquired k { c with stage := .acquired } := ⟨if_pos rfl, rfl⟩
  rw [turn_eq hturn hholds]
  refine { h.informed hc hk (by simp) (by simp) with file := ?_, writing := ?_, held := ?_ }
  · intro f hf
    cases hf
    exact .inr ⟨_, hown, rfl⟩
  · intro j d hd hw
    obtain ⟨-, rfl⟩ | ⟨hne, hd⟩ := calls_cases hd
    · cases hw
    · rw [h.writing j d hd hw] at hlock
      cases hlock
      exact absurd rfl hne
  · intro j hj
    obtain rfl | hj := List.mem_cons.mp hj
    · exact ⟨_, hown, fun _ => rfl⟩
    · obtain ⟨d, hd, hl⟩ := h.held j hj
      refine ⟨d, hd.put (stage_ne hc hk) _, fun hlt => ?_⟩
      have hother := hl hlt
      rw [hlock] at hother
      cases hother

/-- A file is removed: none is being written, and who still holds a lease has another one. -/
theorem Sound.clears (hs : c.stage ≠ .acquired) (hlock : w.lock = some f) (hwritten : f.lease ≠ none)
    (hturn : c.turn k w.lock = (none, stage)) (hstage : stage ≠ .write ∧ stage.removes = none)
    (hsub : ∀ j ∈ w.holds k c, j ∈ w.held)
    (hheld : ∀ j ∈ w.holds k c, ∀ d, w.Acquired j d → f = ⟨j, some d.value⟩ → d.value.expiresAt ≤ w.clock) :
    Sound (w.turn k c) := by
  have hi : Informed (w.put k { c with stage }) := by
    apply h.informed hc hs
    · rintro _ _ rfl
      cases hstage.2
    · rintro _ rfl
      cases hstage.2
  rw [turn_eq hturn rfl]
  refine { hi with file := ?_, writing := ?_, held := ?_ }
  · rintro f ⟨⟩
  · intro j d hd hw
    obtain ⟨-, rfl⟩ | ⟨-, hd⟩ := calls_cases hd
    · exact absurd hw hstage.1
    · rw [h.writing j d hd hw] at hlock
      cases hlock
      exact absurd rfl hwritten
  · intro j hj
    obtain ⟨d, hd, hl⟩ := h.held j (hsub j hj)
    refine ⟨d, hd.put (stage_ne hc hs) _, fun hlt => ?_⟩
    rw [hl hlt] at hlock
    exact absurd (hheld j hj d hd (Option.some.inj hlock).symm) (not_le.mpr hlt)

omit hc in
theorem Sound.written {seen : ℕ} {lease : Lease} (hlock : w.lock = some ⟨seen, some lease⟩) :
    ∃ d, w.Acquired seen d ∧ lease = d.value := by
  obtain ⟨d, hd, hs⟩ | ⟨d, hd, hl⟩ := h.file _ hlock
  · rw [h.writing _ d hd hs] at hlock
    cases hlock
  · exact ⟨d, hd, Option.some.inj hl⟩

omit hc in
theorem Sound.seen (hlock : w.lock = some f) (hd : w.Acquired f.creator d) : f = ⟨f.creator, some d.value⟩ := by
  obtain ⟨x, hx, hs⟩ | ⟨x, hx, hl⟩ := h.file _ hlock
  · rw [hd.1] at hx
    cases hx
    rw [hd.2] at hs
    cases hs
  · obtain rfl := Option.some.inj (hd.1.symm.trans hx.1)
    rw [← hl]

omit h in
theorem careful_removes {seen : ℕ} (hcare : w.careful (.turn k)) (hs : c.stage.removes = some seen)
    (hlock : w.lock = some f) : f.creator = seen := by
  simpa [World.careful, hc, hs, hlock] using hcare

omit h in
theorem turn_ended (hturn : c.turn k w.lock = (w.lock, c.stage)) (hholds : w.holds k c = w.held) : w.turn k c = w := by
  have hcalls : (fun j => if j = k then some c else w.calls j) = w.calls := by
    ext1 j
    split
    · rw [‹j = k›, hc]
    · rfl
  rw [turn_eq hturn hholds]
  unfold World.put
  rw [hcalls]

theorem Sound.turn (hcare : w.careful (.turn k)) : Sound (w.turn k c) := by
  cases hs : c.stage with
  | create last =>
    cases hlock : w.lock with
    | none =>
      exact h.creates hc hs hlock
    | some =>
      apply @Sound.quiet w k c (.read last) h hc
      all_goals simp [Call.turn, World.holds, hs, hlock]
  | read last =>
    by_cases hread : ∃ seen lease, w.lock = some ⟨seen, some lease⟩ ∧ c.breakStale = true ∧ lease.expiresAt ≤ c.now
    · obtain ⟨seen, lease, hlock, hbreak, hle⟩ := hread
      obtain ⟨d, hd, rfl⟩ := h.written hlock
      apply @Sound.quiet w k c (.unlink last seen) h hc
      case hunlink =>
        rintro _ _ ⟨⟩
        exact ⟨d, hd, hle.trans (h.past k c hc)⟩
      all_goals simp [Call.turn, World.holds, hs, hlock, hbreak, hle]
    · apply @Sound.quiet w k c .failed h hc
      case hturn =>
        unfold Call.turn
        rw [hs]
        split
        all_goals simp_all
      all_goals simp [World.holds, hs]
  | unlink last =>
    cases hlock : w.lock with
    | none =>
      apply @Sound.quiet w k c .failed h hc
      all_goals simp [Call.turn, World.holds, hs, hlock]
    | some f =>
      obtain rfl := careful_removes hc hcare (by rw [hs]; rfl) hlock
      obtain ⟨d, hd, hle⟩ := h.unlinks k c last _ hc hs
      have hf := h.seen hlock hd
      have hholds : w.holds k c = w.held := by simp [World.holds, hs]
      apply @Sound.clears w k c f (if last then .failed else .create true) h hc
      case hstage => cases last <;> simp [Stage.removes]
      case hheld =>
        intro j _ x hx he
        rw [he] at hd
        obtain rfl := Option.some.inj (hx.1.symm.trans hd.1)
        exact hle
      case hwritten =>
        rw [hf]
        simp
      all_goals simp [Call.turn, hholds, hs, hlock]
  | write =>
    exact h.writes hc hs
  | look =>
    cases hlock : w.lock with
    | none =>
      apply @Sound.quiet w k c .returned h hc
      all_goals simp [Call.turn, World.holds, hs, hlock]
    | some =>
      apply @Sound.quiet w k c .compare h hc
      all_goals simp [Call.turn, World.holds, hs, hlock]
  | compare =>
    by_cases hread : ∃ seen lease, w.lock = some ⟨seen, some lease⟩ ∧ lease.runID = c.runID
    · obtain ⟨seen, _, hlock, hrun⟩ := hread
      obtain ⟨d, hd, rfl⟩ := h.written hlock
      apply @Sound.quiet w k c (.remove seen) h hc
      case hremove =>
        rintro _ ⟨⟩
        exact ⟨d, hd, hrun⟩
      all_goals simp [Call.turn, World.holds, hs, hlock, hrun]
    · apply @Sound.quiet w k c .failed h hc
      case hturn =>
        unfold Call.turn
        rw [hs]
        split
        all_goals simp_all
      all_goals simp [World.holds, hs]
  | remove =>
    cases hlock : w.lock with
    | none =>
      apply @Sound.quiet w k c .failed h hc
      all_goals simp [Call.turn, World.holds, hs, hlock]
    | some f =>
      obtain rfl := careful_removes hc hcare (by rw [hs]; rfl) hlock
      obtain ⟨d, hd, hrun⟩ := h.removes k c _ hc hs
      have hf := h.seen hlock hd
      have hmem (j : ℕ) (hj : j ∈ w.holds k c) :
          j ∈ w.held ∧ (w.calls j).all (fun d => d.runID != c.runID) = true := by
        simpa [World.holds, hs, hlock] using hj
      apply @Sound.clears w k c f .returned h hc
      case hsub => exact fun j hj => (hmem j hj).1
      case hheld =>
        intro j hj x _ he
        rw [he] at hd
        have hne := (hmem j hj).2
        rw [hd.1] at hne
        simp [hrun] at hne
      case hwritten =>
        rw [hf]
        simp
      all_goals simp [Call.turn, Stage.removes, hs, hlock]
  | acquired | returned | failed =>
    rw [turn_ended hc (by simp [Call.turn, hs]) (by simp [World.holds, hs])]
    exact h

omit hc in
theorem Sound.next (hcare : w.careful e) : Sound (w.next e) := by
  cases e with
  | acquire k | release k =>
    rw [World.next]
    split
    · have hnone : w.calls k = none := Option.isNone_iff_eq_none.mp (And.left ‹_›)
      apply h.put (by simp [hnone]) (h.toInformed.put (by simp [hnone]) le_rfl (by simp) (by simp)) (by simp)
    · exact h
  | turn k =>
    cases hc : w.calls k with
    | none => simpa [World.next, hc] using h
    | some => simpa [World.next, hc] using h.turn hc hcare
  | crash k =>
    cases hc : w.calls k with
    | none => simpa [World.next, hc] using h
    | some c =>
      have hw : c.stage ≠ .write := by simpa [World.careful, hc] using hcare
      by_cases hs : c.stage = .acquired
      · simpa [World.next, hc, hs] using h
      · have := h.put (fun d hd => ⟨stage_ne hc hs d hd, stage_ne hc hw d hd⟩)
          (@Sound.informed w k c .failed h hc hs (by simp) (by simp)) (by simp)
        simpa [World.next, hc, hs] using this
  | tick d =>
    have hle : w.clock ≤ w.clock + d := by omega
    refine ⟨⟨?_, ?_, h.removes⟩, h.file, h.writing, ?_⟩
    · intro k c hc
      exact (h.past k c hc).trans hle
    · intro k c last seen hc hs
      obtain ⟨x, hx, he⟩ := h.unlinks k c last seen hc hs
      exact ⟨x, hx, he.trans hle⟩
    · intro k hk
      obtain ⟨c, hc, hl⟩ := h.held k hk
      exact ⟨c, hc, fun hlt => hl (hle.trans_lt hlt)⟩

omit hc in
/-- Nobody but the call that has read a record removes the file, and then it is its own or an expired one. -/
theorem Sound.leased : Leased w := by
  refine ⟨?_, ?_, ?_⟩
  · rintro k hk j hj ⟨c, hc, hlt⟩ ⟨d, hd, hlt'⟩
    obtain ⟨x, hx, hl⟩ := h.held k hk
    obtain ⟨y, hy, hl'⟩ := h.held j hj
    obtain rfl := Option.some.inj (hc.symm.trans hx.1)
    obtain rfl := Option.some.inj (hd.symm.trans hy.1)
    have hboth := (hl hlt).symm.trans (hl' hlt')
    injection hboth with hboth
    injection hboth
  · intro k c hc hcare f hlock hnone
    have hturn : (c.turn k w.lock).1 = none := by simpa [World.next, hc, World.turn] using hnone
    rw [hlock] at hturn
    cases hs : c.stage with
    | unlink last =>
      obtain rfl := careful_removes hc hcare (by rw [hs]; rfl) hlock
      obtain ⟨d, hd, hle⟩ := h.unlinks k c last _ hc hs
      rw [h.seen hlock hd]
      exact ⟨_, rfl, .inr hle⟩
    | remove =>
      obtain rfl := careful_removes hc hcare (by rw [hs]; rfl) hlock
      obtain ⟨d, hd, hrun⟩ := h.removes k c _ hc hs
      rw [h.seen hlock hd]
      exact ⟨_, rfl, .inl hrun⟩
    | _ =>
      unfold Call.turn at hturn
      rw [hs] at hturn
      split at hturn
      all_goals simp_all
  · intro f hlock
    obtain hwrite | ⟨d, hd, hl⟩ := h.file f hlock
    · exact .inl hwrite
    · refine .inr ⟨_, hl, fun hle k runID ttlMinutes hnone hpos hvalid => ?_⟩
      rw [h.seen hlock hd] at hlock
      generalize d.value = l at hlock hle
      simp [World.takeOver, World.next, World.turn, World.put, Call.turn, Call.value, World.holds, hnone, hlock, hpos, hvalid, hle]

end

theorem leased_of_careful {es : List Event} (h : Execution CarefulStep .free es w) : Leased w := by
  have hsound : Sound w := h.invariant ⟨⟨by simp [World.free], by simp [World.free], by simp [World.free]⟩,
    by simp [World.free], by simp [World.free], by simp [World.free]⟩ (fun s e t hs hstep => hstep.2 ▸ hs.next hstep.1)
  exact hsound.leased

theorem execution_foldl (w : World) (es : List Event) : Execution Step w es (es.foldl World.next w) := by
  induction es generalizing w with
  | nil => exact .start
  | cons e _ ih => exact (Execution.single rfl).trans (ih (w.next e))

namespace LeaseExample

def acquiring (k : ℕ) (runID : String) (breakStale : Bool) : List Event :=
  [.acquire k runID 1 breakStale, .turn k, .turn k]

/-- The calls `1` and `2` read the record of `a`; then the one removes the lock that the other has taken. -/
def races : List Event :=
  acquiring 0 "a" false ++ [.tick 60000000] ++ acquiring 1 "b" true ++ acquiring 2 "c" true ++
    [.turn 1, .turn 1, .turn 1, .turn 2, .turn 2, .turn 2]

def dies : List Event := [.acquire 0 "a" 1 false, .turn 0, .crash 0, .tick 60000000]

set_option maxRecDepth 100000 in
theorem lease_races : (∃ w, Execution Step .free races w ∧ ¬ Leased w) ∧ ∃ w, Execution Step .free dies w ∧ ¬ Leased w := by
  refine ⟨⟨_, execution_foldl _ _, fun h => ?_⟩, _, execution_foldl _ _, fun h => ?_⟩
  · have hsame := h.exclusive 1 (by decide) 2 (by decide) ⟨_, rfl, by decide⟩ ⟨_, rfl, by decide⟩
    cases hsame
  · obtain ⟨c, hc, hs⟩ | ⟨l, hl, -⟩ := h.replaceable ⟨0, none⟩ rfl
    · cases hc
      cases hs
    · cases hl

/-- `b` replaces the lease of `a`, whose late release then fails. -/
def replaces : List Event :=
  acquiring 0 "a" false ++ [.tick 60000000] ++ acquiring 1 "b" true ++
    [.turn 1, .turn 1, .turn 1, .release 2 "a", .turn 2, .turn 2]

def careful : World → List Event → Bool
  | _, [] => true
  | w, e :: es => w.careful e && careful (w.next e) es

theorem execution_careful {es : List Event} (h : careful w es) : Execution CarefulStep w es (es.foldl World.next w) := by
  induction es generalizing w with
  | nil => exact .start
  | cons _ _ ih =>
    obtain ⟨he, hes⟩ := (Bool.and_eq_true _ _).mp h
    exact (Execution.single ⟨he, rfl⟩).trans (ih hes)

set_option maxRecDepth 100000 in
theorem leased_replaces : ∃ w, Execution CarefulStep .free replaces w ∧ w.held = [1, 0] ∧ Leased w := by
  have h : Execution CarefulStep .free replaces (replaces.foldl World.next .free) := execution_careful (by decide)
  exact ⟨_, h, by decide, leased_of_careful h⟩

end LeaseExample

end WorkAgent.Wiki
