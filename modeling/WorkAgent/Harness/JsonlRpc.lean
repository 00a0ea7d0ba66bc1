import Mathlib.Data.Rat.Defs
import Mathlib.Data.List.Induction
import WorkAgent.Library.Json

namespace WorkAgent.Harness.JsonlRpc

open Library List

inductive Number
  | finite (value : ℚ)
  | infinite (negative : Bool)

abbrev Value := Json String Number

mutual

def printable : Value → Bool
  | .array items => allPrintable items
  | .object fields => !(fields.map Prod.fst).contains "toString"
  | _ => true

def allPrintable : List Value → Bool
  | [] => true
  | item :: rest => printable item && allPrintable rest

end

def pendingKey : Value → Option ℕ
  | .number (.finite value) => if value.den = 1 ∧ 0 ≤ value.num then some value.num.toNat else none
  | _ => none

def given : Option Value → Option Value
  | some .null => none
  | value => value

inductive Reason
  | message (text : Value)
  | code (text : Value)
  | unknown
  | timedOut (method : String)
  | closed (reason : String)

def Reason.printable : Reason → Bool
  | .message text => JsonlRpc.printable text
  | .code text => JsonlRpc.printable text
  | _ => true

inductive Outcome
  | resolved (value : Option Value)
  | rejected (reason : Reason)

def reasonOf (error : Value) : Reason :=
  match given (error.field "message") with
  | some text => .message text
  | none =>
    match given (error.field "code") with
    | some code => .code code
    | none => .unknown

structure Rpc where
  nextId : ℕ
  pending : List (ℕ × String)
  timers : List (ℕ × String)
  promises : ℕ → Option Outcome

def Rpc.start : Rpc := ⟨1, [], [], fun _ => none⟩

def Rpc.settle (s : Rpc) (id : ℕ) (outcome : Outcome) : Rpc :=
  { s with promises := Function.update s.promises id ((s.promises id).or (some outcome)) }

def Rpc.request (s : Rpc) (method : String) : Rpc :=
  { s with
    nextId := s.nextId + 1
    pending := s.pending ++ [(s.nextId, method)]
    timers := s.timers ++ [(s.nextId, method)] }

def Rpc.drop (s : Rpc) (id : ℕ) : Rpc :=
  { s with pending := s.pending.filter (·.1 ≠ id), timers := s.timers.filter (·.1 ≠ id) }

def Rpc.timeout (s : Rpc) (id : ℕ) : Rpc :=
  match s.timers.lookup id with
  | some method => (s.drop id).settle id (.rejected (.timedOut method))
  | none => s

def Rpc.close (s : Rpc) (reason : String) : Rpc :=
  let rejected := s.pending.foldl (fun s x => s.settle x.1 (.rejected (.closed reason))) s
  { rejected with pending := [], timers := s.timers.filter fun x => (s.pending.lookup x.1).isNone }

abbrev Handled := Bool × Rpc

def Rpc.reply (s : Rpc) (id : ℕ) (message : Value) : Handled :=
  match message.field "error" with
  | none => (false, (s.drop id).settle id (.resolved (message.field "result")))
  | some error =>
    -- the entry is gone and its timer cleared when the text of the error is put together
    if error.isNull || !(reasonOf error).printable then (true, s.drop id)
    else (false, (s.drop id).settle id (.rejected (reasonOf error)))

def Rpc.receive (s : Rpc) (line : Option Value) (throws : Bool) : Handled :=
  match line with
  | none => (false, s)
  | some .null => (true, s)
  | some message =>
    match message.field "id", message.field "method" with
    | some _, some _ => (throws, s)
    | some id, none =>
      match pendingKey id with
      | some key => if (s.pending.lookup key).isSome then s.reply key message else (false, s)
      | none => (false, s)
    | none, some _ => (throws, s)
    | none, none => (false, s)

inductive Event
  | request (method : String)
  | line (value : Option Value) (throws : Bool)
  | timeout (id : ℕ)
  | close (reason : String)

def step (s : Rpc) : Event → Handled
  | .request method => (false, s.request method)
  | .line value throws => s.receive value throws
  | .timeout id => (false, s.timeout id)
  | .close reason => (false, s.close reason)

def run (events : List Event) : Rpc := events.foldl (fun s event => (step s event).2) .start

section Purpose

def replyTo (message : Value) : Option ℕ :=
  match message.field "id", message.field "method" with
  | some id, none => pendingKey id
  | _, _ => none

def replyOutcome (message : Value) : Outcome :=
  match message.field "error" with
  | none => .resolved (message.field "result")
  | some error => .rejected (reasonOf error)

def verdict (id : ℕ) (method : String) : Event → Option Outcome
  | .line (some message) _ => if replyTo message = some id then some (replyOutcome message) else none
  | .timeout id' => if id' = id then some (.rejected (.timedOut method)) else none
  | .close reason => some (.rejected (.closed reason))
  | _ => none

def issued : ℕ → List Event → Option (String × List Event)
  | _, [] => none
  | n, .request method :: rest => if n = 1 then some (method, rest) else issued (n - 1) rest
  | n, _ :: rest => issued n rest

def expected (events : List Event) (id : ℕ) : Option Outcome :=
  (issued id events).bind fun x => x.2.findSome? (verdict id x.1)

def Foreign (s : Rpc) : Option Value → Prop
  | none => True
  | some message => ∀ id, replyTo message = some id → s.pending.lookup id = none

structure Correct (events : List Event) : Prop where
  quiet : ∀ before event after, events = before ++ event :: after → (step (run before) event).1 = false
  settled : ∀ before, before <+: events → ∀ id, (run before).promises id = expected before id
  foreign : ∀ before line throws after, events = before ++ .line line throws :: after → Foreign (run before) line →
    run (before ++ [.line line throws]) = run before

def Bearable (s : Rpc) : Event → Prop
  | .line (some message) throws =>
    message.isNull = false ∧ ((message.field "method").isSome → throws = false) ∧
      ∀ id, replyTo message = some id → (s.pending.lookup id).isSome → ∀ error, message.field "error" = some error →
        error.isNull = false ∧ (reasonOf error).printable = true
  | _ => True

end Purpose

section Histories

variable {events rest : List Event} {event : Event} {id : ℕ} {method : String}

def asked : List Event → ℕ
  | [] => 0
  | .request _ :: rest => asked rest + 1
  | _ :: rest => asked rest

def waiting (events : List Event) (id : ℕ) : Option String :=
  (issued id events).bind fun x => (x.2.findSome? (verdict id x.1)).elim (some x.1) fun _ => none

def opened (n : ℕ) (events : List Event) : Event → Option (String × List Event)
  | .request method => if n = asked events + 1 then some (method, []) else none
  | _ => none

theorem issued_snoc (n : ℕ) : issued n (events ++ [event]) =
    (issued n events).elim (opened n events event) fun x => some (x.1, x.2 ++ [event]) := by
  induction events generalizing n with
  | nil => cases event <;> simp [issued, opened, asked]
  | cons first rest ih =>
    cases first with
    | request method =>
      by_cases hn : n = 1
      · simp [issued, hn]
      · have hopened : opened (n - 1) rest event = opened n (.request method :: rest) event := by
          cases event with
          | request =>
            simp only [opened, asked]
            congr 1
            apply propext
            omega
          | line => rfl
          | timeout => rfl
          | close => rfl
        simp [issued, hn, ih, hopened]
    | line value throws =>
      have hopened : opened n rest event = opened n (.line value throws :: rest) event := by cases event <;> rfl
      simp [issued, ih, hopened]
    | timeout id' =>
      have hopened : opened n rest event = opened n (.timeout id' :: rest) event := by cases event <;> rfl
      simp [issued, ih, hopened]
    | close reason =>
      have hopened : opened n rest event = opened n (.close reason :: rest) event := by cases event <;> rfl
      simp [issued, ih, hopened]

theorem issued_eq_none (h : asked events < id) : issued id events = none := by
  induction events generalizing id with
  | nil => cases id <;> rfl
  | cons first _ ih =>
    cases first with
    | request =>
      have hn : id ≠ 1 := by
        simp only [asked] at h
        omega
      simp only [issued, hn, if_false]
      apply ih
      simp only [asked] at h
      omega
    | line | timeout | close => exact ih h

theorem asked_snoc : asked (events ++ [event]) = asked events + asked [event] := by
  induction events with
  | nil => simp [asked]
  | cons first _ ih =>
    cases first <;> simp only [cons_append, asked, ih]
    omega

theorem expected_snoc : expected (events ++ [event]) id =
    (expected events id).or ((waiting events id).bind fun method => verdict id method event) := by
  unfold expected waiting
  rw [issued_snoc]
  cases h : issued id events with
  | none => cases event <;> simp [opened, verdict]
  | some x =>
    cases hfound : x.2.findSome? (verdict id x.1) with
    | none | some => simp [findSome?_append, hfound]

theorem waiting_snoc (h : ∀ method, event ≠ .request method) : waiting (events ++ [event]) id =
    (waiting events id).bind fun method => (verdict id method event).elim (some method) fun _ => none := by
  have hopened : opened id events event = none := by
    cases event with
    | request method => exact absurd rfl (h method)
    | line => rfl
    | timeout => rfl
    | close => rfl
  unfold waiting
  rw [issued_snoc, hopened]
  cases issued id events with
  | none => rfl
  | some x =>
    cases hfound : x.2.findSome? (verdict id x.1) with
    | none | some => simp [findSome?_append, hfound]

theorem waiting_request : waiting (events ++ [.request method]) id =
    if id = asked events + 1 then some method else waiting events id := by
  unfold waiting
  rw [issued_snoc]
  by_cases hid : id = asked events + 1
  · rw [issued_eq_none (by omega)]
    simp [opened, hid]
  · cases issued id events with
    | none => simp [opened, hid]
    | some x => cases hfound : x.2.findSome? (verdict id x.1) <;> simp [findSome?_append, hfound, hid, verdict]

theorem waiting_eq_none (h : asked events < id) : waiting events id = none := by
  simp [waiting, issued_eq_none h]

end Histories

section Runs

variable {events : List Event} {event : Event} {id key : ℕ} {method : String} {s : Rpc} {message : Value}

structure Tracks (events : List Event) (s : Rpc) : Prop where
  next : s.nextId = asked events + 1
  pending : ∀ id, s.pending.lookup id = waiting events id
  timers : s.timers = s.pending
  promises : ∀ id, s.promises id = expected events id

theorem lookup_filter (l : List (ℕ × String)) : (l.filter (·.1 ≠ key)).lookup id = if id = key then none else l.lookup id := by
  induction l with
  | nil => simp
  | cons x _ ih =>
    obtain ⟨k, _⟩ := x
    by_cases hk : k = key
    · by_cases hid : id = key
      · simpa [hk, hid] using ih
      · have hne : (id == key) = false := by simpa using hid
        simp only [hk, ne_eq, not_true_eq_false, decide_false, Bool.false_eq_true, not_false_eq_true, filter_cons_of_neg, ih,
          lookup_cons, hne]
    · by_cases hid : id = k
      · simp [hid, hk]
      · have hne : (id == k) = false := by simpa using hid
        rw [filter_cons_of_pos (by simpa using hk), lookup_cons, lookup_cons, hne]
        exact ih

theorem lookup_snoc (l : List (ℕ × String)) : (l ++ [(key, method)]).lookup id = (l.lookup id).or (if id = key then some method else none) := by
  rw [lookup_append]
  by_cases h : id = key
  · simp [h]
  · have hne : (id == key) = false := by simpa using h
    simp [h, lookup_cons, hne]

theorem settle_promises (outcome : Outcome) :
    (s.settle key outcome).promises id = (s.promises id).or (if id = key then some outcome else none) := by
  by_cases h : id = key
  · simp [Rpc.settle, h]
  · simp [Rpc.settle, h]

theorem tracks_start : Tracks [] .start where
  next := rfl
  pending _ := rfl
  timers := rfl
  promises _ := rfl

theorem Tracks.request (h : Tracks events s) (method : String) : Tracks (events ++ [.request method]) (s.request method) where
  next := by
    rw [asked_snoc]
    simp [Rpc.request, h.next, asked]
  pending := by
    intro id
    rw [waiting_request]
    simp only [Rpc.request, lookup_snoc, h.pending, h.next]
    by_cases hid : id = asked events + 1
    · rw [waiting_eq_none (by omega)]
      simp [hid]
    · simp [hid]
  timers := by simp [Rpc.request, h.timers, h.next]
  promises := by
    intro id
    rw [expected_snoc, ← h.promises id]
    cases waiting events id <;> simp [Rpc.request, verdict]

theorem Tracks.idle (h : Tracks events s) (hevent : ∀ method, event ≠ .request method)
    (hidle : ∀ id method, waiting events id = some method → verdict id method event = none) : Tracks (events ++ [event]) s where
  next := by
    rw [h.next, asked_snoc]
    cases event with
    | request method => exact absurd rfl (hevent method)
    | line => rfl
    | timeout => rfl
    | close => rfl
  pending := by
    intro id
    rw [h.pending, waiting_snoc hevent]
    cases hwaiting : waiting events id with
    | none => rfl
    | some method => simp [hidle id method hwaiting]
  timers := h.timers
  promises := by
    intro id
    rw [h.promises, expected_snoc]
    cases hwaiting : waiting events id with
    | none => simp
    | some method => simp [hidle id method hwaiting]

theorem Tracks.decide (h : Tracks events s) (hevent : ∀ method, event ≠ .request method) {outcome : Outcome}
    (hwaiting : waiting events key = some method) (hverdict : verdict key method event = some outcome)
    (hothers : ∀ id method, id ≠ key → verdict id method event = none) :
    Tracks (events ++ [event]) ((s.drop key).settle key outcome) where
  next := by
    have hsame : asked [event] = 0 := by
      cases event with
      | request method => exact absurd rfl (hevent method)
      | line => rfl
      | timeout => rfl
      | close => rfl
    rw [asked_snoc, hsame]
    exact h.next
  pending := by
    intro id
    rw [waiting_snoc hevent]
    change (s.pending.filter (·.1 ≠ key)).lookup id = _
    rw [lookup_filter, h.pending]
    by_cases hid : id = key
    · subst hid
      simp [hwaiting, hverdict]
    · cases waiting events id with
      | none => simp
      | some method' => simp [hid, hothers id method' hid]
  timers := by
    change s.timers.filter _ = s.pending.filter _
    rw [h.timers]
  promises := by
    intro id
    rw [settle_promises, expected_snoc]
    change (s.promises id).or _ = _
    rw [h.promises]
    by_cases hid : id = key
    · subst hid
      simp [hwaiting, hverdict]
    · cases waiting events id with
      | none => simp [hid]
      | some method' => simp [hid, hothers id method' hid]

theorem close_settled (l : List (ℕ × String)) (reason : String) (s : Rpc) :
    (l.foldl (fun s x => s.settle x.1 (.rejected (.closed reason))) s).promises id =
      (s.promises id).or (if (l.lookup id).isSome then some (.rejected (.closed reason)) else none) := by
  induction l generalizing s with
  | nil => simp
  | cons x _ ih =>
    obtain ⟨k, _⟩ := x
    rw [foldl_cons, ih, settle_promises]
    by_cases hid : id = k
    · cases s.promises id <;> simp [hid]
    · have hne : (id == k) = false := by simpa using hid
      rw [lookup_cons, hne]
      simp [hid]

theorem close_frame (l : List (ℕ × String)) (reason : String) (s : Rpc) :
    (l.foldl (fun s x => s.settle x.1 (.rejected (.closed reason))) s).nextId = s.nextId := by
  induction l generalizing s with
  | nil => rfl
  | cons _ _ ih => exact ih _

theorem Tracks.close (h : Tracks events s) (reason : String) : Tracks (events ++ [.close reason]) (s.close reason) where
  next := by
    rw [asked_snoc]
    exact (close_frame _ _ _).trans h.next
  pending := by
    intro id
    rw [waiting_snoc (by simp)]
    cases waiting events id <;> simp [Rpc.close, verdict]
  timers := by
    change s.timers.filter _ = []
    rw [h.timers]
    apply filter_eq_nil_iff.mpr
    rintro ⟨id, _⟩ hmem
    have hfound : (s.pending.lookup id).isSome := by
      rw [lookup_isSome_iff]
      exact ⟨_, hmem, by simp⟩
    simpa using Option.isSome_iff_ne_none.mp hfound
  promises := by
    intro id
    rw [expected_snoc]
    change (s.pending.foldl (fun s x => s.settle x.1 (.rejected (.closed reason))) s).promises id = _
    rw [close_settled, h.promises, h.pending]
    cases waiting events id <;> simp [verdict]

theorem Tracks.timeout (h : Tracks events s) (id : ℕ) : Tracks (events ++ [.timeout id]) (s.timeout id) := by
  unfold Rpc.timeout
  rw [h.timers, h.pending]
  cases hwaiting : waiting events id with
  | none =>
    apply h.idle (by simp)
    intro id' method hother
    have hne : id ≠ id' := by
      rintro rfl
      rw [hwaiting] at hother
      cases hother
    simp [verdict, hne]
  | some method =>
    apply h.decide (by simp) hwaiting
    · simp [verdict]
    · intro _ _ hne
      simp [verdict, hne.symm]

theorem method_of_replyTo (h : replyTo message = some key) : message.field "method" = none := by
  unfold replyTo at h
  split at h
  · assumption
  · cases h

theorem receive_reply {throws : Bool} (hreply : replyTo message = some key) (hpending : (s.pending.lookup key).isSome) :
    s.receive (some message) throws = s.reply key message := by
  cases message with
  | null | bool | number | string | array => simp [replyTo, Json.field] at hreply
  | object =>
    unfold replyTo at hreply
    unfold Rpc.receive
    split at hreply
    · rename_i hid hmethod
      simp only [hid, hmethod, hreply, hpending, if_true]
    · cases hreply

theorem receive_foreign {throws : Bool} (hnull : message.isNull = false)
    (hforeign : ∀ id, replyTo message = some id → s.pending.lookup id = none) :
    s.receive (some message) throws = ((message.field "method").isSome && throws, s) := by
  unfold Rpc.receive
  cases message with
  | null => cases hnull
  | bool => rfl
  | number => rfl
  | string => rfl
  | array => rfl
  | object fields =>
    unfold replyTo at hforeign
    cases hid : (Json.object fields : Value).field "id" with
    | none => cases hmethod : (Json.object fields : Value).field "method" <;> simp [hid, hmethod]
    | some id =>
      cases hmethod : (Json.object fields : Value).field "method" with
      | some => simp [hid, hmethod]
      | none =>
        cases hkey : pendingKey id with
        | none => simp [hid, hmethod, hkey]
        | some key =>
          have hnone : s.pending.lookup key = none := by
            apply hforeign key
            rw [hid, hmethod]
            exact hkey
          simp only [hid, hmethod, hkey, hnone]
          rfl

theorem Tracks.receive (h : Tracks events s) {line : Option Value} {throws : Bool} (hbearable : Bearable s (.line line throws)) :
    (s.receive line throws).1 = false ∧ Tracks (events ++ [.line line throws]) (s.receive line throws).2 := by
  cases line with
  | none => exact ⟨rfl, h.idle (by simp) fun _ _ _ => rfl⟩
  | some message =>
    obtain ⟨hnull, hthrows, herror⟩ := hbearable
    by_cases hreply : ∃ key, replyTo message = some key ∧ (s.pending.lookup key).isSome
    · obtain ⟨key, hkey, hpending⟩ := hreply
      have hothers (id : ℕ) (method : String) (hne : id ≠ key) : verdict id method (.line (some message) throws) = none := by
        simp [verdict, hkey, hne.symm]
      have hverdict (method : String) : verdict key method (.line (some message) throws) = some (replyOutcome message) := by
        simp [verdict, hkey]
      obtain ⟨method, hwaiting⟩ := Option.isSome_iff_exists.mp hpending
      rw [h.pending] at hwaiting
      have hdecided := h.decide (by simp) hwaiting (hverdict method) hothers
      rw [receive_reply hkey hpending]
      unfold Rpc.reply replyOutcome at *
      cases hfield : message.field "error" with
      | none =>
        rw [hfield] at hdecided
        exact ⟨rfl, hdecided⟩
      | some error =>
        rw [hfield] at hdecided
        obtain ⟨hplain, hprints⟩ := herror key hkey hpending error hfield
        simp only [hplain, hprints]
        exact ⟨rfl, hdecided⟩
    · have hforeign : ∀ id, replyTo message = some id → s.pending.lookup id = none := by
        intro id hid
        rw [← Option.not_isSome_iff_eq_none]
        exact fun hpending => hreply ⟨id, hid, hpending⟩
      rw [receive_foreign hnull hforeign]
      constructor
      · cases hmethod : (message.field "method").isSome
        · rfl
        · exact hthrows hmethod
      · apply h.idle (by simp)
        intro id _ hwaiting
        have hid : replyTo message ≠ some id := by
          intro hid
          rw [← h.pending, hforeign id hid] at hwaiting
          cases hwaiting
        simp [verdict, hid]

theorem Tracks.step (h : Tracks events s) (hbearable : Bearable s event) :
    (step s event).1 = false ∧ Tracks (events ++ [event]) (step s event).2 := by
  cases event with
  | request method => exact ⟨rfl, h.request method⟩
  | line => exact h.receive hbearable
  | timeout id => exact ⟨rfl, h.timeout id⟩
  | close reason => exact ⟨rfl, h.close reason⟩

theorem run_snoc : run (events ++ [event]) = (step (run events) event).2 := by
  unfold run
  rw [foldl_append]
  rfl

theorem run_tracks (h : ∀ before event after, events = before ++ event :: after → Bearable (run before) event) :
    Tracks events (run events) := by
  induction events using List.reverseRecOn with
  | nil => exact tracks_start
  | append_singleton events event ih =>
    rw [run_snoc]
    apply (Tracks.step _ (h events event [] rfl)).2
    apply ih
    intro before event' after hsplit
    apply h before event' (after ++ [event])
    rw [hsplit]
    simp

theorem step_throws (h : ¬ Bearable s event) : (step s event).1 = true := by
  cases event with
  | request | timeout | close => exact absurd trivial h
  | line value throws =>
    cases value with
    | none => exact absurd trivial h
    | some message =>
      change (s.receive (some message) throws).1 = true
      cases hnull : message.isNull with
      | true =>
        cases message with
        | null => rfl
        | bool | number | string | array | object => cases hnull
      | false =>
        by_cases hreply : ∃ key, replyTo message = some key ∧ (s.pending.lookup key).isSome
        · obtain ⟨_, hkey, hpending⟩ := hreply
          rw [receive_reply hkey hpending]
          unfold Rpc.reply
          have hbad : ∃ error, message.field "error" = some error ∧ ¬ (error.isNull = false ∧ (reasonOf error).printable = true) := by
            by_contra hgood
            apply h
            refine ⟨hnull, ?_, ?_⟩
            · rw [method_of_replyTo hkey]
              intro hmethod
              cases hmethod
            · intro id _ _ error hfield
              by_contra hbad
              exact hgood ⟨error, hfield, hbad⟩
          obtain ⟨error, hfield, hbad⟩ := hbad
          rw [hfield]
          cases hplain : error.isNull with
          | true => simp [hplain]
          | false =>
            cases hprints : (reasonOf error).printable with
            | true => exact absurd ⟨hplain, hprints⟩ hbad
            | false => simp [hprints]
        · have hforeign : ∀ id, replyTo message = some id → s.pending.lookup id = none := by
            intro id hid
            rw [← Option.not_isSome_iff_eq_none]
            exact fun hpending => hreply ⟨id, hid, hpending⟩
          rw [receive_foreign hnull hforeign]
          by_contra hquiet
          apply h
          refine ⟨hnull, ?_, ?_⟩
          · intro hmethod
            simpa [hmethod] using hquiet
          · intro id hid hpending
            exact absurd ⟨id, hid, hpending⟩ hreply

/-- A run keeps every promise, and gets through every line, as long as each line is one that the handler can bear. -/
theorem run_correct : Correct events ↔ ∀ before event after, events = before ++ event :: after → Bearable (run before) event := by
  constructor
  · intro h before event after hsplit
    by_contra hbad
    have hthrows := step_throws hbad
    rw [h.quiet before event after hsplit] at hthrows
    cases hthrows
  · intro h
    have hprefixes (before after : List Event) (hsplit : events = before ++ after) : Tracks before (run before) := by
      apply run_tracks
      intro first event last hfirst
      apply h first event (last ++ after)
      rw [hsplit, hfirst]
      simp
    constructor
    · intro before event after hsplit
      exact ((hprefixes before _ hsplit).step (h before event after hsplit)).1
    · rintro before ⟨after, hsplit⟩ id
      exact (hprefixes before after hsplit.symm).promises id
    · intro before line throws after hsplit hforeign
      rw [run_snoc]
      change (Rpc.receive _ line throws).2 = _
      cases line with
      | none => rfl
      | some =>
        rw [receive_foreign (h before _ after hsplit).1 hforeign]

end Runs

section Unbearable


theorem null_throws : ¬ Correct [.line (some .null) false] := by
  intro h
  have hquiet := h.quiet [] _ [] rfl
  cases hquiet

end Unbearable

end WorkAgent.Harness.JsonlRpc
