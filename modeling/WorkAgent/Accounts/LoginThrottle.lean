import WorkAgent.Accounts.LoginAttempts
import WorkAgent.Library.Bursts

namespace WorkAgent.Accounts

open Library Relation List Option
open Quota (Time)

def LoginPolicy.windowSeconds (policy : LoginPolicy) : ℤ := policy.window / Time.second

def LoginPolicy.lockoutSeconds (policy : LoginPolicy) : ℤ := policy.lockout / Time.second

inductive LimitOf (policy : LoginPolicy) : String → ℤ → Prop
  | account (account : String) : LimitOf policy (accountKey account) policy.accountLimit
  | ip (ip : String) (h : ip ≠ "") : LimitOf policy (ipKey ip) policy.ipLimit

def addFailure (policy : LoginPolicy) (limit : ℤ) (t : Time) : List (List Time) → List (List Time)
  | [] => [[t]]
  | g :: rest =>
    if burstStart Time.unix g + policy.windowSeconds ≤ t.unix ∨ limit ≤ g.length then [t] :: g :: rest
    else (t :: g) :: rest

/-- The failures of a key since the last success of its own, the last first, one list for each window: the last window
has those since the key was last reset. -/
def windows (policy : LoginPolicy) (limit : ℤ) (key : String) : List Entry → List (List Time)
  | [] => []
  | .verified _ :: log => windows policy limit key log
  | .failed keys t :: log =>
    if key ∈ keys then addFailure policy limit t (windows policy limit key log) else windows policy limit key log
  | .succeeded account _ :: log => if key = accountKey account then [] else windows policy limit key log

def failures (key : String) : List Entry → List Time
  | [] => []
  | .verified _ :: log => failures key log
  | .failed keys t :: log => if key ∈ keys then t :: failures key log else failures key log
  | .succeeded account _ :: log => if key = accountKey account then [] else failures key log

def Gate.Blocked (g : Gate) (key : String) : Prop := ∃ r ∈ g.rows, r.key = key ∧ g.now.unix < r.blockedUntil

section Instants

variable {policy : LoginPolicy}

theorem LoginPolicy.windowSeconds_pos : 1 ≤ policy.windowSeconds := by
  have h := policy.window_le
  simp only [LoginPolicy.windowSeconds, Time.second] at h ⊢
  omega

theorem LoginPolicy.lockoutSeconds_pos : 1 ≤ policy.lockoutSeconds := by
  have h := policy.lockout_le
  simp only [LoginPolicy.lockoutSeconds, Time.second] at h ⊢
  omega

theorem lockout_le_unix (t : Time) : t.unix + policy.lockoutSeconds ≤ (later t policy.lockout).unix := by
  simp only [LoginPolicy.lockoutSeconds, Time.unix, later, Time.second]
  omega

theorem window_over {s : ℤ} {t : Time} (h : s < (later t (-policy.window)).unix) : s + policy.windowSeconds ≤ t.unix := by
  simp only [LoginPolicy.windowSeconds, Time.unix, later, Time.second] at h ⊢
  omega

theorem unix_mono {t u : Time} (h : t.ns ≤ u.ns) : t.unix ≤ u.unix := by
  simp only [Time.unix, Time.second]
  omega

theorem unix_le_add {t u : Time} {seconds : ℤ} (h : u.ns ≤ t.ns + seconds * Time.second) : u.unix ≤ t.unix + seconds := by
  simp only [Time.unix, Time.second] at h ⊢
  omega

end Instants

section Keys

variable {policy : LoginPolicy} {key : String} {limit : ℤ}

theorem accountKey_ne_ipKey (account ip : String) : accountKey account ≠ ipKey ip := by
  intro h
  have hlist := congrArg String.toList h
  simp [accountKey, ipKey] at hlist

theorem ipKey_injective {ip ip' : String} (h : ipKey ip = ipKey ip') : ip = ip' := by
  have hlist := congrArg String.toList h
  simpa [ipKey, String.toList_inj] using hlist

theorem LimitOf.ne_empty (h : LimitOf policy key limit) : key ≠ "ip:" := by
  cases h with
  | account account => exact accountKey_ne_ipKey account ""
  | ip ip hip =>
    intro h
    have hsame : ipKey ip = ipKey "" := h
    exact hip (ipKey_injective hsame)

end Keys

section Recording

variable {policy : LoginPolicy} {rows : Attempts} {now : Time} {key : String} {limit : ℤ}

def AttemptRow.RunOut (policy : LoginPolicy) (now : Time) (r : AttemptRow) : Prop :=
  r.startedAt < (later now (-policy.window)).unix ∧ r.blockedUntil ≤ now.unix

instance (r : AttemptRow) : Decidable (r.RunOut policy now) := instDecidableAnd

theorem key_count (limit : ℤ) (r : AttemptRow) : (r.count policy limit now).key = r.key := by
  unfold AttemptRow.count
  dsimp only
  split <;> rfl

theorem free_of_loginBlockedUntil {account ip : String} (h : loginBlockedUntil rows account ip now = none)
    (hkey : key ∈ [accountKey account, ipKey ip]) {r : AttemptRow} (hr : rows.find? key = some r) : r.blockedUntil ≤ now.unix := by
  obtain ⟨hmem, hk⟩ := Table.find?_eq_some.mp hr
  unfold loginBlockedUntil at h
  dsimp only at h
  split at h
  · rename_i hle
    have hlisted : r.blockedUntil ∈ (rows.rows.filter (fun r => r.key ∈ [accountKey account, ipKey ip])).map
        AttemptRow.blockedUntil := by
      refine List.mem_map_of_mem (mem_filter.mpr ⟨hmem, ?_⟩)
      rw [hk]
      exact decide_eq_true hkey
    obtain ⟨m, hm⟩ := isSome_iff_exists.mp (isSome_max?_of_mem hlisted)
    have hmax := (max?_eq_some_iff.mp hm).2 _ hlisted
    rw [hm, Option.getD_some] at hle
    exact hmax.trans hle
  · cases h

theorem find?_set {rows : Attempts} {r : AttemptRow} {key : String} :
    (rows.set r).find? key = if r.key = key then some r else rows.find? key := by
  unfold Table.set
  rw [Table.find?_upsert]
  by_cases hk : r.key = key
  · rw [if_pos hk, if_pos hk]
    cases hx : rows.find? key with
    | none => rfl
    | some =>
      have hxk := (Table.find?_eq_some.mp hx).2
      rw [elim_some, if_pos (hxk.trans hk.symm)]
  · rw [if_neg hk, if_neg hk]

theorem find?_recordFailure_ne {key' : String} (h : key' ≠ key) :
    (recordFailure policy now rows key' limit).find? key = rows.find? key := by
  unfold recordFailure
  split
  · rfl
  · dsimp only
    split
    · rfl
    · rw [find?_set, if_neg]
      rw [key_count]
      cases hx : rows.find? key' with
      | none => exact h
      | some => exact (Table.find?_eq_some.mp hx).2 ▸ h

theorem find?_recordFailure (hkey : key ≠ "ip:") (hlimit : 0 < limit)
    (hfree : ∀ r, rows.find? key = some r → r.blockedUntil ≤ now.unix) (hnow : 1 ≤ now.unix) :
    (recordFailure policy now rows key limit).find? key =
      some (((rows.find? key).getD ⟨key, 0, 0, 0⟩).count policy limit now) := by
  have hk : ((rows.find? key).getD ⟨key, 0, 0, 0⟩).key = key := by
    cases hx : rows.find? key with
    | none => rfl
    | some => exact (Table.find?_eq_some.mp hx).2
  have hopen : ¬ now.unix < ((rows.find? key).getD ⟨key, 0, 0, 0⟩).blockedUntil := by
    cases hx : rows.find? key with
    | none =>
      change ¬ now.unix < 0
      omega
    | some x =>
      have hle := hfree x hx
      rw [Option.getD_some]
      omega
  unfold recordFailure
  rw [if_neg (by rw [not_or]; exact ⟨hkey, by omega⟩)]
  dsimp only
  rw [if_neg hopen, find?_set, if_pos (by rw [key_count, hk])]

theorem find?_recordLoginAttempt_of_ne (success : Bool) {account ip : String} (haccount : key ≠ accountKey account)
    (hip : success = false → key ≠ ipKey ip) :
    (recordLoginAttempt policy rows account ip success now).find? key =
      (rows.find? key).filter (fun r => ¬ r.RunOut policy now) := by
  unfold recordLoginAttempt
  dsimp only
  rw [Table.find?_delete]
  cases success with
  | false =>
    rw [if_neg Bool.false_ne_true, find?_recordFailure_ne (hip rfl).symm, find?_recordFailure_ne haccount.symm]
    rfl
  | true =>
    rw [if_pos rfl, Table.find?_delete]
    cases hx : rows.find? key with
    | none => rfl
    | some x =>
      have hxk := (Table.find?_eq_some.mp hx).2
      have hkeep : (some x).filter (fun r => ¬ r.key = accountKey account) = some x := by
        rw [filter_some, if_pos (by simpa [hxk] using haccount)]
      rw [hkeep]
      rfl

theorem find?_recordLoginAttempt_success (account ip : String) :
    (recordLoginAttempt policy rows account ip true now).find? (accountKey account) = none := by
  unfold recordLoginAttempt
  rw [Table.find?_eq_none]
  intro r hr hk
  rw [Table.mem_delete, if_pos rfl, Table.mem_delete] at hr
  exact hr.1.2 hk

theorem find?_recordLoginAttempt_failure {account ip : String} (hmem : key ∈ [accountKey account, ipKey ip])
    (hlim : LimitOf policy key limit) :
    (recordLoginAttempt policy rows account ip false now).find? key =
      ((recordFailure policy now rows key limit).find? key).filter (fun r => ¬ r.RunOut policy now) := by
  unfold recordLoginAttempt
  dsimp only
  rw [Table.find?_delete, if_neg Bool.false_ne_true]
  cases hlim with
  | account account' =>
    have heq : accountKey account' = accountKey account := by
      simpa [accountKey_ne_ipKey] using hmem
    rw [find?_recordFailure_ne (accountKey_ne_ipKey _ _).symm, heq]
    rfl
  | ip ip' =>
    have heq : ip' = ip := by
      have hne : ipKey ip' ≠ accountKey account := (accountKey_ne_ipKey _ _).symm
      simp only [mem_cons, hne, not_mem_nil, or_false, false_or] at hmem
      exact ipKey_injective hmem
    subst heq
    have hother : (recordFailure policy now rows (accountKey account) policy.accountLimit).find? (ipKey ip') =
        rows.find? (ipKey ip') := find?_recordFailure_ne (accountKey_ne_ipKey _ _)
    have hsame : ∀ rows' : Attempts, rows'.find? (ipKey ip') = rows.find? (ipKey ip') →
        (recordFailure policy now rows' (ipKey ip') policy.ipLimit).find? (ipKey ip') =
          (recordFailure policy now rows (ipKey ip') policy.ipLimit).find? (ipKey ip') := by
      intro _ h
      unfold recordFailure
      rw [h]
      split
      · exact h
      · dsimp only
        split
        · exact h
        · rw [find?_set, find?_set, h]
    rw [hsame _ hother]
    rfl

end Recording

section Throttle

variable {policy : LoginPolicy} {limit : ℤ} {key : String}

def lockoutEnd (policy : LoginPolicy) (g : List Time) : ℤ := ((g.head?.map (fun t => (later t policy.lockout).unix))).getD 0

structure Holds (policy : LoginPolicy) (limit : ℤ) (rows : Attempts) (now : Time) (key : String) (g : List Time) : Prop where
  ne : g ≠ []
  sorted : ∀ t ∈ g, ∀ newest ∈ g.head?, t.ns ≤ newest.ns
  past : ∀ t ∈ g, t.ns ≤ now.ns ∧ 1 ≤ t.unix
  inside : ∀ t ∈ g, t.unix < burstStart Time.unix g + policy.windowSeconds
  row : ∀ r, rows.find? key = some r → r = ⟨key, burstStart Time.unix g, g.length,
    if limit ≤ g.length then lockoutEnd policy g else 0⟩
  none : rows.find? key = none → burstStart Time.unix g + policy.windowSeconds ≤ now.unix ∧
    (limit ≤ g.length → lockoutEnd policy g ≤ now.unix)

def Tracks (policy : LoginPolicy) (limit : ℤ) (rows : Attempts) (now : Time) (key : String) : List (List Time) → Prop
  | [] => rows.find? key = none
  | g :: _ => Holds policy limit rows now key g

variable {rows rows' : Attempts} {now now' : Time} {gens : List (List Time)} {g : List Time}

section

variable (h : Holds policy limit rows now key g)
include h

theorem Holds.start_mem : ∃ t ∈ g, t.unix = burstStart Time.unix g := by
  refine ⟨g.getLast h.ne, List.getLast_mem h.ne, ?_⟩
  unfold burstStart
  rw [List.getLast?_eq_some_getLast h.ne]
  rfl

theorem Holds.newest :
    ∃ newest ∈ g, g.head? = some newest ∧ lockoutEnd policy g = (later newest policy.lockout).unix ∧ ∀ t ∈ g, t.unix ≤ newest.unix := by
  cases g with
  | nil => exact absurd rfl h.ne
  | cons t => exact ⟨t, List.mem_cons_self, rfl, rfl, fun u hu => unix_mono (h.sorted u hu t rfl)⟩

theorem Holds.lockoutEnd_pos : 0 < lockoutEnd policy g := by
  obtain ⟨newest, hmem, -, _, -⟩ := h.newest
  have hpos := (h.past newest hmem).2
  have hle : newest.unix + policy.lockoutSeconds ≤ (later newest policy.lockout).unix := lockout_le_unix newest
  have hlock := policy.lockoutSeconds_pos
  omega

theorem Holds.of_filter
    (hfind : rows'.find? key = (rows.find? key).filter (fun r => ¬ r.RunOut policy now)) : Holds policy limit rows' now key g := by
  refine ⟨h.ne, h.sorted, h.past, h.inside, ?_, ?_⟩
  · intro r hr
    rw [hfind, Option.filter_eq_some_iff] at hr
    exact h.row r hr.1
  · intro hnone
    cases hx : rows.find? key with
    | none => exact h.none hx
    | some r =>
      rw [hfind, hx, filter_some] at hnone
      have hout : r.RunOut policy now := by
        by_contra hkeep
        simp [hkeep] at hnone
      rw [h.row r hx] at hout
      refine ⟨window_over hout.1, ?_⟩
      intro hfull
      have hend := hout.2
      rwa [if_pos hfull] at hend

end

theorem Tracks.of_filter (h : Tracks policy limit rows now key gens)
    (hfind : rows'.find? key = (rows.find? key).filter (fun r => ¬ r.RunOut policy now)) : Tracks policy limit rows' now key gens := by
  cases gens with
  | nil =>
    change rows'.find? key = none
    rw [hfind, show rows.find? key = none from h]
    rfl
  | cons => exact Holds.of_filter h hfind

theorem Tracks.waits (h : Tracks policy limit rows now key gens) (hnow : now.ns ≤ now'.ns) :
    Tracks policy limit rows now' key gens := by
  cases gens with
  | nil => exact h
  | cons g =>
    have h : Holds policy limit rows now key g := h
    have hunix := unix_mono hnow
    refine ⟨h.ne, h.sorted, ?_, h.inside, h.row, ?_⟩
    · intro t ht
      exact ⟨(h.past t ht).1.trans hnow, (h.past t ht).2⟩
    · intro hnone
      obtain ⟨_, hlock⟩ := h.none hnone
      refine ⟨by omega, ?_⟩
      intro hfull
      have hend := hlock hfull
      omega

theorem Holds.open_of_free (h : Holds policy limit rows now key g)
    (hfree : ∀ r, rows.find? key = some r → r.blockedUntil ≤ now.unix) (hfull : limit ≤ g.length) :
    lockoutEnd policy g ≤ now.unix := by
  cases hx : rows.find? key with
  | none => exact (h.none hx).2 hfull
  | some r =>
    have hle := hfree r hx
    rw [h.row r hx, if_pos hfull] at hle
    exact hle

def LoginPolicy.span (policy : LoginPolicy) : ℤ := min policy.windowSeconds policy.lockoutSeconds

theorem holds_first (hnow : 1 ≤ now.unix)
    (hfind : rows.find? key = some ⟨key, now.unix, 1, if limit ≤ 1 then (later now policy.lockout).unix else 0⟩) :
    Holds policy limit rows now key [now] := by
  have hwindow := policy.windowSeconds_pos
  have hstart : burstStart Time.unix [now] = now.unix := rfl
  refine ⟨List.cons_ne_nil _ _, ?_, ?_, ?_, ?_, ?_⟩
  · intro t ht _ hn
    obtain rfl := List.mem_singleton.mp ht
    cases hn
    exact le_refl _
  · intro t ht
    obtain rfl := List.mem_singleton.mp ht
    exact ⟨le_refl _, hnow⟩
  · intro t ht
    obtain rfl := List.mem_singleton.mp ht
    omega
  · intro r hr
    rw [hfind] at hr
    exact (Option.some.inj hr).symm
  · intro hnone
    rw [hfind] at hnone
    cases hnone

theorem count_of_reset {r : AttemptRow}
    (h : r.startedAt = 0 ∨ r.startedAt + policy.windowSeconds ≤ now.unix ∨ r.blockedUntil ≠ 0) :
    r.count policy limit now = ⟨r.key, now.unix, 1, if limit ≤ 1 then (later now policy.lockout).unix else 0⟩ := by
  unfold LoginPolicy.windowSeconds at h
  unfold AttemptRow.count
  simp only [if_pos h]
  rfl

theorem count_of_running {r : AttemptRow} (hstart : r.startedAt ≠ 0) (hwindow : now.unix < r.startedAt + policy.windowSeconds)
    (hfree : r.blockedUntil = 0) :
    r.count policy limit now =
      ⟨r.key, r.startedAt, r.failures + 1, if limit ≤ r.failures + 1 then (later now policy.lockout).unix else 0⟩ := by
  have hno : ¬ (r.startedAt = 0 ∨ r.startedAt + policy.window / Time.second ≤ now.unix ∨ r.blockedUntil ≠ 0) := by
    unfold LoginPolicy.windowSeconds at hwindow
    rw [not_or, not_or, not_not]
    exact ⟨hstart, by omega, hfree⟩
  unfold AttemptRow.count
  simp only [if_neg hno]
  rw [hfree]

theorem Tracks.fails (h : Tracks policy limit rows now key gens) (hkey : key ≠ "ip:") (hlimit : 0 < limit)
    (hfree : ∀ r, rows.find? key = some r → r.blockedUntil ≤ now.unix) (hnow : 1 ≤ now.unix) :
    Tracks policy limit (recordFailure policy now rows key limit) now key (addFailure policy limit now gens) := by
  have hfind := @find?_recordFailure policy rows now key limit hkey hlimit hfree hnow
  cases gens with
  | nil =>
    rw [show rows.find? key = none from h, Option.getD_none, count_of_reset (.inl rfl)] at hfind
    exact holds_first hnow hfind
  | cons g =>
    have h : Holds policy limit rows now key g := h
    obtain ⟨oldest, hmem, _⟩ := h.start_mem
    have hpos := (h.past oldest hmem).2
    rw [addFailure]
    cases hx : rows.find? key with
    | none =>
      rw [if_pos (.inl (h.none hx).1)]
      rw [hx, Option.getD_none, count_of_reset (.inl rfl)] at hfind
      exact holds_first hnow hfind
    | some r =>
      have hr := h.row r hx
      rw [hx, Option.getD_some] at hfind
      split
      · rename_i hover
        have hreset : r.startedAt = 0 ∨ r.startedAt + policy.windowSeconds ≤ now.unix ∨ r.blockedUntil ≠ 0 := by
          rw [hr]
          rcases hover with hover | hfull
          · exact .inr (.inl hover)
          · refine .inr (.inr ?_)
            have hend := h.lockoutEnd_pos
            dsimp only
            rw [if_pos hfull]
            omega
        have hrk : r.key = key := (Table.find?_eq_some.mp hx).2
        rw [count_of_reset hreset, hrk] at hfind
        exact holds_first hnow hfind
      · rename_i hrunning
        rw [not_or] at hrunning
        have hcount := @count_of_running policy limit now r
          (by rw [hr]; dsimp only; omega) (by rw [hr]; dsimp only; omega) (by rw [hr]; exact if_neg hrunning.2)
        rw [hcount, hr] at hfind
        have hstart' : burstStart Time.unix (now :: g) = burstStart Time.unix g := burstStart_cons _ h.ne
        refine ⟨List.cons_ne_nil _ _, ?_, ?_, ?_, ?_, ?_⟩
        · intro t ht _ hn
          cases hn
          rcases mem_cons.mp ht with rfl | ht
          · exact le_refl _
          · exact (h.past t ht).1
        · intro t ht
          rcases mem_cons.mp ht with rfl | ht
          · exact ⟨le_refl _, hnow⟩
          · exact h.past t ht
        · intro t ht
          rw [hstart']
          rcases mem_cons.mp ht with rfl | ht
          · omega
          · exact h.inside t ht
        · intro _ hr'
          rw [hfind] at hr'
          rw [← Option.some.inj hr', hstart', length_cons, Nat.cast_add, Nat.cast_one]
          rfl
        · intro hnone
          rw [hfind] at hnone
          cases hnone

theorem spaced_addFailure (h : Tracks policy limit rows now key gens) (hlimit : 0 < limit)
    (hfree : ∀ r, rows.find? key = some r → r.blockedUntil ≤ now.unix)
    (hspaced : Spaced Time.unix limit.toNat policy.span gens) :
    Spaced Time.unix limit.toNat policy.span (addFailure policy limit now gens) := by
  have hone : [now].length ≤ limit.toNat ∧ ∀ x ∈ [now], burstStart Time.unix [now] ≤ x.unix := by
    refine ⟨by rw [List.length_singleton]; omega, ?_⟩
    intro x hx
    obtain rfl := List.mem_singleton.mp hx
    exact le_refl _
  cases gens with
  | nil =>
    refine ⟨hone, ?_, trivial⟩
    intro g' hg'
    cases hg'
  | cons g =>
    have h : Holds policy limit rows now key g := h
    rw [addFailure]
    split
    · rename_i hover
      refine ⟨hone, ?_, hspaced⟩
      intro _ hg'
      cases hg'
      change burstStart Time.unix g + min policy.windowSeconds policy.lockoutSeconds ≤ now.unix ∧ ∀ x ∈ g, x.unix < now.unix
      rcases hover with _ | hfull
      · refine ⟨by omega, ?_⟩
        intro x hx
        have hin := h.inside x hx
        omega
      · obtain ⟨newest, _, -, _, hsorted⟩ := h.newest
        have hopen := h.open_of_free hfree hfull
        have hlock : newest.unix + policy.lockoutSeconds ≤ (later newest policy.lockout).unix := lockout_le_unix newest
        have hlock' := policy.lockoutSeconds_pos
        obtain ⟨oldest, hold, hstart⟩ := h.start_mem
        have hle := hsorted oldest hold
        refine ⟨by omega, ?_⟩
        intro x hx
        have hlex := hsorted x hx
        omega
    · rename_i hrunning
      rw [not_or] at hrunning
      obtain ⟨⟨_, hge⟩, hnext, htail⟩ := hspaced
      have hstart : burstStart Time.unix (now :: g) = burstStart Time.unix g := burstStart_cons _ h.ne
      obtain ⟨oldest, hold, _⟩ := h.start_mem
      refine ⟨⟨?_, ?_⟩, ?_, htail⟩
      · rw [length_cons]
        omega
      · intro x hx
        rw [hstart]
        rcases mem_cons.mp hx with rfl | hx
        · have hle := unix_mono (h.past oldest hold).1
          omega
        · exact hge x hx
      · rw [hstart]
        exact hnext

end Throttle

section Log

variable {policy : LoginPolicy} {limit : ℤ} {key : String}

theorem flatten_addFailure (t : Time) (gens : List (List Time)) :
    (addFailure policy limit t gens).flatten = t :: gens.flatten := by
  cases gens with
  | nil => rfl
  | cons =>
    rw [addFailure]
    split <;> rfl

theorem head_addFailure (t : Time) (gens : List (List Time)) : ∀ g ∈ (addFailure policy limit t gens).head?, g.head? = some t := by
  intro g hg
  cases gens with
  | nil =>
    cases hg
    rfl
  | cons =>
    rw [addFailure] at hg
    split at hg <;> cases hg <;> rfl

theorem flatten_windows (log : List Entry) : (windows policy limit key log).flatten = failures key log := by
  induction log with
  | nil => rfl
  | cons e _ ih =>
    cases e with
    | verified => exact ih
    | failed =>
      simp only [windows, failures]
      split
      · rw [flatten_addFailure, ih]
      · exact ih
    | succeeded =>
      simp only [windows, failures]
      split
      · rfl
      · exact ih

theorem windows_of_others {recent earlier : List Entry} (h : ∀ e ∈ recent, key ∉ e.keys) :
    windows policy limit key (recent ++ earlier) = windows policy limit key earlier := by
  induction recent with
  | nil => rfl
  | cons e _ ih =>
    have hrest := ih (fun e' he' => h e' (List.mem_cons_of_mem _ he'))
    have hkey := h e List.mem_cons_self
    rw [List.cons_append]
    cases e with
    | verified => exact hrest
    | failed keys => rw [windows, if_neg (show key ∉ keys from hkey), hrest]
    | succeeded account =>
      have hne : key ≠ accountKey account := by
        rintro rfl
        exact hkey List.mem_cons_self
      rw [windows, if_neg hne, hrest]

def Held (policy : LoginPolicy) (limit : ℤ) (key : String) (now : Time) (log : List Entry) : Prop :=
  ∀ (recent : List Entry) (keys : List String) (t : Time) (earlier : List Entry), log = recent ++ .failed keys t :: earlier →
    key ∈ keys → (∀ w ∈ (windows policy limit key (.failed keys t :: earlier)).head?, limit ≤ w.length) →
    now.unix < (later t policy.lockout).unix → ∀ e ∈ recent, key ∉ e.keys

structure Throttled (policy : LoginPolicy) (limit : ℤ) (key : String) (g : Gate) : Prop where
  clock : 1 ≤ g.now.unix
  slot : ∀ a, g.slot = some a → key ∈ a.keys → ∀ r, g.rows.find? key = some r → r.blockedUntil ≤ g.now.unix
  tracks : Tracks policy limit g.rows g.now key (windows policy limit key g.log)
  spaced : Spaced Time.unix limit.toNat policy.span (windows policy limit key g.log)
  held : Held policy limit key g.now g.log

variable {g : Gate}

theorem Throttled.blocked (h : Throttled policy limit key g) {recent : List Entry} {keys : List String} {t : Time} {earlier : List Entry}
    (hlog : g.log = recent ++ .failed keys t :: earlier) (hkey : key ∈ keys)
    (hfull : ∀ w ∈ (windows policy limit key (.failed keys t :: earlier)).head?, limit ≤ w.length)
    (hnow : g.now.unix < (later t policy.lockout).unix) :
    ∃ r, g.rows.find? key = some r ∧ g.now.unix < r.blockedUntil := by
  have hothers := h.held recent keys t earlier hlog hkey hfull hnow
  have htracks := h.tracks
  rw [hlog, windows_of_others hothers] at htracks
  have hhead := @head_addFailure policy limit t (windows policy limit key earlier)
  rw [windows, if_pos hkey] at htracks hfull
  cases hgens : addFailure policy limit t (windows policy limit key earlier) with
  | nil =>
    have hflat := @flatten_addFailure policy limit t (windows policy limit key earlier)
    rw [hgens] at hflat
    cases hflat
  | cons w =>
    rw [hgens] at htracks hfull hhead
    have hw : Holds policy limit g.rows g.now key w := htracks
    have hlen := hfull w rfl
    have hend : lockoutEnd policy w = (later t policy.lockout).unix := by
      rw [lockoutEnd, hhead w rfl]
      rfl
    cases hx : g.rows.find? key with
    | none =>
      have hle := (hw.none hx).2 hlen
      omega
    | some r =>
      refine ⟨r, rfl, ?_⟩
      rw [hw.row r hx, if_pos hlen]
      change g.now.unix < lockoutEnd policy w
      omega

theorem Throttled.held_cons (h : Throttled policy limit key g) {a : Attempt} (hslot : g.slot = some a) {e : Entry}
    (he : e.keys = a.keys) : Held policy limit key g.now (e :: g.log) := by
  intro recent keys t earlier hlog hkey hfull hnow e' he'
  cases recent with
  | nil => cases he'
  | cons _ recent =>
    rw [List.cons_append] at hlog
    obtain ⟨heq, hlog'⟩ := cons_eq_cons.mp hlog
    subst heq
    rcases mem_cons.mp he' with rfl | he'
    · intro hmem
      rw [he] at hmem
      obtain ⟨r, hr, _⟩ := h.blocked hlog' hkey hfull hnow
      have hfree := h.slot a hslot hmem r hr
      omega
    · exact h.held recent keys t earlier hlog' hkey hfull hnow e' he'

end Log

section Runs

variable {policy : LoginPolicy} {limit : ℤ} {key : String} {g g' : Gate}

theorem Throttled.opened {now : Time} (h : 1 ≤ now.unix) : Throttled policy limit key (Gate.opened now) := by
  refine ⟨h, ?_, rfl, trivial, ?_⟩
  · intro a ha
    cases ha
  · intro recent _ t _ hlog
    cases recent <;> cases hlog

theorem Throttled.find?_success (h : Throttled policy limit key g) {a : Attempt} (hkey : key ≠ accountKey a.account) :
    Tracks policy limit (recordLoginAttempt policy g.rows a.account a.ip true g.now) g.now key
      (windows policy limit key (.succeeded a.account a.ip :: g.log)) := by
  rw [windows, if_neg hkey]
  apply h.tracks.of_filter
  exact find?_recordLoginAttempt_of_ne true hkey (by intro hfalse; cases hfalse)

theorem Throttled.next (hlim : LimitOf policy key limit) (hlimit : 0 < limit) (h : Throttled policy limit key g)
    (hstep : Gate.Step policy g g') : Throttled policy limit key g' := by
  cases hstep with
  | waits _ hnow =>
    have hunix := unix_mono hnow
    refine ⟨h.clock.trans hunix, ?_, h.tracks.waits hnow, h.spaced, ?_⟩
    · intro a ha hmem r hr
      exact (h.slot a ha hmem r hr).trans hunix
    · intro recent keys t earlier hlog hkey hfull hlt
      exact h.held recent keys t earlier hlog hkey hfull (hunix.trans_lt hlt)
  | admits _ _ _ _ hfree =>
    refine { h with slot := ?_ }
    intro a ha hmem r hr
    cases ha
    exact free_of_loginBlockedUntil hfree hmem hr
  | verifies a _ hslot =>
    refine ⟨h.clock, ?_, h.tracks, h.spaced, h.held_cons hslot rfl⟩
    intro a' ha' hmem
    cases ha'
    exact h.slot a hslot hmem
  | remembers a _ hslot =>
    refine { h with slot := ?_ }
    intro a' ha' hmem
    cases ha'
    exact h.slot a hslot hmem
  | fails a hslot =>
    refine ⟨h.clock, ?_, ?_, ?_, h.held_cons hslot rfl⟩
    · intro a' ha'
      cases ha'
    · by_cases hmem : key ∈ a.keys
      · have hfree := h.slot a hslot hmem
        have hrow := h.tracks.fails hlim.ne_empty hlimit hfree h.clock
        dsimp only
        rw [windows, if_pos hmem]
        exact hrow.of_filter (find?_recordLoginAttempt_failure hmem hlim)
      · have hne : key ≠ accountKey a.account ∧ key ≠ ipKey a.ip := by
          simpa [Attempt.keys] using hmem
        dsimp only
        rw [windows, if_neg hmem]
        exact h.tracks.of_filter (find?_recordLoginAttempt_of_ne false hne.1 (fun _ => hne.2))
    · by_cases hmem : key ∈ a.keys
      · dsimp only
        rw [windows, if_pos hmem]
        exact spaced_addFailure h.tracks hlimit (h.slot a hslot hmem) h.spaced
      · dsimp only
        rw [windows, if_neg hmem]
        exact h.spaced
  | succeeds a hslot =>
    by_cases hkey : key = accountKey a.account
    · have hnone := @find?_recordLoginAttempt_success policy g.rows g.now a.account a.ip
      rw [← hkey] at hnone
      refine ⟨h.clock, ?_, ?_, ?_, h.held_cons hslot rfl⟩
      · intro a' ha' hmem r hr
        dsimp only at hr
        rw [hnone] at hr
        cases hr
      · dsimp only
        rw [windows, if_pos hkey]
        exact hnone
      · dsimp only
        rw [windows, if_pos hkey]
        trivial
    · refine ⟨h.clock, ?_, h.find?_success hkey, ?_, h.held_cons hslot rfl⟩
      · intro a' ha' hmem r hr
        cases ha'
        dsimp only at hr
        rw [find?_recordLoginAttempt_of_ne true hkey (by intro hfalse; cases hfalse), Option.filter_eq_some_iff] at hr
        exact h.slot a hslot hmem r hr.1
      · dsimp only
        rw [windows, if_neg hkey]
        exact h.spaced
  | compares _ hslot => exact { h with held := h.held_cons hslot rfl }
  | finishes =>
    refine { h with slot := ?_ }
    intro a' ha'
    cases ha'
  | restarts =>
    refine { h with slot := ?_ }
    intro _ ha'
    cases ha'

theorem Throttled.of_reachable (hlim : LimitOf policy key limit) (hlimit : 0 < limit) (h : Gate.Reachable policy g) :
    Throttled policy limit key g := by
  obtain ⟨_, hnow, hrun⟩ := h
  induction hrun with
  | refl => exact .opened hnow
  | tail _ hstep ih => exact ih.next hlim hlimit hstep

/-- A key that two tables agree on from an instant on: whether it is blocked, and what its next failure leaves. -/
def Agree (policy : LoginPolicy) (limit : ℤ) (key : String) (since : Time) (rows rows' : Attempts) : Prop :=
  ∀ now : Time, since.ns ≤ now.ns →
    ((∃ r ∈ rows', r.key = key ∧ now.unix < r.blockedUntil) ↔ ∃ r ∈ rows, r.key = key ∧ now.unix < r.blockedUntil) ∧
      (1 ≤ now.unix → (∀ r ∈ rows, r.key = key → r.blockedUntil ≤ now.unix) →
        (recordFailure policy now rows' key limit).find? key = (recordFailure policy now rows key limit).find? key)

theorem agree_of_filter {rows rows' : Attempts} {since : Time} (hkey : key ≠ "ip:") (hlimit : 0 < limit)
    (hfind : rows'.find? key = (rows.find? key).filter (fun r => ¬ r.RunOut policy since)) :
    Agree policy limit key since rows rows' := by
  intro now hnow
  have hunix := unix_mono hnow
  constructor
  · constructor
    · rintro ⟨r, hr, hk, hblocked⟩
      have hx := Table.find?_eq_some.mpr ⟨hr, hk⟩
      rw [hfind, Option.filter_eq_some_iff] at hx
      exact ⟨r, (Table.find?_eq_some.mp hx.1).1, hk, hblocked⟩
    · rintro ⟨r, hr, hk, hblocked⟩
      refine ⟨r, ?_, hk, hblocked⟩
      have hx := Table.find?_eq_some.mpr ⟨hr, hk⟩
      have hkept : rows'.find? key = some r := by
        rw [hfind, hx, filter_some, if_pos]
        rw [decide_eq_true_eq]
        intro hout
        have hle := hout.2
        omega
      exact (Table.find?_eq_some.mp hkept).1
  · intro hpos hfree
    have hfree : ∀ r, rows.find? key = some r → r.blockedUntil ≤ now.unix := by
      intro r hr
      exact hfree r (Table.find?_eq_some.mp hr).1 (Table.find?_eq_some.mp hr).2
    have hfree' : ∀ r, rows'.find? key = some r → r.blockedUntil ≤ now.unix := by
      intro r hr
      rw [hfind, Option.filter_eq_some_iff] at hr
      exact hfree r hr.1
    rw [find?_recordFailure hkey hlimit hfree' hpos, find?_recordFailure hkey hlimit hfree hpos, hfind]
    cases hx : rows.find? key with
    | none => rfl
    | some r =>
      by_cases hout : r.RunOut policy since
      · have hk : r.key = key := (Table.find?_eq_some.mp hx).2
        have hover := window_over hout.1
        rw [filter_some, if_neg (by simpa using hout), Option.getD_none, Option.getD_some, count_of_reset (.inl rfl),
          count_of_reset (.inr (.inl (by omega))), hk]
      · rw [filter_some, if_pos (by simpa using hout)]

theorem log_ne_cons (log : List Entry) (e : Entry) : log ≠ e :: log := (cons_ne_self e log).symm

theorem Throttled.not_blocked (h : Throttled policy limit key g) (hstep : Gate.Step policy g g') {keys : List String}
    (hlog : g'.log = .verified keys :: g.log) (hkey : key ∈ keys) : ¬ g.Blocked key := by
  have hopen : ∀ a, g.slot = some a → a.keys = keys → ¬ g.Blocked key := by
    rintro a hslot rfl ⟨r, hr, hk, _⟩
    have hle := h.slot a hslot hkey r (Table.find?_eq_some.mpr ⟨hr, hk⟩)
    omega
  cases hstep with
  | verifies a _ hslot | compares a hslot =>
    cases hlog
    exact hopen a hslot rfl
  | waits | admits | remembers | finishes | restarts => exact absurd hlog (log_ne_cons _ _)
  | fails | succeeds => cases hlog

theorem agree_of_success (hlim : LimitOf policy key limit) (hlimit : 0 < limit) (hstep : Gate.Step policy g g')
    {account ip : String} (hlog : g'.log = .succeeded account ip :: g.log) (hkey : key ≠ accountKey account) :
    Agree policy limit key g.now g.rows g'.rows := by
  cases hstep with
  | succeeds =>
    cases hlog
    apply agree_of_filter hlim.ne_empty hlimit
    exact find?_recordLoginAttempt_of_ne true hkey (by intro hfalse; cases hfalse)
  | waits | admits | remembers | finishes | restarts => exact absurd hlog (log_ne_cons _ _)
  | fails | verifies | compares => cases hlog

theorem Throttled.failures_le (hlimit : 0 < limit) (h : Throttled policy limit key g) {a b : Time}
    (hab : b.ns ≤ a.ns + policy.span * Time.second) :
    (((failures key g.log).filter (fun t => a.ns ≤ t.ns ∧ t.ns ≤ b.ns)).length : ℤ) ≤ 2 * limit := by
  have hspan : 0 ≤ policy.span := by
    have hwindow := policy.windowSeconds_pos
    have hlock := policy.lockoutSeconds_pos
    unfold LoginPolicy.span
    omega
  have hcount := Spaced.count_le hspan (fun t : Time => a.ns ≤ t.ns ∧ t.ns ≤ b.ns) (by
    rintro x y ⟨hx, -⟩ ⟨-, hy⟩
    apply unix_le_add
    omega) _ h.spaced
  rw [flatten_windows] at hcount
  omega

/-- No password is verified for a blocked key; a key whose limit is met stays blocked until the second in which the
lockout ends; no stretch as long as the shorter of window and lockout has more than twice the limit in failures; a
success changes nothing for the other keys. -/
theorem logins_throttled (hlim : LimitOf policy key limit) (hlimit : 0 < limit) (h : Gate.Reachable policy g) :
    (∀ g' keys, Gate.Step policy g g' → g'.log = .verified keys :: g.log → key ∈ keys → ¬ g.Blocked key) ∧
      (∀ recent keys t earlier, g.log = recent ++ .failed keys t :: earlier → key ∈ keys →
        (∀ w ∈ (windows policy limit key (.failed keys t :: earlier)).head?, limit ≤ w.length) →
        g.now.unix < (later t policy.lockout).unix → g.Blocked key) ∧
      (∀ a b : Time, b.ns ≤ a.ns + policy.span * Time.second →
        (((failures key g.log).filter (fun t => a.ns ≤ t.ns ∧ t.ns ≤ b.ns)).length : ℤ) ≤ 2 * limit) ∧
      (∀ g' account ip, Gate.Step policy g g' → g'.log = .succeeded account ip :: g.log → key ≠ accountKey account →
        Agree policy limit key g.now g.rows g'.rows) := by
  have hthrottled := Throttled.of_reachable hlim hlimit h
  refine ⟨?_, ?_, ?_, ?_⟩
  · intro g' keys hstep hlog hkey
    exact hthrottled.not_blocked hstep hlog hkey
  · intro _ _ t _ hlog hkey hfull hnow
    obtain ⟨r, hr, hblocked⟩ := hthrottled.blocked hlog hkey hfull hnow
    obtain ⟨hmem, hk⟩ := Table.find?_eq_some.mp hr
    exact ⟨r, hmem, hk, hblocked⟩
  · intro a b hab
    exact hthrottled.failures_le hlimit hab
  · intro _ _ _ hstep hlog hkey
    exact agree_of_success hlim hlimit hstep hlog hkey

end Runs

namespace ThrottleExample

def policy : LoginPolicy := ⟨1, 20, 900 * Time.second, 900 * Time.second, by decide, by decide⟩

def failedAt : Time := ⟨1000500000000⟩

def failed : Gate where
  rows := recordLoginAttempt policy .empty "u" "h" false failedAt
  now := failedAt
  slot := none
  log := [.failed [accountKey "u", ipKey "h"] failedAt, .verified [accountKey "u", ipKey "h"]]

def freed : Gate := { failed with now := ⟨1900200000000⟩ }

def during (progress : Progress) (log : List Entry) : Gate := ⟨.empty, failedAt, some ⟨"u", "h", progress⟩, log⟩

theorem run_failed : Gate.Run policy (Gate.opened failedAt) failed := by
  have hadmits : Gate.Step policy (Gate.opened failedAt) (during .admitted []) :=
    Gate.Step.admits "u" "h" (by decide) rfl (by decide)
  have hverifies : Gate.Step policy (during .admitted []) (during (.judged false) [.verified [accountKey "u", ipKey "h"]]) :=
    Gate.Step.verifies ⟨"u", "h", .admitted⟩ false rfl rfl
  have hfails : Gate.Step policy (during (.judged false) [.verified [accountKey "u", ipKey "h"]]) failed :=
    Gate.Step.fails ⟨"u", "h", .judged false⟩ rfl rfl
  exact .tail (.tail (.tail .refl hadmits) hverifies) hfails

theorem run_freed : Gate.Run policy (Gate.opened failedAt) freed :=
  .tail run_failed (.waits ⟨1900200000000⟩ (by decide))

theorem reachable_failed : Gate.Reachable policy failed := ⟨failedAt, by decide, run_failed⟩

theorem logins_throttled_failed :
    (∀ g' keys, Gate.Step policy failed g' → g'.log = .verified keys :: failed.log → accountKey "u" ∈ keys →
        ¬ failed.Blocked (accountKey "u")) ∧
      (∀ recent keys t earlier, failed.log = recent ++ .failed keys t :: earlier → accountKey "u" ∈ keys →
        (∀ w ∈ (windows policy 1 (accountKey "u") (.failed keys t :: earlier)).head?, 1 ≤ (w.length : ℤ)) →
        failed.now.unix < (later t policy.lockout).unix → failed.Blocked (accountKey "u")) ∧
      (∀ a b : Time, b.ns ≤ a.ns + policy.span * Time.second →
        (((failures (accountKey "u") failed.log).filter (fun t => a.ns ≤ t.ns ∧ t.ns ≤ b.ns)).length : ℤ) ≤ 2 * 1) ∧
      (∀ g' account ip, Gate.Step policy failed g' → g'.log = .succeeded account ip :: failed.log →
        accountKey "u" ≠ accountKey account → Agree policy 1 (accountKey "u") failed.now failed.rows g'.rows) :=
  logins_throttled (.account "u") (by decide) reachable_failed

/-- A lockout that begins between two seconds ends up to a second early. -/
theorem freed_early : ¬ ∀ (policy : LoginPolicy) (limit : ℤ) (key : String) (g : Gate), LimitOf policy key limit → 0 < limit →
    Gate.Reachable policy g → ∀ recent keys t earlier, g.log = recent ++ .failed keys t :: earlier → key ∈ keys →
      (∀ w ∈ (windows policy limit key (.failed keys t :: earlier)).head?, limit ≤ w.length) →
      g.now.ns < (later t policy.lockout).ns → g.Blocked key := by
  intro h
  have hreach : Gate.Reachable policy freed := ⟨failedAt, by decide, run_freed⟩
  have hblocked := h policy 1 (accountKey "u") freed (.account "u") (by decide) hreach [] _ failedAt _ rfl (by decide) (by decide)
    (by decide)
  obtain ⟨r, hr, _, hlt⟩ := hblocked
  have hrows : ∀ r ∈ freed.rows.rows, ¬ freed.now.unix < r.blockedUntil := by decide
  exact hrows r hr hlt

end ThrottleExample

end WorkAgent.Accounts
