import WorkAgent.Harness.ConversationQuota

namespace WorkAgent.Harness

open Library Quota List

def Task.runs : Task → List String
  | .loop _ _ rest => rest
  | .releasing rest => rest
  | .reserving _ runId _ => [runId]
  | _ => []

def Task.Reserves (t : Task) : Prop := ∃ b runId n, t = .reserving b runId n

namespace Conversations

def Names (c : Conversations) (x : String) : Prop :=
  x ∈ c.entries.map ConversationEntry.runId ∧ x ∈ c.file.map ConversationEntry.runId

structure Traced (own : String → Prop) (c : Conversations) : Prop where
  drawn : ∀ x ∈ c.drawn, own x
  entries : ∀ x ∈ c.entries.map ConversationEntry.runId, x ∈ c.drawn
  file : ∀ x ∈ c.file.map ConversationEntry.runId, x ∈ c.drawn
  tasks : ∀ t ∈ c.tasks, ∀ x ∈ t.runs, x ∈ c.drawn
  settling : ∀ r ∈ c.settling, own r.runId → r.runId ∈ c.drawn

inductive Asks (sid : String) (own : String → Prop) (answers : List (Call × Outcome))
    (c c' : Conversations) : Call → Prop
  | settle (name : ℕ) (env : ℕ → Env) (runId : String) (units : ℕ) (h : own runId → runId ∈ c.drawn) :
      Asks sid own answers c c' (postSettle sid name env ⟨runId, units, ""⟩)
  | draw (name : ℕ) (env : ℕ → Env) (b : BeginRequest) (x : String) (hx : x ∉ c.drawn) (hd : x ∈ c'.drawn)
      (hn : c'.Names x) : Asks sid own answers c c' (postReserve sid name env (b.reserveRequest x))
  | again (name : ℕ) (env : ℕ → Env) (b : BeginRequest) (x : String) (n : ℕ) (e : QuotaError)
      (ht : .reserving b x n ∈ c.tasks) (he : retriesReserve e) (h : Received answers n (.error e)) :
      Asks sid own answers c c' (postReserve sid name env (b.reserveRequest x))

def Concludes (answers : List (Call × Outcome)) (c : Conversations) (x : String) : Prop :=
  ∃ r ∈ c.settling, r.runId = x ∧ ∃ out, Received answers r.name out ∧
    (out = .ok .done ∨ out = .error .reservationNotFound)

structure Change (sid : String) (own : String → Prop) (answers : List (Call × Outcome))
    (c : Conversations) (requests : List Call) (c' : Conversations) : Prop where
  traced : c'.Traced own
  drawn : c.drawn ⊆ c'.drawn
  asks : ∀ i ∈ requests, Asks sid own answers c c' i
  tasks : ∀ b x n, .reserving b x n ∈ c'.tasks → .reserving b x n ∈ c.tasks ∨
    ∃ env, postReserve sid n env (b.reserveRequest x) ∈ requests
  settling : ∀ r ∈ c'.settling, r ∈ c.settling ∨
    ∃ env, postSettle sid r.name env ⟨r.runId, r.actualUnits, ""⟩ ∈ requests
  names : ∀ x, c.Names x → c'.Names x ∨ Concludes answers c x

section Tasks

variable {c : Conversations} {before after : List Task} {t u : Task}

section

variable (ht : c.tasks = before ++ t :: after)
include ht

theorem mem_removed (hu : u ∈ before ++ after) : u ∈ c.tasks := by
  rw [ht]
  simp only [mem_append, mem_cons] at hu ⊢
  tauto

theorem mem_replaced {t' : Task} (hu : u ∈ before ++ t' :: after) :
    u = t' ∨ u ∈ c.tasks := by
  rw [ht]
  simp only [mem_append, mem_cons] at hu ⊢
  tauto

theorem mem_replacing : t ∈ c.tasks := by simp [ht]

end

def Follows (c : Conversations) (u : Task) : Prop :=
  u ∈ c.tasks ∨ (¬ u.Reserves ∧ ∀ x ∈ u.runs, x ∈ c.drawn)

theorem follows_removed (ht : c.tasks = before ++ t :: after) : ∀ u ∈ before ++ after, c.Follows u :=
  fun _ hu => .inl (mem_removed ht hu)

theorem follows_replaced (ht : c.tasks = before ++ t :: after) {t' : Task} (hn : ¬ t'.Reserves)
    (hr : ∀ x ∈ t'.runs, x ∈ c.drawn) : ∀ u ∈ before ++ t' :: after, c.Follows u := by
  intro u hu
  rcases mem_replaced ht hu with rfl | hu
  · exact .inr ⟨hn, hr⟩
  · exact .inl hu

theorem follows_added {t' : Task} (hn : ¬ t'.Reserves) (hr : ∀ x ∈ t'.runs, x ∈ c.drawn) :
    ∀ u ∈ c.tasks ++ [t'], c.Follows u := by
  intro u hu
  rcases mem_append.mp hu with hu | hu
  · exact .inl hu
  · rw [mem_singleton.mp hu]
    exact .inr ⟨hn, hr⟩

end Tasks

section Changes

variable {sid : String} {own : String → Prop} {answers : List (Call × Outcome)}
  {c c' : Conversations} {requests : List Call}

theorem Traced.tasks_of_follows (hc : c.Traced own) (hd : c.drawn ⊆ c'.drawn)
    (ht : ∀ u ∈ c'.tasks, c.Follows u) : ∀ u ∈ c'.tasks, ∀ x ∈ u.runs, x ∈ c'.drawn := by
  intro u hu x hx
  rcases ht u hu with hu | ⟨-, hr⟩
  · exact hd (hc.tasks u hu x hx)
  · exact hd (hr x hx)

theorem reserving_of_follows (ht : ∀ u ∈ c'.tasks, c.Follows u) {b : BeginRequest} {x : String} {n : ℕ}
    (h : .reserving b x n ∈ c'.tasks) : .reserving b x n ∈ c.tasks := by
  rcases ht _ h with hu | ⟨hn, -⟩
  · exact hu
  · exact absurd ⟨b, x, n, rfl⟩ hn

theorem Change.idle (hc : c.Traced own) (he : c'.entries = c.entries) (hf : c'.file = c.file)
    (hd : c'.drawn = c.drawn) (hs : c'.settling ⊆ c.settling) (ht : ∀ u ∈ c'.tasks, c.Follows u) :
    Change sid own answers c [] c' where
  traced := by
    refine ⟨?_, ?_, ?_, hc.tasks_of_follows (hd ▸ List.Subset.refl _) ht, ?_⟩
    · rw [hd]
      exact hc.drawn
    · rw [he, hd]
      exact hc.entries
    · rw [hf, hd]
      exact hc.file
    · rw [hd]
      exact fun r hr => hc.settling r (hs hr)
  drawn := by rw [hd]; exact List.Subset.refl _
  asks := by simp
  tasks _ _ _ h := .inl (reserving_of_follows ht h)
  settling r hr := .inl (hs hr)
  names x hx := by
    unfold Names at hx ⊢
    rw [he, hf]
    exact .inl hx

theorem names_finish (runId : String) :
    (c.finish runId).entries.map ConversationEntry.runId = c.entries.map ConversationEntry.runId := by
  unfold finish
  simp only [map_map]
  apply map_congr_left
  intro e _
  simp only [Function.comp_apply]
  split <;> rfl

theorem release_cases {name : ℕ} {env : ℕ → Env} {runId : String} {written : Bool} {promise : ℕ}
    (h : c.release sid name env runId written = (promise, requests, c')) :
    c'.tasks = c.tasks ∧ c'.drawn = c.drawn ∧
      c'.entries.map ConversationEntry.runId = c.entries.map ConversationEntry.runId ∧
      (c'.file = c.file ∨ c'.file = c'.entries) ∧
      ((requests = [] ∧ c'.settling ⊆ c.settling) ∨
        ∃ n units, requests = [postSettle sid name env ⟨runId, units, ""⟩] ∧
          c'.settling = c.settling ++ [⟨n, runId, name, units⟩]) := by
  unfold release at h
  split at h
  · cases h
    exact ⟨rfl, rfl, rfl, .inl rfl, .inl ⟨rfl, List.Subset.refl _⟩⟩
  · split at h
    · cases h
      exact ⟨rfl, rfl, rfl, .inl rfl, .inr ⟨_, _, rfl, rfl⟩⟩
    · cases h
      exact ⟨rfl, rfl, names_finish runId, .inl rfl, .inl ⟨rfl, fun _ h => (mem_filter.mp h).1⟩⟩
    · cases h
      exact ⟨rfl, rfl, names_finish runId, .inr rfl, .inr ⟨_, _, rfl, rfl⟩⟩

section

variable (hc : c.Traced own)
include hc

variable {name : ℕ} {env : ℕ → Env}

theorem Change.release {runId : String} {written : Bool} {promise : ℕ} (hx : own runId → runId ∈ c.drawn)
    (hr : c.release sid name env runId written = (promise, requests, c')) (tasks : List Task)
    (ht : ∀ u ∈ tasks, c.Follows u) : Change sid own answers c requests { c' with tasks := tasks } := by
  obtain ⟨-, hd, he, hf, hs⟩ := release_cases hr
  have hdrawn : c.drawn ⊆ c'.drawn := by rw [hd]; exact List.Subset.refl _
  constructor
  · refine ⟨?_, ?_, ?_, hc.tasks_of_follows hdrawn ht, ?_⟩
    · exact hd ▸ hc.drawn
    · intro x hx
      rw [show ({ c' with tasks := tasks } : Conversations).entries = c'.entries from rfl, he] at hx
      exact hdrawn (hc.entries x hx)
    · intro x hx
      rcases hf with hf | hf
      · rw [show ({ c' with tasks := tasks } : Conversations).file = c'.file from rfl, hf] at hx
        exact hdrawn (hc.file x hx)
      · rw [show ({ c' with tasks := tasks } : Conversations).file = c'.file from rfl, hf, he] at hx
        exact hdrawn (hc.entries x hx)
    · intro r hmem hown
      rcases hs with ⟨-, hs⟩ | ⟨n, units, -, hs⟩
      · exact hdrawn (hc.settling r (hs hmem) hown)
      · rw [show ({ c' with tasks := tasks } : Conversations).settling = c'.settling from rfl, hs] at hmem
        rcases mem_append.mp hmem with hmem | hmem
        · exact hdrawn (hc.settling r hmem hown)
        · rw [mem_singleton.mp hmem] at hown ⊢
          exact hdrawn (hx hown)
  · exact hdrawn
  · intro i hi
    rcases hs with ⟨rfl, -⟩ | ⟨n, units, rfl, -⟩
    · exact absurd hi not_mem_nil
    · rw [mem_singleton.mp hi]
      exact .settle name env runId units hx
  · exact fun _ _ _ h => .inl (reserving_of_follows ht h)
  · intro r hmem
    rcases hs with ⟨-, hs⟩ | ⟨n, _, hreq, hs⟩
    · exact .inl (hs hmem)
    · rw [show ({ c' with tasks := tasks } : Conversations).settling = c'.settling from rfl, hs] at hmem
      rcases mem_append.mp hmem with hmem | hmem
      · exact .inl hmem
      · rw [mem_singleton.mp hmem, hreq]
        exact .inr ⟨env, mem_singleton.mpr rfl⟩
  · rintro x ⟨hx, hfile⟩
    left
    unfold Names
    rw [show ({ c' with tasks := tasks } : Conversations).entries = c'.entries from rfl, he]
    refine ⟨hx, ?_⟩
    rcases hf with hf | hf
    · exact hf ▸ hfile
    · rw [show ({ c' with tasks := tasks } : Conversations).file = c'.file from rfl, hf, he]
      exact hx

theorem Change.started (sessionId turnId : String) (written : Bool) :
    Change sid own answers c [] (c.started sessionId turnId written) := by
  have hnames : (c.entries.map (fun e => if e.sessionId = sessionId ∧ e.turnId = none ∧ e.finished = false
      then { e with turnId := some turnId } else e)).map ConversationEntry.runId =
      c.entries.map ConversationEntry.runId := by
    simp only [map_map]
    apply map_congr_left
    intro e _
    simp only [Function.comp_apply]
    split <;> rfl
  have hidle : Change sid own answers c [] c :=
    .idle hc rfl rfl rfl (List.Subset.refl _) (fun u hu => .inl hu)
  unfold Conversations.started
  simp only
  split
  · cases written with
    | false =>
      refine ⟨{ hc with entries := ?_ }, List.Subset.refl _, by simp,
        fun _ _ _ h => .inl h, fun _ h => .inl h, ?_⟩
      · intro x hx
        exact hc.entries x (hnames ▸ hx)
      · rintro x ⟨hx, hf⟩
        exact .inl ⟨hnames.symm ▸ hx, hf⟩
    | true =>
      refine ⟨⟨hc.drawn, ?_, ?_, hc.tasks, hc.settling⟩, List.Subset.refl _, by simp,
        fun _ _ _ h => .inl h, fun _ h => .inl h, ?_⟩
      · intro x hx
        exact hc.entries x (hnames ▸ hx)
      · intro x hx
        exact hc.entries x (hnames ▸ hx)
      · rintro x ⟨hx, _⟩
        exact .inl ⟨hnames.symm ▸ hx, hnames.symm ▸ hx⟩
  · exact hidle

theorem Change.draw (b : BeginRequest) (x : String) (hown : own x) (hx : x ∉ c.drawn) {before after : List Task} {t : Task} (ht : c.tasks = before ++ t :: after) :
    Change sid own answers c [postReserve sid name env (b.reserveRequest x)]
      { c with
        entries := c.entries ++ [b.entry x]
        file := c.entries ++ [b.entry x]
        drawn := x :: c.drawn
        tasks := before ++ .reserving b x name :: after } := by
  have hnames : ∀ y ∈ (c.entries ++ [b.entry x]).map ConversationEntry.runId, y ∈ x :: c.drawn := by
    intro y hy
    rw [map_append] at hy
    rcases mem_append.mp hy with hy | hy
    · exact mem_cons_of_mem _ (hc.entries y hy)
    · rw [mem_singleton.mp hy]
      exact mem_cons_self
  have hnew : x ∈ (c.entries ++ [b.entry x]).map ConversationEntry.runId := by
    rw [map_append]
    exact mem_append_right _ (mem_singleton.mpr rfl)
  constructor
  · refine ⟨?_, hnames, hnames, ?_, fun r hr hown => mem_cons_of_mem _ (hc.settling r hr hown)⟩
    · intro y hy
      rcases mem_cons.mp hy with rfl | hy
      · exact hown
      · exact hc.drawn y hy
    · intro u hu y hy
      rcases mem_replaced ht hu with rfl | hu
      · rw [mem_singleton.mp hy]
        exact mem_cons_self
      · exact mem_cons_of_mem _ (hc.tasks u hu y hy)
  · exact subset_cons_self _ _
  · intro i hi
    rw [mem_singleton.mp hi]
    exact .draw name env b x hx mem_cons_self ⟨hnew, hnew⟩
  · intro _ y n h
    rcases mem_replaced ht h with heq | h
    · cases heq
      exact .inr ⟨env, mem_singleton.mpr rfl⟩
    · exact .inl h
  · exact fun _ h => .inl h
  · rintro y ⟨hy, -⟩
    have hmem : y ∈ (c.entries ++ [b.entry x]).map ConversationEntry.runId := by
      rw [map_append]
      exact mem_append_left _ hy
    exact .inl ⟨hmem, hmem⟩

theorem Change.drawUnwritten (b : BeginRequest) (x : String) (hown : own x)
    {before after : List Task} {t : Task} (ht : c.tasks = before ++ t :: after) :
    Change sid own answers c []
      { c with entries := c.entries ++ [b.entry x], drawn := x :: c.drawn, tasks := before ++ after } := by
  have hdrawn : c.drawn ⊆ x :: c.drawn := subset_cons_self _ _
  constructor
  · refine ⟨?_, ?_, fun y hy => hdrawn (hc.file y hy), ?_, fun r hr hown => hdrawn (hc.settling r hr hown)⟩
    · intro y hy
      rcases mem_cons.mp hy with rfl | hy
      · exact hown
      · exact hc.drawn y hy
    · intro y hy
      change y ∈ (c.entries ++ [b.entry x]).map ConversationEntry.runId at hy
      rw [map_append] at hy
      rcases mem_append.mp hy with hy | hy
      · exact hdrawn (hc.entries y hy)
      · rw [mem_singleton.mp hy]
        exact mem_cons_self
    · exact fun u hu y hy => hdrawn (hc.tasks u (mem_removed ht hu) y hy)
  · exact hdrawn
  · simp
  · exact fun _ _ _ h => .inl (mem_removed ht h)
  · exact fun _ h => .inl h
  · rintro y ⟨hy, hf⟩
    refine .inl ⟨?_, hf⟩
    change y ∈ (c.entries ++ [b.entry x]).map ConversationEntry.runId
    rw [map_append]
    exact mem_append_left _ hy

theorem Change.again {b : BeginRequest} {x : String} {n : ℕ}
    {e : QuotaError} {before after : List Task} (ht : c.tasks = before ++ .reserving b x n :: after)
    (he : retriesReserve e) (h : Received answers n (.error e)) :
    Change sid own answers c [postReserve sid name env (b.reserveRequest x)]
      { c with tasks := before ++ .reserving b x name :: after } := by
  constructor
  · refine { hc with tasks := ?_ }
    intro u hu y hy
    rcases mem_replaced ht hu with rfl | hu
    · exact hc.tasks _ (mem_replacing ht) y hy
    · exact hc.tasks u hu y hy
  · exact List.Subset.refl _
  · intro i hi
    rw [mem_singleton.mp hi]
    exact .again name env b x n e (mem_replacing ht) he h
  · intro _ y m hm
    rcases mem_replaced ht hm with heq | hm
    · cases heq
      exact .inr ⟨env, mem_singleton.mpr rfl⟩
    · exact .inl hm
  · exact fun _ h => .inl h
  · exact fun _ h => .inl h

theorem Change.settled {r : Release} (hr : r ∈ c.settling) (written : Bool)
    {out : Outcome} (h : Received answers r.name out)
    (hout : out = .ok .done ∨ out = .error .reservationNotFound) :
    Change sid own answers c [] (((c.splice r.runId).save written).conclude r.promise written) := by
  have hsub : ((c.splice r.runId).entries.map ConversationEntry.runId) ⊆
      c.entries.map ConversationEntry.runId := map_subset _ eraseP_subset
  have hkept {x : String} (hne : x ≠ r.runId) (hx : x ∈ c.entries.map ConversationEntry.runId) :
      x ∈ (c.splice r.runId).entries.map ConversationEntry.runId := by
    obtain ⟨e, he, rfl⟩ := mem_map.mp hx
    apply mem_map_of_mem
    exact (mem_eraseP_of_neg (by simpa using hne)).mpr he
  have hnames (x : String) (hx : c.Names x) : c.Names x ∧ x ≠ r.runId ∨ Concludes answers c x := by
    by_cases hne : x = r.runId
    · exact .inr ⟨r, hr, hne.symm, out, h, hout⟩
    · exact .inl ⟨hx, hne⟩
  cases written with
  | false =>
    refine ⟨⟨hc.drawn, fun x hx => hc.entries x (hsub hx), hc.file, hc.tasks, ?_⟩, List.Subset.refl _,
      by simp, fun _ _ _ h => .inl h, fun _ h => .inl (mem_filter.mp h).1, ?_⟩
    · exact fun q hq => hc.settling q (mem_filter.mp hq).1
    · intro x hx
      exact (hnames x hx).imp_left (fun hx => ⟨hkept hx.2 hx.1.1, hx.1.2⟩)
  | true =>
    refine ⟨⟨hc.drawn, fun x hx => hc.entries x (hsub hx), fun x hx => hc.entries x (hsub hx), hc.tasks, ?_⟩,
      List.Subset.refl _, by simp, fun _ _ _ h => .inl h, fun _ h => .inl (mem_filter.mp h).1, ?_⟩
    · exact fun q hq => hc.settling q (mem_filter.mp hq).1
    · intro x hx
      exact (hnames x hx).imp_left (fun hx => ⟨hkept hx.2 hx.1.1, hkept hx.2 hx.1.1⟩)

theorem Change.settleAgain {r : Release}
    {before after : List Release} (hr : c.settling = before ++ r :: after) :
    Change sid own answers c [postSettle sid name env ⟨r.runId, r.actualUnits, ""⟩]
      { c with settling := before ++ { r with name := name } :: after } := by
  have hmem : r ∈ c.settling := by simp [hr]
  have hsettling {q : Release} (hq : q ∈ before ++ { r with name := name } :: after) :
      q = { r with name := name } ∨ q ∈ c.settling := by
    rw [hr]
    simp only [mem_append, mem_cons] at hq ⊢
    tauto
  constructor
  · refine { hc with settling := ?_ }
    intro q hq hown
    rcases hsettling hq with rfl | hq
    · exact hc.settling r hmem hown
    · exact hc.settling q hq hown
  · exact List.Subset.refl _
  · intro i hi
    rw [mem_singleton.mp hi]
    exact .settle name env r.runId r.actualUnits (hc.settling r hmem)
  · exact fun _ _ _ h => .inl h
  · intro q hq
    rcases hsettling hq with rfl | hq
    · exact .inr ⟨env, mem_singleton.mpr rfl⟩
    · exact .inl hq
  · exact fun _ h => .inl h

theorem Change.restart : Change sid own answers c [] c.restart := by
  constructor
  · refine ⟨hc.drawn, hc.file, hc.file, ?_, fun r hr => absurd hr not_mem_nil⟩
    intro u hu x hx
    rw [mem_singleton.mp hu] at hx
    exact hc.file x hx
  · exact List.Subset.refl _
  · simp
  · intro b x n h
    cases mem_singleton.mp h
  · exact fun r hr => absurd hr not_mem_nil
  · exact fun x hx => .inl ⟨hx.2, hx.2⟩

theorem Change.of_moves (h : ConversationMoves sid own answers c requests c') :
    Change sid own answers c requests c' := by
  have hrest {before after : List Task} {l : ReleaseLoop} {p : Option ℕ} {x : String} {rest : List String}
      (ht : c.tasks = before ++ .loop l p (x :: rest) :: after) : x ∈ c.drawn ∧ ∀ y ∈ rest, y ∈ c.drawn := by
    have htask := hc.tasks _ (mem_replacing ht)
    exact ⟨htask x mem_cons_self, fun y hy => htask y (mem_cons_of_mem _ hy)⟩
  have hnot {t : Task} (h : ∀ b x n, t ≠ .reserving b x n) : ¬ t.Reserves := by
    rintro ⟨b, x, n, rfl⟩
    exact h b x n rfl
  have hnil : ∀ x ∈ ([] : List String), x ∈ c.drawn := fun x hx => absurd hx not_mem_nil
  have hsame := List.Subset.refl c.settling
  cases h with
  | «begin» b | releaseSession =>
    exact .idle hc rfl rfl rfl hsame (follows_added (hnot (fun _ _ _ => nofun)) hnil)
  | ended =>
    exact .idle hc rfl rfl rfl hsame (follows_added (hnot (fun _ _ _ => nofun)) hc.entries)
  | release _ _ _ _ h _ _ _ hr =>
    have htasks := (release_cases hr).1
    exact Change.release hc h hr c'.tasks (by
      rw [htasks]
      exact fun u hu => .inl hu)
  | started sessionId turnId written => exact .started hc sessionId turnId written
  | ends _ _ _ ht | recovered _ _ ht | recoveryFails _ _ _ _ ht | reserved _ _ _ _ _ _ _ ht => exact .idle hc rfl rfl rfl hsame (follows_removed ht)
  | ready _ _ _ ht =>
    exact .idle hc rfl rfl rfl hsame (follows_replaced ht (hnot (fun _ _ _ => nofun)) hnil)
  | settledOthers _ _ _ _ ht =>
    exact .idle hc rfl rfl rfl hsame (follows_replaced ht (hnot (fun _ _ _ => nofun)) hc.entries)
  | skip _ _ _ _ _ ht =>
    exact .idle hc rfl rfl rfl hsame (follows_replaced ht (hnot (fun _ _ _ => nofun)) (hrest ht).2)
  | loop _ _ _ _ _ ht _ _ _ _ _ _ _ hr =>
    exact .release hc (fun _ => (hrest ht).1) hr _ (follows_replaced ht (hnot (fun _ _ _ => nofun)) (hrest ht).2)
  | resolved _ _ _ _ _ ht =>
    have htask := hc.tasks _ (mem_replacing ht)
    exact .idle hc rfl rfl rfl hsame (follows_replaced ht (hnot (fun _ _ _ => nofun)) htask)
  | reserve _ _ b runId _ _ ht _ ho hd => exact .draw hc b runId ho hd ht
  | reserveUnwritten _ _ b runId ht _ ho => exact .drawUnwritten hc b runId ho ht
  | reserveAgain _ _ _ _ _ _ _ _ ht he h => exact .again hc ht he h
  | reserveFails _ _ _ runId _ ht _ _ _ _ _ _ hr =>
    have htask := hc.tasks _ (mem_replacing ht) runId mem_cons_self
    exact .release hc (fun _ => htask) hr _ (follows_removed ht)
  | reservationsBack _ _ _ _ ht =>
    refine .idle hc rfl rfl rfl hsame (follows_replaced ht (hnot (fun _ _ _ => nofun)) ?_)
    intro x hx
    obtain ⟨e, he, rfl⟩ := mem_map.mp hx
    exact hc.entries _ (mem_map_of_mem (mem_filter.mp he).1)
  | releasing _ _ runId _ ht _ _ _ _ _ _ hr =>
    have htask := hc.tasks _ (mem_replacing ht)
    refine .release hc (fun _ => htask runId mem_cons_self) hr _
      (follows_replaced ht (hnot (fun _ _ _ => nofun)) ?_)
    exact fun y hy => htask y (mem_cons_of_mem _ hy)
  | settled _ hr written _ h hout => exact .settled hc hr written h hout
  | settleAgain _ _ _ _ _ hr => exact .settleAgain hc hr
  | settleFails =>
    exact .idle hc rfl rfl rfl (fun _ h => (mem_filter.mp h).1) (fun u hu => .inl hu)
  | restart => exact .restart hc

end

end Changes

end Conversations

end WorkAgent.Harness
