import Mathlib
import WorkAgent.ImGateway.Gateway

namespace WorkAgent.ImGateway.Weixin

open Library List

/-- An item of a message; its media is what the server says of it. -/
structure RawItem where
  type : ℤ
  textItem : Option String
  imageItem : Option String
  fileItem : Option String

structure RawMessage where
  fromUserID : String
  contextToken : String
  messageID : String
  items : List RawItem

namespace RawItem

variable (item : RawItem)

def text? : Option String :=
  if item.type = 1 ∨ item.type = 3 then item.textItem.filter fun text => ¬ blank text else none

def media : Option String := if item.type = 4 then item.fileItem else item.imageItem

end RawItem

namespace RawMessage

variable (raw : RawMessage)

def media : List (String × ℕ) := raw.items.zipIdx.filterMap fun x => x.1.media.map fun media => (media, x.2)

def textParts : List String := raw.items.filterMap RawItem.text?

/-- `download` is what `downloadAttachment` returns, none for an error. -/
def normalize (accountID : String) (display : String → String) (download : String × ℕ → Option String) (now : ℤ) : Option InboundMessage :=
  if raw.fromUserID = "" ∨ raw.messageID = "" then none
  else if raw.textParts = [] ∧ raw.media.filterMap download = [] then none
  else some ⟨"weixin", accountID, raw.fromUserID, raw.messageID, ⟨raw.fromUserID, display raw.fromUserID⟩,
    "\n".intercalate raw.textParts, raw.media.filterMap download, raw.contextToken, some now⟩

def WellFormed : Prop :=
  raw.fromUserID ≠ "" ∧ raw.messageID ≠ "" ∧ ¬ (raw.textParts = [] ∧ raw.media = [])

end RawMessage

/-- How `Gateway.Receive` ends. -/
inductive Outcome
  | delivered
  | refused
  | duplicate
  | failed
  deriving DecidableEq

structure Handed where
  index : ℕ
  message : InboundMessage
  outcome : Outcome

/-- The messages on the server, and the loop: `buffer` is how many of them it is past, none for the empty buffer, `batch` what is
left of the last answer. -/
structure World where
  messages : List RawMessage
  buffer : Option ℕ
  batch : List (RawMessage × ℕ)
  handed : List Handed

def World.start : World := ⟨[], none, [], []⟩

inductive Event
  | arrives (raw : RawMessage)
  | polls
  | receives (download : String × ℕ → Option String) (now : ℤ) (outcome : Outcome)
  | restarts

section Loop

variable (accountID : String) (display : String → String)

/-- An answer to `getupdates` has the messages after the buffer; one that fails changes nothing. -/
def next (w : World) : Event → Option World
  | .arrives raw => some { w with messages := w.messages ++ [raw] }
  | .polls =>
    if w.batch = [] then some { w with buffer := some w.messages.length, batch := w.messages.zipIdx.drop (w.buffer.getD 0) } else none
  | .receives download now outcome =>
    match w.batch with
    | [] => none
    | (raw, index) :: batch =>
      match raw.normalize accountID display download now with
      | none => some { w with batch }
      | some message => some { w with batch, handed := ⟨index, message, outcome⟩ :: w.handed }
  | .restarts => some { w with buffer := none, batch := [] }

def Step (w : World) (e : Event) (t : World) : Prop := next accountID display w e = some t

end Loop

def Settled (w : World) (index : ℕ) : Prop := ∃ h ∈ w.handed, h.index = index ∧ h.outcome ≠ .failed

/-- No message is passed over: the buffer is past messages that are settled or that the loop still has before it, and what was
delivered has all its attachments. -/
structure Lossless (w : World) : Prop where
  passed : ∀ index raw, w.messages[index]? = some raw → raw.WellFormed → index < w.buffer.getD 0 →
    Settled w index ∨ (raw, index) ∈ w.batch
  again : ∀ accountID display t, Step accountID display w .polls t → ∀ index raw, w.messages[index]? = some raw → raw.WellFormed →
    Settled w index ∨ (raw, index) ∈ t.batch
  complete : ∀ h ∈ w.handed, h.outcome = .delivered →
    ∃ raw, w.messages[h.index]? = some raw ∧ h.message.attachments.length = raw.media.length

def Careful (w : World) : Event → Prop
  | .receives download _ outcome => outcome ≠ .failed ∧ ∀ x ∈ w.batch.head?, ∀ media ∈ x.1.media, (download media).isSome
  | _ => True

def CarefulStep (accountID : String) (display : String → String) (w : World) (e : Event) (t : World) : Prop :=
  Step accountID display w e t ∧ Careful w e

section Laws

variable {accountID : String} {display : String → String} {w t : World} {e : Event} {raw : RawMessage} {index : ℕ}

section

variable {download : String × ℕ → Option String} {now : ℤ} (hall : ∀ media ∈ raw.media, (download media).isSome)
include hall

theorem normalize_length {message : InboundMessage} (h : raw.normalize accountID display download now = some message) :
    message.attachments.length = raw.media.length := by
  unfold RawMessage.normalize at h
  split at h
  · cases h
  split at h
  · cases h
  cases h
  exact filterMap_length_eq_length.mpr hall

theorem normalize_none (h : raw.normalize accountID display download now = none) : ¬ raw.WellFormed := by
  rintro ⟨huser, hid, hcontent⟩
  unfold RawMessage.normalize at h
  rw [if_neg (by simp [huser, hid])] at h
  split at h
  · rename_i hempty
    refine hcontent ⟨hempty.1, ?_⟩
    have hlength := filterMap_length_eq_length.mpr hall
    rw [hempty.2] at hlength
    exact length_eq_zero_iff.mp hlength.symm
  · cases h

end

structure Sound (w : World) : Prop where
  passed : ∀ index raw, w.messages[index]? = some raw → raw.WellFormed → index < w.buffer.getD 0 →
    Settled w index ∨ (raw, index) ∈ w.batch
  bound : w.buffer.getD 0 ≤ w.messages.length
  batch : ∀ x ∈ w.batch, w.messages[x.2]? = some x.1
  complete : ∀ h ∈ w.handed, h.outcome = .delivered →
    ∃ raw, w.messages[h.index]? = some raw ∧ h.message.attachments.length = raw.media.length

theorem mem_drop {messages : List RawMessage} {n : ℕ} (h : messages[index]? = some raw) (hn : n ≤ index) :
    (raw, index) ∈ messages.zipIdx.drop n := by
  refine mem_iff_getElem?.mpr ⟨index - n, ?_⟩
  rw [getElem?_drop, getElem?_zipIdx, show n + (index - n) = index by omega, h]
  simp

theorem Sound.lossless (h : Sound w) : Lossless w where
  passed := h.passed
  again accountID display t hstep index raw hraw hformed := by
    simp only [Step, next] at hstep
    split at hstep
    · rename_i hempty
      cases hstep
      by_cases hlt : index < w.buffer.getD 0
      · rcases h.passed index raw hraw hformed hlt with hsettled | hbatch
        · exact .inl hsettled
        · rw [hempty] at hbatch
          cases hbatch
      · exact .inr (mem_drop hraw (by omega))
    · cases hstep
  complete := h.complete

theorem Sound.next (h : Sound w) (hstep : Step accountID display w e t) (hcareful : Careful w e) : Sound t := by
  unfold Step at hstep
  cases e with
  | arrives raw =>
    cases hstep
    have hold {index : ℕ} {x : RawMessage} (hx : w.messages[index]? = some x) : (w.messages ++ [raw])[index]? = some x := by
      rw [getElem?_append_left (List.getElem?_eq_some_iff.mp hx).1, hx]
    refine ⟨?_, ?_, fun x hx => hold (h.batch x hx), ?_⟩
    · intro index x hx hformed hlt
      have hin : index < w.messages.length := lt_of_lt_of_le hlt h.bound
      rw [getElem?_append_left hin] at hx
      exact h.passed index x hx hformed hlt
    · rw [length_append]
      exact h.bound.trans (Nat.le_add_right _ _)
    · intro x hx hdelivered
      obtain ⟨y, hy, hlength⟩ := h.complete x hx hdelivered
      exact ⟨y, hold hy, hlength⟩
  | polls =>
    have hagain := h.lossless.again accountID display t hstep
    rw [Weixin.next] at hstep
    split at hstep
    · cases hstep
      refine ⟨?_, le_rfl, ?_, h.complete⟩
      · exact fun index raw hraw hformed _ => hagain index raw hraw hformed
      · rintro ⟨raw, index⟩ hx
        have hmem := mem_of_mem_drop hx
        exact mem_zipIdx_iff_getElem?.mp hmem
    · cases hstep
  | receives download now outcome =>
    obtain ⟨houtcome, hall⟩ := hcareful
    cases hbatch : w.batch with
    | nil =>
      rw [Weixin.next, hbatch] at hstep
      cases hstep
    | cons x batch =>
      obtain ⟨raw, index⟩ := x
      have hraw : w.messages[index]? = some raw := h.batch (raw, index) (by simp [hbatch])
      have hrest : ∀ x ∈ batch, w.messages[x.2]? = some x.1 := fun x hx => h.batch x (by simp [hbatch, hx])
      replace hall := hall (raw, index) (by simp [hbatch])
      rw [Weixin.next, hbatch] at hstep
      dsimp only at hstep
      cases hmessage : raw.normalize accountID display download now with
      | none =>
        rw [hmessage] at hstep
        cases hstep
        refine ⟨?_, h.bound, hrest, h.complete⟩
        intro i x hx hformed hlt
        refine (h.passed i x hx hformed hlt).imp_right fun hmem => ?_
        rw [hbatch] at hmem
        rcases mem_cons.mp hmem with heq | hmem
        · cases heq
          exact absurd hformed (normalize_none hall hmessage)
        · exact hmem
      | some message =>
        rw [hmessage] at hstep
        cases hstep
        refine ⟨?_, h.bound, hrest, ?_⟩
        · intro i x hx hformed hlt
          rcases h.passed i x hx hformed hlt with ⟨y, hy, hsettled⟩ | hmem
          · exact .inl ⟨y, mem_cons_of_mem _ hy, hsettled⟩
          · rw [hbatch] at hmem
            rcases mem_cons.mp hmem with heq | hmem
            · cases heq
              exact .inl ⟨_, mem_cons_self, rfl, houtcome⟩
            · exact .inr hmem
        · intro y hy hdelivered
          rcases mem_cons.mp hy with rfl | hy
          · exact ⟨raw, hraw, normalize_length hall hmessage⟩
          · exact h.complete y hy hdelivered
  | restarts =>
    cases hstep
    exact ⟨fun _ _ _ _ hlt => absurd hlt (Nat.not_lt_zero _), Nat.zero_le _, by simp, h.complete⟩

theorem Sound.start : Sound .start := ⟨by simp [World.start], by simp [World.start], by simp [World.start], by simp [World.start]⟩

theorem polls_of_careful {es : List Event} (h : Execution (CarefulStep accountID display) .start es w) : Lossless w :=
  (h.invariant Sound.start fun _ _ _ hs hstep => hs.next hstep.1 hstep.2).lossless

end Laws

namespace PollExample

def hello : RawMessage := ⟨"user", "token", "1", [⟨1, some "hello", none, none⟩]⟩

def polled : World := ⟨[hello], some 1, [(hello, 0)], []⟩

def message : InboundMessage := ⟨"weixin", "account", "user", "1", ⟨"user", "user"⟩, "hello", [], "token", some 7⟩

theorem receives (outcome : Outcome) : Step "account" id polled (.receives (fun _ => none) 7 outcome)
    ⟨[hello], some 1, [], [⟨0, message, outcome⟩]⟩ := rfl

theorem polls_delivered : ∃ w, Lossless w ∧ Settled w 0 := by
  have h : Execution (CarefulStep "account" id) .start [.arrives hello] ⟨[hello], none, [], []⟩ := .single ⟨rfl, trivial⟩
  have hpolls : CarefulStep "account" id ⟨[hello], none, [], []⟩ .polls polled := ⟨rfl, trivial⟩
  have hcareful : Careful polled (.receives (fun _ => none) 7 .delivered) := ⟨by simp, by simp [polled, RawMessage.media, hello, RawItem.media]⟩
  exact ⟨_, polls_of_careful ((h.step hpolls).step ⟨receives .delivered, hcareful⟩), _, mem_cons_self, rfl, by simp⟩

theorem poll_loses : ¬ ∀ es w, Execution (Step "account" id) .start es w → Lossless w := by
  intro hall
  have h : Execution (Step "account" id) .start [.arrives hello] ⟨[hello], none, [], []⟩ := .single rfl
  have hpolls : Step "account" id ⟨[hello], none, [], []⟩ .polls polled := rfl
  have hformed : hello.WellFormed := ⟨by decide, by decide, by decide⟩
  rcases (hall _ _ ((h.step hpolls).step (receives .failed))).passed 0 hello rfl hformed Nat.one_pos with ⟨x, hx, -, hsettled⟩ | hbatch
  · obtain rfl := mem_singleton.mp hx
    exact hsettled rfl
  · cases hbatch

end PollExample

end WorkAgent.ImGateway.Weixin
