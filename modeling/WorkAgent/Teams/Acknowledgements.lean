import WorkAgent.Teams.Recoveries

namespace WorkAgent.Teams

open Library

set_option synthInstance.maxSize 4000

variable {host : Host} {s t : TeamStore} {α : Type}

section Aloof

def Unacknowledged (s t : TeamStore) : Prop := t.quotaReconciledTaskIds = s.quotaReconciledTaskIds

class Aloof (x : StoreAct α) : Prop where
  aloof : Act.Within Unacknowledged x

variable {x : StoreAct α}

theorem Aloof.eq [hx : Aloof x] {r : Except String α} (h : x s = (r, t)) : t.quotaReconciledTaskIds = s.quotaReconciledTaskIds := by
  have hs := hx.aloof s
  rwa [h] at hs

instance [hx : Act.Follows Ordinary x] : Aloof x := ⟨fun s => (hx.within s).reconciled⟩

instance (name workspaceId : String) (lead : MemberInput) : Act.Follows Ordinary (create host name workspaceId lead) := by
  unfold create
  infer_instance

instance (teamId memberId : ℕ) (input : MemberMutation) : Act.Follows Ordinary (updateMember host teamId memberId input) := by
  unfold updateMember
  infer_instance

instance (teamId memberId : ℕ) : Act.Follows Ordinary (removeMember teamId memberId) := by
  unfold removeMember
  infer_instance

instance (teamId : ℕ) : Act.Follows Ordinary (delete host teamId) := by
  unfold delete
  infer_instance

instance (run : TeamRun) : Act.Follows Ordinary (pauseBlockedRun run) := by
  unfold pauseBlockedRun
  infer_instance

instance (id : ℕ) : Act.Follows Ordinary (pauseRun id) := by
  unfold pauseRun
  infer_instance

instance (id : ℕ) (turnId : String) (now : ℤ) : Act.Follows Ordinary (submittedDispatch id turnId now) := by
  unfold submittedDispatch
  infer_instance

instance (id : ℕ) (now : ℤ) : Act.Follows Ordinary (deferDispatch id now) := by
  unfold deferDispatch
  infer_instance

theorem Call.aloof {c : Call} (h : ∀ id, c ≠ .acknowledgeInterruptedExecution id) : Aloof (c.act host) := by
  cases c <;> first
    | exact absurd rfl (h _)
    | (unfold Call.act; infer_instance)

end Aloof

end WorkAgent.Teams
