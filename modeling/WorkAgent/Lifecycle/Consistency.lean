import WorkAgent.Lifecycle.Operations
import WorkAgent.Library.Executions

namespace WorkAgent.Lifecycle

open Library Option Script

variable {s t : Employee} {user : Account} {Q : List (Call × Bool) → Answer → Employee → Prop}

namespace Employee

def isActive (s : Employee) : Bool := s.account.any fun a => !a.disabled && !a.offboarded

def Consistent (s : Employee) : Prop := s.keys = s.isActive ∧ s.running = s.isActive

def Sound (s : Employee) : Prop := ∀ a, s.account = some a → a.offboarded = true → a.disabled = true

end Employee

def Request.Meets (s : Employee) (log : List (Call × Bool)) : Request → Prop
  | .setEnabled true => s.isOpen = true → s.keys = true ∧ s.running = true
  | .setEnabled false => s.isOffboarded = true → s.keys = false ∧ s.running = false
  | .resetPortalPassword _ _ => s.running = s.isOpen
  | .restart => True
  | .setLimits _ => s.isClosed = true → s.running = false
  | .offboardRetain => s.isClosed = true → s.running = false ∧ (s.isOffboarded = true → s.keys = false)
  | .repair _ => True
  | .renameWindowsAccount _ _ _ => s.isClosed = true → (.stopInstalledRuntime, false) ∉ log
  | .deleteRetainedEmployee _ _ => s.isClosed = true → s.running = false

def Request.Right (request : Request) (s : Employee) (log : List (Call × Bool)) (answer : Answer) (t : Employee) : Prop :=
  answer.error = none → (t.Consistent ↔ request.Meets s log)

theorem sound_effect (c : Call) (s t : Employee) (hs : s.Sound) (h : effect c s = some t) : t.Sound := by
  intro a _ _
  cases hacc : s.account with
  | none =>
    cases c <;> simp [effect, Employee.start, hacc] at h <;> grind
  | some b =>
    have hb := hs b hacc
    cases c <;> simp [effect, Employee.start, Employee.setAccount, hacc] at h <;> grind

section Rules

variable {p next : Operation}

abbrev Failing (p : Operation) : Prop := p.Failing effect fun answer => answer.error ≠ none

abbrev Lenient (Q : List (Call × Bool) → Answer → Employee → Prop) : Prop := Script.Lenient (fun answer => answer.error ≠ none) Q

theorem failing_fail (error : Error) : Failing (fail error) := failing_done (by simp)

theorem failing_failWith (user : Account) (error : Error) : Failing (failWith user error) := failing_done (by simp)

theorem ensures_withUser {next : Account → Operation} (hQ : Lenient Q) (h : ∀ user, s.account = some user →
    (next user).Ensures effect (fun log => Q ((.userByUsername, true) :: log)) s) : (withUser next).Ensures effect Q s := by
  apply (failing_fail _).attempt hQ
  intro _ heffect
  simp only [effect, ite_none_right_eq_some, Option.some.injEq] at heffect
  obtain ⟨-, rfl⟩ := heffect
  rw [ensures_look]
  cases huser : s.account with
  | none => exact failing_fail _ _ _ (hQ.cons _)
  | some user => exact h user huser

variable {first second third : Operation}

section

variable (huser : s.account = some user) (hfirst : Failing first) (hsecond : Failing second) (hthird : Failing third) (hQ : Lenient Q)
include huser hfirst hsecond hthird hQ

theorem ensures_closing
    (h : next.Ensures effect (fun log => Q ((.setUserEnabled false, true) :: (.setKeysEnabled false, true) :: (.stopInstalledRuntime, true) :: log)) { s with account := some (closed user), keys := false, running := false }) :
    (Script.attempt (.setUserEnabled false) first <| .attempt (.setKeysEnabled false) second <|
      .attempt .stopInstalledRuntime third next).Ensures effect Q s := by
  apply hfirst.attempt hQ
  intro _ h₁
  apply hsecond.attempt (hQ.cons _)
  intro _ h₂
  apply hthird.attempt ((hQ.cons _).cons _)
  intro _ h₃
  simp only [effect, huser, any_some, Bool.false_and, Bool.not_false, if_true, Employee.setAccount, map_some,
    Option.some.injEq, ite_none_right_eq_some] at h₁ h₂ h₃
  subst h₁
  subst h₂
  obtain ⟨-, rfl⟩ := h₃
  exact h

theorem ensures_opening
    (h : user.offboarded = false → next.Ensures effect (fun log => Q ((.setKeysEnabled true, true) :: (.startInstalledRuntime, true) :: (.setUserEnabled true, true) :: log)) { s with account := some (opened user), keys := true, running := true }) :
    (Script.attempt (.setKeysEnabled true) first <| .attempt .startInstalledRuntime second <|
      .attempt (.setUserEnabled true) third next).Ensures effect Q s := by
  apply hfirst.attempt hQ
  intro _ h₁
  apply hsecond.attempt (hQ.cons _)
  intro _ h₂
  apply hthird.attempt ((hQ.cons _).cons _)
  intro _ h₃
  simp only [effect, Option.some.injEq] at h₁
  subst h₁
  simp only [effect, Employee.start, ite_none_right_eq_some, Option.some.injEq] at h₂
  obtain ⟨-, -, rfl⟩ := h₂
  simp only [effect, huser, any_some, Bool.true_and, Employee.setAccount, map_some, ite_none_right_eq_some,
    Option.some.injEq, Bool.not_eq_true'] at h₃
  obtain ⟨hoffboarded, rfl⟩ := h₃
  exact h hoffboarded

end

end Rules

theorem lenient_right (request : Request) (s : Employee) : Lenient (request.Right s) := fun _ _ _ herror hnone => absurd hnone herror

theorem consistent_of_closed (huser : t.account = some user) (hdisabled : user.disabled = true) :
    t.Consistent ↔ t.keys = false ∧ t.running = false := by
  simp [Employee.Consistent, Employee.isActive, huser, hdisabled]

theorem consistent_of_open (huser : t.account = some user) (hdisabled : user.disabled = false) (hoffboarded : user.offboarded = false) :
    t.Consistent ↔ t.keys = true ∧ t.running = true := by
  simp [Employee.Consistent, Employee.isActive, huser, hdisabled, hoffboarded]

theorem isOpen_eq (huser : s.account = some user) : s.isOpen = !user.disabled := by simp [Employee.isOpen, huser]

theorem isClosed_eq (huser : s.account = some user) : s.isClosed = user.disabled := by simp [Employee.isClosed, huser]

theorem isOffboarded_eq (huser : s.account = some user) : s.isOffboarded = user.offboarded := by simp [Employee.isOffboarded, huser]

theorem Employee.Sound.offboarded (hs : s.Sound) (huser : s.account = some user) (hdisabled : user.disabled = false) :
    user.offboarded = false := by
  by_contra hnot
  have hclosed := hs user huser (by simpa using hnot)
  rw [hdisabled] at hclosed
  cases hclosed

variable {log : List (Call × Bool)}

theorem right_of_opened {request : Request} {answer : Answer} (huser : t.account = some (opened user))
    (hoffboarded : user.offboarded = false) (hkeys : t.keys = true) (hrunning : t.running = true) (hmeets : request.Meets s log) :
    request.Right s log answer t :=
  fun _ => iff_of_true ((consistent_of_open huser rfl hoffboarded).mpr ⟨hkeys, hrunning⟩) hmeets

theorem right_of_closed {request : Request} {answer : Answer} (huser : t.account = some user)
    (hdisabled : user.disabled = true) (hkeys : t.keys = false) (hmeets : request.Meets s log ↔ t.running = false) :
    request.Right s log answer t := by
  intro _
  rw [consistent_of_closed huser hdisabled, hmeets]
  exact and_iff_right hkeys

open Request (Meets)

theorem setEnabled_right (hs : s.Sound) (enabled : Bool) :
    (setEnabled enabled).Ensures effect ((Request.setEnabled enabled).Right s) s := by
  have hQ := lenient_right (.setEnabled enabled) s
  apply ensures_withUser hQ
  intro user huser
  cases enabled with
  | true =>
    rw [if_pos rfl]
    cases hdisabled : user.disabled with
    | true =>
      apply ensures_opening huser (failing_fail _) ((failing_fail _).ignoring _) (((failing_fail _).ignoring _).ignoring _) (hQ.cons _)
      intro hoffboarded
      refine right_of_opened rfl hoffboarded rfl rfl fun hopen => ?_
      rw [isOpen_eq huser, hdisabled] at hopen
      cases hopen
    | false =>
      intro _
      rw [consistent_of_open huser hdisabled (hs.offboarded huser hdisabled)]
      simp [Meets, isOpen_eq huser, hdisabled]
  | false =>
    rw [if_neg (by simp)]
    cases hdisabled : user.disabled with
    | true =>
      rw [if_pos rfl]
      cases hoffboarded : user.offboarded with
      | true =>
        intro _
        rw [consistent_of_closed huser hdisabled]
        simp [Meets, isOffboarded_eq huser, hoffboarded]
      | false =>
        apply (failing_failWith _ _).attempt (hQ.cons _)
        intro _ h₁
        apply (failing_failWith _ _).attempt ((hQ.cons _).cons _)
        intro _ h₂
        simp only [effect, Option.some.injEq, ite_none_right_eq_some] at h₁ h₂
        subst h₁
        obtain ⟨-, rfl⟩ := h₂
        refine right_of_closed ?_ hdisabled rfl (iff_of_true ?_ rfl)
        · exact huser
        · simp [Meets, isOffboarded_eq huser, hoffboarded]
    | false =>
      apply ensures_closing huser (failing_fail _) (failing_failWith _ _) (failing_failWith _ _) (hQ.cons _)
      refine right_of_closed rfl rfl rfl (iff_of_true ?_ rfl)
      simp [Meets, isOffboarded_eq huser, hs.offboarded huser hdisabled]

theorem resetPortalPassword_right (hs : s.Sound) (password hash : String) :
    (resetPortalPassword password hash).Ensures effect ((Request.resetPortalPassword password hash).Right s) s := by
  have hQ := lenient_right (.resetPortalPassword password hash) s
  apply ensures_withUser hQ
  intro user huser
  cases validatePassword password with
  | some => exact failing_fail _ _ _ (hQ.cons _)
  | none =>
    apply (failing_fail _).attempt (hQ.cons _)
    intro _ h₁
    apply (failing_fail _).attempt ((hQ.cons _).cons _)
    intro _ h₂
    simp only [effect, Option.some.injEq] at h₁ h₂
    subst h₁
    subst h₂
    cases hdisabled : user.disabled with
    | true =>
      rw [if_pos rfl]
      apply (failing_fail _).attempt (((hQ.cons _).cons _).cons _)
      intro s₃ h₃
      simp only [effect, huser, isSome_some, if_true, Employee.setAccount, map_some, Option.some.injEq] at h₃
      subst h₃
      refine right_of_closed rfl hdisabled rfl ?_
      simp [Meets, isOpen_eq huser, hdisabled]
    | false =>
      rw [if_neg (by simp)]
      apply ((failing_fail _).ignoring _).attempt (((hQ.cons _).cons _).cons _)
      intro _ h₃
      apply (failing_fail _).attempt ((((hQ.cons _).cons _).cons _).cons _)
      intro _ h₄
      simp only [effect, huser, isSome_some, if_true, Employee.setAccount, map_some, Option.some.injEq] at h₃ h₄
      subst h₃
      subst h₄
      intro _
      simp [Employee.Consistent, Employee.isActive, Meets, isOpen_eq huser, hdisabled, hs.offboarded huser hdisabled]

theorem disables_open (huser : s.account = some user) (hdisabled : user.disabled = false) : (setEnabled false).Ensures effect
    (fun _ answer t => answer.error = none → t.account = some (closed user)) s := by
  have hQ : Lenient fun _ answer t => answer.error = none → t.account = some (closed user) := fun _ _ _ herror hnone => absurd hnone herror
  apply ensures_withUser hQ
  intro _ huser'
  obtain rfl := Option.some.inj (huser.symm.trans huser')
  rw [if_neg (by simp), if_neg (by simp [hdisabled])]
  apply ensures_closing huser (failing_fail _) (failing_failWith _ _) (failing_failWith _ _) (hQ.cons (.userByUsername, true))
  exact fun _ => rfl

theorem restart_right : restart.Ensures effect (Request.restart.Right s) s := by
  have hQ := lenient_right .restart s
  apply ensures_withUser hQ
  intro user huser
  split
  · exact failing_fail _ _ _ (hQ.cons _)
  · rename_i hactive
    obtain ⟨hdisabled, hoffboarded⟩ : user.disabled = false ∧ user.offboarded = false := by simpa using hactive
    rw [ensures_bind]
    apply (disables_open huser hdisabled).mono
    intro _ _ t hclosed
    split
    · rename_i herror
      intro hnone
      rw [hnone] at herror
      cases herror
    · rename_i herror
      have hclosed' : t.account = some (closed user) := hclosed (by simpa using herror)
      have hsound : t.Sound := by
        intro a ha _
        obtain rfl := Option.some.inj (hclosed'.symm.trans ha)
        rfl
      rw [ensures_bind]
      apply (setEnabled_right hsound true).mono
      intro _ _ _ hright hnone
      rw [hright hnone]
      simp [Meets, isOpen_eq hclosed', closed]

theorem ensures_close {message : String} {next : Account → Operation} (huser : s.account = some user) (hQ : Lenient Q)
    (hopen : user.disabled = false → (next (closed user)).Ensures effect
      (fun log => Q ((.setUserEnabled false, true) :: (.setKeysEnabled false, true) :: (.stopInstalledRuntime, true) :: log))
      { s with account := some (closed user), keys := false, running := false })
    (hclosed : user.disabled = true → (next user).Ensures effect (fun log => Q ((.setKeysEnabled false, true) :: log)) { s with keys := false }) :
    (close user message next).Ensures effect Q s := by
  unfold close
  cases hdisabled : user.disabled with
  | false =>
    rw [if_pos (by simp)]
    exact ensures_closing huser (failing_fail _) (failing_failWith _ _) (failing_failWith _ _) hQ (hopen hdisabled)
  | true =>
    rw [if_neg (by simp)]
    apply (failing_failWith _ _).attempt hQ
    intro _ h₁
    simp only [effect, Option.some.injEq] at h₁
    subst h₁
    exact hclosed hdisabled

theorem setLimits_right (limits : JobLimits) :
    (setLimits limits).Ensures effect ((Request.setLimits limits).Right s) s := by
  have hQ := lenient_right (.setLimits limits) s
  unfold setLimits
  split
  · exact failing_fail _ _ _ hQ
  · apply ensures_withUser hQ
    intro user huser
    apply ensures_close huser (hQ.cons _)
    · intro hdisabled
      apply (failing_failWith _ _).attempt ((((hQ.cons _).cons _).cons _).cons _)
      intro s₁ h₁
      simp only [effect, ite_none_right_eq_some, Option.some.injEq] at h₁
      obtain ⟨-, rfl⟩ := h₁
      rw [if_neg (by simp [hdisabled])]
      have hnow : Employee.account { s with account := some (closed user), keys := false, running := false, limits := limits } =
          some (closed user) := rfl
      apply ensures_opening hnow (failing_failWith _ _) ((failing_failWith _ _).ignoring _)
        (((failing_failWith _ _).ignoring _).ignoring _) (((((hQ.cons _).cons _).cons _).cons _).cons _)
      intro hoffboarded
      refine right_of_opened rfl hoffboarded rfl rfl ?_
      simp [Meets, isClosed_eq huser, hdisabled]
    · intro hdisabled
      apply (failing_failWith _ _).attempt ((hQ.cons _).cons _)
      intro _ h₁
      simp only [effect, ite_none_right_eq_some, Option.some.injEq] at h₁
      obtain ⟨-, rfl⟩ := h₁
      rw [if_pos hdisabled]
      refine right_of_closed ?_ hdisabled rfl ?_
      · exact huser
      · simp [Meets, isClosed_eq huser, hdisabled]

theorem offboardRetain_right (hs : s.Sound) : offboardRetain.Ensures effect (Request.offboardRetain.Right s) s := by
  have hQ := lenient_right .offboardRetain s
  apply ensures_withUser hQ
  intro user huser
  split
  · exact failing_fail _ _ _ (hQ.cons _)
  · split
    · rename_i hoffboarded
      have hdisabled := hs user huser hoffboarded
      intro _
      rw [consistent_of_closed huser hdisabled]
      simp [Meets, isClosed_eq huser, isOffboarded_eq huser, hdisabled, hoffboarded, and_comm]
    · rename_i hoffboarded
      apply ensures_close huser (hQ.cons _)
      · intro hdisabled
        apply (failing_failWith _ _).attempt ((((hQ.cons _).cons _).cons _).cons _)
        intro s₁ h₁
        apply (failing_failWith _ _).attempt (((((hQ.cons _).cons _).cons _).cons _).cons _)
        intro s₂ h₂
        simp only [effect, Option.some.injEq] at h₁
        subst h₁
        simp only [effect, any_some, Employee.setAccount, map_some, closed, Bool.not_true, Bool.false_or, if_true,
          Option.some.injEq] at h₂
        subst h₂
        refine right_of_closed rfl rfl rfl (iff_of_true ?_ rfl)
        simp [Meets, isClosed_eq huser, hdisabled]
      · intro hdisabled
        apply (failing_failWith _ _).attempt ((hQ.cons _).cons _)
        intro _ h₁
        apply (failing_failWith _ _).attempt (((hQ.cons _).cons _).cons _)
        intro _ h₂
        simp only [effect, Option.some.injEq] at h₁
        subst h₁
        simp only [effect, huser, any_some, Employee.setAccount, map_some, hdisabled, Bool.or_true, if_true,
          Option.some.injEq] at h₂
        subst h₂
        refine right_of_closed rfl rfl rfl ?_
        simp [Meets, isClosed_eq huser, isOffboarded_eq huser, hdisabled, hoffboarded]

structure Repaired (s : Employee) (log : List (Call × Bool)) (t : Employee) : Prop where
  account : t.account = s.account
  keys : t.keys = true
  running : t.running = true
  unstopped : ∀ took, (.stopInstalledRuntime, took) ∉ log

theorem repairs (s : Employee) (windowsPassword : String) :
    (repairInstalledRuntime windowsPassword).Ensures effect (fun log ok t => ok = true → Repaired s log t) s := by
  have hQ : Script.Lenient (· = false) fun log ok t => ok = true → Repaired s log t := by
    rintro _ _ t rfl htrue
    cases htrue
  have hfailed : Script.Failing effect (· = false) (.done false) := failing_done rfl
  unfold repairInstalledRuntime
  split
  · exact hfailed _ _ hQ
  · apply hfailed.attempt hQ
    intro _ h₁
    apply hfailed.attempt (hQ.cons _)
    intro _ h₂
    apply hfailed.attempt ((hQ.cons _).cons _)
    intro _ h₃
    apply hfailed.attempt (((hQ.cons _).cons _).cons _)
    intro _ h₄
    apply hfailed.attempt ((((hQ.cons _).cons _).cons _).cons _)
    intro _ h₅
    apply hfailed.attempt (((((hQ.cons _).cons _).cons _).cons _).cons _)
    intro _ h₆ _
    simp only [effect, Employee.start, Option.some.injEq, ite_none_right_eq_some] at h₁ h₂ h₃ h₄ h₅ h₆
    subst h₁ h₂ h₃
    obtain ⟨-, rfl⟩ := h₄
    subst h₅
    obtain ⟨-, rfl⟩ := h₆
    exact ⟨rfl, rfl, rfl, by simp⟩

variable {windowsPassword : String}

theorem ensures_preflight {next : Operation} (hQ : Lenient Q)
    (h : next.Ensures effect (fun log => Q ((.checkManagedCredential, true) :: log)) s) : (preflight windowsPassword next).Ensures effect Q s := by
  unfold preflight
  split
  · exact failing_fail _ _ _ hQ
  · apply (failing_fail _).attempt hQ
    intro _ h₁
    simp only [effect, Option.some.injEq] at h₁
    subst h₁
    exact h

variable {shown : Account}

theorem reopens (hQ : Lenient Q) (huser : t.account = some user) (hkeys : t.keys = true) (hrunning : t.running = true)
    (h : ∀ log answer u, u.Consistent → Q log answer u) : (reopen shown).Ensures effect Q t := by
  apply (((failing_failWith _ _).ignoring _).ignoring _).attempt hQ
  intro _ h₁
  simp only [effect, huser, any_some, Bool.true_and, Employee.setAccount, map_some, ite_none_right_eq_some,
    Option.some.injEq, Bool.not_eq_true'] at h₁
  obtain ⟨hoffboarded, rfl⟩ := h₁
  apply h
  simp [Employee.Consistent, Employee.isActive, hkeys, hrunning, hoffboarded]

theorem repairClosed_ensures (hQ : Lenient Q) (huser : t.account = some user)
    (h : ∀ log answer u, u.Consistent → Q log answer u) : (repairClosed windowsPassword shown).Ensures effect Q t := by
  apply (failing_failWith _ _).attempt hQ
  intro s₁ h₁
  simp only [effect, Option.some.injEq] at h₁
  subst h₁
  rw [ensures_bind]
  apply (repairs _ windowsPassword).mono
  intro log repaired u hrepaired
  have hQ' : Lenient fun log' => Q ((.seedDefaults, true) :: (log ++ log')) := fun log' => hQ _
  cases repaired with
  | false => exact (failing_failWith _ _).ignoring _ _ _ hQ'
  | true =>
    obtain ⟨haccount, hkeys, hrunning, -⟩ := hrepaired rfl
    have huser' : u.account = some user := haccount.trans huser
    rw [if_neg (by simp)]
    split
    · apply (((failing_failWith _ _).ignoring _).ignoring _).attempt hQ'
      intro _ h₁
      simp only [effect, huser', any_some, Bool.not_false, Bool.true_or, if_true, Employee.setAccount, map_some,
        Option.some.injEq] at h₁
      subst h₁
      exact reopens (hQ'.cons _) rfl hkeys hrunning fun log' answer v => h _ answer v
    · exact reopens hQ' huser' hkeys hrunning fun log' answer v => h _ answer v

theorem repair_right (windowsPassword : String) : (repair windowsPassword).Ensures effect ((Request.repair windowsPassword).Right s) s := by
  have hQ := lenient_right (.repair windowsPassword) s
  have hright : ∀ log answer t, t.Consistent → (Request.repair windowsPassword).Right s log answer t :=
    fun log answer t ht _ => iff_of_true ht trivial
  apply ensures_withUser hQ
  intro _ huser
  apply ensures_preflight (hQ.cons _)
  apply ensures_close huser ((hQ.cons _).cons _)
  · intro _
    exact repairClosed_ensures (((((hQ.cons _).cons _).cons _).cons _).cons _) rfl fun log => hright _
  · intro _
    exact repairClosed_ensures (((hQ.cons _).cons _).cons _) huser fun log => hright _

theorem renames (s : Employee) (name windowsPassword : String) :
    (renameInstalledAccount name windowsPassword).Ensures effect (fun log ok t => ok = true → Repaired s log t) s := by
  have hQ : Script.Lenient (· = false) fun log ok t => ok = true → Repaired s log t := by
    rintro log ok t rfl htrue
    cases htrue
  have hfailed : Script.Failing effect (· = false) (.done false) := failing_done rfl
  unfold renameInstalledAccount
  split
  · exact hfailed _ _ hQ
  · apply hfailed.attempt hQ
    intro _ h₁
    simp only [effect, Option.some.injEq] at h₁
    subst h₁
    apply (repairs _ windowsPassword).mono
    intro _ _ t hrepaired hok
    obtain ⟨haccount, hkeys, hrunning, hunstopped⟩ := hrepaired hok
    exact ⟨haccount, hkeys, hrunning, by simp [hunstopped]⟩

theorem renameClosed_ensures {name canonical : String} {wasEnabled : Bool} (hQ : Lenient Q)
    (huser : t.account = some user) (hopens : wasEnabled = true → ∀ log answer u, u.Consistent → Q log answer u)
    (hstays : wasEnabled = false → ∀ log answer u, (∀ took, (.stopInstalledRuntime, took) ∉ log) → ∀ stopped,
      u.account = some { user with windowsUsername := canonical } → u.keys = false → u.running = !stopped →
        Q (log ++ [(.setWindowsUsername canonical, true), (.stopInstalledRuntime, stopped), (.setKeysEnabled false, true)]) answer u) :
    (renameClosed wasEnabled name canonical windowsPassword shown).Ensures effect Q t := by
  unfold renameClosed
  rw [ensures_bind]
  apply (renames t name windowsPassword).mono
  intro log renamed u hrenamed
  have hQ' : Lenient fun log' => Q (log ++ log') := fun log' => hQ _
  cases renamed with
  | false => exact (failing_failWith _ _).ignoring _ _ _ hQ'
  | true =>
    obtain ⟨haccount, hkeys, hrunning, hunstopped⟩ := hrenamed rfl
    have huser' : u.account = some user := haccount.trans huser
    rw [if_neg (by simp)]
    apply ((failing_failWith _ _).ignoring _).attempt hQ'
    intro _ h₁
    simp only [effect, huser', isSome_some, if_true, Employee.setAccount, map_some, Option.some.injEq] at h₁
    subst h₁
    cases wasEnabled with
    | true => exact reopens (hQ'.cons _) rfl hkeys hrunning fun log' answer v => hopens rfl _ answer v
    | false =>
      dsimp only
      rw [if_pos (by simp), ensures_ignoring]
      constructor
      · apply (failing_failWith _ _).attempt ((hQ'.cons _).cons _)
        intro s₂ h₂
        simp only [effect, Option.some.injEq] at h₂
        subst h₂
        exact hstays rfl log _ _ hunstopped false rfl rfl hrunning
      · intro _ h₂
        apply (failing_failWith _ _).attempt ((hQ'.cons _).cons _)
        intro _ h₃
        simp only [effect, Option.some.injEq, ite_none_right_eq_some] at h₂ h₃
        obtain ⟨-, rfl⟩ := h₂
        subst h₃
        exact hstays rfl log _ _ hunstopped true rfl rfl rfl

theorem renameWindowsAccount_right (name canonical windowsPassword : String) : (renameWindowsAccount name canonical windowsPassword).Ensures effect
    ((Request.renameWindowsAccount name canonical windowsPassword).Right s) s := by
  have hQ := lenient_right (.renameWindowsAccount name canonical windowsPassword) s
  unfold renameWindowsAccount
  split
  · exact failing_fail _ _ _ hQ
  · apply ensures_withUser hQ
    intro _ huser
    split
    · exact failing_fail _ _ _ (hQ.cons _)
    · apply ensures_preflight (hQ.cons _)
      apply ensures_close huser ((hQ.cons _).cons _)
      · intro hdisabled
        rw [hdisabled]
        refine renameClosed_ensures (((((hQ.cons _).cons _).cons _).cons _).cons _) rfl ?_ ?_
        · intro _ log answer u hconsistent _
          refine iff_of_true hconsistent fun hclosed => ?_
          rw [isClosed_eq huser, hdisabled] at hclosed
          cases hclosed
        · intro hfalse
          cases hfalse
      · intro hdisabled
        rw [hdisabled]
        refine renameClosed_ensures (((hQ.cons _).cons _).cons _) huser ?_ ?_
        · intro hfalse
          cases hfalse
        · intro _ _ _ u hunstopped stopped haccount hkeys hrunning _
          rw [consistent_of_closed haccount hdisabled, hkeys, hrunning]
          cases stopped <;> simp [Meets, isClosed_eq huser, hdisabled, hunstopped]

theorem deletes (s : Employee) : deleteInstalledEmployee.Ensures effect
    (fun _ ok t => ok = true → t.account = s.account ∧ t.keys = s.keys ∧ t.running = s.running) s := by
  have hQ : Script.Lenient (· = false) fun (_ : List (Call × Bool)) ok (t : Employee) =>
      ok = true → t.account = s.account ∧ t.keys = s.keys ∧ t.running = s.running := by
    rintro _ _ t rfl htrue
    cases htrue
  have hfailed : Script.Failing effect (· = false) (.done false) := failing_done rfl
  apply hfailed.attempt hQ
  intro _ h₁
  apply hfailed.attempt (hQ.cons (.removeInstalledRuntime, true))
  intro _ h₂
  apply hfailed.attempt (hQ.cons (.removeInstalledRuntime, true))
  intro _ h₃
  apply hfailed.attempt (hQ.cons (.removeInstalledRuntime, true))
  intro _ h₄ _
  simp only [effect, Option.some.injEq] at h₁ h₂ h₃ h₄
  subst h₁ h₂ h₃ h₄
  exact ⟨rfl, rfl, rfl⟩

theorem deleteRetainedEmployee_right (username confirmation : String) : (deleteRetainedEmployee username confirmation).Ensures effect
    ((Request.deleteRetainedEmployee username confirmation).Right s) s := by
  have hQ := lenient_right (.deleteRetainedEmployee username confirmation) s
  unfold deleteRetainedEmployee
  split
  · exact failing_fail _ _ _ hQ
  · apply ensures_withUser hQ
    intro user huser
    split
    · exact failing_fail _ _ _ (hQ.cons _)
    · rename_i hretained
      have hdisabled : user.disabled = true := by
        by_contra hnot
        simp [hnot] at hretained
      apply (failing_fail _).attempt (hQ.cons _)
      intro _ h₁
      simp only [effect, Option.some.injEq] at h₁
      subst h₁
      rw [ensures_bind]
      apply (deletes _).mono
      intro log deleted t hdeleted
      have hQ' : Lenient fun log' => (Request.deleteRetainedEmployee username confirmation).Right s
          ((.userByUsername, true) :: (.revokeKeys, true) :: (log ++ log')) := fun log' => hQ _
      cases deleted with
      | false => exact failing_fail _ _ _ hQ'
      | true =>
        obtain ⟨_, hkeys, hrunning⟩ := hdeleted rfl
        rw [if_neg (by simp)]
        apply (failing_fail _).attempt hQ'
        intro _ h₂ _
        simp only [effect, ite_none_right_eq_some, Option.some.injEq] at h₂
        obtain ⟨-, rfl⟩ := h₂
        simp [Employee.Consistent, Employee.isActive, Meets, hkeys, hrunning, isClosed_eq huser, hdisabled]

theorem operation_right (hs : s.Sound) (request : Request) : request.operation.Ensures effect (request.Right s) s := by
  cases request with
  | setEnabled enabled => exact setEnabled_right hs enabled
  | resetPortalPassword password hash => exact resetPortalPassword_right hs password hash
  | restart => exact restart_right
  | setLimits limits => exact setLimits_right limits
  | offboardRetain => exact offboardRetain_right hs
  | repair windowsPassword => exact repair_right windowsPassword
  | renameWindowsAccount name canonical windowsPassword => exact renameWindowsAccount_right name canonical windowsPassword
  | deleteRetainedEmployee username confirmation => exact deleteRetainedEmployee_right username confirmation

theorem meets_of_consistent (hs : s.Sound) (h : s.Consistent) (hstop : (.stopInstalledRuntime, false) ∉ log)
    (request : Request) : request.Meets s log := by
  obtain ⟨hkeys, hrunning⟩ := h
  cases haccount : s.account with
  | none =>
    have hnone : s.isOpen = false ∧ s.isClosed = false ∧ s.isOffboarded = false ∧ s.isActive = false := by
      simp [Employee.isOpen, Employee.isClosed, Employee.isOffboarded, Employee.isActive, haccount]
    obtain ⟨hopen, hclosed, hoffboarded, hactive⟩ := hnone
    cases request <;> simp [Meets, hopen, hclosed, hoffboarded, hrunning, hactive]
    split <;> simp
  | some user =>
    have hopen := isOpen_eq haccount
    have hclosed := isClosed_eq haccount
    have hoffboarded := isOffboarded_eq haccount
    have hactive : s.isActive = !user.disabled := by
      cases hdisabled : user.disabled with
      | true => simp [Employee.isActive, haccount, hdisabled]
      | false => simp [Employee.isActive, haccount, hdisabled, hs.offboarded haccount hdisabled]
    rw [hactive] at hkeys hrunning
    cases request with
    | setEnabled enabled =>
      cases enabled with
      | true => simp [Meets, hopen, hkeys, hrunning]
      | false =>
        intro hgone
        rw [hoffboarded] at hgone
        simp [hkeys, hrunning, hs user haccount hgone]
    | renameWindowsAccount => exact fun _ => hstop
    | resetPortalPassword | restart | setLimits | offboardRetain | repair | deleteRetainedEmployee =>
      simp_all [Meets]

theorem sound_step {entry : Entry} (hs : s.Sound) (h : Step s entry t) : t.Sound := by
  cases h with
  | requests _ faults => exact run_invariant sound_effect _ hs faults

/-- In every run, whatever fails or dies in it, an operation that succeeds leaves the employee
consistent just where it met its condition, as it does on an employee that is consistent before. -/
theorem lifecycle_settles (s t : Employee) (history : List Entry) (hs : s.Sound) (h : Execution Step s history t) :
    ∀ entry ∈ history, entry.succeeded = true →
      (entry.outcome.state.Consistent ↔ entry.request.Meets entry.before entry.outcome.log) ∧
      (entry.before.Consistent → (.stopInstalledRuntime, false) ∉ entry.outcome.log → entry.outcome.state.Consistent) := by
  have hbefore : ∀ entry ∈ history, entry.before.Sound := by
    apply h.history (J := fun history _ => ∀ entry ∈ history, entry.before.Sound)
    · simp
    · intro _ t entry u hrun hall hstep earlier hmem
      rcases List.mem_append.mp hmem with hmem | hmem
      · exact hall earlier hmem
      · obtain rfl := List.mem_singleton.mp hmem
        have hsound := hrun.invariant hs fun _ _ _ => sound_step
        cases hstep with
        | requests => exact hsound
  intro entry hmem hsucceeded
  obtain ⟨_, hanswer, hnone⟩ := (any_eq_true _ _).mp hsucceeded
  have hsound := hbefore entry hmem
  have hright := (operation_right hsound entry.request).sound entry.faults hanswer (by simpa using hnone)
  refine ⟨hright, fun hconsistent hstop => ?_⟩
  exact hright.mpr (meets_of_consistent hsound hconsistent hstop entry.request)

namespace RetentionExample

def employee : Employee :=
  ⟨some ⟨"alice", "HOST\\alice", "$argon2id$", false, false, false⟩, true, true, true, true, ⟨1073741824, 50, 32⟩⟩

def first : Entry := ⟨.offboardRetain, employee, [.none, .none, .none, .before]⟩

def second : Entry := ⟨.offboardRetain, first.outcome.state, []⟩

theorem employee_sound : employee.Sound := by
  intro a ha hoffboarded
  cases ha
  cases hoffboarded

theorem offboards : Execution Step employee [first, second] second.outcome.state :=
  (Execution.start.step (.requests employee .offboardRetain _)).step (.requests first.outcome.state .offboardRetain [])

/-- The offboarding that is repeated succeeds, and the runtime still runs, now without a task to stop it by. -/
theorem offboarded_runs : ¬ ∀ s t history, s.Sound → s.Consistent → Execution Step s history t →
    ∀ entry ∈ history, entry.succeeded = true → entry.outcome.state.Consistent := by
  intro hall
  have hconsistent : employee.Consistent := ⟨rfl, rfl⟩
  have hsecond := hall employee _ _ employee_sound hconsistent offboards second (by simp) (by decide)
  have hrunning : second.outcome.state.running = true := by decide
  have hactive : second.outcome.state.isActive = false := by decide
  rw [hsecond.2, hactive] at hrunning
  cases hrunning

theorem second_settles :
    (second.outcome.state.Consistent ↔ second.request.Meets second.before second.outcome.log) ∧
    (second.before.Consistent → (.stopInstalledRuntime, false) ∉ second.outcome.log → second.outcome.state.Consistent) :=
  lifecycle_settles employee _ _ employee_sound offboards second (by simp) (by decide)

end RetentionExample

end WorkAgent.Lifecycle
