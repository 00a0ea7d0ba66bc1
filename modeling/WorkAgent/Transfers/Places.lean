import WorkAgent.Transfers.Disk

namespace WorkAgent.Transfers

def At (disk : Disk) (d root : String) : Prop := disk.place root d ≠ none ∧ ∀ r, disk.place r d ≠ none → r = root

def Own (disk : Disk) (d root : String) : Prop :=
  disk.place root d = some root ∧ ∀ r, disk.place r d ≠ none → r = root

def NoJournal (disk : Disk) (d : String) : Prop := ∀ r, disk.journal r d = none

def JournalTo (disk : Disk) (d P X : String) : Prop := ∀ r old, disk.journal r d = some old → r = X ∧ old = P

def Still (disk : Disk) (d P : String) : Prop := Own disk d P ∧ NoJournal disk d

structure Moved (disk : Disk) (d P X : String) : Prop where
  other : P ≠ X
  own : Own disk d X
  journal : JournalTo disk d P X

def Undoing (disk : Disk) (d P X : String) : Job → Prop
  | .rolling old => old = P ∧ P ≠ X ∧ (At disk d P ∨ At disk d X) ∧ JournalTo disk d P X
  | .returned old => old = P ∧ P ≠ X ∧ At disk d P ∧ JournalTo disk d P X
  | .restored old => old = P ∧ P ≠ X ∧ Own disk d P ∧ JournalTo disk d P X
  | _ => False

def Preparing (disk : Disk) (d P X : String) : Job → Prop
  | .sent | .done false | .lost => Still disk d P
  | .checked => P ≠ X ∧ Still disk d P
  | .journaled => P ≠ X ∧ Own disk d P ∧ JournalTo disk d P X
  | .moved => P ≠ X ∧ At disk d X ∧ JournalTo disk d P X
  | .done true => Moved disk d P X
  | job => Undoing disk d P X job

def RollingBack (disk : Disk) (d P X : String) : Job → Prop
  | .sent => Moved disk d P X
  | .done _ | .lost => Still disk d P
  | job => Undoing disk d P X job

structure Eases (disk disk' : Disk) (d : String) : Prop where
  place : ∀ r, disk'.place r d = none ↔ disk.place r d = none
  own : ∀ r, disk.place r d = some r → disk'.place r d = some r
  journal : ∀ r, disk'.journal r d = disk.journal r d ∨ disk'.journal r d = none

variable {disk disk' : Disk} {d e P X root : String} {job job' : Job} {o : Order}

theorem Eases.refl (disk : Disk) (d : String) : Eases disk disk d :=
  ⟨fun _ => Iff.rfl, fun _ h => h, fun _ => .inl rfl⟩

section Ease

variable (h : Eases disk disk' d)

include h

theorem Eases.at (hat : At disk d P) : At disk' d P := by
  refine ⟨fun hnone => hat.1 ((h.place P).mp hnone), ?_⟩
  exact fun r hr => hat.2 r fun hnone => hr ((h.place r).mpr hnone)

theorem Eases.owned (hown : Own disk d P) : Own disk' d P := by
  refine ⟨h.own P hown.1, ?_⟩
  exact fun r hr => hown.2 r fun hnone => hr ((h.place r).mpr hnone)

theorem Eases.noJournal (hno : NoJournal disk d) : NoJournal disk' d := by
  intro r
  rcases h.journal r with hsame | hnone
  · exact hsame.trans (hno r)
  · exact hnone

theorem Eases.journalTo (hto : JournalTo disk d P X) : JournalTo disk' d P X := by
  intro r old hr
  rcases h.journal r with hsame | hnone
  · exact hto r old (hsame ▸ hr)
  · rw [hnone] at hr
    cases hr

theorem Eases.still (hstill : Still disk d P) : Still disk' d P := ⟨h.owned hstill.1, h.noJournal hstill.2⟩

theorem Eases.moved (hmoved : Moved disk d P X) : Moved disk' d P X :=
  ⟨hmoved.other, h.owned hmoved.own, h.journalTo hmoved.journal⟩

theorem Eases.undoing (hun : Undoing disk d P X job) : Undoing disk' d P X job := by
  cases job with
  | rolling =>
    obtain ⟨hold, hother, hat, hto⟩ := hun
    exact ⟨hold, hother, hat.imp h.at h.at, h.journalTo hto⟩
  | returned =>
    obtain ⟨hold, hother, hat, hto⟩ := hun
    exact ⟨hold, hother, h.at hat, h.journalTo hto⟩
  | restored =>
    obtain ⟨hold, hother, hown, hto⟩ := hun
    exact ⟨hold, hother, h.owned hown, h.journalTo hto⟩
  | _ => exact hun

theorem Eases.preparing (hp : Preparing disk d P X job) : Preparing disk' d P X job := by
  cases job with
  | sent | lost => exact h.still hp
  | checked => exact ⟨hp.1, h.still hp.2⟩
  | journaled => exact ⟨hp.1, h.owned hp.2.1, h.journalTo hp.2.2⟩
  | moved => exact ⟨hp.1, h.at hp.2.1, h.journalTo hp.2.2⟩
  | done ok =>
    cases ok with
    | true => exact h.moved hp
    | false => exact h.still hp
  | rolling old =>
    have hun : Undoing disk d P X (.rolling old) := hp
    exact h.undoing hun
  | returned old =>
    have hun : Undoing disk d P X (.returned old) := hp
    exact h.undoing hun
  | restored old =>
    have hun : Undoing disk d P X (.restored old) := hp
    exact h.undoing hun
  | found | stuck => exact hp

theorem Eases.rollingBack (hp : RollingBack disk d P X job) : RollingBack disk' d P X job := by
  cases job with
  | sent => exact h.moved hp
  | done | lost => exact h.still hp
  | rolling old =>
    have hun : Undoing disk d P X (.rolling old) := hp
    exact h.undoing hun
  | returned old =>
    have hun : Undoing disk d P X (.returned old) := hp
    exact h.undoing hun
  | restored old =>
    have hun : Undoing disk d P X (.restored old) := hp
    exact h.undoing hun
  | checked | journaled | moved | found | stuck => exact hp

end Ease

theorem Own.at (h : Own disk d P) : At disk d P := ⟨by rw [h.1]; simp, h.2⟩

theorem At.source (h : At disk d P) (hsource : disk.place root d ≠ none) : root = P := h.2 root hsource

theorem eases_setPlace (hplace : disk.place root d ≠ none) (e : String) :
    Eases disk (disk.setPlace root d (some root)) e := by
  refine ⟨?_, ?_, fun _ => .inl rfl⟩
  · intro r
    rw [Disk.place_setPlace]
    split
    · rename_i hr
      rw [hr.1, hr.2]
      simp [hplace]
    · exact Iff.rfl
  · intro r hr
    rw [Disk.place_setPlace]
    split
    · rename_i hroot
      rw [hroot.1]
    · exact hr

theorem eases_removeJournal (root project e : String) : Eases disk (disk.setJournal root project none) e := by
  refine ⟨fun _ => Iff.rfl, fun _ h => h, ?_⟩
  intro r
  rw [Disk.journal_setJournal]
  split
  · exact .inr rfl
  · exact .inl rfl

theorem JournalTo.set (hno : NoJournal disk d) : JournalTo (disk.setJournal X d (some P)) d P X := by
  intro r _ hr
  rw [Disk.journal_setJournal] at hr
  split at hr
  · rename_i hroot
    cases hr
    exact ⟨hroot.1, rfl⟩
  · rw [hno r] at hr
    cases hr

theorem JournalTo.remove (hto : JournalTo disk d P X) : NoJournal (disk.setJournal X d none) d := by
  intro r
  rw [Disk.journal_setJournal]
  split
  · rfl
  · rename_i hroot
    cases hr : disk.journal r d with
    | none => rfl
    | some old => exact absurd ⟨(hto r old hr).1, rfl⟩ hroot

theorem JournalTo.gone (hto : JournalTo disk d P X) (hnone : disk.journal X d = none) : NoJournal disk d := by
  intro r
  cases hr : disk.journal r d with
  | none => rfl
  | some old =>
    obtain ⟨rfl, -⟩ := hto r old hr
    rw [hnone] at hr
    cases hr

theorem At.rename (hat : At disk d P) (hother : P ≠ X) : At (disk.rename P X d) d X := by
  refine ⟨?_, ?_⟩
  · rw [Disk.place_rename, if_neg (fun h => hother h.1.symm), if_pos ⟨rfl, rfl⟩]
    exact hat.1
  · intro r hr
    rw [Disk.place_rename] at hr
    split at hr
    · exact absurd rfl hr
    · rename_i hP
      split at hr
      · rename_i hX
        exact hX.1
      · exact absurd ⟨hat.2 r hr, rfl⟩ hP

theorem At.own (hat : At disk d P) : Own (disk.setPlace P d (some P)) d P := by
  refine ⟨?_, ?_⟩
  · rw [Disk.place_setPlace, if_pos ⟨rfl, rfl⟩]
  · intro r hr
    rw [Disk.place_setPlace] at hr
    split at hr
    · rename_i hP
      exact hP.1
    · exact hat.2 r hr

theorem Work.frame (h : Work o disk job disk' job') (he : e ≠ o.project) : Eases disk disk' e := by
  have hplace (root : String) (acl : Option String) : Eases disk (disk.setPlace root o.project acl) e := by
    refine ⟨?_, ?_, fun _ => .inl rfl⟩
    · intro r
      rw [Disk.place_setPlace, if_neg (fun hr => he hr.2)]
    · intro r hr
      rw [Disk.place_setPlace, if_neg (fun hr => he hr.2)]
      exact hr
  have hjournal (root : String) (old : Option String) : Eases disk (disk.setJournal root o.project old) e := by
    refine ⟨fun _ => Iff.rfl, fun _ h => h, ?_⟩
    intro r
    rw [Disk.journal_setJournal, if_neg (fun hr => he hr.2)]
    exact .inl rfl
  have hrename (source target : String) : Eases disk (disk.rename source target o.project) e := by
    refine ⟨?_, ?_, fun _ => .inl rfl⟩
    · intro r
      rw [Disk.place_rename, if_neg (fun hr => he hr.2), if_neg (fun hr => he hr.2)]
    · intro r hr
      rw [Disk.place_rename, if_neg (fun hr => he hr.2), if_neg (fun hr => he hr.2)]
      exact hr
  cases h with
  | journals | removes | confirms => exact hjournal _ _
  | moves | movesBack => exact hrename _ _
  | applies | restores => exact hplace _ _
  | _ => exact .refl _ _

theorem Work.undoing (h : Work o disk job disk' job') (hd : o.project = d) (hX : o.owner = X)
    (hun : Undoing disk d P X job) (hjob : job' ≠ .stuck) :
    Undoing disk' d P X job' ∨ (∃ ok, job' = .done ok ∧ (ok = true → o.action = .rollback)) ∧ Still disk' d P := by
  subst hd hX
  cases h with
  | movesBack htarget =>
    obtain ⟨rfl, hother, hat, hto⟩ := hun
    refine .inl ⟨rfl, hother, ?_, hto⟩
    rcases hat with hat | hat
    · exact absurd (hat.source htarget) (Ne.symm hother)
    · exact hat.rename (Ne.symm hother)
  | stays _ hsource =>
    obtain ⟨rfl, hother, hat, hto⟩ := hun
    refine .inl ⟨rfl, hother, ?_, hto⟩
    rcases hat with hat | hat
    · exact hat
    · exact absurd (hat.source hsource) hother
  | restores =>
    obtain ⟨rfl, hother, hat, hto⟩ := hun
    exact .inl ⟨rfl, hother, hat.own, hto⟩
  | removes =>
    obtain ⟨rfl, hother, hown, hto⟩ := hun
    refine .inr ⟨⟨_, rfl, fun hok => of_decide_eq_true hok⟩, ?_, hto.remove⟩
    exact hown
  | gone hjournal =>
    obtain ⟨rfl, _, hown, hto⟩ := hun
    refine .inr ⟨⟨false, rfl, ?_⟩, hown, hto.gone hjournal⟩
    intro hok
    cases hok
  | unmovedBack | unrestored | unremoved => exact absurd rfl hjob
  | _ => exact absurd hun not_false

theorem Work.preparing (h : Work ⟨d, X, .transfer P⟩ disk job disk' job') (hp : Preparing disk d P X job)
    (hjob : job' ≠ .stuck) : Preparing disk' d P X job' := by
  have hundoing (hun : Undoing disk d P X job) : Preparing disk' d P X job' := by
    rcases h.undoing rfl rfl hun hjob with hun' | ⟨⟨ok, rfl, hok⟩, hstill⟩
    · cases job' with
      | rolling | returned | restored => exact hun'
      | _ => exact absurd hun' not_false
    · cases ok with
      | true => cases hok rfl
      | false => exact hstill
  cases h with
  | checks haction hother =>
    cases haction
    exact ⟨hother, hp⟩
  | journals haction =>
    cases haction
    obtain ⟨hother, hown, hno⟩ := hp
    exact ⟨hother, hown, JournalTo.set hno⟩
  | moves haction =>
    cases haction
    obtain ⟨hother, hown, hto⟩ := hp
    exact ⟨hother, hown.at.rename hother, hto⟩
  | unmoved haction =>
    cases haction
    obtain ⟨hother, hown, hto⟩ := hp
    exact ⟨rfl, hother, .inl hown.at, hto⟩
  | applies haction =>
    cases haction
    obtain ⟨hother, hat, hto⟩ := hp
    exact ⟨hother, hat.own, hto⟩
  | unapplied haction =>
    cases haction
    obtain ⟨hother, hat, hto⟩ := hp
    exact ⟨rfl, hother, .inr hat, hto⟩
  | reads haction | unread haction | finds haction | absent haction => cases haction
  | movesBack | stays | restores | removes | gone => exact hundoing hp
  | unmovedBack | unrestored | unremoved => exact absurd rfl hjob
  | confirms | unconfirmed => exact absurd hp not_false
  | refuses => exact hp
  | unjournaled => exact hp.2

theorem Work.rollingBack (h : Work ⟨d, X, .rollback⟩ disk job disk' job') (hp : RollingBack disk d P X job)
    (hjob : job' ≠ .stuck) : RollingBack disk' d P X job' := by
  have hundoing (hun : Undoing disk d P X job) : RollingBack disk' d P X job' := by
    rcases h.undoing rfl rfl hun hjob with hun' | ⟨⟨_, rfl, _⟩, hstill⟩
    · cases job' with
      | rolling | returned | restored => exact hun'
      | _ => exact absurd hun' not_false
    · exact hstill
  cases h with
  | checks haction | journals haction | moves haction | unmoved haction | applies haction | unapplied haction | finds haction
  | absent haction =>
    cases haction
  | reads _ hjournal =>
    have hold := (hp.journal _ _ hjournal).2
    exact ⟨hold, hp.other, .inr hp.own.at, hp.journal⟩
  | unread | unmovedBack | unrestored | unremoved => exact absurd rfl hjob
  | movesBack | stays | restores | removes | gone => exact hundoing hp
  | confirms | unconfirmed | unjournaled => exact absurd hp not_false
  | refuses haction => exact absurd rfl haction

def Committing : Job → Prop
  | .sent | .found | .done _ | .lost => True
  | _ => False

theorem Work.committing (h : Work o disk job disk' job') (haction : o.action = .commit) (hc : Committing job) :
    Committing job' ∧ (∀ e, Eases disk disk' e) ∧ (job' = .done true → disk'.journal o.owner o.project = none) := by
  cases h with
  | checks ha | journals ha | moves ha | unmoved ha | applies ha | unapplied ha | reads ha | unread ha =>
    rw [haction] at ha
    cases ha
  | finds | unconfirmed | refuses => exact ⟨trivial, fun e => .refl _ e, fun h => by cases h⟩
  | absent _ hjournal => exact ⟨trivial, fun e => .refl _ e, fun _ => hjournal⟩
  | confirms =>
    refine ⟨trivial, eases_removeJournal _ _, ?_⟩
    intro _
    rw [Disk.journal_setJournal, if_pos ⟨rfl, rfl⟩]
  | _ => exact absurd hc not_false

def Inert (c : Order × Job) : Prop :=
  (c.1.action = .commit ∧ Committing c.2) ∨ (∃ ok, c.2 = .done ok) ∨ c.2 = .lost ∨ c.2 = .stuck ∨
    ((∃ old, c.1.action = .transfer old) ∧ (c.2 = .sent ∨ c.2 = .checked))

theorem Work.inert (h : Work o disk job disk' job') (hinert : Inert (o, job)) (hjob : job' ≠ .journaled) :
    Inert (o, job') ∧ ∀ e, Eases disk disk' e := by
  rcases hinert with ⟨haction, hc⟩ | ⟨_, hdone⟩ | hlost | hstuck | ⟨⟨old, haction⟩, hearly⟩
  · obtain ⟨hc', heases, -⟩ := h.committing haction hc
    exact ⟨.inl ⟨haction, hc'⟩, heases⟩
  · obtain rfl := hdone
    cases h
  · obtain rfl := hlost
    cases h
  · obtain rfl := hstuck
    cases h
  · dsimp only at haction hearly
    have htransfer : ∃ old, o.action = .transfer old := ⟨old, haction⟩
    rcases hearly with rfl | rfl
    · cases h with
      | checks => exact ⟨.inr (.inr (.inr (.inr ⟨htransfer, .inr rfl⟩))), .refl _⟩
      | refuses => exact ⟨.inr (.inl ⟨false, rfl⟩), .refl _⟩
      | reads ha | unread ha | finds ha | absent ha =>
        rw [haction] at ha
        cases ha
    · cases h with
      | journals => exact absurd rfl hjob
      | unjournaled => exact ⟨.inr (.inl ⟨false, rfl⟩), .refl _⟩

end WorkAgent.Transfers
