import Mathlib.Data.List.Nodup
import WorkAgent.Library.Interleaving

namespace WorkAgent.Library

open List

variable {σ ι α γ : Type}

/-- A service, the requests its client has posted so far, those of them that never reach the
service, and the client. -/
structure World (σ ι α γ : Type) where
  service : Config σ ι α
  posted : List ι
  dropped : List ι
  client : γ

def World.UnderWay (w : World σ ι α γ) (i : ι) : Prop :=
  i ∈ w.posted ∧ i ∉ w.dropped ∧ (i ∈ w.service.started → i ∈ w.service.running.map Prod.fst)

/-- A client moves by its own state and the answers given so far, and posts requests. A request
that is posted reaches the service at any later time, or is dropped; its answer may be lost. Other
callers make the calls `others`. -/
structure Protocol (σ ι α γ : Type) where
  service : System σ ι α
  name : ι → ℕ
  others : ι → Prop
  init : γ
  moves : List (ι × α) → γ → List ι → γ → Prop

namespace Protocol

variable (P : Protocol σ ι α γ)

def New (w : World σ ι α γ) (n : ℕ) : Prop :=
  (∀ i ∈ w.posted, P.name i ≠ n) ∧ ∀ i ∈ w.service.started, P.name i ≠ n

theorem new_iff {w : World σ ι α γ} {n : ℕ} :
    P.New w n ↔ n ∉ w.posted.map P.name ∧ n ∉ w.service.started.map P.name := by
  simp [New]

inductive Step : World σ ι α γ → World σ ι α γ → Prop
  | service (w : World σ ι α γ) (d : Config σ ι α) (h : P.service.Step w.service d)
      (hown : ∀ i ∈ d.started, i ∈ w.service.started ∨ (i ∈ w.posted ∧ i ∉ w.dropped) ∨
        (P.others i ∧ ∀ j ∈ w.posted, P.name j ≠ P.name i)) : Step w { w with service := d }
  | client (w : World σ ι α γ) (requests : List ι) (g : γ)
      (h : P.moves w.service.returned w.client requests g) (hnew : ∀ i ∈ requests, P.New w (P.name i))
      (hnodup : (requests.map P.name).Nodup) :
      Step w { w with posted := requests ++ w.posted, client := g }
  | drop (w : World σ ι α γ) (i : ι) (h : i ∈ w.posted) (hi : i ∉ w.service.started) :
      Step w { w with dropped := i :: w.dropped }

def start : World σ ι α γ := ⟨⟨P.service.init, [], [], []⟩, [], [], P.init⟩

def Run : World σ ι α γ → World σ ι α γ → Prop := Relation.ReflTransGen P.Step

def Reachable (w : World σ ι α γ) : Prop := P.Run P.start w

variable {P}

namespace Reachable

theorem run {w x : World σ ι α γ} (hw : P.Reachable w) (h : P.Run w x) : P.Reachable x :=
  Relation.ReflTransGen.trans hw h

section

variable {w : World σ ι α γ} (hw : P.Reachable w)
include hw

theorem service : P.service.Reachable w.service := by
  induction hw with
  | refl => exact .refl
  | tail _ hs ih =>
    cases hs with
    | service _ h => exact ih.tail h
    | client | drop => exact ih

theorem posted_nodup : (w.posted.map P.name).Nodup := by
  induction hw with
  | refl => simp [start]
  | @tail _ _ _ hs ih =>
    cases hs with
    | service | drop => exact ih
    | client _ _ _ hnew hnodup =>
      rw [map_append, nodup_append]
      refine ⟨hnodup, ih, ?_⟩
      intro a ha b hb
      obtain ⟨i, hi, rfl⟩ := mem_map.mp ha
      obtain ⟨j, hj, rfl⟩ := mem_map.mp hb
      exact ((hnew i hi).1 j hj).symm

theorem started_posted {i j : ι} (hi : i ∈ w.service.started) (hj : j ∈ w.posted) (hname : P.name i = P.name j) : i = j := by
  induction hw generalizing i j with
  | refl => simp [start] at hi
  | @tail _ _ hw hs ih =>
    have hnodup := posted_nodup hw
    cases hs with
    | service _ _ hown =>
      rcases hown i hi with hold | hold | hother
      · exact ih hold hj hname
      · exact inj_on_of_nodup_map hnodup hold.1 hj hname
      · exact absurd hname.symm (hother.2 j hj)
    | client _ _ _ hnew =>
      rcases mem_append.mp hj with hj | hj
      · exact absurd hname ((hnew j hj).2 i hi)
      · exact ih hi hj hname
    | drop => exact ih hi hj hname

theorem started_of_returned {i : ι} {a : α} (h : (i, a) ∈ w.service.returned) : i ∈ w.service.started := by
  apply hw.service.calls_subperm.subset
  exact mem_append_right _ (mem_map_of_mem h)

theorem answer {i j : ι} {a : α} (h : (i, a) ∈ w.service.returned) (hj : j ∈ w.posted) (hname : P.name i = P.name j) : i = j :=
  hw.started_posted (hw.started_of_returned h) hj hname

theorem started_cases {i : ι} (hi : i ∈ w.service.started) : i ∈ w.posted ∨ P.others i := by
  induction hw generalizing i with
  | refl => simp [start] at hi
  | @tail _ _ _ hs ih =>
    cases hs with
    | service _ _ hown =>
      rcases hown i hi with hold | hold | hother
      · exact ih hold
      · exact .inl hold.1
      · exact .inr hother.1
    | client => exact (ih hi).imp_left (mem_append_right _)
    | drop => exact ih hi

theorem not_started_of_dropped {i : ι} (hi : i ∈ w.dropped) : i ∈ w.posted ∧ i ∉ w.service.started := by
  induction hw generalizing i with
  | refl => simp [start] at hi
  | @tail _ _ _ hs ih =>
    cases hs with
    | service _ _ hown =>
      obtain ⟨hpost, hnot⟩ := ih hi
      refine ⟨hpost, ?_⟩
      intro hd
      rcases hown i hd with hold | hold | hother
      · exact hnot hold
      · exact hold.2 hi
      · exact hother.2 i hpost rfl
    | client =>
      obtain ⟨hpost, hnot⟩ := ih hi
      exact ⟨mem_append_right _ hpost, hnot⟩
    | drop _ h hk =>
      rcases mem_cons.mp hi with rfl | hi
      · exact ⟨h, hk⟩
      · exact ih hi

end

theorem underWay {w : World σ ι α γ} {d : Config σ ι α} (hd : P.Reachable { w with service := d })
    (hs : P.service.Step w.service d)
    (hfresh : ∀ started returned i, P.service.allowed started returned i → i ∉ started) {i : ι}
    (hi : i ∈ w.posted) (h : i ∈ d.running.map Prod.fst ∨
      ∃ a, (i, a) ∈ d.returned ∧ (i, a) ∉ w.service.returned) : w.UnderWay i := by
  have hstarted : i ∈ d.started := by
    apply hd.service.calls_subperm.subset
    rcases h with h | ⟨a, h, -⟩
    · exact mem_append_left _ h
    · exact mem_append_right _ (mem_map_of_mem h)
  refine ⟨hi, fun hdrop => (hd.not_started_of_dropped hdrop).2 hstarted, ?_⟩
  intro hold
  rcases h with h | ⟨a, h, hnot⟩
  · exact hs.running_of_started hfresh hold h
  · exact hs.running_of_answered hfresh hold h hnot

theorem not_answered {w : World σ ι α γ} (hw : P.Reachable w) {n : ℕ} (hn : P.New w n) {i : ι} {a : α}
    (h : (i, a) ∈ w.service.returned) : P.name i ≠ n :=
  hn.2 i (hw.started_of_returned h)

theorem invariant {I : World σ ι α γ → Prop} (hinit : I P.start)
    (hservice : ∀ w d, P.Reachable w → P.Reachable { w with service := d } → P.service.Step w.service d →
      I w → I { w with service := d })
    (hclient : ∀ w requests g, P.Reachable w → P.moves w.service.returned w.client requests g →
      (∀ i ∈ requests, P.New w (P.name i)) → I w →
      I { w with posted := requests ++ w.posted, client := g })
    (hdrop : ∀ w i, P.Reachable w → i ∈ w.posted → I w → I { w with dropped := i :: w.dropped })
    {w : World σ ι α γ} (hw : P.Reachable w) : I w := by
  induction hw with
  | refl => exact hinit
  | @tail w _ hw hs ih =>
    have hnext := hw.tail hs
    cases hs with
    | service d h => exact hservice w d hw hnext h ih
    | client requests g h hnew => exact hclient w requests g hw h hnew ih
    | drop i h => exact hdrop w i hw h ih

end Reachable

theorem Run.of_service {c d : Config σ ι α} {posted dropped : List ι} {g : γ} (h : P.service.Run c d)
    (hown : ∀ i ∈ d.started, i ∈ c.started ∨ (i ∈ posted ∧ i ∉ dropped) ∨
      (P.others i ∧ ∀ j ∈ posted, P.name j ≠ P.name i)) :
    P.Run ⟨c, posted, dropped, g⟩ ⟨d, posted, dropped, g⟩ := by
  induction h with
  | refl => exact .refl
  | @tail e d hrun hs ih =>
    have hrun : P.service.Run c e := hrun
    refine (ih (fun i hi => hown i (hs.started_subset hi))).tail (.service ⟨e, posted, dropped, g⟩ d hs ?_)
    intro i hi
    rcases hown i hi with hold | hrest
    · exact .inl (hrun.started_subset hold)
    · exact .inr hrest

theorem Run.of_request {s : σ} {i : ι} {started posted dropped : List ι} {returned : List (ι × α)} {g : γ}
    (h : P.service.allowed started returned i) (hi : i ∈ posted) (hd : i ∉ dropped) :
    P.Run ⟨⟨s, [], started, returned⟩, posted, dropped, g⟩
      ⟨⟨((P.service.prog i).run s).2, [], i :: started, (i, ((P.service.prog i).run s).1) :: returned⟩,
        posted, dropped, g⟩ := by
  apply Run.of_service (System.Run.call h)
  intro j hj
  rcases mem_cons.mp hj with rfl | hj
  · exact .inr (.inl ⟨hi, hd⟩)
  · exact .inl hj

end Protocol

end WorkAgent.Library
