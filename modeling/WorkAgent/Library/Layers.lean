import Mathlib.Order.Basic
import Mathlib.Data.Set.Insert

namespace WorkAgent.Library

structure Layering (L κ ν ι : Type) where
  rank : L → ι
  covers : L → κ → Prop
  value : L → ν
  before : L → κ → Option ν

namespace Layering

variable {L κ ν ι : Type} [LinearOrder ι] (G : Layering L κ ν ι) {S : Set L} {l m : L} {k : κ} {v : ν} {n : ι}

def Top (S : Set L) (k : κ) (l : L) : Prop := (l ∈ S ∧ G.covers l k) ∧ ∀ m ∈ S, G.covers m k → G.rank m ≤ G.rank l

def Shows (S : Set L) (k : κ) (v : ν) : Prop := ∃ l, G.Top S k l ∧ G.value l = v

def below (S : Set L) (n : ι) : Set L := {l | l ∈ S ∧ G.rank l < n}

def Stacked (S : Set L) : Prop :=
  ∀ l ∈ S, ∀ k, G.covers l k → ∀ v, G.before l k = some v ↔ G.Shows (G.below S (G.rank l)) k v

variable {G}

theorem shows_congr {T : Set L} (h : ∀ m, G.covers m k → (m ∈ S ↔ m ∈ T)) : G.Shows S k v ↔ G.Shows T k v := by
  have htop (l : L) : G.Top S k l ↔ G.Top T k l := by
    constructor
    · rintro ⟨⟨hl, hcovers⟩, hmax⟩
      refine ⟨⟨(h l hcovers).mp hl, hcovers⟩, ?_⟩
      intro m hm hmk
      exact hmax m ((h m hmk).mpr hm) hmk
    · rintro ⟨⟨hl, hcovers⟩, hmax⟩
      refine ⟨⟨(h l hcovers).mpr hl, hcovers⟩, ?_⟩
      intro m hm hmk
      exact hmax m ((h m hmk).mp hm) hmk
  unfold Shows
  simp only [htop]

section Push

variable (hnew : ∀ m ∈ S, G.rank m < G.rank l)
include hnew

theorem shows_push : G.Shows (insert l S) k v ↔ (G.covers l k ∧ G.value l = v) ∨ (¬ G.covers l k ∧ G.Shows S k v) := by
  by_cases hlk : G.covers l k
  · simp only [hlk, true_and, not_true, false_and, or_false]
    constructor
    · rintro ⟨m, ⟨⟨hm, -⟩, hmax⟩, rfl⟩
      rcases hm with rfl | hm
      · rfl
      · exact absurd (hmax l (Set.mem_insert l S) hlk) (not_le_of_gt (hnew m hm))
    · rintro rfl
      refine ⟨l, ⟨⟨Set.mem_insert l S, hlk⟩, ?_⟩, rfl⟩
      rintro m (rfl | hm) -
      · exact le_refl _
      · exact (hnew m hm).le
  · simp only [hlk, false_and, not_false_eq_true, true_and, false_or]
    apply shows_congr
    intro m hmk
    constructor
    · rintro (rfl | hm)
      · exact absurd hmk hlk
      · exact hm
    · exact Set.mem_insert_of_mem l

theorem below_push (hm : m ∈ S) : G.below (insert l S) (G.rank m) = G.below S (G.rank m) := by
  ext x
  constructor
  · rintro ⟨rfl | hx, hlt⟩
    · exact absurd hlt (hnew m hm).not_gt
    · exact ⟨hx, hlt⟩
  · rintro ⟨hx, hlt⟩
    exact ⟨Set.mem_insert_of_mem l hx, hlt⟩

theorem below_push_self : G.below (insert l S) (G.rank l) = S := by
  ext x
  constructor
  · rintro ⟨rfl | hx, hlt⟩
    · exact absurd hlt (lt_irrefl _)
    · exact hx
  · intro hx
    exact ⟨Set.mem_insert_of_mem l hx, hnew x hx⟩

theorem Stacked.push (h : G.Stacked S) (hbefore : ∀ k, G.covers l k → ∀ v, G.before l k = some v ↔ G.Shows S k v) :
    G.Stacked (insert l S) := by
  rintro m (rfl | hm) k hmk v
  · rw [below_push_self hnew]
    exact hbefore k hmk v
  · rw [below_push hnew hm]
    exact h m hm k hmk v

end Push

section Pop

variable (htop : ∀ k, G.covers l k → G.Top S k l)
include htop

theorem shows_pop (h : G.Stacked S) (hinj : ∀ m ∈ S, G.rank m = G.rank l → m = l) (hlk : G.covers l k) :
    G.Shows (S \ {l}) k v ↔ G.before l k = some v := by
  obtain ⟨⟨hl, -⟩, hmax⟩ := htop k hlk
  rw [h l hl k hlk v]
  apply shows_congr
  intro m hmk
  constructor
  · rintro ⟨hm, hne⟩
    refine ⟨hm, lt_of_le_of_ne (hmax m hm hmk) ?_⟩
    intro hrank
    exact hne (hinj m hm hrank)
  · rintro ⟨hm, hlt⟩
    refine ⟨hm, ?_⟩
    rintro rfl
    exact lt_irrefl _ hlt

omit htop in
theorem shows_pop_other (hlk : ¬ G.covers l k) : G.Shows (S \ {l}) k v ↔ G.Shows S k v := by
  apply shows_congr
  intro m hmk
  constructor
  · rintro ⟨hm, -⟩
    exact hm
  · intro hm
    refine ⟨hm, ?_⟩
    rintro rfl
    exact hlk hmk

theorem Stacked.pop (h : G.Stacked S) : G.Stacked (S \ {l}) := by
  rintro m ⟨hm, _⟩ k hmk v
  rw [h m hm k hmk v]
  apply shows_congr
  intro x hxk
  constructor
  · rintro ⟨hx, hlt⟩
    refine ⟨⟨hx, ?_⟩, hlt⟩
    rintro rfl
    exact absurd ((htop k hxk).2 m hm hmk) (not_le_of_gt hlt)
  · rintro ⟨⟨hx, -⟩, hlt⟩
    exact ⟨hx, hlt⟩

end Pop

end Layering

end WorkAgent.Library
