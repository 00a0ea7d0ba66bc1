import Mathlib.Data.String.Basic

namespace WorkAgent.Harness

def codeUnits (text : String) : ℕ := text.toList.foldl (fun n c => n + if c.toNat < 0x10000 then 1 else 2) 0

def isSpace (c : Char) : Bool :=
  c ∈ ['\t', '\n', '\u000b', '\u000c', '\r', ' ', '\u00a0', '\u1680', '\u2028', '\u2029', '\u202f', '\u205f', '\u3000',
    '\ufeff'] ∨ (0x2000 ≤ c.toNat ∧ c.toNat ≤ 0x200a)

structure UUID where
  text : String
  length : text.length = 36
  deriving DecidableEq

theorem UUID.length_toList (uuid : UUID) : uuid.text.toList.length = 36 := by
  rw [String.length_toList]
  exact uuid.length

theorem UUID.eq_of_text {u v : UUID} (h : u.text = v.text) : u = v := by
  cases u
  cases v
  cases h
  rfl

end WorkAgent.Harness
