import Mathlib.Data.Nat.Notation

namespace WorkAgent.Library

def isSpace (c : Char) : Bool :=
  c ∈ ['\t', '\n', '\u000b', '\u000c', '\r', ' ', '\u0085', '\u00a0', '\u1680', '\u2028', '\u2029', '\u202f', '\u205f', '\u3000'] ∨
    (0x2000 ≤ c.toNat ∧ c.toNat ≤ 0x200a)

def blank (text : String) : Bool := text.toList.all isSpace

def cleaned (rooted : Bool) : List String → List String → List String
  | kept, [] => kept
  | kept, "" :: rest => cleaned rooted kept rest
  | kept, "." :: rest => cleaned rooted kept rest
  | [], ".." :: rest => cleaned rooted (if rooted then [] else [".."]) rest
  | ".." :: kept, ".." :: rest => cleaned rooted (".." :: ".." :: kept) rest
  | _ :: kept, ".." :: rest => cleaned rooted kept rest
  | kept, name :: rest => cleaned rooted (name :: kept) rest

def clean (path : String) : String :=
  let rooted := "/".toList.isPrefixOf path.toList
  let kept := String.intercalate "/" (cleaned rooted [] ((path.toList.splitOn '/').map String.ofList)).reverse
  if rooted then "/" ++ kept else if kept = "" then "." else kept

open List

theorem intercalate_append (x : Char) {front back : List (List Char)} (h : front ≠ []) (h' : back ≠ []) :
    [x].intercalate (front ++ back) = [x].intercalate front ++ x :: [x].intercalate back := by
  induction front with
  | nil => exact absurd rfl h
  | cons _ rest ih =>
    cases rest with
    | nil =>
      rw [singleton_append, intercalate_cons_of_ne_nil h', intercalate_singleton]
      simp
    | cons =>
      rw [cons_append, cons_append, intercalate_cons_cons, ← cons_append, ih (by simp),
        intercalate_cons_cons]
      simp

end WorkAgent.Library
