import Mathlib.Tactic.Common

namespace WorkAgent.Library

inductive Json (σ ν : Type)
  | null
  | bool (b : Bool)
  | number (n : ν)
  | string (s : σ)
  | array (items : List (Json σ ν))
  | object (fields : List (σ × Json σ ν))

namespace Json

variable {σ ν : Type} [DecidableEq σ]

def field (key : σ) : Json σ ν → Option (Json σ ν)
  | .object fields => fields.lookup key
  | _ => none

def isNull : Json σ ν → Bool
  | .null => true
  | _ => false

end Json

end WorkAgent.Library
