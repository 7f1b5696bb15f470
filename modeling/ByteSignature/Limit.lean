/-!
# Resource limits

Building an automaton is bounded by the caller.  A bound that would be passed is
reported with the resource it guards, the bound, and the amount that was needed.
-/

namespace ByteSignature

/-- What a bound can guard. -/
inductive Resource where
  | nfaStates
  | dfaStates
  | tableStates
  | patternIds
  deriving DecidableEq, Repr

/-- The name of a resource in messages. -/
def Resource.name : Resource → String
  | .nfaStates => "NFA states"
  | .dfaStates => "DFA states"
  | .tableStates => "table states"
  | .patternIds => "pattern ids"

/-- A bound that was passed: `needed` is more than `limit`. -/
structure LimitExceeded where
  resource : Resource
  limit : Nat
  needed : Nat
  deriving DecidableEq, Repr

/-- The one-line report of a passed bound. -/
def LimitExceeded.message (excess : LimitExceeded) : String :=
  excess.resource.name ++ " limit exceeded: " ++ toString excess.needed ++ " > " ++
    toString excess.limit

/-- The number of state ids that fit into two bytes, the width of a table's state ids. -/
def tableStateSpace : Nat :=
  65536

end ByteSignature
