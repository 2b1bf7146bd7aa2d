/-!
# Cancellation

A run is cancelled through a token. Copies of a token share its flag, and a flag that is set
stays set.
-/

namespace MarkupRepair

/-- A set of tokens. -/
structure CancelTokens where
  /-- Whether each flag is set. -/
  flags : List Bool := [false]
  /-- The flag of each token. -/
  tokens : List Nat := [0]
  deriving DecidableEq, Repr

namespace CancelTokens

/-- Add a token with a flag of its own. -/
def add (s : CancelTokens) : CancelTokens :=
  ⟨s.flags ++ [false], s.tokens ++ [s.flags.length]⟩

/-- Add a copy of a token. -/
def clone? (s : CancelTokens) (token : Nat) : Option CancelTokens :=
  (s.tokens[token]?).map fun flag => { s with tokens := s.tokens ++ [flag] }

/-- Set the flag of a token. -/
def cancel? (s : CancelTokens) (token : Nat) : Option CancelTokens :=
  (s.tokens[token]?).map fun flag => { s with flags := s.flags.set flag true }

/-- Whether each token is cancelled. -/
def states (s : CancelTokens) : List Bool := s.tokens.map fun flag => s.flags.getD flag false

end CancelTokens

end MarkupRepair
