import RouterCli.Matching.Classify

/-!
  RouterCli.Matching.Candidates

  Narrowing a list of commands by one typed word. `narrow` keeps the commands
  that fit the word best; `settle` asks whether those agree on what the word
  stands for.
-/

namespace RouterCli

/-- The commands that are still possible. -/
abbrev Candidates := List Element

namespace Candidates

-- ============================================================================
-- Narrowing
-- ============================================================================

/-- The strongest grade that a candidate gives the word. -/
def best (cs : Candidates) (index : Nat) (word : String) (min : Grade) : Grade :=
  Grade.strongest (cs.map (·.grade index word min))

/-- Keep the candidates that take the word at the threshold and, of those, the
    ones whose lenient grade reaches the strongest grade seen. That grade is
    returned with them. -/
def narrow (cs : Candidates) (index : Nat) (word : String) (min : Grade) :
    Grade × Candidates :=
  let best := cs.best index word min
  let fitting := cs.filter fun e => e.grade index word min != .noMatch
  if best = .noMatch then (.noMatch, fitting)
  else (best, fitting.filter fun e => decide (best ≤ e.grade index word .any))

-- ============================================================================
-- Agreement
-- ============================================================================

/-- Whether the candidates agree on a word. -/
inductive Agreement where
  /-- They read it alike. -/
  | unique
  /-- They read it as different keywords or ranges. -/
  | ambiguous
  /-- It only begins an address with a mask. -/
  | incomplete
deriving DecidableEq, Repr

/-- An atom takes the word at this very grade. An address with a mask is
    looked for in the word alone, so any atom will do. -/
def hits (grade : Grade) (word : String) (a : Atom) : Bool :=
  match grade with
  | .exact => !a.isVariable && a.text == word
  | .partly => !a.isVariable && Text.startsWith a.text word
  | .range =>
    match a.shape with
    | .range bounds => bounds.any (·.accepts word)
    | _ => false
  | .ipv6 => a.shape == .ipv6
  | .ipv4 => a.shape == .ipv4
  | .ipv6Prefix => Ipv6.walkPrefix word != .noMatch
  | .ipv4Prefix => Ipv4.walkPrefix word != .noMatch
  | .extend => a.isVariable
  | .noMatch | .any | .vararg => false

/-- All texts of a list are the same. -/
def allAlike : List String → Bool
  | [] => true
  | first :: rest => rest.all (· == first)

/-- What the candidates make of the word at the grade it got. -/
def agreement (cs : Candidates) (index : Nat) (word : String) (grade : Grade) : Agreement :=
  let atoms := cs.flatMap (·.atomsAt index)
  match grade with
  | .partly | .range =>
    if allAlike ((atoms.filter (hits grade word)).map (·.text)) then .unique else .ambiguous
  | .ipv6Prefix =>
    if !atoms.isEmpty && Ipv6.walkPrefix word == .partly then .incomplete else .unique
  | .ipv4Prefix =>
    if !atoms.isEmpty && Ipv4.walkPrefix word == .partly then .incomplete else .unique
  | _ => .unique

/-- Where the candidates agree, keep those that take the word at its grade;
    else keep them all. -/
def settle (cs : Candidates) (index : Nat) (word : String) (grade : Grade) :
    Agreement × Candidates :=
  match cs.agreement index word grade with
  | .unique => (.unique, cs.filter fun e => (e.atomsAt index).any (hits grade word))
  | other => (other, cs)

end Candidates

end RouterCli
