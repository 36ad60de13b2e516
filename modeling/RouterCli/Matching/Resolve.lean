import RouterCli.Matching.Candidates
import RouterCli.Outcome

/-!
  RouterCli.Matching.Resolve

  From the words of a line to the one command it means, and the words that
  become its arguments.
-/

namespace RouterCli

/-- The word that runs the rest of a line as a privileged command. -/
def doWord : String := "do"

/-- The first word asks to run the rest of the line at the ENABLE node. At
    that node and at those below it the word has no such meaning. -/
def isShortcut (node : NodeId) (first : Option String) : Bool :=
  first == some doWord && node ∉ [NodeId.auth, .view, .authEnable, .enable]

/-- The thresholds: a configuration text is read strictly, a user leniently. -/
def threshold (strict : Bool) : Grade :=
  if strict then .exact else .any

/-- What the words of a line leave. -/
structure Scan where
  /-- The commands that took every word so far. -/
  survivors : Candidates
  index : Nat
  /-- The last word read begins free text, which ends the reading. -/
  atVararg : Bool
deriving DecidableEq, Repr

/-- Narrow the candidates by each word in turn, from `index` on. -/
def scan (min : Grade) (index : Nat) (cs : Candidates) :
    List String → Except CommandError Scan
  | [] => .ok ⟨cs, index, false⟩
  | word :: rest =>
    let (grade, kept) := cs.narrow index word min
    if grade = .vararg then .ok ⟨kept, index, true⟩
    else
      match kept.settle index word grade with
      | (.ambiguous, _) => .error .ambiguous
      | (.incomplete, _) => .error .noMatch
      | (.unique, agreed) => scan min (index + 1) agreed rest

/-- The one command that may end here. Survivors whose mandatory words have not
    all been typed count as begun only. -/
def Scan.select (s : Scan) : Except CommandError Element :=
  match s.survivors.filter fun e => s.atVararg || e.mandatory ≤ s.index with
  | [e] => .ok e
  | [] => .error (if s.survivors.isEmpty then .noMatch else .incomplete)
  | _ => .error .ambiguous

/-- The words handed to the command: those at placeholders, in brackets and at
    alternatives, and everything from a free text on. -/
def arguments : List Level → List String → List String
  | _, [] => []
  | [], words => words
  | level :: levels, word :: rest =>
    match level with
    | [a] =>
      if a.token.isVararg then word :: rest
      else if a.token.isVariable || a.token.isOptional then word :: arguments levels rest
      else arguments levels rest
    | _ => word :: arguments levels rest

/-- A command and its arguments. -/
structure Resolved where
  element : Element
  arguments : List String
deriving DecidableEq, Repr

/-- Find the command that the words mean. Fewer than `maxArguments` arguments
    are allowed. -/
def resolve (elements : List Element) (words : List String) (strict : Bool)
    (maxArguments : Nat) : Except CommandError Resolved := do
  let found ← scan (threshold strict) 0 elements words
  let element ← found.select
  let args := arguments element.levels words
  if !words.isEmpty && maxArguments ≤ args.length then
    throw .tooManyArguments
  return ⟨element, args⟩

end RouterCli
