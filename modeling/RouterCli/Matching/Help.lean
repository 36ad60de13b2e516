import RouterCli.Matching.Resolve
import RouterCli.Line

/-!
  RouterCli.Matching.Help

  What may follow the words typed so far: the list behind the question mark,
  and the completion behind the tabulator. Both narrow the commands by the
  finished words, then look at the level under the cursor.
-/

namespace RouterCli

-- ============================================================================
-- Help
-- ============================================================================

/-- The text that stands for the end of a command. -/
def endOfCommandText : String := "<cr>"

/-- One entry of a help list. -/
inductive HelpItem where
  | token (alternative : Alternative)
  | endOfCommand
deriving DecidableEq, Repr

namespace HelpItem

/-- The token's text, or that of the end of a command. -/
def text : HelpItem → String
  | token a => a.text
  | endOfCommand => endOfCommandText

/-- The token's line of help. -/
def doc : HelpItem → String
  | token a => a.doc
  | endOfCommand => ""

end HelpItem

/-- Keep the first of the items of one text. -/
def distinctBy {α : Type} (key : α → String) : List α → List α
  | [] => []
  | a :: rest => a :: (distinctBy key rest).filter (key · != key a)

/-- A token is offered where the word under the cursor might become it. -/
def offersHelp (word : Option String) (t : Token) : Bool :=
  match t with
  | .optional .. => true
  | .bare a =>
    match a.shape with
    | .vararg | .variable => true
    | .range bounds => word.all fun w => bounds.any (·.accepts w)
    | .ipv6 => word.all fun w => Ipv6.walk w != .noMatch
    | .ipv6Prefix => word.all fun w => Ipv6.walkPrefix w != .noMatch
    | .ipv4 => word.all fun w => Ipv4.walk w != .noMatch
    | .ipv4Prefix => word.all fun w => Ipv4.walkPrefix w != .noMatch
    | .keyword => word.all fun w => Text.startsWith a.text w

/-- The entries of one command at the cursor. A command that is not shown has
    none. -/
def helpOf (index : Nat) (current : Option String) (e : Element) : List HelpItem :=
  if !e.isVisible then []
  else
    match e.level? index with
    | some level => (level.filter (offersHelp current ·.token)).map .token
    | none => if current.isNone && index = e.levels.length then [.endOfCommand] else []

/-- The entries behind a free text: the last tokens of the commands, and the
    end. -/
def helpAfterVararg (cs : Candidates) : List HelpItem :=
  cs.flatMap (fun e => (e.levels.getLast?.getD []).map .token) ++ [.endOfCommand]

/-- List what may come next. -/
def describe (elements : List Element) (line : PartialLine) :
    Except CommandError (List HelpItem) := do
  let found ← scan .any 0 elements line.words
  if found.atVararg then
    return distinctBy HelpItem.text (helpAfterVararg found.survivors)
  let cs :=
    match line.current with
    | some word => (found.survivors.narrow line.index word .any).2
    | none => found.survivors
  match distinctBy HelpItem.text (cs.flatMap (helpOf line.index line.current)) with
  | [] => throw .noMatch
  | items => return items

-- ============================================================================
-- Completion
-- ============================================================================

/-- What becomes of the word under the cursor. -/
inductive Completion where
  /-- One keyword fits, and takes the word's place. -/
  | full (keyword : String)
  /-- Several keywords go on alike, and the word grows to where they part. -/
  | shared (start : String)
  | choices (keywords : List String)
deriving DecidableEq, Repr

/-- Only keywords outside of brackets are completed. -/
def completes (word : Option String) (t : Token) : Bool :=
  !(t.isOptional || t.isVariable || t.isVararg) && word.all (Text.startsWith t.text ·)

/-- Narrow the candidates by each word, as far as they agree on it. A word that
    only begins an address changes nothing. -/
def scanTyped (index : Nat) (cs : Candidates) :
    List String → Except CommandError Candidates
  | [] => .ok cs
  | word :: rest =>
    let (grade, kept) := cs.narrow index word .any
    match kept.settle index word grade with
    | (.ambiguous, _) => .error .ambiguous
    | (_, left) => scanTyped (index + 1) left rest

/-- The keywords that fit at the cursor, each once. -/
def keywordsAt (cs : Candidates) (index : Nat) (current : Option String) : List String :=
  distinctBy id <|
    cs.flatMap fun e =>
      match e.level? index with
      | some level => (level.filter (completes current ·.token)).map (·.text)
      | none => []

/-- The bytes that two neighbours share from the front, at their least. -/
def neighbourBytes : List String → Nat
  | s :: t :: u :: rest =>
    min (Text.byteLength (Text.commonStart s.toList t.toList)) (neighbourBytes (t :: u :: rest))
  | [s, t] => Text.byteLength (Text.commonStart s.toList t.toList)
  | _ => 0

/-- Complete the word under the cursor. Where several keywords fit, the word grows
    to as many bytes of the first of them as any two neighbours share, if these are
    more than it has. -/
def complete (elements : List Element) (line : PartialLine) :
    Except CommandError Completion := do
  let cs ← scanTyped 0 elements line.words
  match keywordsAt cs line.index line.current with
  | [] => throw (if line.current.isNone then .nothingToDo else .noMatch)
  | [keyword] => return .full keyword
  | first :: second :: rest =>
    let shared := neighbourBytes (first :: second :: rest)
    if line.current.any fun word => 0 < shared && word.utf8ByteSize < shared then
      return .shared (String.ofList (Text.takeBytes shared first.toList))
    else return .choices (first :: second :: rest)

end RouterCli
