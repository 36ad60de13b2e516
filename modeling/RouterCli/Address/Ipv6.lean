import RouterCli.Address.Ipv4
import RouterCli.Text.Hex

/-!
  RouterCli.Address.Ipv6

  IPv6 literals: the text form of RFC 4291 (groups of up to four hexadecimal
  digits, one `::`, an IPv4 tail, no zone), and looser walks over a word that
  is still being typed.
-/

namespace RouterCli.Ipv6

open RouterCli.Text (isHexDigit)

-- ============================================================================
-- The text form
-- ============================================================================

/-- Take `c` off the front. -/
def expect (c : Char) : List Char → Option (List Char)
  | d :: rest => if d = c then some rest else none
  | [] => none

/-- Take a group: one to four hexadecimal digits, and no fifth. -/
def takeGroup (cs : List Char) : Option (List Char) :=
  let digits := cs.takeWhile isHexDigit
  if digits.length = 0 || digits.length > 4 then none
  else some (cs.dropWhile isHexDigit)

/-- Take an octet: one to three digits without a leading zero, at most 255. -/
def takeOctet (cs : List Char) : Option (List Char) :=
  let digits := cs.takeWhile Char.isDigit
  if digits.length = 0 || digits.length > 3 then none
  else if digits.length > 1 && digits.head? == some '0' then none
  else if Text.decimalValue digits > 255 then none
  else some (cs.dropWhile Char.isDigit)

/-- Take a dotted quad. -/
def takeQuad (cs : List Char) : Option (List Char) := do
  let cs ← takeOctet cs
  let cs ← expect '.' cs >>= takeOctet
  let cs ← expect '.' cs >>= takeOctet
  expect '.' cs >>= takeOctet

/-- Groups taken from the front of a text. -/
structure Groups where
  /-- How many groups; a dotted quad counts as two. -/
  count : Nat
  endsInQuad : Bool
  rest : List Char
deriving Repr, DecidableEq

/-- Take up to `room` groups with colons between them, the last of which may
    be a dotted quad where two groups fit. -/
def takeGroups (first : Bool) : Nat → List Char → Groups
  | 0, cs => ⟨0, false, cs⟩
  | room + 1, cs =>
    let body := if first then some cs else expect ':' cs
    match (if room ≥ 1 then body >>= takeQuad else none) with
    | some rest => ⟨2, true, rest⟩
    | none =>
      match body >>= takeGroup with
      | none => ⟨0, false, cs⟩
      | some rest =>
        let more := takeGroups false room rest
        ⟨more.count + 1, more.endsInQuad, more.rest⟩

/-- The whole text is an IPv6 address in text form: eight groups, or fewer
    with `::` standing for at least one. -/
def isLiteral (cs : List Char) : Bool :=
  let head := takeGroups true 8 cs
  if head.count = 8 then head.rest.isEmpty
  else if head.endsInQuad then false
  else
    match expect ':' head.rest >>= expect ':' with
    | none => false
    | some rest => (takeGroups true (8 - (head.count + 1)) rest).rest.isEmpty

-- ============================================================================
-- Walks
-- ============================================================================

/-- What the next character of a walk is read as. -/
inductive Expecting where
  | colon
  /-- The second colon of `::`. -/
  | double
  | address
  | dot
  | slash
deriving Repr, DecidableEq

/-- A walk under way. -/
structure Walk where
  expecting : Expecting
  /-- Colons counted; one below zero at the start of `::`. -/
  colons : Int
  groups : Nat
  doubled : Bool
  /-- Characters since the last colon, the latest first. -/
  group : List Char
deriving Repr, DecidableEq

namespace Walk

/-- The walk before its first character: a colon must be one of two, or all
    there is so far. -/
def start? : List Char → Option Walk
  | ':' :: next :: _ => if next = ':' then some ⟨.colon, -1, 0, false, []⟩ else none
  | [':'] => some ⟨.colon, -1, 0, false, []⟩
  | _ => some ⟨.address, 0, 0, false, []⟩

/-- No more than `maxGroups` groups and seven colons. -/
def within (maxGroups : Nat) (w : Walk) : Bool :=
  w.groups ≤ maxGroups && w.colons ≤ 7

/-- One character of an address, knowing the next one. -/
def step (w : Walk) (c : Char) (next : Option Char) : Option Walk :=
  match w.expecting with
  | .colon =>
    if next = some ':' then some { w with expecting := .double, colons := w.colons + 1 }
    else some { w with expecting := .address, colons := w.colons + 1, group := [] }
  | .double =>
    if w.doubled || next == some ':' then none
    else some
      { expecting := .address
        colons := if next.isSome then w.colons + 1 else w.colons
        groups := w.groups + 1
        doubled := true
        group := [] }
  | .address =>
    let group := c :: w.group
    if next = some ':' || next = none then
      if group.length > 4 then none
      else some { w with expecting := .colon, groups := w.groups + 1, group }
    else if next = some '.' then some { w with expecting := .dot, group }
    else some { w with group }
  | .dot | .slash => some { w with expecting := .address, group := c :: w.group }

/-- One character of an address before its mask, knowing the next one. -/
def stepPrefix (w : Walk) (c : Char) (next : Option Char) : Option Walk :=
  match w.expecting with
  | .colon =>
    if next = some '/' then none
    else if next = some ':' then some { w with expecting := .double, colons := w.colons + 1 }
    else some { w with expecting := .address, colons := w.colons + 1, group := [] }
  | .double =>
    if w.doubled || next == some ':' then none
    else some
      { expecting := if next = some '/' then .slash else .address
        colons := if next = none || next = some '/' then w.colons else w.colons + 1
        groups := w.groups + 1
        doubled := true
        group := [] }
  | .address =>
    let group := c :: w.group
    let ended := fun expecting =>
      if group.length > 4 || group.contains '/' then none
      else some { w with expecting, groups := w.groups + 1, group }
    match next with
    | none => ended .address
    | some ':' => ended .colon
    | some '.' => ended .dot
    | some '/' => ended .slash
    | some _ => some { w with group }
  | .dot | .slash => some { w with expecting := .address, group := c :: w.group }

end Walk

/-- Walk the rest of an address. What survives to its end is accepted. -/
def walkFrom (w : Walk) : List Char → Grade
  | [] => .exact
  | c :: rest =>
    match w.step c rest.head? with
    | none => .noMatch
    | some w => if w.within 8 then walkFrom w rest else .noMatch

/-- The characters of an address, a zone's percent sign among them. -/
def isAddressChar (c : Char) : Bool :=
  isHexDigit c || c == ':' || c == '.' || c == '%'

/-- Walk an address `X:X::X:X`. -/
def walk (word : String) : Grade :=
  let cs := word.toList
  if !cs.all isAddressChar then .noMatch
  else if isLiteral cs then .exact
  else
    match Walk.start? cs with
    | none => .noMatch
    | some w => walkFrom w cs

/-- The longest mask of an IPv6 address. -/
def maskLimit : Nat := 128

/-- Walk the rest of an address towards its mask. -/
def walkPrefixFrom (w : Walk) : List Char → Grade
  | [] => .partly
  | c :: rest =>
    if w.expecting = .slash then
      if rest.isEmpty then .partly
      else if w.within 11 && Ipv4.isMask maskLimit rest then .exact
      else .noMatch
    else
      match w.stepPrefix c rest.head? with
      | none => .noMatch
      | some w => if w.within 11 then walkPrefixFrom w rest else .noMatch

/-- Walk an address with a mask, `X:X::X:X/M`. -/
def walkPrefix (word : String) : Grade :=
  let cs := word.toList
  if !cs.all (fun c => isAddressChar c || c == '/') then .noMatch
  else
    match Walk.start? cs with
    | none => .noMatch
    | some w => walkPrefixFrom w cs

end RouterCli.Ipv6
