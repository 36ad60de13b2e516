import RouterCli.Text.Numeral

/-!
  RouterCli.Toml.Moment

  Dates, times of day, and both together, where the time may say how far its
  clock is from Greenwich.
-/

namespace RouterCli.Toml

/-- A number of exactly so many digits and at most `limit`, and what follows. -/
def takeNumber (count limit : Nat) (cs : List Char) : Option (Nat × List Char) :=
  let digits := cs.take count
  if digits.length = count && digits.all Char.isDigit then
    let n := Text.decimalValue digits
    if n ≤ limit then some (n, cs.drop count) else none
  else none

/-- The text behind a character that has to be there. -/
def expect (c : Char) : List Char → Option (List Char)
  | [] => none
  | d :: rest => if d = c then some rest else none

/-- How many days a month has. -/
def daysIn (year month : Nat) : Nat :=
  if month = 2 then
    if year % 4 = 0 && (year % 100 != 0 || year % 400 = 0) then 29 else 28
  else if month ∈ [4, 6, 9, 11] then 30
  else 31

/-- The text behind a date. -/
def takeDate (cs : List Char) : Option (List Char) := do
  let (year, cs) ← takeNumber 4 9999 cs
  let (month, cs) ← takeNumber 2 12 (← expect '-' cs)
  let (day, cs) ← takeNumber 2 (daysIn year month) (← expect '-' cs)
  if month = 0 || day = 0 then none else some cs

/-- The text behind the parts of a second, where a point announces them. -/
def takeFraction : List Char → Option (List Char)
  | '.' :: rest =>
    if rest.head?.any Char.isDigit then some (rest.dropWhile Char.isDigit) else none
  | cs => some cs

/-- The text behind a time of day. It may leave out the seconds; a minute may
    have one second too many. -/
def takeTime (cs : List Char) : Option (List Char) := do
  let (_, cs) ← takeNumber 2 23 cs
  let (_, cs) ← takeNumber 2 59 (← expect ':' cs)
  match cs with
  | ':' :: rest =>
    let (_, rest) ← takeNumber 2 60 rest
    takeFraction rest
  | _ => some cs

/-- Nothing, or the distance from Greenwich. -/
def isOffset : List Char → Bool
  | [] => true
  | ['Z'] | ['z'] => true
  | sign :: cs =>
    (sign == '+' || sign == '-') &&
      (((takeNumber 2 23 cs).bind fun (_, cs) => expect ':' cs).bind (takeNumber 2 59)).any
        (·.2.isEmpty)

/-- A date and nothing else. -/
def isDate (cs : List Char) : Bool :=
  (takeDate cs).any (·.isEmpty)

/-- A date, a time or both. -/
def isMoment (cs : List Char) : Bool :=
  match takeDate cs with
  | some [] => true
  | some (c :: time) => (c == 'T' || c == 't' || c == ' ') && (takeTime time).any isOffset
  | none => (takeTime cs).any (·.isEmpty)

end RouterCli.Toml
