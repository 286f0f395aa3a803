import GraphQL.Number

/-!
# Dates and times

Instants as milliseconds since the beginning of 1970 in universal time, read from the internet date
and time format, such as `2020-02-29T12:30:00.5+01:00`. The calendar is the Gregorian one, extended
to all years. The 60th second of a minute is a leap second: a second after its 59th.
-/

namespace GraphQL.DateTime

/-- What is wrong with a date and time. -/
inductive ParseError where
  | tooShort
  | invalid
  | outOfRange
  | tooLong
deriving DecidableEq, Repr

/-- The message of an error. -/
def ParseError.message : ParseError → String
  | .tooShort => "premature end of input"
  | .invalid => "input contains invalid characters"
  | .outOfRange => "input is out of range"
  | .tooLong => "trailing input"

/-- The instants, in milliseconds, that a timestamp can denote. -/
def isInRange (millis : Int) : Bool := -8334601228800000 ≤ millis && millis ≤ 8210266876799999

/-- Whether a year has a leap day. -/
def isLeapYear (year : Nat) : Bool := year % 4 == 0 && (year % 100 != 0 || year % 400 == 0)

/-- The number of days of a month. -/
def daysInMonth (year month : Nat) : Nat :=
  if month = 2 then (if isLeapYear year then 29 else 28)
  else if month = 4 ∨ month = 6 ∨ month = 9 ∨ month = 11 then 30
  else 31

/-- Whether there is such a date. -/
def isDate (year month day : Nat) : Bool :=
  1 ≤ month && month ≤ 12 && 1 ≤ day && day ≤ daysInMonth year month

/-- The days of the years before the given one, counted from the year 0. -/
def daysBeforeYear (year : Nat) : Int :=
  365 * (year : Int) + ((year + 3) / 4 : Nat) - ((year + 99) / 100 : Nat) + ((year + 399) / 400 : Nat)

/-- The days of the first months of a year, as many as asked for. -/
def daysOfMonths (year : Nat) : Nat → Nat
  | 0 => 0
  | months + 1 => daysOfMonths year months + daysInMonth year (months + 1)

/-- The days from the beginning of 1970 to a date. -/
def daysFromEpoch (year month day : Nat) : Int :=
  daysBeforeYear year - daysBeforeYear 1970 + (daysOfMonths year (month - 1) + (day - 1) : Nat)

/-- A byte as an ASCII character. -/
def isByte (c : Char) (byte : UInt8) : Bool := byte.toNat == c.toNat

/-- The value of a digit. -/
def digit? (byte : UInt8) : Option Nat :=
  if '0'.toNat ≤ byte.toNat ∧ byte.toNat ≤ '9'.toNat then some (byte.toNat - '0'.toNat) else none

/-- Takes as many digits as asked for. -/
def digits : Nat → Nat → List UInt8 → Except ParseError (Nat × List UInt8)
  | 0, n, bytes => .ok (n, bytes)
  | count + 1, n, byte :: rest =>
      match digit? byte with
      | some d => digits count (10 * n + d) rest
      | none => .error .invalid
  | _ + 1, _, [] => .error .invalid

/-- Takes one of the given characters. -/
def oneOf (chars : List Char) : List UInt8 → Except ParseError (List UInt8)
  | byte :: rest => if chars.any (isByte · byte) then .ok rest else .error .invalid
  | [] => .error .invalid

/-- Takes a fraction of a second, as nanoseconds, if there is one. Digits after the ninth do not
count. -/
def fraction : List UInt8 → Except ParseError (Nat × List UInt8)
  | byte :: rest =>
      if isByte '.' byte then
        let ds := (rest.takeWhile fun b => (digit? b).isSome).filterMap digit?
        match rest, ds with
        | [], _ => .error .tooShort
        | _, [] => .error .invalid
        | _, _ =>
            let nine := (ds ++ List.replicate 9 0).take 9
            .ok (nine.foldl (fun n d => 10 * n + d) 0, rest.drop ds.length)
      else .ok (0, byte :: rest)
  | [] => .ok (0, [])

/-- The two digits of the hours or minutes of an offset, if there are two bytes. -/
def offsetDigits (limit : Nat) : List UInt8 → Except ParseError (Nat × List UInt8)
  | a :: b :: rest =>
      match digit? a, digit? b with
      | some x, some y => if limit < 10 * x + y then .error .outOfRange else .ok (10 * x + y, rest)
      | _, _ => .error .invalid
  | _ => .error .tooShort

/-- Takes the sign of an offset. The minus sign may be U+2212 too. -/
def offsetSign : List UInt8 → Except ParseError (Int × List UInt8)
  | [] => .error .tooShort
  | 0xE2 :: 0x88 :: 0x92 :: rest => .ok (-1, rest)
  | byte :: rest =>
      if isByte '+' byte then .ok (1, rest)
      else if isByte '-' byte then .ok (-1, rest)
      else .error .invalid

/-- Takes an offset from universal time, in seconds: a letter for none, or sign, hours and minutes. -/
def offset (bytes : List UInt8) : Except ParseError (Int × List UInt8) := do
  match bytes with
  | byte :: rest =>
      if isByte 'Z' byte || isByte 'z' byte then return (0, rest)
  | [] => pure ()
  let (sign, bytes) ← offsetSign bytes
  let (hours, bytes) ← offsetDigits 99 bytes
  match bytes with
  | [] => throw .tooShort
  | byte :: rest =>
      if isByte ':' byte then
        let (minutes, bytes) ← offsetDigits 59 rest
        return (sign * (3600 * hours + 60 * minutes : Nat), bytes)
      else throw .invalid

/-- Reads a date and time and gives the instant in milliseconds, rounded down. -/
def parse (text : String) : Except ParseError Int := do
  let bytes := text.toUTF8.toList
  if bytes.length < 19 then throw .tooShort
  let (year, bytes) ← digits 4 0 bytes
  let bytes ← oneOf ['-'] bytes
  let (month, bytes) ← digits 2 0 bytes
  let bytes ← oneOf ['-'] bytes
  let (day, bytes) ← digits 2 0 bytes
  unless isDate year month day do throw .outOfRange
  let bytes ← oneOf ['T', 't', ' '] bytes
  let (hour, bytes) ← digits 2 0 bytes
  let bytes ← oneOf [':'] bytes
  let (minute, bytes) ← digits 2 0 bytes
  let bytes ← oneOf [':'] bytes
  let (second, bytes) ← digits 2 0 bytes
  let (nanos, bytes) ← fraction bytes
  if 23 < hour ∨ 59 < minute ∨ 60 < second then throw .outOfRange
  let (offset, bytes) ← offset bytes
  unless bytes.isEmpty do throw .tooLong
  if 24 * 3600 ≤ offset.natAbs then throw .outOfRange
  let seconds := 86400 * daysFromEpoch year month day + (3600 * hour + 60 * minute + second : Nat)
  return 1000 * (seconds - offset) + (nanos / 1000000 : Nat)

/-- The days before 1970 and before 1600 differ by 370 years with 90 leap days. -/
example : daysFromEpoch 1970 1 1 = 0 ∧ daysFromEpoch 1600 1 1 = -(365 * 370 + 90) ∧
    daysFromEpoch 2000 3 1 = 11017 := by decide

end GraphQL.DateTime
