import LiveComments.Text.Blank
import LiveComments.Text.Digits
import LiveComments.Time.Calendar

namespace LiveComments

structure Stamp where
  -- since 1970-01-01T00:00:00Z
  nanos : Int
  deriving DecidableEq, Inhabited

namespace Stamp

open Time Text

def ofMicros (us : Int) : Stamp := ⟨us * 1000⟩

def ofMillis (ms : Int) : Stamp := ⟨ms * 1000000⟩

def seconds (t : Stamp) : Int := t.nanos / 1000000000

def millis (t : Stamp) : Int := t.nanos / 1000000

def addMillis (t : Stamp) (ms : Int) : Stamp := ⟨t.nanos + ms * 1000000⟩

/-- Cut to whole milliseconds, as long as the nanoseconds fit 64 bits. -/
def cutToMillis (t : Stamp) : Stamp :=
  if fitsInt64 t.nanos then ofMillis t.millis else t

def firstYear : Int := -262143

def lastYear : Int := 262142

def firstMilli : Int := -8334601228800000

def lastMilli : Int := 8210266876799999

def inRange (t : Stamp) : Bool := firstMilli ≤ t.millis && t.millis ≤ lastMilli

def yearText (y : Int) : String :=
  if 0 ≤ y ∧ y ≤ 9999 then padded 4 y.toNat
  else (if y < 0 then "-" else "+") ++ padded 4 y.natAbs

def fractionText (nanos : Nat) : String :=
  if nanos = 0 then ""
  else if nanos % 1000000 = 0 then "." ++ padded 3 (nanos / 1000000)
  else if nanos % 1000 = 0 then "." ++ padded 6 (nanos / 1000)
  else "." ++ padded 9 nanos

def text (t : Stamp) : String :=
  let s := t.seconds
  let d := Date.ofDays (s / 86400)
  let inDay := (s % 86400).toNat
  let clock := [inDay / 3600, inDay / 60 % 60, inDay % 60].map (padded 2)
  yearText d.year ++ "-" ++ padded 2 d.month ++ "-" ++ padded 2 d.day ++ "T" ++
    ":".intercalate clock ++ fractionText (t.nanos % 1000000000).toNat ++ "Z"

def digits (most : Nat) (cs : List Char) : Option (Nat × List Char) :=
  let cs := trimStart cs
  let ds := (cs.take most).takeWhile Char.isDigit
  (natural? ds).map (·, cs.drop ds.length)

def year (cs : List Char) : Option (Int × List Char) :=
  match trimStart cs with
  | '-' :: rest => if rest.head?.any Char.isDigit then
      (digits rest.length rest).map fun (n, rest) => (-(n : Int), rest) else none
  | '+' :: rest => if rest.head?.any Char.isDigit then
      (digits rest.length rest).map fun (n, rest) => ((n : Int), rest) else none
  | rest => (digits 4 rest).map fun (n, rest) => ((n : Int), rest)

def mark (c : Char) (cs : List Char) : Option (List Char) :=
  match trimStart cs with
  | d :: rest => if c = d then some rest else none
  | [] => none

def fraction (cs : List Char) : Option (Nat × List Char) :=
  match cs with
  | '.' :: rest =>
    let ds := rest.takeWhile Char.isDigit
    let nine := (ds.take 9) ++ List.replicate (9 - ds.length) '0'
    if ds = [] then none else (natural? nine).map (·, rest.dropWhile Char.isDigit)
  | _ => some (0, cs)

def two : List Char → Option (Nat × List Char)
  | a :: b :: rest => (natural? [a, b]).map (·, rest)
  | _ => none

def zone (cs : List Char) : Option (Int × List Char) :=
  match cs with
  | 'Z' :: rest | 'z' :: rest => some (0, rest)
  | sign :: rest =>
    if sign ≠ '+' ∧ sign ≠ '-' ∧ sign ≠ '−' then utc (sign :: rest) else do
      let (h, rest) ← two rest
      let (m, rest) ← two (rest.dropWhile fun c => c = ':' || isBlank c)
      if 60 ≤ m then none
      let east : Int := h * 3600 + m * 60
      if 86400 ≤ east then none
      return (if sign = '+' then east else -east, rest)
  | [] => none
where
  utc : List Char → Option (Int × List Char)
    | u :: t :: c :: rest =>
      if u.toLower = 'u' ∧ t.toLower = 't' ∧ c.toLower = 'c' then some (0, rest) else none
    | _ => none

/-- Reads a date, a time of day and a zone, with `T`, `t` or a blank between date and time. Both the
date as it is written and the point in time must be in range. -/
def parse? (s : String) : Option Stamp := do
  let (y, cs) ← year s.toList
  let cs ← mark '-' cs
  let (month, cs) ← digits 2 cs
  let cs ← mark '-' cs
  let (day, cs) ← digits 2 cs
  let cs ← match cs with
    | c :: cs => if c = 'T' ∨ c = 't' ∨ c = ' ' then some cs else none
    | [] => none
  let (h, cs) ← digits 2 cs
  let cs ← mark ':' cs
  let (m, cs) ← digits 2 cs
  let cs ← mark ':' cs
  let (sec, cs) ← digits 2 cs
  let (nano, cs) ← fraction cs
  let (east, cs) ← zone (trimStart cs)
  let date : Date := ⟨y, month, day⟩
  let t : Stamp := ⟨(date.toDays * 86400 + h * 3600 + m * 60 + sec - east) * 1000000000 + nano⟩
  let representable := firstYear ≤ y ∧ y ≤ lastYear ∧ t.inRange
  if date.valid ∧ h < 24 ∧ m < 60 ∧ sec < 60 ∧ trimStart cs = [] ∧ representable then some t
  else none

def exactly (width : Nat) (cs : List Char) : Option (Nat × List Char) :=
  if width ≤ cs.length then (natural? (cs.take width)).map (·, cs.drop width) else none

def plainMark (c : Char) : List Char → Option (List Char)
  | d :: cs => if c = d then some cs else none
  | [] => none

def strictZone : List Char → Option Int
  | ['Z'] | ['z'] => some 0
  | sign :: cs => do
    let (h, cs) ← exactly 2 cs
    let (m, cs) ← exactly 2 (← plainMark ':' cs)
    let east : Int := h * 3600 + m * 60
    if h < 24 ∧ m < 60 ∧ cs.isEmpty then
      if sign = '+' then some east else if sign = '-' then some (-east) else none
    else none
  | [] => none

def endsMonth (t : Stamp) : Bool :=
  let next := t.nanos + 1
  next % (86400 * 1000000000) = 0 && (Date.ofDays (next / (86400 * 1000000000))).day = 1

/-- Reads a time whose numbers all have their full width, with one character of any kind between
date and time. A second 60 may end a month, and stands for the last nanosecond before it. -/
def parseStrict? (s : String) : Option Stamp := do
  let (y, cs) ← exactly 4 s.toList
  let (month, cs) ← exactly 2 (← plainMark '-' cs)
  let (day, cs) ← exactly 2 (← plainMark '-' cs)
  let (h, cs) ← exactly 2 (cs.drop 1)
  let (m, cs) ← exactly 2 (← plainMark ':' cs)
  let (sec, cs) ← exactly 2 (← plainMark ':' cs)
  let (nano, cs) ← fraction cs
  let east ← strictZone cs
  let date : Date := ⟨y, month, day⟩
  if !(date.valid ∧ h < 24 ∧ m < 60) then none
  let minute := date.toDays * 86400 + h * 3600 + m * 60 - east
  if sec < 60 then return ⟨(minute + sec) * 1000000000 + nano⟩
  let t : Stamp := ⟨(minute + 60) * 1000000000 - 1⟩
  if sec = 60 ∧ t.endsMonth then return t else none

end Stamp

end LiveComments
