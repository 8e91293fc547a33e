import LiveComments.Text.Digits
import LiveComments.Text.Split

namespace LiveComments.Http

structure Response where
  status : Nat
  rest : List UInt8
  body : List UInt8
  location : Option String

namespace Response

def line? (bs : List UInt8) : Option (List Char × List UInt8) :=
  let line := bs.takeWhile (· ≠ 10)
  match bs.drop line.length with
  | [] => none
  | _ :: rest =>
    let line := if line.getLast? = some 13 then line.dropLast else line
    some (line.map fun b => Char.ofNat b.toNat, rest)

def isPlain (c : Char) : Bool := c = '\t' || (0x20 ≤ c.toNat && c ≠ '\x7f')

def version? : List Char → Option (List Char)
  | 'H' :: 'T' :: 'T' :: 'P' :: '/' :: '1' :: '.' :: v :: ' ' :: cs =>
    if v = '0' ∨ v = '1' then some cs else none
  | _ => none

def status? (line : List Char) : Option Nat := do
  let cs ← version? line
  let phrase := cs.drop 3
  if (phrase.isEmpty || phrase.head? = some ' ') && phrase.all isPlain && 3 ≤ cs.length then
    Text.natural? (cs.take 3)
  else none

def isNameChar (c : Char) : Bool := c.isAlphanum || c ∈ "!#$%&'*+-.^_`|~".toList

def header? (line : List Char) : Option (String × String) :=
  match Text.cut ':' line with
  | (name, some value) =>
    let isOuter (c : Char) : Bool := c = ' ' || c = '\t'
    let value := ((value.dropWhile isOuter).reverse.dropWhile isOuter).reverse
    if !name.isEmpty && name.all isNameChar && value.all isPlain then
      some ((String.ofList name).toLower, String.ofList value)
    else none
  | _ => none

def headers? : Nat → List UInt8 → Option (List (String × String) × List UInt8)
  | 0, _ => none
  | fuel + 1, bs => do
    let (line, rest) ← line? bs
    if line.isEmpty then return ([], rest)
    let header ← header? line
    let (headers, rest) ← headers? fuel rest
    return (header :: headers, rest)

def length? (headers : List (String × String)) : Option (Option Nat) :=
  match (headers.filter (·.1 = "content-length")).map fun h => Text.natural? h.2.toList with
  | [] => some none
  | n :: ns => if ns.all (· = n) then n.map some else none

/-- Empty lines before an answer do not count. A body without a length ends where the connection
does, and one that is broken off before its length is lost. -/
def parse? (bs : List UInt8) : Option Response := do
  let bs := bs.dropWhile fun b => b = 10 || b = 13
  let (line, rest) ← line? bs
  let status ← status? line
  let (headers, rest) ← headers? bs.length rest
  let body := match ← length? headers with
    | some n => if n ≤ rest.length then rest.take n else []
    | none => rest
  return ⟨status, rest, body, (headers.find? (·.1 = "location")).map (·.2)⟩

end Response

end LiveComments.Http
