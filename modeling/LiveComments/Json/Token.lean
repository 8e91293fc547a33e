import LiveComments.Json.Numeral
import LiveComments.Text.Hex

/-!
Tokens of a JSON text. A text comes as symbols: characters, and gaps where its bytes make none. Each
scanner looks at what follows a first character and answers with the number of further symbols that
belong to the token.
-/

namespace LiveComments.Json

abbrev Symbol := Option Char

inductive Flaw where
  | atEnd
  | before
  deriving DecidableEq

/-- The value of a number, a word or a text. A number may be too large, and a text may have a gap or
half of a surrogate pair. -/
abbrev Leaf (α : Type) := Except Flaw α

inductive Token where
  | openItems
  | closeItems
  | openMembers
  | closeMembers
  | comma
  | colon
  | atom (value : Leaf Json)
  | text (value : Leaf String)

namespace Token

def isSpace (c : Symbol) : Bool :=
  c = some ' ' ∨ c = some '\t' ∨ c = some '\n' ∨ c = some '\r'

def word (rest : List Symbol) (spelling : String) (value : Json) : Option (Token × Nat) :=
  if (spelling.toList.map some).isPrefixOf rest then some (.atom (.ok value), spelling.length)
  else none

def digits : List Symbol → List Char
  | some c :: cs => if c.isDigit then c :: digits cs else []
  | _ => []

def fraction : List Symbol → Option (Option (List Char) × Nat)
  | some '.' :: cs =>
    let ds := digits cs
    if ds = [] then none else some (some ds, ds.length + 1)
  | _ => some (none, 0)

def sign : List Symbol → Bool × Nat
  | some '-' :: _ => (true, 1)
  | some '+' :: _ => (false, 1)
  | _ => (false, 0)

def exponent : List Symbol → Option (Option (Bool × List Char) × Nat)
  | [] => some (none, 0)
  | c :: cs =>
    if c = some 'e' ∨ c = some 'E' then
      let (down, k) := sign cs
      let ds := digits (cs.drop k)
      if ds = [] then none else some (some (down, ds), ds.length + k + 1)
    else some (none, 0)

def numeralValue (l : Numeral) : Leaf Json :=
  match l.value? with
  | some v => .ok v
  | none => .error (if l.overrun then .before else .atEnd)

def number (negative : Bool) (cs : List Symbol) : Option (Token × Nat) := do
  let whole := digits cs
  if whole = [] ∨ (whole.head? = some '0' ∧ whole ≠ ['0']) then none
  let rest := cs.drop whole.length
  let (fraction, j) ← fraction rest
  let (exponent, k) ← exponent (rest.drop j)
  return (.atom (numeralValue ⟨negative, whole, fraction, exponent⟩), whole.length + j + k)

def unit? (cs : List Symbol) : Option Nat :=
  cs.foldlM (fun n c => do return n * 16 + (← Text.hexValue? (← c))) 0

def simpleEscape : Char → Option Char
  | '"' => some '"'
  | '\\' => some '\\'
  | '/' => some '/'
  | 'b' => some '\x08'
  | 'f' => some '\x0c'
  | 'n' => some '\n'
  | 'r' => some '\r'
  | 't' => some '\t'
  | _ => none

inductive Piece where
  | symbol (c : Symbol)
  | unit (n : Nat)

def isControl (c : Symbol) : Bool := c.any (·.toNat < 0x20)

def pieces : List Symbol → Option (List Piece × Nat)
  | [] => none
  | some '"' :: _ => some ([], 1)
  | some '\\' :: some 'u' :: a :: b :: c :: d :: cs => do
    let n ← unit? [a, b, c, d]
    let (ps, k) ← pieces cs
    return (.unit n :: ps, k + 6)
  | some '\\' :: some c :: cs => do
    let e ← simpleEscape c
    let (ps, k) ← pieces cs
    return (.symbol (some e) :: ps, k + 2)
  | c :: cs => do
    if isControl c ∨ c = some '\\' then none
    let (ps, k) ← pieces cs
    return (.symbol c :: ps, k + 1)

/-- Joins surrogate pairs. A gap shows at the end; half of a pair shows at once, or, when the other
half is to follow, by the next piece. -/
def join : List Piece → Leaf (List Char)
  | [] => .ok []
  | .symbol none :: ps =>
    match join ps with
    | .ok _ => .error .atEnd
    | .error flaw => .error flaw
  | .symbol (some c) :: ps => (join ps).map (c :: ·)
  | .unit n :: ps =>
    if 0xd800 ≤ n ∧ n < 0xdc00 then
      match ps with
      | [] => .error .atEnd
      | .unit m :: qs =>
        if 0xdc00 ≤ m ∧ m < 0xe000 then
          (join qs).map (Char.ofNat (0x10000 + (n - 0xd800) * 0x400 + (m - 0xdc00)) :: ·)
        else .error .before
      | _ => .error .before
    else if 0xdc00 ≤ n ∧ n < 0xe000 then .error .before
    else (join ps).map (Char.ofNat n :: ·)

def scan (c : Char) (rest : List Symbol) : Option (Token × Nat) :=
  match c with
  | '[' => some (.openItems, 0)
  | ']' => some (.closeItems, 0)
  | '\x7b' => some (.openMembers, 0)
  | '\x7d' => some (.closeMembers, 0)
  | ',' => some (.comma, 0)
  | ':' => some (.colon, 0)
  | 'n' => word rest "ull" .null
  | 't' => word rest "rue" (.bool true)
  | 'f' => word rest "alse" (.bool false)
  | '"' => (pieces rest).map fun (ps, k) => (.text ((join ps).map String.ofList), k)
  | '-' => number true rest
  | c =>
    if c.isDigit then (number false (some c :: rest)).map fun (t, k) => (t, k - 1) else none

def tokens : Nat → List Symbol → Option (List Token)
  | _, [] => some []
  | k + 1, _ :: cs => tokens k cs
  | 0, c :: cs =>
    if isSpace c then tokens 0 cs else do
      let (t, k) ← scan (← c) cs
      return t :: (← tokens k cs)

end Token

end LiveComments.Json
