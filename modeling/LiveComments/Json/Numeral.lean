import LiveComments.Json.Basic
import LiveComments.Text.Digits

namespace LiveComments.Json

structure Numeral where
  negative : Bool
  whole : List Char
  fraction : Option (List Char)
  exponent : Option (Bool × List Char)

namespace Numeral

def word : Nat := Nat.pow 2 64 - 1

def accumulate : Nat → Nat → List Char → Nat × Nat × Bool
  | n, taken, [] => (n, taken, true)
  | n, taken, c :: cs =>
    let next := n * 10 + (c.toNat - 48)
    if word < next then (n, taken, false) else accumulate next (taken + 1) cs

/-- A word scaled by a power of ten, one rounding for each power the format can hold. -/
def scaled : Nat → Binary64 → Int → Option Binary64
  | 0, _, _ => none
  | fuel + 1, x, e =>
    if e.natAbs ≤ 308 then
      if 0 ≤ e then x.mul (Binary64.powerOfTen e.toNat)
      else x.div (Binary64.powerOfTen (-e).toNat)
    else if x.isZero then some x
    else if 0 ≤ e then none
    else match x.div (Binary64.powerOfTen 308) with
      | some y => scaled fuel y (e + 308)
      | none => none

def ofParts (negative : Bool) (n : Nat) (e : Int) : Option Json := do
  let x ← Binary64.ofInt n
  let y ← scaled 8 x e
  return .float { y with negative }

def largestExponent : Nat := Nat.pow 2 31 - 1

def value? (l : Numeral) : Option Json :=
  let (n, taken, all) := accumulate 0 0 l.whole
  match l.fraction, l.exponent, all with
  | none, none, true =>
    if !l.negative then some (.int n)
    else if n = 0 ∨ Nat.pow 2 63 < n then ofParts true n 0
    else some (.int (-(n : Int)))
  | fraction, exponent, _ =>
    let dropped : Int := (l.whole.length - taken : Nat)
    let (m, more, _) := accumulate n 0 (fraction.getD [])
    let e := dropped - more
    match exponent with
    | none => ofParts l.negative m e
    | some (down, ds) =>
      let k := Nat.ofDigitChars 10 ds 0
      if largestExponent < k then
        if m = 0 ∨ down then some (.float (Binary64.zero l.negative)) else none
      else ofParts l.negative m (if down then e - k else e + k)

def overrun (l : Numeral) : Bool :=
  match l.exponent with
  | some (_, ds) => largestExponent < Nat.ofDigitChars 10 ds.dropLast 0
  | none => false

end Numeral

end LiveComments.Json
