/-!
Finite binary floating point numbers of 64 bits, with exact rational arithmetic behind every
rounding: to nearest, ties to the even significand.
-/

namespace LiveComments

/-- `significand * 2 ^ exponent`, negated when `negative` holds. -/
structure Binary64 where
  negative : Bool
  significand : Nat
  exponent : Int
  deriving DecidableEq

namespace Binary64

def zero (negative : Bool) : Binary64 := ⟨negative, 0, 0⟩

def isZero (x : Binary64) : Bool := x.significand = 0

def roundEven (num den : Nat) : Nat :=
  let q := num / den
  let r := num % den
  if 2 * r < den then q else if den < 2 * r then q + 1 else q + q % 2

def scale (num den : Nat) (e : Int) : Nat × Nat :=
  if 0 ≤ e then (num, den * Nat.pow 2 e.toNat) else (num * Nat.pow 2 (-e).toNat, den)

def leading (num den : Nat) : Int :=
  let e : Int := num.log2 - den.log2
  let s := scale num den e
  if s.2 ≤ s.1 then e else e - 1

def ofRatio (negative : Bool) (num den : Nat) : Option Binary64 :=
  if num = 0 then some (zero negative) else
  let e := max (leading num den - 52) (-1074)
  let s := scale num den e
  let m := roundEven s.1 s.2
  if m = 0 then some (zero negative)
  else if m = Nat.pow 2 53 then
    if e + 1 ≤ 971 then some ⟨negative, Nat.pow 2 52, e + 1⟩ else none
  else if e ≤ 971 then some ⟨negative, m, e⟩ else none

def magnitude (x : Binary64) : Nat × Nat :=
  if 0 ≤ x.exponent then (x.significand * Nat.pow 2 x.exponent.toNat, 1)
  else (x.significand, Nat.pow 2 (-x.exponent).toNat)

def ofInt (n : Int) : Option Binary64 := ofRatio (n < 0) n.natAbs 1

def mul (x y : Binary64) : Option Binary64 :=
  let a := x.magnitude
  let b := y.magnitude
  ofRatio (x.negative != y.negative) (a.1 * b.1) (a.2 * b.2)

def div (x y : Binary64) : Option Binary64 :=
  let a := x.magnitude
  let b := y.magnitude
  ofRatio (x.negative != y.negative) (a.1 * b.2) (a.2 * b.1)

def signed (x : Binary64) (n : Nat) : Int := if x.negative then -(n : Int) else n

def integer? (x : Binary64) : Option Int :=
  let a := x.magnitude
  if a.1 % a.2 = 0 then some (x.signed (a.1 / a.2)) else none

def roundAway (x : Binary64) : Int :=
  let a := x.magnitude
  x.signed ((2 * a.1 + a.2) / (2 * a.2))

def powerOfTen (e : Nat) : Binary64 := (ofRatio false (Nat.pow 10 e) 1).getD (zero false)

end Binary64

end LiveComments
