import LiveComments.Number.Binary64

namespace LiveComments.Binary64

def shift (num den : Nat) (e : Int) : Nat × Nat :=
  if 0 ≤ e then (num * Nat.pow 10 e.toNat, den) else (num, den * Nat.pow 10 (-e).toNat)

def leadingTen (num den : Nat) : Nat → Int → Int
  | 0, e => e
  | fuel + 1, e =>
    let s := shift num den (-(e + 1))
    if s.2 ≤ s.1 then leadingTen num den fuel (e + 1) else e

def readsBack (x : Binary64) (digits : Nat) (e : Int) : Bool :=
  let s := shift digits 1 e
  ofRatio x.negative s.1 s.2 = some x

def onGrid (x : Binary64) (top : Int) (n : Nat) : Option (Nat × Int) :=
  let a := x.magnitude
  let e := top - (n - 1 : Nat)
  let s := shift a.1 a.2 (-e)
  let low := s.1 / s.2
  match readsBack x low e, readsBack x (low + 1) e with
  | true, true => some (roundEven s.1 s.2, e)
  | true, false => some (low, e)
  | false, true => some (low + 1, e)
  | false, false => none

def trimZeros : Nat → Nat → Int → Nat × Int
  | 0, d, e => (d, e)
  | fuel + 1, d, e => if d ≠ 0 ∧ d % 10 = 0 then trimZeros fuel (d / 10) (e + 1) else (d, e)

def shortest (x : Binary64) : Nat × Int :=
  if x.isZero then (0, 0) else
  let a := x.magnitude
  let estimate := (leading a.1 a.2 - 4) * 30102 / 100000 - 3
  let top := leadingTen a.1 a.2 12 estimate
  match (List.range' 1 17).findSome? (onGrid x top) with
  | some (d, e) => trimZeros 18 d e
  | none => (0, 0)

def text (x : Binary64) : String :=
  let (d, e) := x.shortest
  let ds := Nat.toDigits 10 d
  let top : Int := e + ds.length - 1
  let body :=
    if d = 0 then ['0', '.', '0']
    else if top < -5 ∨ 15 < top then
      let mantissa := match ds with
        | [c] => [c]
        | c :: cs => c :: '.' :: cs
        | [] => []
      mantissa ++ ['e', if top < 0 then '-' else '+'] ++ Nat.toDigits 10 top.natAbs
    else if 0 ≤ e then ds ++ List.replicate e.toNat '0' ++ ['.', '0']
    else if top < 0 then ['0', '.'] ++ List.replicate (-top - 1).toNat '0' ++ ds
    else ds.take (top.toNat + 1) ++ ['.'] ++ ds.drop (top.toNat + 1)
  String.ofList (if x.negative then '-' :: body else body)

end LiveComments.Binary64
