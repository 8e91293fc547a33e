namespace LiveComments.Text

def natural? (cs : List Char) : Option Nat :=
  if cs ≠ [] ∧ cs.all Char.isDigit then some (Nat.ofDigitChars 10 cs 0) else none

def integer? : List Char → Option Int
  | '-' :: cs => (natural? cs).map fun n => -(n : Int)
  | '+' :: cs => (natural? cs).map fun n => (n : Int)
  | cs => (natural? cs).map fun n => (n : Int)

def unsigned? : List Char → Option Nat
  | '+' :: cs => natural? cs
  | cs => natural? cs

def minInt64 : Int := -Int.pow 2 63

def maxInt64 : Int := Int.pow 2 63 - 1

def maxWord64 : Int := Int.pow 2 64 - 1

def fitsInt64 (n : Int) : Bool := minInt64 ≤ n && n ≤ maxInt64

def fitsWord64 (n : Int) : Bool := 0 ≤ n && n ≤ maxWord64

def clampInt64 (n : Int) : Int := max minInt64 (min n maxInt64)

def int64? (s : String) : Option Int := (integer? s.toList).filter fitsInt64

def below? (bound : Nat) (s : String) : Option Nat := (unsigned? s.toList).filter (· < bound)

def padded (width n : Nat) : String :=
  let ds := toString n
  String.ofList (List.replicate (width - ds.length) '0') ++ ds

end LiveComments.Text
