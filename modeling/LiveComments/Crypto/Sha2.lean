namespace LiveComments.Crypto.Sha2

def isPrime (n : Nat) : Bool := 2 ≤ n && (List.range n).all fun d => d < 2 || n % d ≠ 0

def primes : List Nat := (List.range 410).filter isPrime

def root (power bits bound : Nat) : Nat :=
  (List.range bits).foldr (fun i r => if Nat.pow (r + Nat.pow 2 i) power ≤ bound then r + Nat.pow 2 i else r) 0

def rootFraction (power width n : Nat) : BitVec width :=
  BitVec.ofNat width (root power (width + 8) (n * Nat.pow 2 (power * width)))

structure Mix where
  first : Nat
  second : Nat
  third : Nat

structure Variant (width : Nat) where
  start : List (BitVec width)
  constants : List (BitVec width)
  large0 : Mix
  large1 : Mix
  small0 : Mix
  small1 : Mix
  words : Nat

variable {w : Nat}

def Mix.rotate (m : Mix) (x : BitVec w) : BitVec w :=
  x.rotateRight m.first ^^^ x.rotateRight m.second ^^^ x.rotateRight m.third

def Mix.shift (m : Mix) (x : BitVec w) : BitVec w :=
  x.rotateRight m.first ^^^ x.rotateRight m.second ^^^ (x >>> m.third)

def startWords (w : Nat) (ps : List Nat) : List (BitVec w) := ps.map (rootFraction 2 w)

def roundWords (w rounds : Nat) : List (BitVec w) :=
  (primes.take rounds).map (rootFraction 3 w)

def sha256 : Variant 32 where
  start := startWords 32 (primes.take 8)
  constants := roundWords 32 64
  large0 := ⟨2, 13, 22⟩
  large1 := ⟨6, 11, 25⟩
  small0 := ⟨7, 18, 3⟩
  small1 := ⟨17, 19, 10⟩
  words := 8

def sha512 : Variant 64 where
  start := startWords 64 (primes.take 8)
  constants := roundWords 64 80
  large0 := ⟨28, 34, 39⟩
  large1 := ⟨14, 18, 41⟩
  small0 := ⟨1, 8, 7⟩
  small1 := ⟨19, 61, 6⟩
  words := 8

def sha384 : Variant 64 :=
  { sha512 with start := startWords 64 ((primes.drop 8).take 8), words := 6 }

def bytesOf (count n : Nat) : List UInt8 :=
  (List.range count).map fun i => UInt8.ofNat (n / Nat.pow 256 (count - 1 - i))

def wordOf (bytes : List UInt8) : BitVec w :=
  BitVec.ofNat w (bytes.foldl (fun n b => n * 256 + b.toNat) 0)

def chunks {α : Type} (size : Nat) : Nat → List α → List (List α)
  | 0, _ => []
  | n + 1, xs => xs.take size :: chunks size n (xs.drop size)

def pad (w : Nat) (message : List UInt8) : List UInt8 :=
  let block := 2 * w
  let tail := w / 4
  let zeros := (block - (message.length + 1 + tail) % block) % block
  message ++ 0x80 :: List.replicate zeros 0 ++ bytesOf tail (message.length * 8)

def nextWord (v : Variant w) (recent : List (BitVec w)) : BitVec w :=
  v.small1.shift (recent.getD 1 0) + recent.getD 6 0 + v.small0.shift (recent.getD 14 0) +
    recent.getD 15 0

def schedule (v : Variant w) : Nat → List (BitVec w) → List (BitVec w)
  | 0, ws => ws
  | n + 1, ws => schedule v n (nextWord v ws :: ws)

structure Registers (w : Nat) where
  a : BitVec w
  b : BitVec w
  c : BitVec w
  d : BitVec w
  e : BitVec w
  f : BitVec w
  g : BitVec w
  h : BitVec w

def Registers.ofList (xs : List (BitVec w)) : Registers w :=
  ⟨xs.getD 0 0, xs.getD 1 0, xs.getD 2 0, xs.getD 3 0, xs.getD 4 0, xs.getD 5 0, xs.getD 6 0,
    xs.getD 7 0⟩

def Registers.toList (r : Registers w) : List (BitVec w) := [r.a, r.b, r.c, r.d, r.e, r.f, r.g, r.h]

def choose (x y z : BitVec w) : BitVec w := (x &&& y) ^^^ (~~~x &&& z)

def majority (x y z : BitVec w) : BitVec w := (x &&& y) ^^^ (x &&& z) ^^^ (y &&& z)

def round (v : Variant w) (r : Registers w) (k m : BitVec w) : Registers w :=
  let t1 := r.h + v.large1.rotate r.e + choose r.e r.f r.g + k + m
  let t2 := v.large0.rotate r.a + majority r.a r.b r.c
  ⟨t1 + t2, r.a, r.b, r.c, r.d + t1, r.e, r.f, r.g⟩

def compress (v : Variant w) (state : List (BitVec w)) (block : List UInt8) : List (BitVec w) :=
  let first : List (BitVec w) := (chunks (w / 8) 16 block).map wordOf
  let ws := (schedule v (v.constants.length - 16) first.reverse).reverse
  let r := (v.constants.zip ws).foldl (fun r (k, m) => round v r k m) (.ofList state)
  state.zipWith (· + ·) r.toList

def digest (v : Variant w) (message : List UInt8) : List UInt8 :=
  let padded := pad w message
  let blocks := chunks (2 * w) (padded.length / (2 * w)) padded
  ((blocks.foldl (compress v) v.start).take v.words).flatMap fun x => bytesOf (w / 8) x.toNat

end LiveComments.Crypto.Sha2
