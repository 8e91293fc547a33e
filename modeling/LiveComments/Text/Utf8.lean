namespace LiveComments.Utf8

def encode (c : Char) : List UInt8 := (String.singleton c).toUTF8.toList

def continuation (low high : UInt8) (b : UInt8) : Bool := low ≤ b && b ≤ high

def lead (b : UInt8) : Option (Nat × UInt8 × UInt8) :=
  if b < 0x80 then some (0, 0, 0)
  else if 0xc2 ≤ b ∧ b ≤ 0xdf then some (1, 0x80, 0xbf)
  else if b = 0xe0 then some (2, 0xa0, 0xbf)
  else if b = 0xed then some (2, 0x80, 0x9f)
  else if 0xe1 ≤ b ∧ b ≤ 0xef then some (2, 0x80, 0xbf)
  else if b = 0xf0 then some (3, 0x90, 0xbf)
  else if 0xf1 ≤ b ∧ b ≤ 0xf3 then some (3, 0x80, 0xbf)
  else if b = 0xf4 then some (3, 0x80, 0x8f)
  else none

def followers : Nat → UInt8 → UInt8 → List UInt8 → List UInt8
  | 0, _, _, _ => []
  | n + 1, low, high, b :: bs =>
    if continuation low high b then b :: followers n 0x80 0xbf bs else []
  | _, _, _, [] => []

def codePoint (first : UInt8) (rest : List UInt8) : Nat :=
  let start := match rest.length with
    | 0 => first.toNat
    | 1 => first.toNat % 32
    | 2 => first.toNat % 16
    | _ => first.toNat % 8
  rest.foldl (fun n b => n * 64 + b.toNat % 64) start

def decode : List UInt8 → List (Option Char)
  | [] => []
  | b :: bs =>
    match lead b with
    | none => none :: decode bs
    | some (n, low, high) =>
      let more := followers n low high bs
      let c := if more.length = n then some (Char.ofNat (codePoint b more)) else none
      c :: decode (bs.drop more.length)
termination_by bs => bs.length
decreasing_by all_goals simp; try omega

def replacement : Char := Char.ofNat 0xfffd

def lossy (bs : List UInt8) : List Char := (decode bs).map (·.getD replacement)

end LiveComments.Utf8
