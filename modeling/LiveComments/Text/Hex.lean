namespace LiveComments.Text

def hexDigit (n : Nat) : Char := Nat.digitChar (n % 16)

def hexValue? (c : Char) : Option Nat :=
  if '0' ≤ c ∧ c ≤ '9' then some (c.toNat - 48)
  else if 'a' ≤ c ∧ c ≤ 'f' then some (c.toNat - 87)
  else if 'A' ≤ c ∧ c ≤ 'F' then some (c.toNat - 55)
  else none

def hex (n : Nat) : String := String.ofList (Nat.toDigits 16 n)

def isObjectId (s : String) : Bool :=
  s.toList.length = 24 && s.toList.all fun c => (hexValue? c).isSome

def lowerHex (c : Char) : Char :=
  if 'A' ≤ c ∧ c ≤ 'F' then Char.ofNat (c.toNat + 32) else c

def objectId? (s : String) : Option String :=
  if isObjectId s then some (String.ofList (s.toList.map lowerHex)) else none

end LiveComments.Text
