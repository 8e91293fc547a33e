import LiveComments.Text.Hex
import LiveComments.Text.Utf8

namespace LiveComments.Percent

def byte? (kept : UInt8 → Bool) (a b : Char) : Option UInt8 := do
  let byte := UInt8.ofNat (16 * (← Text.hexValue? a) + (← Text.hexValue? b))
  if kept byte then none else some byte

def bytes (kept : UInt8 → Bool) : List Char → List UInt8
  | [] => []
  | '%' :: a :: b :: cs =>
    match byte? kept a b with
    | some byte => byte :: bytes kept cs
    | none => 0x25 :: bytes kept (a :: b :: cs)
  | c :: cs => Utf8.encode c ++ bytes kept cs
termination_by cs => cs.length

def decoded (kept : UInt8 → Bool) (cs : List Char) : List Char := Utf8.lossy (bytes kept cs)

def text? (cs : List Char) : Option String :=
  String.fromUTF8? ⟨(bytes (fun _ => false) cs).toArray⟩

def encodeByte (b : UInt8) : List Char :=
  ['%', upperDigit (b.toNat / 16), upperDigit (b.toNat % 16)]
where
  upperDigit (n : Nat) : Char := (Text.hexDigit n).toUpper

def encode (special : Char → Bool) (cs : List Char) : List Char :=
  cs.flatMap fun c =>
    if c.toNat < 0x80 && !special c then [c] else (Utf8.encode c).flatMap encodeByte

end LiveComments.Percent
