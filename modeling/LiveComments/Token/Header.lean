import LiveComments.Crypto.Hmac
import LiveComments.Text.Base64Url
import LiveComments.Text.Utf8
import LiveComments.Token.Key

namespace LiveComments.Token

def bytes (s : String) : List UInt8 := s.toUTF8.toList

def symbols? (cs : List Char) : Option (List Json.Symbol) :=
  (Text.Base64Url.decode? cs).map Utf8.decode

structure Parts where
  header : List Char
  claims : List Char
  signature : List Char

def Parts.signed (p : Parts) : List Char := p.header ++ '.' :: p.claims

def splitLast (cs : List Char) : Option (List Char × List Char) :=
  let tail := (cs.reverse.takeWhile (· ≠ '.')).reverse
  if tail.length < cs.length then some (cs.take (cs.length - tail.length - 1), tail) else none

def Parts.of? (token : String) : Option Parts := do
  let (message, signature) ← splitLast token.toList
  let (header, claims) ← splitLast message
  return ⟨header, claims, signature⟩

inductive Algorithm where
  | hs256
  | hs384
  | hs512
  | other
  deriving DecidableEq

namespace Algorithm

def ofName? : String → Option Algorithm
  | "HS256" => some hs256
  | "HS384" => some hs384
  | "HS512" => some hs512
  | "ES256" | "ES384" | "RS256" | "RS384" | "RS512" | "PS256" | "PS384" | "PS512" | "EdDSA" =>
    some other
  | _ => none

def sign? (a : Algorithm) (secret message : List UInt8) : Option (List UInt8) :=
  match a with
  | hs256 => some (Crypto.hmac Crypto.Sha2.sha256 secret message)
  | hs384 => some (Crypto.hmac Crypto.Sha2.sha384 secret message)
  | hs512 => some (Crypto.hmac Crypto.Sha2.sha512 secret message)
  | other => none

end Algorithm

def optionalText : List String := ["typ", "cty", "jku", "kid", "x5u", "x5t", "x5t#S256"]

def headerNames : List String :=
  ["typ", "alg", "cty", "jku", "jwk", "kid", "x5u", "x5c", "x5t", "x5t#S256"]

def algorithm? (cs : List Json.Symbol) : Option Algorithm := do
  let members ← match ← Json.Draft.of? cs with
    | .obj ds => Json.Draft.known? headerNames ds
    | .arr ds => if ds.length = headerNames.length then some (headerNames.zip ds) else none
    | _ => none
  let member (name : String) := (members.find? (·.1 = name)).map (·.2)
  let a ← Algorithm.ofName? (← choice? (← member "alg"))
  if optionalText.all (fun n => (member n).all (nullOr isText)) &&
      (member "x5c").all (nullOr isTexts) && (member "jwk").all (nullOr isKey) then
    some a
  else none

end LiveComments.Token
