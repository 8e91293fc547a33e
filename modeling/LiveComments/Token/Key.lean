import LiveComments.Json.Reader

namespace LiveComments.Token

open Json (Draft)

def isNull : Draft → Bool
  | .atom (.ok .null) => true
  | _ => false

def isText : Draft → Bool
  | .text (.ok _) => true
  | _ => false

def isTexts : Draft → Bool
  | .arr ds => ds.all isText
  | _ => false

def nullOr (p : Draft → Bool) (d : Draft) : Bool := isNull d || p d

def choice? : Draft → Option String
  | .text name => name.toOption
  | .obj [(name, d)] => if isNull d then name.toOption else none
  | _ => none

namespace Key

def algorithms : List String :=
  ["HS256", "HS384", "HS512", "ES256", "ES384", "RS256", "RS384", "RS512", "PS256", "PS384",
    "PS512", "EdDSA", "RSA1_5", "RSA-OAEP", "RSA-OAEP-256"]

def curves : List String := ["P-256", "P-384", "P-521", "Ed25519"]

abbrev Parameters := List (String × Draft)

namespace Parameters

def values (ps : Parameters) (name : String) : List Draft :=
  (ps.filter (·.1 = name)).map (·.2)

def needs (ps : Parameters) (p : Draft → Bool) (name : String) : Bool :=
  match ps.values name with
  | [d] => p d
  | _ => false

def allows (ps : Parameters) (p : Draft → Bool) (name : String) : Bool :=
  (ps.values name).isEmpty || ps.needs (nullOr p) name

end Parameters

def isCurve (d : Draft) : Bool := (choice? d).any curves.contains

def isAlgorithm : Draft → Bool
  | .obj [(.ok name, .obj [])] => algorithms.contains name
  | d => (choice? d).any algorithms.contains

def common (ps : Parameters) : Bool :=
  ["use", "kid", "x5u", "x5t", "x5t#S256"].all (ps.allows isText) &&
    ["key_ops", "x5c"].all (ps.allows isTexts) && ps.allows isAlgorithm "alg"

def ofKind (ps : Parameters) : Bool :=
  let kind (name : String) := ps.needs (choice? · = some name) "kty"
  (kind "EC" && ps.needs isCurve "crv" && ps.needs isText "x" && ps.needs isText "y") ||
    (kind "RSA" && ps.needs isText "n" && ps.needs isText "e") ||
    (kind "oct" && ps.needs isText "k") ||
    (kind "OKP" && ps.needs isCurve "crv" && ps.needs isText "x")

end Key

def isKey (d : Draft) : Bool :=
  match d with
  | .obj ds =>
    let ps := ds.filterMap fun (name, d) => name.toOption.map (·, d)
    (d.settle (Draft.nesting - 1)).isSome && Key.common ps && Key.ofKind ps
  | _ => false

end LiveComments.Token
