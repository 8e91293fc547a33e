import LiveComments.Json.Reader

/-!
The claims of a token. They are read twice: once for the user and the expiry, which must have
values, and once for the claims that any token may have. One of those without a value counts as
absent, as long as its reading comes to its end all the same.
-/

namespace LiveComments.Token

open Json (Draft Leaf)

structure Claims where
  user : Option Json
  expiry : Option Json
  audience : Option Json

namespace Claims

def leafEnds {α : Type} : Leaf α → Bool
  | .error .before => false
  | _ => true

def timeEnds : Draft → Bool
  | .atom v => leafEnds v
  | .text s => leafEnds s
  | .arr ds => ds.isEmpty
  | .obj ds => ds.isEmpty

def textEnds : Draft → Bool
  | .atom v => leafEnds v
  | .text s => leafEnds s
  | _ => false

mutual

/-- Whether the reading of a value in full ends: only what comes last in it may have no value. -/
def valueEnds : Nat → Draft → Bool
  | _, .atom v => leafEnds v
  | _, .text s => leafEnds s
  | 0, _ => false
  | depth + 1, .arr ds => itemsEnd depth ds
  | depth + 1, .obj ds => membersEnd depth ds

def itemsEnd : Nat → List Draft → Bool
  | _, [] => true
  | depth, [d] => valueEnds depth d
  | depth, d :: ds => (d.settle depth).isSome && itemsEnd depth ds

def membersEnd : Nat → List (Leaf String × Draft) → Bool
  | _, [] => true
  | depth, [(name, d)] => name.toOption.isSome && valueEnds depth d
  | depth, (name, d) :: ds =>
    name.toOption.isSome && (d.settle depth).isSome && membersEnd depth ds

end

def depth : Nat := Draft.nesting - 1

def common : List String := ["exp", "nbf", "sub", "iss", "aud"]

def ends (name : String) (d : Draft) : Bool :=
  match name with
  | "exp" | "nbf" => timeEnds d
  | "sub" => textEnds d
  | _ => valueEnds depth d

def of? (cs : List Json.Symbol) : Option Claims := do
  match ← Draft.of? cs with
  | .obj ds =>
    let needed ← Draft.known? ["user_id", "exp"] ds
    let values ← needed.mapM fun (name, d) => do return (name, ← d.settle depth)
    let common ← Draft.known? common ds
    if !common.all fun (name, d) => ends name d then none
    let audience := (common.find? (·.1 = "aud")).bind fun (_, d) => d.settle depth
    return ⟨Json.member? "user_id" values, Json.member? "exp" values, audience⟩
  | _ => none

def hasAudience (c : Claims) : Bool :=
  match c.audience with
  | some (.str _) => true
  | some (.arr items) => items.all fun j => j.string?.isSome
  | _ => false

end Claims

end LiveComments.Token
