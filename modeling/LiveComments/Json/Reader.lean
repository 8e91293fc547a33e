import LiveComments.Json.Token

/-!
Reading JSON. A text is first a draft, whose leaves may have no value and whose objects may repeat a
name; only what is asked for is settled.
-/

namespace LiveComments.Json

inductive Draft where
  | atom (value : Leaf Json)
  | text (value : Leaf String)
  | arr (items : List Draft)
  | obj (members : List (Leaf String × Draft))

namespace Draft

mutual

def value : Nat → List Token → Option (Draft × List Token)
  | 0, _ => none
  | fuel + 1, ts =>
    match ts with
    | .atom v :: ts => some (.atom v, ts)
    | .text s :: ts => some (.text s, ts)
    | .openItems :: .closeItems :: ts => some (.arr [], ts)
    | .openItems :: ts => (items fuel ts).map fun (ds, ts) => (.arr ds, ts)
    | .openMembers :: .closeMembers :: ts => some (.obj [], ts)
    | .openMembers :: ts => (members fuel ts).map fun (ds, ts) => (.obj ds, ts)
    | _ => none

def items : Nat → List Token → Option (List Draft × List Token)
  | 0, _ => none
  | fuel + 1, ts => do
    let (d, ts) ← value fuel ts
    match ts with
    | .comma :: ts => (items fuel ts).map fun (ds, ts) => (d :: ds, ts)
    | .closeItems :: ts => some ([d], ts)
    | _ => none

def members : Nat → List Token → Option (List (Leaf String × Draft) × List Token)
  | 0, _ => none
  | fuel + 1, ts =>
    match ts with
    | .text name :: .colon :: ts => do
      let (d, ts) ← value fuel ts
      match ts with
      | .comma :: ts => (members fuel ts).map fun (ds, ts) => ((name, d) :: ds, ts)
      | .closeMembers :: ts => some ([(name, d)], ts)
      | _ => none
    | _ => none

end

def of? (cs : List Symbol) : Option Draft := do
  let ts ← Token.tokens 0 cs
  match ← value (2 * ts.length + 2) ts with
  | (d, []) => some d
  | _ => none

def replace (name : String) (v : Json) : List (String × Json) → List (String × Json)
  | [] => [(name, v)]
  | (k, w) :: rest => if k = name then (k, v) :: rest else (k, w) :: replace name v rest

mutual

def settle : Nat → Draft → Option Json
  | _, .atom v => v.toOption
  | _, .text s => s.toOption.map .str
  | 0, .arr _ => none
  | depth + 1, .arr ds => (settleItems depth ds).map .arr
  | 0, .obj _ => none
  | depth + 1, .obj ds => (settleMembers depth ds []).map .obj

def settleItems : Nat → List Draft → Option (List Json)
  | _, [] => some []
  | depth, d :: ds => do return (← settle depth d) :: (← settleItems depth ds)

def settleMembers : Nat → List (Leaf String × Draft) → List (String × Json) →
    Option (List (String × Json))
  | _, [], done => some done
  | depth, (name, d) :: ds, done => do
    let v ← settle depth d
    settleMembers depth ds (replace (← name.toOption) v done)

end

def nesting : Nat := 127

def known? (names : List String) (ds : List (Leaf String × Draft)) :
    Option (List (String × Draft)) :=
  ds.foldlM (fun done (name, d) => do
    let name ← name.toOption
    if !names.contains name then return done
    if done.any (·.1 = name) then none
    return done ++ [(name, d)]) []

end Draft

/-- Reads a text as one value: nothing before or after it but spaces, the last of equal names
counts, and containers nest to a fixed depth. -/
def read? (s : String) : Option Json := do
  (← Draft.of? (s.toList.map some)).settle Draft.nesting

inductive Origin where
  | object (members : List (String × Json))
  | array (items : List Json)

/-- What a text holds for a record with the given names: an object may repeat other names and hold
anything under them, and each of the given names may come once. -/
def origin? (names : List String) (cs : List Symbol) : Option Origin := do
  let depth := Draft.nesting - 1
  match ← Draft.of? cs with
  | .obj ds =>
    let known ← Draft.known? names ds
    return .object (← known.mapM fun (name, d) => do return (name, ← d.settle depth))
  | .arr ds => return .array (← Draft.settleItems depth ds)
  | _ => none

end LiveComments.Json
