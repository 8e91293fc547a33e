import LiveComments.Json.Reader
import LiveComments.Number.Shortest
import LiveComments.Text.Quoted

namespace LiveComments.Json

inductive Mismatch where
  | missing (name : String)
  | wrongType (found : Json) (wanted : String)
  | outOfRange (found : Int) (wanted : String)
  | tooShort (place : Nat) (record : String) (size : Nat)
  | tooLong (length : Nat) (size : Nat)

namespace Mismatch

def describe : Json → String
  | .null => "null"
  | .bool b => s!"boolean `{b}`"
  | .int n => s!"integer `{n}`"
  | .float x => s!"floating point `{x.text}`"
  | .str s => s!"string {Text.quoted s}"
  | .arr _ => "sequence"
  | .obj _ => "map"

def elements (n : Nat) : String := if n = 1 then "1 element" else s!"{n} elements"

inductive Style where
  | sized
  | plain
  deriving DecidableEq

def message (style : Style) : Mismatch → String
  | .missing name => s!"missing field `{name}`"
  | .wrongType found wanted => s!"invalid type: {describe found}, expected {wanted}"
  | .outOfRange found wanted => s!"invalid value: integer `{found}`, expected {wanted}"
  | .tooShort place record size =>
    s!"invalid length {place}, expected struct {record} with {elements size}"
  | .tooLong length size =>
    match style with
    | .sized => s!"invalid length {length}, expected {elements size} in sequence"
    | .plain => s!"invalid length {length}, expected fewer elements in array"

end Mismatch

abbrev Decoded (α : Type) := Except Mismatch α

def asString : Json → Decoded String
  | .str s => .ok s
  | v => .error (.wrongType v "a string")

def asInt64 : Json → Decoded Int
  | .int n => if Text.fitsInt64 n then .ok n else .error (.outOfRange n "i64")
  | v => .error (.wrongType v "i64")

def asWord64 : Json → Decoded Nat
  | .int n => if Text.fitsWord64 n then .ok n.toNat else .error (.outOfRange n "u64")
  | v => .error (.wrongType v "u64")

def asAny (v : Json) : Decoded Json := .ok v

def asOption {α : Type} (read : Json → Decoded α) : Json → Decoded (Option α)
  | .null => .ok none
  | v => (read v).map some

/-- A place in a value: first what is there, in order, then what is missing, in order. -/
abbrev Place := Nat

abbrev Ranked (α : Type) := Except (Place × Mismatch) α

def Ranked.both {α β : Type} (f : Ranked (α → β)) (x : Ranked α) : Ranked β :=
  match f, x with
  | .ok f, .ok x => .ok (f x)
  | .error e, .ok _ => .error e
  | .ok _, .error e => .error e
  | .error d, .error e => .error (if e.1 < d.1 then e else d)

structure Record (α : Type) where
  name : String
  size : Nat
  read : Origin → Ranked α

abbrev Fields (α : Type) := (record : String) → (size : Nat) → Origin → Ranked α

def indexed (name : String) : Nat → List (String × Json) → Option (Nat × Json)
  | _, [] => none
  | i, (k, v) :: rest => if k = name then some (i, v) else indexed name (i + 1) rest

def field {α : Type} (number : Nat) (name : String) (read : Json → Decoded α)
    (absent : Option α) : Fields α := fun record size origin =>
  match origin with
  | .object members =>
    match indexed name 0 members, absent with
    | some (i, v), _ => (read v).mapError (i, ·)
    | none, some a => .ok a
    | none, none => .error (members.length + number, .missing name)
  | .array items =>
    match items[number]?, absent with
    | some v, _ => (read v).mapError (number, ·)
    | none, some a => .ok a
    | none, none => .error (number, .tooShort number record size)

def Fields.pure {α : Type} (a : α) : Fields α := fun _ _ _ => .ok a

def Fields.and {α β : Type} (f : Fields (α → β)) (x : Fields α) : Fields β :=
  fun record size origin => Ranked.both (f record size origin) (x record size origin)

def Record.ofFields {α : Type} (name : String) (size : Nat) (fields : Fields α) : Record α where
  name := name
  size := size
  read := fun origin =>
    let r := fields name size origin
    match origin, r with
    | .array items, .ok _ =>
      if size < items.length then .error (size, .tooLong items.length size) else r
    | _, _ => r

def Record.decode {α : Type} (r : Record α) : Json → Decoded α
  | .obj members => (r.read (.object members)).mapError (·.2)
  | .arr items => (r.read (.array items)).mapError (·.2)
  | v => .error (.wrongType v s!"struct {r.name}")

def Record.ofText? {α : Type} (r : Record α) (names : List String) (cs : List Symbol) :
    Option α := do
  (r.read (← origin? names cs)).toOption

end LiveComments.Json
