import LiveComments.Text.Hex
import LiveComments.Time.Stamp

namespace LiveComments.Archive

inductive Value where
  | null
  | bool (b : Bool)
  | int (n : Int)
  | text (s : String)
  | objectId (hex : String)
  | time (ms : Int)
  | list (items : List Value)
  | document (fields : List (String × Value))
  | other
  deriving Inhabited

abbrev Document := List (String × Value)

namespace Document

def get? (d : Document) (name : String) : Option Value := (d.find? (·.1 = name)).map (·.2)

def text? (d : Document) (name : String) : Option String :=
  match get? d name with
  | some (.text s) => some s
  | _ => none

def int? (d : Document) (name : String) : Option Int :=
  match get? d name with
  | some (.int n) => some n
  | _ => none

def markers : List String :=
  ["$oid", "$symbol", "$numberInt", "$numberLong", "$numberDouble", "$numberDecimal",
    "$numberDecimalBytes", "$binary", "$uuid", "$code", "$scope", "$timestamp",
    "$regularExpression", "$dbPointer", "$date", "$minKey", "$maxKey", "$undefined"]

def marked? (d : Document) : Option (String × Value) := d.find? fun f => markers.contains f.1

def millis? : Value → Option Int
  | .int ms => some ms
  | .document [("$numberLong", .text s)] | .list [.text s] => Text.int64? s
  | .text s => (Stamp.parseStrict? s).map fun t => t.nanos.tdiv 1000000
  | _ => none

def time? (d : Document) (name : String) : Option Int :=
  match get? d name with
  | some (.time ms) => some ms
  | some (.document e) =>
    match marked? e with
    | some ("$date", v) => millis? v
    | _ => none
  | _ => none

def objectId? (d : Document) (name : String) : Option String :=
  match get? d name with
  | some (.objectId hex) => some hex
  | some (.document e) =>
    match marked? e with
    | some ("$oid", .text s) => Text.objectId? s
    | _ => none
  | _ => none

def keys (d : Document) : List String := d.map (·.1)

end Document

end LiveComments.Archive
