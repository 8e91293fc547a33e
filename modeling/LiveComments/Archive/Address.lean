import LiveComments.Text.Percent
import LiveComments.Url.Ipv6

namespace LiveComments.Archive.Address

open Text

def isPort (cs : List Char) : Bool := (unsigned? cs).any fun n => 0 < n && n < 65536

def isPortPart : List Char → Bool
  | [] => true
  | ':' :: cs => isPort cs
  | _ => false

def isServer (cs : List Char) : Bool :=
  if ".sock".toList.isSuffixOf cs || cs.contains ',' then false else
  match cs with
  | '[' :: cs =>
    match cut ']' cs with
    | (inner, some port) => Url.Ipv6.isAddress inner && isPortPart port
    | _ => false
  | _ =>
    let (name, port) := cut ':' cs
    !name.isEmpty && port.all isPort

def nameBreakers : List Char := ['/', '\\', ' ', '"', '$']

def isDatabase (cs : List Char) : Bool :=
  (Percent.text? cs).any fun name => name.toList.all fun c => !nameBreakers.contains c

abbrev Settings := List (String × String)

def lower (s : List Char) : String := (String.ofList s).toLower

def tags : String := "readpreferencetags"

def settings? (cs : List Char) : Option Settings := do
  let pairs := if cs.isEmpty then [] else (split '&' cs).map (cut '=')
  let once := (pairs.map (·.1)).filter (lower · ≠ tags)
  if !decide once.Nodup then none
  pairs.mapM fun (name, value) => do return (lower name, ← Percent.text? (← value))

def isMillis (s : String) : Bool := (below? (Nat.pow 2 64) s).isSome

def isBool (s : String) : Bool := s = "true" || s = "false"

def isPairs (s : String) : Bool :=
  (split ',' s.toList).all fun pair => (cut ':' pair).2.isSome

def isFilledPair (pair : List Char) : Bool :=
  match cut ':' pair with
  | (name, some value) => !name.isEmpty && !value.isEmpty && lower name ≠ "allowed_hosts"
  | _ => false

def isConcern (s : String) : Bool := (integer? s.toList).all fun n => 0 ≤ n || n < -Int.pow 2 31

def accepts (name value : String) : Bool :=
  match name with
  | "appname" | "readconcernlevel" => true
  | "authsource" => value ≠ ""
  | "authmechanismproperties" => (split ',' value.toList).all isFilledPair
  | "connecttimeoutms" | "localthresholdms" | "maxidletimems" | "sockettimeoutms"
  | "wtimeoutms" => isMillis value
  | "serverselectiontimeoutms" => isMillis value && below? (Nat.pow 2 64) value ≠ some 0
  | "heartbeatfrequencyms" => (below? (Nat.pow 2 64) value).any (500 ≤ ·)
  | "directconnection" | "journal" | "retrywrites" | "retryreads" => isBool value
  | "tls" | "ssl" | "loadbalanced" => value = "false"
  | "maxpoolsize" | "maxconnecting" => (below? (Nat.pow 2 32) value).any (0 < ·)
  | "minpoolsize" => (below? (Nat.pow 2 32) value).isSome
  | "maxstalenessseconds" => (int64? value).any (-1 ≤ ·)
  | "readpreference" =>
    ["primary", "primarypreferred", "secondary", "secondarypreferred", "nearest"].contains
      value.toLower
  | "readpreferencetags" => value = "" || isPairs value
  | "servermonitoringmode" => ["stream", "poll", "auto"].contains value.toLower
  | "uuidrepresentation" => ["csharplegacy", "javalegacy", "pythonlegacy"].contains value.toLower
  | "w" => isConcern value
  | _ => false

def value? (s : Settings) (name : String) : Option String :=
  (s.reverse.find? (·.1 = name)).map (·.2)

def narrowsReading (s : Settings) : Bool :=
  s.any fun (name, value) => name = tags || (name = "maxstalenessseconds" && value ≠ "-1")

def readsElsewhere (s : Settings) : Bool :=
  (value? s "readpreference").any (·.toLower ≠ "primary")

def agree (s : Settings) : Bool :=
  let number (name : String) := (value? s name).bind (below? (Nat.pow 2 32))
  s.all (fun (name, value) => accepts name value) &&
    (!narrowsReading s || readsElsewhere s) &&
    !(value? s "journal" = some "true" && ((value? s "w").bind int64?) = some 0) &&
    (match number "minpoolsize", number "maxpoolsize" with
    | some least, some most => least ≤ most
    | _, _ => true)

def isUsable (url : String) : Bool :=
  let start := "mongodb://".toList
  let (place, settings) := cut '?' (url.toList.drop start.length)
  let (server, database) := cut '/' place
  start.isPrefixOf url.toList && !place.contains '@' && isServer server &&
    (database.all isDatabase) && (settings? (settings.getD [])).any agree

end LiveComments.Archive.Address
