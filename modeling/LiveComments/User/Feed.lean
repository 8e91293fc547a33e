import LiveComments.Fault
import LiveComments.Text.Form
import LiveComments.Url.Basic
import LiveComments.User.Source

namespace LiveComments.Feed

def versions : List String := ["2", "resp2", "3", "resp3"]

def isNumber (s : String) : Bool := (Text.int64? s).isSome

def parameter? (query : List Char) (name : String) : Option String :=
  ((Form.pairs query).reverse.find? (·.1 = name)).map (·.2)

def namesDatabase (path : List Char) : Bool :=
  let inner := ((path.dropWhile (· = '/')).reverse.dropWhile (· = '/')).reverse
  inner.isEmpty || isNumber (String.ofList inner)

def isUsable (u : Url) : Bool :=
  let knownVersion := (parameter? u.query "protocol").all versions.contains
  if u.scheme = "redis" then
    !u.host.isEmpty && namesDatabase u.path && (Percent.text? u.user).isSome &&
      (Percent.text? u.password).isSome && knownVersion
  else if u.scheme ∈ ["unix", "redis+unix"] then
    (u.host.isEmpty || u.host = "localhost".toList) && u.path.head? = some '/' &&
      (parameter? u.query "db").all isNumber && knownVersion
  else false

def checkAddress (url : String) : Except Fault Unit :=
  if (Url.parse? url).any isUsable then .ok ()
  else .error (.internal "failed to create redis client: no usable address")

def decode (message : String) : Except Fault User :=
  match User.ofText? (message.toList.map some) with
  | some u => .ok u
  | none => .error (.invalid "malformed user update: not a user")

def handle (s : Sources) (message : String) : Sources × Except Fault Unit :=
  match decode message with
  | .ok u => s.update u
  | .error f => (s, .error f)

inductive Connection where
  | delivers (messages : List (List UInt8))
  | refused

structure Stage where
  request : Option (List String)
  sources : Sources

def receive (s : Sources) (message : List UInt8) : Sources :=
  match String.fromUTF8? ⟨message.toArray⟩ with
  | some text => (handle s text).1
  | none => s

def subscribe (channel : String) (s : Sources) : Connection → Stage
  | .refused => ⟨none, s⟩
  | .delivers messages => ⟨some ["SUBSCRIBE", channel], messages.foldl receive s⟩

def run (channel : String) (s : Sources) : List Connection → List Stage
  | [] => []
  | c :: cs =>
    let stage := subscribe channel s c
    stage :: run channel stage.sources cs

end LiveComments.Feed
