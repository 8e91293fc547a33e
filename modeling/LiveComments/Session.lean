import LiveComments.Mutation
import LiveComments.Token.Gate

/-!
A live session: it answers every frame of its client before it reads the next, is watched by a
heartbeat, and leaves the hub when it ends.
-/

namespace LiveComments

structure Session where
  id : String
  identity : Identity
  joined : List String
  heard : Int

inductive Inbound where
  | text (s : String)
  | binary (s : String)
  | ping (s : String)
  | pong (s : String)
  | close (code : Option Nat) (reason : String)
  | broken

namespace Inbound

def frameLimit : Nat := 65536

def controlLimit : Nat := 125

def isCloseCode (code : Nat) : Bool :=
  (1000 ≤ code && code ≤ 1003) || (1007 ≤ code && code ≤ 1014) || (3000 ≤ code && code ≤ 4999)

/-- A frame that is too long, or closes with no valid code, breaks the protocol. A reason comes only
with a code, which takes two bytes. -/
def limited : Inbound → Inbound
  | text s => if frameLimit < s.utf8ByteSize then broken else text s
  | binary s => if frameLimit < s.utf8ByteSize then broken else binary s
  | ping s => if controlLimit < s.utf8ByteSize then broken else ping s
  | pong s => if controlLimit < s.utf8ByteSize then broken else pong s
  | close (some code) reason =>
    if controlLimit < reason.utf8ByteSize + 2 ∨ !isCloseCode code then broken
    else close (some code) reason
  | close none _ => close none ""
  | broken => broken

end Inbound

inductive Outbound where
  | notice (n : Notice)
  | ping
  | pong (s : String)
  | close (code : Option Nat) (reason : String)

namespace Session

def beat : Int := 5000

def patience : Int := 10000

def policyCode : Nat := 1008

structure Step where
  backend : Backend
  session : Option Session
  out : List Outbound
  posts : List Hub.Letter

def tell (b : Backend) (s : Session) (n : Notice) : Step := ⟨b, some s, [.notice n], []⟩

def refuse (b : Backend) (s : Session) (id : Option Nat) (r : Rejection) : Step :=
  tell b s (.error id r)

def finish (b : Backend) (s : Session) (out : List Outbound) : Step :=
  ⟨b, none, out, [.disconnect s.id]⟩

def disconnect (b : Backend) (s : Session) (reason : String) : Step :=
  finish b s [.notice (.disconnect reason), .close (some policyCode) reason]

def start (b : Backend) (id : String) (identity : Identity) (m : Moment) : Step :=
  let (hub, channels) := b.hub.connect id identity.user
  tell { b with hub } ⟨id, identity, channels, m.steady⟩
    (.connected id identity.user identity.expires channels)

def insertOnce (s : String) (xs : List String) : List String := if s ∈ xs then xs else xs ++ [s]

def subscribe (b : Backend) (s : Session) (id : Option Nat) (name : String)
    (recover : Option Position) (m : Moment) : Step :=
  match Channel.parse name with
  | .error r => refuse b s id r
  | .ok channel =>
    match b.subscribe s.id channel recover m with
    | (b, .error r) => refuse b s id r
    | (b, .ok x) =>
      tell b { s with joined := insertOnce channel.name s.joined }
        (.subscribed id channel.name x.epoch x.offset x.recovery.recovered x.recovery.publications)

def unsubscribe (b : Backend) (s : Session) (id : Option Nat) (name : String) : Step :=
  match Channel.parse name with
  | .error r => refuse b s id r
  | .ok channel =>
    ⟨b, some { s with joined := s.joined.filter (· ≠ channel.name) },
      [.notice (.unsubscribed id channel.name)], [.unsubscribe s.id channel]⟩

def publishable (s : Session) (name : String) : Except Rejection Channel := do
  let channel ← Channel.parse name
  channel.accepts s.joined
  return channel

def publish (b : Backend) (s : Session) (id : Option Nat) (name : String) (event : Event)
    (m : Moment) : Step :=
  match s.publishable name with
  | .error r => refuse b s id r
  | .ok channel =>
    match b.perform (Mutation.route event ⟨s.identity.user, channel⟩ m) with
    | (.ok a, b) => tell b s (.published id a.channel.name a.offset)
    | (.error f, b) => refuse b s id f.rejection

def renewed (current : Identity) : Except Fault Identity → Except String Identity
  | .ok identity =>
    if identity.user = current.user then .ok identity
    else .error s!"refresh token names user {identity.user} instead of {current.user}"
  | .error f => .error f.message

def refresh (secret : String) (b : Backend) (s : Session) (id : Option Nat) (token : String)
    (m : Moment) : Step :=
  match renewed s.identity (Token.verify secret token m.stamp.seconds) with
  | .ok identity => tell b { s with identity } (.refreshed id identity.expires)
  | .error reason => disconnect b s reason

def carryOut (secret : String) (b : Backend) (s : Session) (r : Command.Request) (m : Moment) :
    Step :=
  match r.command with
  | .subscribe name recover => subscribe b s r.id name recover m
  | .unsubscribe name => unsubscribe b s r.id name
  | .publish name event => publish b s r.id name event m
  | .refresh token => refresh secret b s r.id token m
  | .ping => tell b s (.pong r.id)

def handleText (secret : String) (b : Backend) (s : Session) (text : String) (m : Moment) : Step :=
  match Command.parse text with
  | .ok r => carryOut secret b s r m
  | .error e => refuse b s e.id e.rejection

def hear (s : Session) (m : Moment) : Session := { s with heard := m.steady }

def handle (secret : String) (b : Backend) (s : Session) (frame : Inbound) (m : Moment) : Step :=
  match frame.limited with
  | .text text => handleText secret b (s.hear m) text m
  | .binary _ => refuse b s none (.bad "binary frames are not supported")
  | .ping text => ⟨b, some (s.hear m), [.pong text], []⟩
  | .pong _ => ⟨b, some (s.hear m), [], []⟩
  | .close code reason => finish b s [.close code reason]
  | .broken => finish b s []

def expired (identity : Identity) (now : Int) : Bool := identity.expires < now

def heartbeat (b : Backend) (s : Session) (m : Moment) : Step :=
  if patience < m.steady - s.heard then finish b s []
  else if expired s.identity m.stamp.seconds then disconnect b s "token expired"
  else ⟨b, some s, [.ping], []⟩

end Session

end LiveComments
