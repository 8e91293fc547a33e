import LiveComments.Hub.Ring
import LiveComments.Table

/-!
The hub: which sessions are connected, which of them are members of a channel, and the history of
each channel. Every operation is one step; what it sends is part of its answer. Letters wait until
the hub reads them.
-/

namespace LiveComments

structure Hub where
  bounds : HistoryBounds
  sessions : Table String Int := {}
  members : Table String (List String) := {}
  rings : Table String Ring := {}

structure Subscription where
  epoch : String
  offset : Nat
  recovery : Recovery

structure Delivery where
  session : String
  notice : Notice

namespace Hub

def membersOf (h : Hub) (channel : String) : List String := (h.members.get? channel).getD []

def join (h : Hub) (session channel : String) : Hub :=
  let old := h.membersOf channel
  { h with members := h.members.insert channel (if session ∈ old then old else old ++ [session]) }

def withoutMember (session : String) (m : Table String (List String)) :
    Table String (List String) :=
  (m.map fun _ sessions => sessions.filter (· ≠ session)).filter fun _ sessions => sessions ≠ []

def leave (h : Hub) (session channel : String) : Hub :=
  match h.members.get? channel with
  | none => h
  | some sessions =>
    match sessions.filter (· ≠ session) with
    | [] => { h with members := h.members.erase channel }
    | rest => { h with members := h.members.insert channel rest }

def ring (h : Hub) (channel epoch : String) : Ring :=
  (h.rings.get? channel).getD (.start h.bounds epoch)

def connect (h : Hub) (session : String) (user : Int) : Hub × List String :=
  let channels := (Channel.initial user).map Channel.name
  (channels.foldl (·.join session) { h with sessions := h.sessions.insert session user }, channels)

def disconnect (h : Hub) (session : String) : Hub :=
  if h.sessions.contains session then
    { h with
      sessions := h.sessions.erase session
      members := withoutMember session h.members }
  else h

def subscribe (h : Hub) (session : String) (channel : Channel) (recover : Option Position)
    (now : Int) (epoch : String) : Except Rejection (Hub × Subscription) := do
  let user ← match h.sessions.get? session with
    | some user => .ok user
    | none => .error (.denied "session is not connected")
  channel.admits user
  let h := h.join session channel.name
  let ring := h.ring channel.name epoch
  let (ring, recovery) := match recover with
    | some p => ring.since p now
    | none => (ring, ⟨[], false⟩)
  return ({ h with rings := h.rings.insert channel.name ring }, ⟨ring.epoch, ring.top, recovery⟩)

def unsubscribe (h : Hub) (session : String) (channel : Channel) : Hub :=
  h.leave session channel.name

def publish (h : Hub) (channel : Channel) (event : Event) (now : Int) (epoch : String) :
    Hub × Nat × List Delivery :=
  let ring := (h.ring channel.name epoch).push event now
  let notice := Notice.publication channel.name ⟨ring.top, event⟩
  let receivers := (h.membersOf channel.name).filter h.sessions.contains
  ({ h with rings := h.rings.insert channel.name ring }, ring.top, receivers.map (⟨·, notice⟩))

/-- A message whose sender does not wait for the hub. -/
inductive Letter where
  | unsubscribe (session : String) (channel : Channel)
  | disconnect (session : String)
  deriving DecidableEq

def read (h : Hub) : Letter → Hub
  | .unsubscribe session channel => h.unsubscribe session channel
  | .disconnect session => h.disconnect session

def readAll (h : Hub) (mail : List Letter) : Hub := mail.foldl read h

def sweep (h : Hub) (now : Int) : Hub :=
  { h with
    rings := (h.rings.map fun _ r => r.evict now).filter fun channel r =>
      !r.entries.isEmpty || h.members.contains channel }

end Hub

end LiveComments
