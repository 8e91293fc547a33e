import LiveComments.Channel
import LiveComments.Event

namespace LiveComments

structure Position where
  epoch : String
  offset : Nat
  deriving DecidableEq

def Position.record : Json.Record Position :=
  .ofFields "RecoverFrom" 2 (((Json.Fields.pure Position.mk).and
    (Json.field 0 "epoch" Json.asString none)).and
    (Json.field 1 "offset" Json.asWord64 none))

inductive Command where
  | subscribe (channel : String) (recover : Option Position)
  | unsubscribe (channel : String)
  | publish (channel : String) (data : Event)
  | refresh (token : String)
  | ping

namespace Command

inductive Method where
  | subscribe
  | unsubscribe
  | publish
  | refresh
  | ping
  deriving DecidableEq

namespace Method

def name : Method → String
  | subscribe => "subscribe"
  | unsubscribe => "unsubscribe"
  | publish => "publish"
  | refresh => "refresh"
  | ping => "ping"

def all : List Method := [subscribe, unsubscribe, publish, refresh, ping]

def ofName? (s : String) : Option Method := all.find? (·.name = s)

def channelField : Json.Fields String := Json.field 0 "channel" Json.asString none

def fields : Method → Json.Fields Command
  | subscribe => ((Json.Fields.pure Command.subscribe).and channelField).and
      (Json.field 1 "recover" (Json.asOption Position.record.decode) (some none))
  | unsubscribe => (Json.Fields.pure Command.unsubscribe).and channelField
  | publish => ((Json.Fields.pure Command.publish).and channelField).and
      (Json.field 1 "data" Event.record.decode none)
  | refresh => (Json.Fields.pure Command.refresh).and (Json.field 0 "token" Json.asString none)
  | ping => Json.Fields.pure Command.ping

end Method

def method : Command → Method
  | subscribe .. => .subscribe
  | unsubscribe .. => .unsubscribe
  | publish .. => .publish
  | refresh .. => .refresh
  | ping => .ping

structure Request where
  id : Option Nat
  command : Command

structure Refusal where
  id : Option Nat
  rejection : Rejection

def word64? : Json → Option Nat
  | .int n => if Text.fitsWord64 n then some n.toNat else none
  | _ => none

def idOf (frame : Json) : Option Nat := (frame.get? "id").bind word64?

def decode (m : Method) (members : List (String × Json)) : Json.Decoded Request := do
  -- A bad id is told before any fault of the fields.
  let id ← match Json.member? "id" members with
    | some v => Json.asOption Json.asWord64 v
    | none => .ok none
  let command ← (m.fields m.name 0 (.object members)).mapError (·.2)
  return ⟨id, command⟩

def unreadable : String := "not a JSON text"

def parse (text : String) : Except Refusal Request :=
  match Json.read? text with
  | none => .error ⟨none, .bad s!"invalid frame: {unreadable}"⟩
  | some frame =>
    let refuse (r : Rejection) : Except Refusal Request := .error ⟨idOf frame, r⟩
    match frame, (frame.get? "method").bind Json.string? with
    | .obj members, some name =>
      match Method.ofName? name with
      | none => refuse ⟨.methodNotFound, s!"unknown method {Text.quoted name}"⟩
      | some m =>
        match decode m members with
        | .ok request => .ok request
        | .error e => refuse (.bad s!"invalid {name} command: {e.message .sized}")
    | _, _ => refuse (.bad "method is required")

end Command

end LiveComments
