import LiveComments.Fault
import LiveComments.Event

namespace LiveComments

structure Publication where
  offset : Nat
  data : Event

def Publication.toJson (p : Publication) : Json :=
  .obj [("offset", .nat p.offset), ("data", p.data.toJson)]

inductive Notice where
  | connected (session : String) (user expires : Int) (channels : List String)
  | subscribed (id : Option Nat) (channel epoch : String) (offset : Nat) (recovered : Bool)
      (publications : List Publication)
  | unsubscribed (id : Option Nat) (channel : String)
  | publication (channel : String) (published : Publication)
  | published (id : Option Nat) (channel : String) (offset : Nat)
  | refreshed (id : Option Nat) (expires : Int)
  | error (id : Option Nat) (rejection : Rejection)
  | pong (id : Option Nat)
  | disconnect (reason : String)

namespace Notice

def idJson (id : Option Nat) : String × Json := ("id", Json.ofOption Json.nat id)

def tagged (tag : String) (members : List (String × Json)) : Json :=
  .obj (("type", .str tag) :: members)

def toJson : Notice → Json
  | connected session user expires channels =>
    tagged "connected" [("session_id", .str session), ("user_id", .int user),
      ("expires_at", .int expires), ("channels", .arr (channels.map .str))]
  | subscribed id channel epoch offset recovered publications =>
    tagged "subscribed" [idJson id, ("channel", .str channel), ("epoch", .str epoch),
      ("offset", .nat offset), ("recovered", .bool recovered),
      ("publications", .arr (publications.map Publication.toJson))]
  | unsubscribed id channel => tagged "unsubscribed" [idJson id, ("channel", .str channel)]
  | publication channel p =>
    tagged "publication" [("channel", .str channel), ("offset", .nat p.offset),
      ("data", p.data.toJson)]
  | published id channel offset =>
    tagged "published" [idJson id, ("channel", .str channel), ("offset", .nat offset)]
  | refreshed id expires => tagged "refreshed" [idJson id, ("expires_at", .int expires)]
  | error id r =>
    tagged "error" [idJson id, ("code", .str r.code.name), ("message", .str r.message)]
  | pong id => tagged "pong" [idJson id]
  | disconnect reason => tagged "disconnect" [("reason", .str reason)]

end Notice

end LiveComments
