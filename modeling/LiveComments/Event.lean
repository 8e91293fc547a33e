import LiveComments.Json.Decoder

namespace LiveComments

structure Event where
  kind : String
  payload : Json
  timestamp : Int

namespace Event

inductive Request where
  | create
  | update
  | delete
  deriving DecidableEq

inductive News where
  | created
  | edited
  | removed
  deriving DecidableEq

namespace Request

def ofKind? : String → Option Request
  | "create_comment" => some create
  | "update_comment" => some update
  | "delete_comment" => some delete
  | _ => none

def kind : Request → String
  | create => "create_comment"
  | update => "update_comment"
  | delete => "delete_comment"

def news : Request → News
  | create => .created
  | update => .edited
  | delete => .removed

end Request

def News.kind : News → String
  | created => "new_comment"
  | edited => "edit_comment"
  | removed => "remove_comment"

def record : Json.Record Event :=
  .ofFields "Event" 3 ((((Json.Fields.pure Event.mk).and
    (Json.field 0 "type" Json.asString none)).and
    (Json.field 1 "payload" Json.asAny (some .null))).and
    (Json.field 2 "timestamp" Json.asInt64 (some 0)))

def toJson (e : Event) : Json :=
  .obj [("type", .str e.kind), ("payload", e.payload), ("timestamp", .int e.timestamp)]

end Event

end LiveComments
