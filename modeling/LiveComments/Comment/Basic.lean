import LiveComments.Time.Stamp
import LiveComments.User.Basic

namespace LiveComments

structure Comment where
  id : String
  postId : String
  user : User
  body : String
  createdAt : Stamp
  updatedAt : Stamp
  deriving DecidableEq, Inhabited

namespace Comment

def toJson (c : Comment) : Json :=
  .obj [("id", .str c.id), ("post_id", .str c.postId), ("user", c.user.toJson),
    ("body", .str c.body), ("created_at", .str c.createdAt.text),
    ("updated_at", .str c.updatedAt.text)]

def asStamp : Json → Json.Decoded Stamp
  | .str s => match Stamp.parse? s with
    | some t => .ok t
    | none => .error (.wrongType (.str s) "a time")
  | v => .error (.wrongType v "a time")

def record : Json.Record Comment :=
  .ofFields "Comment" 6 (((((((Json.Fields.pure Comment.mk).and
    (Json.field 0 "id" Json.asString none)).and
    (Json.field 1 "post_id" Json.asString none)).and
    (Json.field 2 "user" User.record.decode none)).and
    (Json.field 3 "body" Json.asString none)).and
    (Json.field 4 "created_at" asStamp none)).and
    (Json.field 5 "updated_at" asStamp none))

end Comment

end LiveComments
