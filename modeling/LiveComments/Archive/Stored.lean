import LiveComments.Archive.Value
import LiveComments.Comment.Basic

namespace LiveComments.Archive

def ofUser (u : User) : Document :=
  [("_id", .int u.id), ("first_name", .text u.firstName), ("last_name", .text u.lastName),
    ("avatar_url", .text u.avatarUrl)]

def user? (d : Document) : Option User := do
  return ⟨← d.int? "_id", ← d.text? "first_name", ← d.text? "last_name", ← d.text? "avatar_url"⟩

def userOf? : Value → Option User
  | .document d => user? d
  | .list (.int id :: .text firstName :: .text lastName :: .text avatarUrl :: _) =>
    some ⟨id, firstName, lastName, avatarUrl⟩
  | _ => none

def ofComment (id : String) (c : Comment) : Document :=
  [("_id", .objectId id), ("post_id", .text c.postId), ("user", .document (ofUser c.user)),
    ("body", .text c.body), ("created_at", .time c.createdAt.millis),
    ("updated_at", .time c.updatedAt.millis)]

def stampOf (ms : Int) : Stamp :=
  let t := Stamp.ofMillis ms
  if t.inRange then t else ⟨0⟩

def comment? (d : Document) : Option Comment := do
  return {
    id := ← d.objectId? "_id"
    postId := ← d.text? "post_id"
    user := ← userOf? (← d.get? "user")
    body := ← d.text? "body"
    createdAt := stampOf (← d.time? "created_at")
    updatedAt := stampOf (← d.time? "updated_at") }

end LiveComments.Archive
