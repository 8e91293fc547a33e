import LiveComments.Archive.Address
import LiveComments.Archive.Query
import LiveComments.Archive.Stored
import LiveComments.Comment.Page
import LiveComments.Text.Quoted

namespace LiveComments.Archive

def comments : String := "comments"

def users : String := "users"

def sourceName : String := "mongodb"

def failure {α : Type} (call : String) : Except Fault α :=
  .error (.internal s!"storage.{sourceName}.{call}: no usable answer")

def checkId (id : String) : Except Fault String :=
  match Text.objectId? id with
  | some hex => .ok hex
  | none => .error (.invalidId s!"{Text.quoted id} is not a valid comment id")

def byId (hex : String) : Document := [("_id", .objectId hex)]

def ofPost (postId : String) : Document := [("post_id", .text postId)]

def withId {α : Type} (id : String) (next : String → Exchange (Except Fault α)) :
    Exchange (Except Fault α) :=
  match checkId id with
  | .ok hex => next hex
  | .error f => .done (.error f)

def single {α : Type} (call : String) (absent : Fault) (read : Document → Option α) :
    Reply → Except Fault α
  | .documents [] => .error absent
  | .documents (d :: _) => (read d).elim (failure call) .ok
  | _ => failure call

def affected {α : Type} (call : String) (a : α) : Reply → Except Fault α
  | .number n => if n = 0 then .error .commentNotFound else if n < 0 then failure call else .ok a
  | _ => failure call

def acknowledged {α : Type} (call : String) (a : α) : Reply → Except Fault α
  | .number n => if n < 0 then failure call else .ok a
  | _ => failure call

def get (id : String) : Exchange (Except Fault Comment) :=
  withId id fun hex => .ask (.findOne comments (byId hex)) fun r =>
    .done (single "get_comment" .commentNotFound comment? r)

def list (postId : String) (p : Page) : Exchange (Except Fault (List Comment × PageSummary)) :=
  .ask (.count comments (ofPost postId)) fun
    | .number total =>
      if total < 0 then .done (failure "count_post_comments") else
      let sort := [(p.key.field, Value.int p.order.sign)]
      .ask (.findPage comments (ofPost postId) sort p.offset p.limit) fun
        | .documents ds =>
          match ds.mapM comment?, PageSummary.of? total p.number p.size with
          | some cs, some m => .done (.ok (cs, m))
          | _, _ => .done (failure "list_post_comments")
        | _ => .done (failure "list_post_comments")
    | _ => .done (failure "count_post_comments")

def create (c : Comment) (hex : String) : Exchange (Except Fault Comment) :=
  let d := ofComment hex c
  .ask (.insert comments d) fun r =>
    .done ((acknowledged "create_comment" (comment? d) r).bind fun stored =>
      stored.elim (failure "create_comment") .ok)

/-- Stores the body and the time of the last change, and answers with the comment as given. -/
def update (c : Comment) : Exchange (Except Fault Comment) :=
  withId c.id fun hex =>
    .ask (.update comments (byId hex)
      [("body", .text c.body), ("updated_at", .time c.updatedAt.millis)]) fun r =>
    .done (affected "update_comment" c r)

def delete (id : String) : Exchange (Except Fault Unit) :=
  withId id fun hex => .ask (.delete comments (byId hex)) fun r =>
    .done (affected "delete_comment" () r)

def getUser (id : Int) : Exchange (Except Fault User) :=
  .ask (.findOne users [("_id", .int id)]) fun r =>
    .done (single "get_user_by_id" .userNotFound user? r)

def saveUser (u : User) : Exchange (Except Fault Unit) :=
  .ask (.replace users [("_id", .int u.id)] (ofUser u)) fun r =>
    .done (acknowledged "save_user" () r)

def connect (url : String) : Exchange Bool :=
  if Address.isUsable url then .ask .ping fun
    | .refused => .done false
    | _ => .done true
  else .done false

end LiveComments.Archive
