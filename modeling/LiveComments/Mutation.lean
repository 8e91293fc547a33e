import LiveComments.Backend

namespace LiveComments

structure Caller where
  user : Int
  channel : Channel

structure Announcement where
  channel : Channel
  offset : Nat
  event : Event

namespace Mutation

structure CreateRequest where
  postId : Option String
  body : String

structure UpdateRequest where
  commentId : String
  body : String

structure DeleteRequest where
  commentId : String

def createRecord : Json.Record CreateRequest :=
  .ofFields "CreatePayload" 2 (((Json.Fields.pure CreateRequest.mk).and
    (Json.field 0 "post_id" (Json.asOption Json.asString) (some none))).and
    (Json.field 1 "body" Json.asString none))

def updateRecord : Json.Record UpdateRequest :=
  .ofFields "UpdatePayload" 2 (((Json.Fields.pure UpdateRequest.mk).and
    (Json.field 0 "comment_id" Json.asString none)).and
    (Json.field 1 "body" Json.asString none))

def deleteRecord : Json.Record DeleteRequest :=
  .ofFields "DeletePayload" 1 ((Json.Fields.pure DeleteRequest.mk).and
    (Json.field 0 "comment_id" Json.asString none))

def decode {α : Type} (r : Json.Record α) (payload : Json) : Except Fault α :=
  (r.decode payload).mapError fun e => .invalid s!"malformed payload: {e.message .plain}"

/-- The post of a new comment is that of the channel, and must be the same when it is named. -/
def targetPost (channel : Channel) (named : Option String) : Except Fault String :=
  match channel, named with
  | .personal _, _ => .error (.invalid "comments can only be created on a post channel")
  | .post post, none => .ok post
  | .post post, some name =>
    if name = post then .ok post
    else .error (.invalid
      s!"post id {Text.quoted name} does not match channel {Text.quoted post}")

def payload (news : Event.News) (c : Comment) : Json :=
  match news with
  | .created | .edited => c.toJson
  | .removed => .obj [("id", .str c.id)]

def announce (news : Event.News) (c : Comment) (m : Moment) : Action Announcement := do
  let channel := Channel.post c.postId
  let event : Event := ⟨news.kind, payload news c, m.stamp.seconds⟩
  let offset ← Backend.announce channel event m
  return ⟨channel, offset, event⟩

def change (request : Event.Request) (payload : Json) (caller : Caller) (m : Moment) :
    Action Comment := do
  match request with
  | .create =>
    let r ← Backend.ofExcept (decode createRecord payload)
    let post ← Backend.ofExcept (targetPost caller.channel r.postId)
    Backend.createComment post caller.user r.body m
  | .update =>
    let r ← Backend.ofExcept (decode updateRecord payload)
    Backend.updateComment r.commentId caller.user r.body m
  | .delete =>
    let r ← Backend.ofExcept (decode deleteRecord payload)
    Backend.deleteComment r.commentId caller.user

def route (event : Event) (caller : Caller) (m : Moment) : Action Announcement := do
  match Event.Request.ofKind? event.kind with
  | none => throw (.unsupportedEvent event.kind)
  | some request =>
    let c ← change request event.payload caller m
    announce request.news c m

end Mutation

end LiveComments
