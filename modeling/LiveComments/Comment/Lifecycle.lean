import LiveComments.Comment.Store

namespace LiveComments.Lifecycle

def checkBody (body : String) : Except Fault Unit :=
  if Text.blank body then .error (.invalid "comment body cannot be empty") else .ok ()

def checkPost (postId : String) : Except Fault Unit :=
  if Text.blank postId then .error (.invalid "post id is required") else .ok ()

/-- The time of a change: now, or just after the last change when the clock is not past it. -/
def nextChange (last now : Stamp) : Stamp :=
  if last.nanos < now.nanos then now else last.addMillis 1

def draft (postId body : String) (author : User) (now : Stamp) : Comment :=
  { id := "", postId := Text.trim postId, user := author, body, createdAt := now,
    updatedAt := now }

def owned (c : Comment) (actor : Int) : Except Fault Comment :=
  if c.user.id = actor then .ok c
  else .error (.forbidden "only the author can modify this comment")

def edited (c : Comment) (body : String) (now : Stamp) : Comment :=
  { c with body, updatedAt := nextChange c.updatedAt now }

end LiveComments.Lifecycle
