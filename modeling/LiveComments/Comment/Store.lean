import LiveComments.Comment.Basic
import LiveComments.Comment.Page
import LiveComments.Table
import LiveComments.Text.Hex

namespace LiveComments

structure CommentStore where
  comments : Table String Comment := {}
  writes : Nat := 0

namespace CommentStore

def checkId (id : String) : Except Fault Unit :=
  if Text.isObjectId id then .ok () else .error (.invalidId id)

def get (s : CommentStore) (id : String) : Except Fault Comment := do
  checkId id
  match s.comments.get? id with
  | some c => return c
  | none => throw .commentNotFound

def sortTime (key : SortKey) (c : Comment) : Stamp :=
  match key with
  | .createdAt => c.createdAt
  | .updatedAt => c.updatedAt

def sorted (key : SortKey) (cs : List Comment) : List Comment :=
  cs.mergeSort fun a b => (sortTime key a).nanos ≤ (sortTime key b).nanos

def ordered (p : Page) (cs : List Comment) : List Comment :=
  match p.order with
  | .ascending => sorted p.key cs
  | .descending => (sorted p.key cs).reverse

def ofPost (s : CommentStore) (postId : String) : List Comment :=
  s.comments.values.filter (·.postId = postId)

def list (s : CommentStore) (postId : String) (p : Page) : List Comment × Nat :=
  let all := ordered p (s.ofPost postId)
  ((all.drop p.offset.toNat).take p.limit.toNat, all.length)

def create (s : CommentStore) (c : Comment) (id : String) : CommentStore × Comment :=
  let c := { c with id }
  (⟨s.comments.insert id c, s.writes + 1⟩, c)

def update (s : CommentStore) (c : Comment) : Except Fault CommentStore := do
  let old ← s.get c.id
  let new := { old with body := c.body, updatedAt := c.updatedAt }
  return ⟨s.comments.insert c.id new, s.writes + 1⟩

def delete (s : CommentStore) (id : String) : Except Fault CommentStore := do
  let _ ← s.get id
  return ⟨s.comments.erase id, s.writes + 1⟩

end CommentStore

end LiveComments
