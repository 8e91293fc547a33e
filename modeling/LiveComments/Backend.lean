import LiveComments.Comment.Lifecycle
import LiveComments.Hub.Basic
import LiveComments.User.Source

/-!
What all sessions share: the comment store, the sources of users, and the hub. An action on it may
fail; what it changed before stays changed. Stores may be out of order for one call.
-/

namespace LiveComments

/-- The two clocks: the calendar in microseconds, and one for ages in milliseconds. -/
structure Moment where
  wall : Int
  steady : Int

def Moment.stamp (m : Moment) : Stamp := .ofMicros m.wall

structure Supply where
  width : Nat
  next : Nat

def Supply.name (s : Supply) : String :=
  let ds := Nat.toDigits 16 s.next
  String.ofList (List.replicate (s.width - ds.length) '0' ++ ds)

inductive StoreCall where
  | get
  | list
  | create
  | update
  | delete
  deriving DecidableEq

structure Backend where
  store : CommentStore := {}
  sources : Sources
  hub : Hub
  commentIds : Supply
  epochs : Supply
  -- An outage is over after one call.
  storeOutage : Option (StoreCall × Fault) := none
  publishOutage : Option Fault := none
  outbox : List Delivery := []

abbrev Action (α : Type) := ExceptT Fault (StateM Backend) α

namespace Backend

def perform {α : Type} (b : Backend) (a : Action α) : Except Fault α × Backend :=
  (a.run).run b

def ofExcept {α : Type} : Except Fault α → Action α
  | .ok a => pure a
  | .error f => throw f

def beforeCall (call : StoreCall) : Action Unit := do
  match (← get).storeOutage with
  | some (c, f) =>
    if c = call then
      modify ({ · with storeOutage := none })
      throw f
  | none => pure ()

def setStore (s : CommentStore) : Action Unit := modify ({ · with store := s })

def getComment (id : String) : Action Comment := do
  beforeCall .get
  ofExcept ((← get).store.get id)

def resolveUser (id : Int) (m : Moment) : Action User := do
  let (sources, answer) := (← get).sources.resolve id m.steady
  modify ({ · with sources })
  ofExcept answer

def loadOwned (id : String) (actor : Int) : Action Comment := do
  ofExcept (Lifecycle.owned (← getComment id) actor)

def insertComment (c : Comment) : Action Comment := do
  beforeCall .create
  let b ← get
  let (store, c) := b.store.create c b.commentIds.name
  set { b with store, commentIds := { b.commentIds with next := b.commentIds.next + 1 } }
  return c

def createComment (postId : String) (author : Int) (body : String) (m : Moment) :
    Action Comment := do
  ofExcept (Lifecycle.checkPost postId)
  ofExcept (Lifecycle.checkBody body)
  let user ← resolveUser author m
  insertComment (Lifecycle.draft postId body user m.stamp.cutToMillis)

def storeEdited (c : Comment) : Action Comment := do
  beforeCall .update
  setStore (← ofExcept ((← get).store.update c))
  return c

def updateComment (id : String) (actor : Int) (body : String) (m : Moment) : Action Comment := do
  ofExcept (Lifecycle.checkBody body)
  let c ← loadOwned id actor
  storeEdited (Lifecycle.edited c body m.stamp.cutToMillis)

def deleteComment (id : String) (actor : Int) : Action Comment := do
  let c ← loadOwned id actor
  beforeCall .delete
  setStore (← ofExcept ((← get).store.delete c.id))
  return c

def listComments (postId : String) (p : Page) : Action (List Comment × PageSummary) := do
  ofExcept (Lifecycle.checkPost postId)
  beforeCall .list
  let (cs, total) := (← get).store.list postId p
  match PageSummary.of? total p.number p.size with
  | some summary => return (cs, summary)
  | none => throw (.internal "no summary")

def freshEpoch : Action String := do
  let b ← get
  set { b with epochs := { b.epochs with next := b.epochs.next + 1 } }
  return b.epochs.name

def publish (channel : Channel) (event : Event) (m : Moment) : Action Nat := do
  let epoch ← freshEpoch
  let b ← get
  let (hub, offset, deliveries) := b.hub.publish channel event m.steady epoch
  set { b with hub, outbox := b.outbox ++ deliveries }
  return offset

def announce (channel : Channel) (event : Event) (m : Moment) : Action Nat := do
  match (← get).publishOutage with
  | some f =>
    modify ({ · with publishOutage := none })
    throw f
  | none => publish channel event m

def subscribe (b : Backend) (session : String) (channel : Channel) (recover : Option Position)
    (m : Moment) : Backend × Except Rejection Subscription :=
  match b.hub.subscribe session channel recover m.steady b.epochs.name with
  | .ok (hub, subscription) =>
    ({ b with hub, epochs := { b.epochs with next := b.epochs.next + 1 } }, .ok subscription)
  | .error r => (b, .error r)

end Backend

end LiveComments
