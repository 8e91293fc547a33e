import LiveComments.Http.Surface
import LiveComments.Session
import LiveComments.User.Feed

/-!
The running service: the backend, the clients with their sessions, and the clocks. Time passes only
by `advance`, which rings every timer that falls due at its own moment.
-/

namespace LiveComments

structure Client where
  session : Option Session
  opened : Int

inductive Receiver where
  | direct (session : String)
  | client (name : String)
  deriving DecidableEq

inductive Sent where
  | frame (o : Outbound)
  | ended

structure Service where
  backend : Backend
  secret : String
  now : Moment
  clients : Table String Client := {}
  sessionIds : Supply
  sent : List (Receiver × Sent) := []

namespace Service

def sweepInterval : Int := 5000

def receiverOf (s : Service) (session : String) : Receiver :=
  match s.clients.entries.find? fun e => e.2.session.any (·.id = session) with
  | some (name, _) => .client name
  | none => .direct session

def deliver (s : Service) : Service :=
  { s with
    backend := { s.backend with outbox := [] }
    sent := s.sent ++ s.backend.outbox.map fun d =>
      (s.receiverOf d.session, .frame (.notice d.notice)) }

def follow (s : Service) (name : String) (opened : Int) (step : Session.Step) : Service :=
  let out := step.out.map fun o => (Receiver.client name, Sent.frame o)
  let tail := if step.session.isNone then [(Receiver.client name, Sent.ended)] else []
  deliver { s with
    backend := { step.backend with hub := step.backend.hub.readAll step.posts }
    clients := s.clients.insert name ⟨step.session, opened⟩
    sent := s.sent ++ out ++ tail }

def act {α : Type} (s : Service) (a : Action α) : Service × Except Fault α :=
  let (result, backend) := s.backend.perform a
  (deliver { s with backend }, result)

def failStore (s : Service) (outage : Option (StoreCall × Fault)) : Service :=
  { s with backend := { s.backend with storeOutage := outage } }

def failPublish (s : Service) (f : Fault) : Service :=
  { s with backend := { s.backend with publishOutage := some f } }

def openClient (s : Service) (name : String) (identity : Identity) : Service :=
  let old := (s.clients.get? name).bind (·.session)
  let hub := match old with
    | some session => s.backend.hub.disconnect session.id
    | none => s.backend.hub
  let step := Session.start { s.backend with hub } s.sessionIds.name identity s.now
  let s := { s with
    clients := s.clients.erase name
    sessionIds := { s.sessionIds with next := s.sessionIds.next + 1 } }
  s.follow name s.now.steady step

def receive (s : Service) (name : String) (frame : Inbound) : Option Service := do
  let client ← s.clients.get? name
  match client.session with
  | none => return s
  | some session =>
    return s.follow name client.opened (session.handle s.secret s.backend frame s.now)

def connect (s : Service) (session : String) (user : Int) : Service × List String :=
  let (hub, channels) := s.backend.hub.connect session user
  ({ s with backend := { s.backend with hub } }, channels)

def disconnect (s : Service) (session : String) : Service :=
  { s with backend := { s.backend with hub := s.backend.hub.disconnect session } }

def subscribe (s : Service) (session : String) (channel : Channel) (recover : Option Position) :
    Service × Except Rejection Subscription :=
  let (backend, result) := s.backend.subscribe session channel recover s.now
  ({ s with backend }, result)

def unsubscribe (s : Service) (session : String) (channel : Channel) : Service :=
  { s with backend := { s.backend with hub := s.backend.hub.unsubscribe session channel } }

def publish (s : Service) (channel : Channel) (event : Event) (count : Nat) : Service × Nat :=
  (List.range count).foldl (fun (s, _) _ =>
    match s.act (Backend.publish channel event s.now) with
    | (s, .ok offset) => (s, offset)
    | (s, .error _) => (s, 0)) (s, 0)

def updateSources {α : Type} (s : Service) (f : Sources → Sources × α) : Service × α :=
  let (sources, a) := f s.backend.sources
  ({ s with backend := { s.backend with sources } }, a)

def updateUser (s : Service) (u : User) : Service × Except Fault Unit :=
  s.updateSources (·.update u)

def consume (s : Service) (url message : String) : Service × Except Fault Unit :=
  match Feed.checkAddress url with
  | .error f => (s, .error f)
  | .ok () => s.updateSources (Feed.handle · message)

def answer (s : Service) (r : Http.Request) (gated : Bool) : Service × Http.Answer :=
  let (backend, a) := Http.answer s.backend r (if gated then some s.secret else none) s.now
  ({ s with backend }, a)

inductive Timer where
  | sweep
  | beat (client : String)

def ticks (interval start after upTo : Int) : List Int :=
  let first := (after - start) / interval + 1
  let last := (upTo - start) / interval
  (List.range (last - first + 1).toNat).map fun (k : Nat) => start + (first + (k : Int)) * interval

/-- What falls due, by time; at one time the hub comes first, then the clients as they opened. -/
def schedule (s : Service) (upTo : Int) : List (Int × Timer) :=
  let now := s.now.steady
  let sweeps := (ticks sweepInterval 0 now upTo).map (·, Timer.sweep)
  let beats := s.clients.entries.flatMap fun (name, client) =>
    (ticks Session.beat client.opened now upTo).map (·, Timer.beat name)
  (sweeps ++ beats).mergeSort fun a b => a.1 ≤ b.1

def setSteady (s : Service) (time : Int) : Service :=
  { s with now := ⟨s.now.wall + (time - s.now.steady) * 1000, time⟩ }

def fire (s : Service) (time : Int) (timer : Timer) : Service :=
  let s := s.setSteady time
  match timer with
  | .sweep => { s with backend := { s.backend with hub := s.backend.hub.sweep time } }
  | .beat name =>
    match s.clients.get? name with
    | some ⟨some session, opened⟩ => s.follow name opened (session.heartbeat s.backend s.now)
    | _ => s

def advance (s : Service) (ms : Int) : Service :=
  let upTo := s.now.steady + ms
  let s := ((s.schedule upTo).foldl (fun s (time, timer) => s.fire time timer) s).setSteady upTo
  (s.updateSources fun sources => (sources.settle upTo, ())).1

def setWall (s : Service) (us : Int) : Service := { s with now := { s.now with wall := us } }

structure Record where
  sent : List (Receiver × Sent)
  calls : List SourceCall

def look (s : Service) : Service × Record :=
  ({ s with
    sent := []
    backend := { s.backend with sources := { s.backend.sources with calls := [] } } },
    ⟨s.sent, s.backend.sources.calls⟩)

end Service

end LiveComments
