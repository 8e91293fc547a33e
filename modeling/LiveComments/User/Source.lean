import LiveComments.User.Resolution

namespace LiveComments

inductive Saving where
  | refused
  | taken (delay : Int) (fault : Option Fault)

structure Peer where
  name : String
  answers : List (Except Fault User)
  repairable : Bool
  saving : Saving

inductive Source where
  | cache (users : Table Int User)
  | peer (p : Peer)

inductive SourceCall where
  | asked (name : String) (user : Int)
  | saveStarted (name : String) (user : Int)
  | saveEnded (name : String) (user : Int)
  deriving DecidableEq

structure PendingSave where
  due : Int
  name : String
  user : Int

namespace Peer

def answer (p : Peer) : Except Fault User := p.answers.head?.getD (.error .userNotFound)

def advance (p : Peer) : Peer :=
  match p.answers with
  | _ :: b :: rest => { p with answers := b :: rest }
  | _ => p

end Peer

namespace Source

def answer (s : Source) (id : Int) : Except Fault User :=
  match s with
  | cache users => match users.get? id with
    | some u => .ok u
    | none => .error .userNotFound
  | peer p => p.answer

def asked : Source → Source
  | peer p => peer p.advance
  | s => s

def repairable : Source → Bool
  | cache _ => true
  | peer p => p.repairable

def ofUsers (us : List User) : Source := cache (.ofList (us.map fun u => (u.id, u)))

def save (s : Source) (u : User) : Source × Except Fault Unit :=
  match s with
  | cache users => (cache (users.insert u.id u), .ok ())
  | peer p =>
    (s, match p.saving with
      | .refused => .error (.internal s!"{p.name} is read-only")
      | .taken _ (some f) => .error f
      | .taken _ none => .ok ())

end Source

structure Sources where
  chain : List Source
  policy : FallbackPolicy := {}
  patience : Int
  pending : List PendingSave := []
  calls : List SourceCall := []

namespace Sources

def traced (s : Sources) (calls : List SourceCall) : Sources :=
  { s with calls := s.calls ++ calls }

def askedCalls (id : Int) (asked : List Source) : List SourceCall :=
  asked.filterMap fun
    | .peer p => some (.asked p.name id)
    | .cache _ => none

/-- A repair of a peer starts at once; it ends at once, after its delay, or not at all when that is
longer than the patience. -/
def repairCalls (s : Sources) (u : User) (now : Int) : Source → Sources
  | .cache _ => s
  | .peer p =>
    match p.saving with
    | .refused => s
    | .taken delay _ =>
      let s := s.traced [.saveStarted p.name u.id]
      if delay ≤ 0 then s.traced [.saveEnded p.name u.id]
      else if delay ≤ s.patience then
        { s with pending := s.pending ++ [⟨now + delay, p.name, u.id⟩] }
      else s

def repair (s : Sources) (u : User) (now : Int) (i : Nat) : Sources :=
  match s.chain[i]? with
  | some source =>
    if source.repairable then
      { s.repairCalls u now source with chain := s.chain.set i (source.save u).1 }
    else s
  | none => s

def ask (s : Sources) (id : Int) : Sources × Resolution :=
  let r := Resolution.of s.policy (s.chain.map (·.answer id))
  let asked := s.chain.take r.asked
  ({ s with
    chain := asked.map Source.asked ++ s.chain.drop r.asked
    calls := s.calls ++ askedCalls id asked }, r)

def repairMissed (s : Sources) (u : User) (missed : Nat) (now : Int) : Sources :=
  (List.range missed).foldl (fun s i => s.repair u now i) s

def resolve (s : Sources) (id now : Int) : Sources × Except Fault User :=
  let (s, r) := s.ask id
  match r.answer with
  | .ok u => (s.repairMissed u r.missed now, .ok u)
  | .error f => (s, .error f)

def update (s : Sources) (u : User) : Sources × Except Fault Unit :=
  if u.id ≤ 0 then (s, .error (.invalid s!"user id must be positive, got {u.id}")) else
  match s.chain.findIdx? Source.repairable with
  | none => (s, .error (.internal "no writable user source"))
  | some i =>
    match s.chain[i]? with
    | none => (s, .error (.internal "no writable user source"))
    | some source =>
      let (saved, result) := source.save u
      let calls := match source with
        | .peer p => match p.saving with
          | .taken .. => [.saveStarted p.name u.id, .saveEnded p.name u.id]
          | .refused => []
        | .cache _ => []
      ({ s with chain := s.chain.set i saved, calls := s.calls ++ calls },
        result.mapError publicFault)

def settle (s : Sources) (now : Int) : Sources :=
  let (finished, running) := s.pending.partition (·.due ≤ now)
  { s with
    pending := running
    calls := s.calls ++ finished.map fun p => .saveEnded p.name p.user }

def cached (s : Sources) (id : Int) : List (Option User) :=
  s.chain.filterMap fun
    | .cache users => some (users.get? id)
    | .peer _ => none

end Sources

end LiveComments
