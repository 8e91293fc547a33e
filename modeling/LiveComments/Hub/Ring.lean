import LiveComments.Command
import LiveComments.Notice

/-!
The history ring of a channel: its latest publications, bounded in number and in age. Times are
milliseconds of a clock that need not go forward.
-/

namespace LiveComments

structure HistoryBounds where
  size : Nat
  lifetime : Int
  deriving DecidableEq

structure Ring.Entry where
  offset : Nat
  event : Event
  time : Int

structure Ring where
  epoch : String
  top : Nat
  entries : List Ring.Entry
  bounds : HistoryBounds

structure Recovery where
  publications : List Publication
  recovered : Bool

namespace Ring

def start (bounds : HistoryBounds) (epoch : String) : Ring := ⟨epoch, 0, [], bounds⟩

def Entry.publication (e : Entry) : Publication := ⟨e.offset, e.event⟩

def Entry.expired (lifetime now : Int) (e : Entry) : Bool := lifetime ≤ max 0 (now - e.time)

def evict (r : Ring) (now : Int) : Ring :=
  let counted := r.entries.drop (r.entries.length - r.bounds.size)
  { r with entries := counted.dropWhile (Entry.expired r.bounds.lifetime now) }

def push (r : Ring) (e : Event) (now : Int) : Ring :=
  evict { r with top := r.top + 1, entries := r.entries ++ [⟨r.top + 1, e, now⟩] } now

def firstRetained (r : Ring) : Nat :=
  match r.entries with
  | [] => r.top + 1
  | e :: _ => e.offset

def covers (r : Ring) (p : Position) : Bool := p.epoch = r.epoch && p.offset ≤ r.top

def after (r : Ring) (p : Position) : Recovery :=
  if r.covers p then
    { publications := (r.entries.filter (p.offset < ·.offset)).map Entry.publication
      recovered := r.firstRetained ≤ p.offset + 1 }
  else ⟨[], false⟩

def since (r : Ring) (p : Position) (now : Int) : Ring × Recovery :=
  let r := r.evict now
  (r, r.after p)

end Ring

end LiveComments
