import LiveComments.Fault
import LiveComments.Text.Blank
import LiveComments.Text.Digits
import LiveComments.Text.Quoted

namespace LiveComments

inductive Channel where
  | personal (user : Int)
  | post (id : String)
  deriving DecidableEq

namespace Channel

def name : Channel → String
  | personal user => "#" ++ toString user
  | post id => id

def parse (s : String) : Except Rejection Channel :=
  let s := Text.trim s
  match s.toList with
  | [] => .error (.bad "channel name is required")
  | '#' :: id =>
    match (Text.integer? id).filter Text.fitsInt64 with
    | some user => .ok (.personal user)
    | none => .error (.bad s!"malformed private channel {Text.quoted s}")
  | _ => .ok (.post s)

def initial (user : Int) : List Channel := [personal user]

def admits (user : Int) : Channel → Except Rejection Unit
  | personal owner =>
    if owner = user then .ok ()
    else .error (.denied "private channels are only open to their owner")
  | post _ => .ok ()

def accepts (joined : List String) : Channel → Except Rejection Unit
  | personal _ => .error (.denied "private channels are server-pushed")
  | post id =>
    if id ∈ joined then .ok ()
    else .error (.denied "subscribe to the channel before publishing")

end Channel

end LiveComments
