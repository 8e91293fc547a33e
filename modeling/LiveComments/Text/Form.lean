import LiveComments.Text.Percent
import LiveComments.Text.Split

namespace LiveComments.Form

def text (cs : List Char) : String :=
  -- Plus signs first, so that one written with a percent sign stays.
  String.ofList (Percent.decoded (fun _ => false) (cs.map fun c => if c = '+' then ' ' else c))

def pairs (query : List Char) : List (String × String) :=
  ((Text.split '&' query).filter (· ≠ [])).map fun piece =>
    let (name, value) := Text.cut '=' piece
    (text name, text (value.getD []))

end LiveComments.Form
