import LiveComments.Text.Percent
import LiveComments.Url.Path

namespace LiveComments.Url.Web

def isControl (c : Char) : Bool := c.toNat < 0x20 || c = '\x7f'

def pathSpecial (c : Char) : Bool :=
  isControl c || c ∈ [' ', '"', '#', '<', '>', '?', '\x60', '\x7b', '\x7d']

def querySpecial (c : Char) : Bool := isControl c || c ∈ [' ', '"', '#', '<', '>', '\'']

/-- The target for what follows the server: a backslash counts as a slash, and a fragment is not
sent. -/
def target (cs : List Char) : List Char :=
  let (path, query) := Text.cut '?' (cs.takeWhile (· ≠ '#'))
  let path := path.map fun c => if c = '\\' then '/' else c
  Path.normal (Percent.encode pathSpecial (path.drop 1)) ++
    match query with
    | some query => '?' :: Percent.encode querySpecial query
    | none => []

end LiveComments.Url.Web
