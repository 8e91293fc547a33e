import LiveComments.Backend
import LiveComments.Http.Query
import LiveComments.Http.Status
import LiveComments.Token.Gate

namespace LiveComments.Http

structure Request where
  method : String
  uri : Uri
  headers : List (String × String)

inductive Answer where
  | json (status : Nat) (body : Json)
  | upgraded (identity : Identity)

def unnamed : String := "Unknown"

namespace Answer

def ofFault (f : Fault) : Answer := json f.status (f.body unnamed)

def refusal (status : Nat) (message : String) : Answer :=
  json status (.obj [("success", .bool false), ("message", .str message),
    ("httpStatusCode", .nat status), ("error", .str ((reason? status).getD "Unknown")),
    ("service", .str unnamed)])

def noRoute : Answer :=
  json 404 (.obj [("success", .bool false), ("message", .str "Route does not exist"),
    ("httpStatusCode", .nat 404), ("error", .str "NOT_FOUND_ERROR"), ("service", .str unnamed)])

def badQuery (e : QueryMismatch) : Answer :=
  refusal 400 s!"Query deserialize error: {e.message}"

def success (message : String) (data : List (String × Json)) : Answer :=
  json 200 (.obj ([("success", .bool true), ("message", .str message),
    ("httpStatusCode", .nat 200)] ++ data))

end Answer

namespace Request

def header? (r : Request) (name : String) : Option String :=
  (r.headers.find? fun h => h.1.toLower = name).map (·.2)

end Request

inductive Route where
  | comment (id : String)
  | comments (postId : String)
  | live
  | liveByToken

def Route.of? : List String → Option Route
  | ["comments", id] => if id = "" then none else some (comment (Uri.captured id))
  | ["posts", id, "comments"] => if id = "" then none else some (comments (Uri.captured id))
  | ["ws", "connect"] => some live
  | ["ws", "connect", "token"] => some liveByToken
  | _ => none

def isVisible (c : Char) : Bool := (0x20 ≤ c.toNat && c.toNat < 0x7f) || c = '\t'

def bearer? (value : String) : Option String :=
  let cs := value.toList
  if cs.length < 8 ∨ !cs.all isVisible then none else
  match Text.cut ' ' cs with
  | (scheme, some token) =>
    if String.ofList scheme = "Bearer" then some (String.ofList token) else none
  | _ => none

def isInfix (part : List Char) : List Char → Bool
  | [] => part.isEmpty
  | c :: cs => part.isPrefixOf (c :: cs) || isInfix part cs

def mentions (r : Request) (header word : String) : Bool :=
  (r.header? header).any fun v => v.toList.all isVisible && isInfix word.toList v.toLower.toList

def words (r : Request) (header : String) : List String :=
  match r.header? header with
  | none => []
  | some v =>
    if !v.toList.all isVisible then [] else
    (Text.split ',' v.toLower.toList).map fun word => Text.trim (String.ofList word)

def leavesHttp (r : Request) : Bool :=
  let words := words r "connection"
  words.contains "upgrade" && !words.contains "close"

def handshakeFault? (r : Request) : Option (Nat × String) :=
  let upgrade := mentions r "upgrade" "websocket"
  if !upgrade then some (400, "WebSocket upgrade is expected")
  else if !leavesHttp r then some (400, "connection upgrade is expected")
  else match r.header? "sec-websocket-version" with
  | none => some (400, "WebSocket version header is required")
  | some v =>
    if v ∉ ["13", "8", "7"] then some (426, "unsupported WebSocket version")
    else if (r.header? "sec-websocket-key").isNone then some (400, "unknown WebSocket key")
    else none

def openSession (r : Request) (identity : Identity) : Answer :=
  match handshakeFault? r with
  | some (status, message) => .refusal status message
  | none => .upgraded identity

def unconfigured : String :=
  "Requested application data is not configured correctly. " ++
    "View/enable debug logs for more details."

def live (r : Request) (gate : Option String) (m : Moment) : Answer :=
  match (r.header? "authorization").bind bearer? with
  | none => .refusal 401 (statusText 401)
  | some token =>
    match gate with
    | none => .ofFault (.internal "identity gate missing")
    | some secret =>
      match Token.verify secret token m.stamp.seconds with
      | .error f => .ofFault f
      | .ok identity =>
        -- The method is looked at last: without a good token any method is refused with 401.
        if r.method = "GET" then openSession r identity
        else .refusal 405 ((reason? 405).getD "")

def liveByToken (r : Request) (gate : Option String) (m : Moment) : Answer :=
  match tokenQuery r.uri.query with
  | .error e => .badQuery e
  | .ok token =>
    match gate with
    | none => .refusal 500 unconfigured
    | some secret =>
      match token.filter (· ≠ "") with
      | none => .ofFault (.unauthenticated "missing token")
      | some token =>
        match Token.verify secret token m.stamp.seconds with
        | .error f => .ofFault f
        | .ok identity => openSession r identity

def comment (id : String) : Action Answer := do
  if Text.blank id then throw (.invalid "comment id is required")
  let c ← Backend.getComment id
  return .success "Comment retrieved successfully" [("data", c.toJson)]

def comments (postId : String) (q : Page.Query) : Action Answer := do
  let page ← Backend.ofExcept (Page.ofQuery q)
  let (cs, summary) ← Backend.listComments postId page
  return .success "Comments retrieved successfully"
    [("data", .arr (cs.map Comment.toJson)), ("metadata", summary.toJson)]

def run (b : Backend) (a : Action Answer) : Backend × Answer :=
  match b.perform a with
  | (.ok answer, b) => (b, answer)
  | (.error f, b) => (b, .ofFault f)

def answer (b : Backend) (r : Request) (gate : Option String) (m : Moment) : Backend × Answer :=
  match Route.of? r.uri.path with
  | some .live => (b, live r gate m)
  | some route =>
    if r.method ≠ "GET" then (b, .noRoute) else
    match route with
    | .comment id => run b (comment id)
    | .comments postId =>
      match pageQuery r.uri.query with
      | .error e => (b, .badQuery e)
      | .ok q => run b (comments postId q)
    | .live | .liveByToken => (b, liveByToken r gate m)
  | none => (b, .noRoute)

end LiveComments.Http
