import LiveComments.Fault
import LiveComments.Http.Response
import LiveComments.Http.Status
import LiveComments.Url.Basic
import LiveComments.Url.Web
import LiveComments.User.Basic

/-!
The remote directory of users. A request that fails for the moment is sent again, up to a number of
attempts; any other outcome is final.
-/

namespace LiveComments.Directory

structure Answer where
  status : Nat
  body : List UInt8
  location : Option String

inductive Outcome where
  | replied (answer : Answer)
  | unanswered

def Outcome.answered (status : Nat) (body : List UInt8) : Outcome := .replied ⟨status, body, none⟩

inductive Verdict where
  | final (result : Except Fault User)
  | transient (detail : String)

structure Lookup where
  result : Except Fault User
  requests : List String

def unreachable : String := "error sending request"

def unreadable : String := "error decoding response body"

inductive Place where
  | server (target : String)
  | elsewhere (address : String)
  | nowhere

def trimSlashes (base : String) : List Char :=
  (base.toList.reverse.dropWhile (· = '/')).reverse

/-- Text that goes on with the port of the server breaks the address, unless it makes the server a
user at another host. -/
def place (base : String) (id : Int) : Place :=
  let cs := trimSlashes base ++ "/users/".toList ++ (toString id).toList
  let cs := cs.filter fun c => c ≠ '\t' ∧ c ≠ '\n' ∧ c ≠ '\r'
  match cs.takeWhile fun c => c ∉ ['/', '\\', '?', '#'] with
  | [] => .server (String.ofList (Url.Web.target cs))
  | authority =>
    match Url.cutLast '@' authority with
    | (some _, server) =>
      if (Url.host? server).any fun (host, _) => !host.isEmpty then .elsewhere (String.ofList cs)
      else .nowhere
    | (none, _) => .nowhere

inductive Hop where
  | leads (address : String)
  | refused (detail : String)

/-- What the transport does on its own: how it goes on where an answer from an address sends it,
how often it does so for one request, and what it says of its troubles. -/
structure Client where
  hop : String → String → Option Hop
  hops : Nat
  sending : String → String
  straying : String → String
  reading : String

def hopFrom (target location : String) : Hop :=
  let cs := location.toList
  let head := cs.takeWhile fun c => c ∉ ['/', '?', '#']
  let path := target.toList.takeWhile (· ≠ '?')
  if ':' ∈ head then
    if (head.takeWhile (· ≠ ':')) ∈ ["http".toList, "https".toList] then .leads location
    else .refused s!"builder error for url ({location})"
  else if cs.take 2 = ['/', '/'] then .leads location
  else if cs.head? = some '/' then .leads (String.ofList (Url.Web.target cs))
  else if cs.head? = some '?' then .leads (String.ofList (Url.Web.target (path ++ cs)))
  else .leads (String.ofList (Url.Web.target ((path.reverse.dropWhile (· ≠ '/')).reverse ++ cs)))

def Client.usual : Client where
  hop target location := some (hopFrom target location)
  hops := 10
  sending address := s!"{unreachable} for url ({address})"
  straying address := s!"error following redirect for url ({address})"
  reading := unreadable

def transientStatus (status : Nat) : Bool :=
  status = 408 || status = 429 || (500 ≤ status && status < 600)

/-- The answer that counts, after so many others at most. A status below 200 only announces an
answer, which follows, save a switch of protocols; one without content has no body. -/
def settled : Nat → Answer → Option Answer
  | 0, _ => none
  | fuel + 1, a =>
    if a.status = 101 ∨ (200 ≤ a.status ∧ a.status < 1000) then
      some { a with body := if a.status = 204 then [] else a.body }
    else if 100 ≤ a.status ∧ a.status < 200 then
      match Http.Response.parse? a.body with
      | some r => settled fuel ⟨r.status, if r.status < 200 then r.rest else r.body, r.location⟩
      | none => none
    else none

def Outcome.answer? : Outcome → Option Answer
  | .replied answer => settled (answer.body.length + 1) answer
  | .unanswered => none

def Outcome.hop? (client : Client) (address : String) (o : Outcome) : Option Hop := do
  let answer ← o.answer?
  let location ← answer.location
  if answer.status ∈ [301, 302, 303, 307, 308] then client.hop address location else none

def judge (client : Client) (address : String) (o : Outcome) : Verdict :=
  match o.answer? with
  | none => .transient (client.sending address)
  | some ⟨status, body, _⟩ =>
    if 200 ≤ status ∧ status < 300 then
      match User.ofText? (Utf8.decode body) with
      | some u => .final (.ok u)
      | none =>
        .final (.error (.internal s!"user directory returned an unreadable body: {client.reading}"))
    else if status = 404 then .final (.error .userNotFound)
    else if status = 400 ∨ status = 422 then
      .final (.error (.invalid "user directory rejected the id"))
    else if transientStatus status then .transient (Http.statusText status)
    else .final (.error (.internal s!"user directory answered {Http.statusText status}"))

def exhausted (attempts : Nat) (detail : String) : Fault :=
  .internal s!"user directory unavailable after {attempts} attempts: {detail}"

structure Fetch where
  verdict : Verdict
  asked : List String

def fetch (client : Client) (script : Nat → Outcome) (hops made : Nat) (address : String) : Fetch :=
  match (script made).hop? client address with
  | none => ⟨judge client address (script made), [address]⟩
  | some (.refused detail) => ⟨.final (.error (.internal detail)), [address]⟩
  | some (.leads next) =>
    match hops with
    | 0 => ⟨.final (.error (.internal (client.straying address))), [address]⟩
    | hops + 1 =>
      let rest := fetch client script hops (made + 1) next
      ⟨rest.verdict, address :: rest.asked⟩

def attempt (client : Client) (script : Nat → Outcome) (target : String) (tried made : Nat) :
    Nat → Lookup
  | 0 => ⟨.error (exhausted tried ""), []⟩
  | left + 1 =>
    let f := fetch client script client.hops made target
    match f.verdict with
    | .final result => ⟨result, f.asked⟩
    | .transient detail =>
      if left = 0 then ⟨.error (exhausted (tried + 1) detail), f.asked⟩
      else
        let rest := attempt client script target (tried + 1) (made + f.asked.length) left
        ⟨rest.result, f.asked ++ rest.requests⟩

/-- Looks a user up with at least one attempt; the script says what each request meets. Elsewhere
no request is ever taken, and an address that leads nowhere is not tried. -/
def Client.lookup (client : Client) (base : String) (id : Int) (retries : Nat) (script : Nat → Outcome) :
    Lookup :=
  match place base id with
  | .server target => attempt client script target 0 0 (max retries 1)
  | .elsewhere address =>
    ⟨(attempt client (fun _ => .unanswered) address 0 0 (max retries 1)).result, []⟩
  | .nowhere => ⟨.error (.internal "builder error"), []⟩

def lookup (base : String) (id : Int) (retries : Nat) (script : Nat → Outcome) : Lookup :=
  Client.usual.lookup base id retries script

end LiveComments.Directory
