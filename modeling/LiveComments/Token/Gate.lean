import LiveComments.Fault
import LiveComments.Text.Digits
import LiveComments.Token.Claims
import LiveComments.Token.Header

namespace LiveComments

structure Identity where
  user : Int
  expires : Int
  deriving DecidableEq

namespace Token

/-- The second an expiry falls into: a word, or a number rounded to one. -/
def expirySecond? : Json → Option Nat
  | .int n => if Text.fitsWord64 n then some n.toNat else none
  | .float x =>
    let a := x.magnitude
    if (x.negative && !x.isZero) || Nat.pow 2 64 * a.2 ≤ a.1 then none else some x.roundAway.toNat
  | _ => none

def integer? : Json → Option Int
  | .int n => some (Text.clampInt64 n)
  | .float x => x.integer?.map Text.clampInt64
  | _ => none

def accept (claims : Claims) (now : Int) : Except Fault Identity := do
  let second ← match claims.expiry.bind expirySecond? with
    | some s => .ok s
    | none => .error (.claimMissing "exp")
  if (second : Int) < now then throw .tokenExpired
  if claims.hasAudience then throw .tokenMalformed
  let expires ← match claims.expiry.bind integer? with
    | some e => .ok e
    | none => .error (.claimMissing "exp")
  if expires < now then throw .tokenExpired
  match claims.user.bind integer? with
  | some user => return ⟨user, expires⟩
  | none => throw (.claimMissing "user_id")

def verify (secret token : String) (now : Int) : Except Fault Identity := do
  let orMalformed {α : Type} (o : Option α) : Except Fault α := o.elim (.error .tokenMalformed) .ok
  let parts ← orMalformed (Parts.of? token)
  let algorithm ← orMalformed ((symbols? parts.header).bind algorithm?)
  let message := bytes (String.ofList parts.signed)
  match algorithm.sign? (bytes secret) message with
  | none => throw (.unsupportedSigning "only HMAC tokens are accepted")
  | some signature =>
    if parts.signature ≠ Text.Base64Url.encode signature then throw .tokenMalformed
    accept (← orMalformed ((symbols? parts.claims).bind Claims.of?)) now

end Token

end LiveComments
