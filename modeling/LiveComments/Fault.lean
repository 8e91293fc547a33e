import LiveComments.Json.Basic

namespace LiveComments

inductive Fault where
  | invalid (detail : String)
  | invalidId (detail : String)
  | commentNotFound
  | userNotFound
  | forbidden (detail : String)
  | unauthenticated (detail : String)
  | unsupportedEvent (kind : String)
  | tokenMalformed
  | tokenExpired
  | claimMissing (claim : String)
  | unsupportedSigning (detail : String)
  | internal (detail : String)
  deriving DecidableEq, Inhabited

inductive RejectionCode where
  | permissionDenied
  | badRequest
  | methodNotFound
  | unauthorized
  | notFound
  | tokenExpired
  | unauthenticated
  | internal
  deriving DecidableEq

structure Rejection where
  code : RejectionCode
  message : String
  deriving DecidableEq

namespace Fault

def message : Fault → String
  | invalid detail => s!"Validation Error: {detail}"
  | invalidId detail => s!"Invalid ID: {detail}"
  | commentNotFound => "Not Found: comment not found"
  | userNotFound => "Not Found: user not found"
  | forbidden detail => s!"Unauthorized: {detail}"
  | unauthenticated detail => s!"Unauthenticated: {detail}"
  | unsupportedEvent kind => s!"Event Not Supported: {kind}"
  | tokenMalformed => "Token Error: token is malformed"
  | tokenExpired => "Token Error: token is expired"
  | claimMissing claim => s!"Token Error: claim `{claim}` is missing or invalid"
  | unsupportedSigning detail => s!"Token Error: unsupported signing method {detail}"
  | internal detail => s!"Internal Server Error: {detail}"

def isNotFound : Fault → Bool
  | commentNotFound | userNotFound => true
  | _ => false

def sanitized : Fault → Fault
  | internal _ => internal "internal error"
  | f => f

def category : Fault → String
  | invalid _ => "VALIDATION_ERROR"
  | invalidId _ => "INVALID_ID_ERROR"
  | commentNotFound | userNotFound => "NOT_FOUND_ERROR"
  | forbidden _ => "UNAUTHORIZED_ERROR"
  | unauthenticated _ => "UNAUTHENTICATED_ERROR"
  | unsupportedEvent _ => "EVENT_NOT_SUPPORTED_ERROR"
  | tokenMalformed | tokenExpired | claimMissing _ | unsupportedSigning _ => "TOKEN_ERROR"
  | internal _ => "INTERNAL_SERVER_ERROR"

def status : Fault → Nat
  | invalid _ | invalidId _ | unsupportedEvent _ => 400
  | commentNotFound | userNotFound => 404
  | forbidden _ => 403
  | unauthenticated _ | tokenMalformed | tokenExpired | claimMissing _ | unsupportedSigning _ => 401
  | internal _ => 500

def code : Fault → RejectionCode
  | invalid _ | invalidId _ => .badRequest
  | commentNotFound | userNotFound => .notFound
  | forbidden _ => .unauthorized
  | unauthenticated _ => .unauthenticated
  | unsupportedEvent _ => .methodNotFound
  | tokenExpired => .tokenExpired
  | tokenMalformed | claimMissing _ | unsupportedSigning _ => .unauthenticated
  | internal _ => .internal

def rejection (f : Fault) : Rejection := ⟨f.sanitized.code, f.sanitized.message⟩

def body (f : Fault) (service : String) : Json :=
  .obj [("success", .bool false), ("message", .str f.sanitized.message),
    ("httpStatusCode", .nat f.status), ("error", .str f.category), ("service", .str service)]

end Fault

namespace RejectionCode

def name : RejectionCode → String
  | permissionDenied => "permission_denied"
  | badRequest => "bad_request"
  | methodNotFound => "method_not_found"
  | unauthorized => "unauthorized"
  | notFound => "not_found"
  | tokenExpired => "token_expired"
  | unauthenticated => "unauthenticated"
  | internal => "internal"

def retryable : RejectionCode → Bool
  | internal => true
  | _ => false

end RejectionCode

namespace Rejection

def denied (message : String) : Rejection := ⟨.permissionDenied, message⟩

def bad (message : String) : Rejection := ⟨.badRequest, message⟩

end Rejection

end LiveComments
