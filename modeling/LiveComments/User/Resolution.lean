import LiveComments.Fault
import LiveComments.Table
import LiveComments.User.Basic

/-!
Finding a user in a chain of sources, cheapest first: the first answer wins, and the sources before
it that can be written to get a copy.
-/

namespace LiveComments

inductive Fallback where
  | quiet
  | logged
  | stop
  deriving DecidableEq

structure FallbackPolicy where
  stopOnInvalid : Bool := false

def FallbackPolicy.decide (p : FallbackPolicy) : Fault → Fallback
  | .commentNotFound | .userNotFound => .quiet
  | .invalid _ | .invalidId _ => if p.stopOnInvalid then .stop else .logged
  | _ => .logged

def publicFault : Fault → Fault
  | .userNotFound => .userNotFound
  | .invalid detail => .invalid detail
  | .invalidId detail => .invalidId detail
  | _ => .internal "user resolution failed"

structure Resolution where
  answer : Except Fault User
  asked : Nat

namespace Resolution

def failed (f : Fault) (asked : Nat) : Resolution := ⟨.error (publicFault f), asked⟩

def search (p : FallbackPolicy) : List (Except Fault User) → Nat → Fault → Resolution
  | [], asked, last => failed last asked
  | .ok u :: _, asked, _ => ⟨.ok u, asked + 1⟩
  | .error f :: rest, asked, _ =>
    if p.decide f = .stop then failed f (asked + 1) else search p rest (asked + 1) f

def of (p : FallbackPolicy) (answers : List (Except Fault User)) : Resolution :=
  search p answers 0 (.internal "no user sources configured")

def missed (r : Resolution) : Nat :=
  match r.answer with
  | .ok _ => r.asked - 1
  | .error _ => 0

end Resolution

end LiveComments
