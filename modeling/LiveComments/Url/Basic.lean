import LiveComments.Url.Ipv6
import LiveComments.Url.Path

namespace LiveComments

structure Url where
  scheme : String
  user : List Char
  password : List Char
  host : List Char
  path : List Char
  query : List Char

namespace Url

def schemeChar (c : Char) : Bool := c.isAlphanum || c = '+' || c = '-' || c = '.'

def hostBreaker (c : Char) : Bool :=
  c ∈ ['\x00', '\t', '\n', '\r', ' ', '#', '/', ':', '<', '>', '?', '@', '[', '\\', ']', '^', '|']

def stripped (s : String) : List Char :=
  let outside (c : Char) : Bool := c.toNat ≤ 0x20
  let cs := s.toList.dropWhile outside
  ((cs.reverse.dropWhile outside).reverse).filter fun c => c ≠ '\t' ∧ c ≠ '\n' ∧ c ≠ '\r'

def afterPort? (cs : List Char) : Option (List Char) :=
  let ds := cs.takeWhile Char.isDigit
  let rest := cs.drop ds.length
  if Nat.ofDigitChars 10 ds 0 < 65536 ∧ (rest.isEmpty ∨ rest.head? = some '\\') then some rest
  else none

def host? (cs : List Char) : Option (List Char × List Char) :=
  match cs with
  | '[' :: cs =>
    let inner := cs.takeWhile (· ≠ ']')
    if !Ipv6.isAddress inner then none else
    match cs.drop inner.length with
    | [']'] => some (inner, [])
    | ']' :: ':' :: port => (afterPort? port).map (inner, ·)
    | _ => none
  | _ =>
    let host := cs.takeWhile (· ≠ ':')
    if host.any hostBreaker then none else
    match cs.drop host.length with
    | [] => some (host, [])
    | _ :: port => if host.isEmpty then none else (afterPort? port).map (host, ·)

def cutLast (mark : Char) (cs : List Char) : Option (List Char) × List Char :=
  let after := (cs.reverse.takeWhile (· ≠ mark)).reverse
  (if after.length < cs.length then some (cs.take (cs.length - after.length - 1)) else none, after)

def ofAuthority? (scheme : String) (cs : List Char) : Option (Url × List Char) := do
  let (info, server) := cutLast '@' cs
  let (host, rest) ← host? server
  let (user, password) := Text.cut ':' (info.getD [])
  let password := password.getD []
  if host.isEmpty ∧ (info = some [] ∨ !user.isEmpty ∨ !password.isEmpty) then none
  return (⟨scheme, user, password, host, [], []⟩, rest)

def withTail (u : Url) (cs : List Char) : Url :=
  let (path, query) := Text.cut '?' (cs.takeWhile (· ≠ '#'))
  let path := if path.isEmpty then [] else
    Path.normal (if path.head? = some '/' then path.drop 1 else path)
  { u with path, query := query.getD [] }

def parse? (s : String) : Option Url := do
  let cs := stripped s
  let letters := cs.takeWhile schemeChar
  if !(letters.head?.any Char.isAlpha) then none
  let scheme := String.ofList (letters.map Char.toLower)
  match cs.drop letters.length with
  | ':' :: '/' :: '/' :: cs =>
    let authority := cs.takeWhile fun c => c ≠ '/' ∧ c ≠ '?' ∧ c ≠ '#'
    let (u, rest) ← ofAuthority? scheme authority
    return u.withTail (rest ++ cs.drop authority.length)
  | ':' :: '/' :: cs => return withTail ⟨scheme, [], [], [], [], []⟩ ('/' :: cs)
  | ':' :: cs => return ⟨scheme, [], [], [], cs, []⟩
  | _ => none

end Url

end LiveComments
