import LiveComments.Text.Digits
import LiveComments.Text.Hex
import LiveComments.Text.Split

namespace LiveComments.Url.Ipv6

def isDotted (cs : List Char) : Bool :=
  let parts := Text.split '.' cs
  parts.length = 4 && parts.all fun part =>
    (part.length = 1 || part.head? ≠ some '0') && (Text.natural? part).any (· < 256)

def isGroup (cs : List Char) : Bool :=
  1 ≤ cs.length && cs.length ≤ 4 && cs.all fun c => (Text.hexValue? c).isSome

def groups (cs : List Char) : List (List Char) := if cs.isEmpty then [] else Text.split ':' cs

def width? (dotted : Bool) : List (List Char) → Option Nat
  | [] => some 0
  | [g] => if isGroup g then some 1 else if dotted && isDotted g then some 2 else none
  | g :: gs => if isGroup g then (width? dotted gs).map (· + 1) else none

def cutGap : List Char → Option (List Char × List Char)
  | ':' :: ':' :: cs => some ([], cs)
  | c :: cs => (cutGap cs).map fun (before, after) => (c :: before, after)
  | [] => none

def isAddress (cs : List Char) : Bool :=
  match cutGap cs with
  | none => width? true (groups cs) = some 8
  | some (before, after) =>
    match width? false (groups before), width? true (groups after) with
    | some m, some n => m + n ≤ 7
    | _, _ => false

end LiveComments.Url.Ipv6
