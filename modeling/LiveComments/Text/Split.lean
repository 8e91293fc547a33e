namespace LiveComments.Text

def split (mark : Char) : List Char → List (List Char)
  | [] => [[]]
  | c :: cs =>
    if c = mark then [] :: split mark cs else
    match split mark cs with
    | [] => [[c]]
    | piece :: pieces => (c :: piece) :: pieces

def cut (mark : Char) (cs : List Char) : List Char × Option (List Char) :=
  let before := cs.takeWhile (· ≠ mark)
  (before, (cs.drop before.length).tail?)

end LiveComments.Text
