import LiveComments.Text.Split

namespace LiveComments.Url.Path

def plainDots : List Char → List Char
  | '%' :: '2' :: 'e' :: cs | '%' :: '2' :: 'E' :: cs => '.' :: plainDots cs
  | c :: cs => c :: plainDots cs
  | [] => []

def stays (part : List Char) : Bool := plainDots part = ['.']

def goesBack (part : List Char) : Bool := plainDots part = ['.', '.']

def resolve (reached : List (List Char)) : List (List Char) → List (List Char)
  | [] => reached.reverse
  | part :: parts =>
    if stays part || goesBack part then
      let reached := if stays part then reached else reached.drop 1
      if parts.isEmpty then ([] :: reached).reverse else resolve reached parts
    else resolve (part :: reached) parts

def normal (cs : List Char) : List Char := (resolve [] (Text.split '/' cs)).flatMap ('/' :: ·)

end LiveComments.Url.Path
