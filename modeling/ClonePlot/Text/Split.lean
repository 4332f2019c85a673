/-! # Splitting text

A text cut at every separator; a text without separators is one piece.
-/
namespace ClonePlot.Text

def split (isSeparator : Char → Bool) : List Char → List (List Char)
  | [] => [[]]
  | c :: rest =>
    if isSeparator c then [] :: split isSeparator rest
    else match split isSeparator rest with
      | [] => [[c]]
      | piece :: pieces => (c :: piece) :: pieces

end ClonePlot.Text
