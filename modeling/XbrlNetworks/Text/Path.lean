/-! # Paths of files

Two texts name the same path when they take the same steps.  Between slashes
nothing and a single point are no steps, but a slash or a single point at the
very front is one.
-/

namespace XbrlNetworks

/-- The pieces of a path between slashes, at least one. -/
def pathPieces : List Char → List (List Char)
  | [] => [[]]
  | c :: rest =>
    if c = '/' then
      [] :: pathPieces rest
    else
      match pathPieces rest with
      | piece :: pieces => (c :: piece) :: pieces
      | [] => [[c]]

/-- The steps of a path; a slash at the front is an empty step. -/
def pathSteps (path : String) : List (List Char) :=
  match pathPieces path.toList with
  | [] | [[]] => []
  | first :: pieces => first :: pieces.filter fun piece => piece != [] && piece != ['.']

def samePath (first second : String) : Bool :=
  pathSteps first == pathSteps second

end XbrlNetworks
