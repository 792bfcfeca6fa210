import LineBasic.Text.Lines

/-!
Paths. A path into a tree of files is resolved against a current directory;
the result is the list of the segments from the root, in which neither empty
segments nor dots remain. No path leads above the root. A path of the host is
only tidied: what two dots lead to is the host's affair.
-/

namespace LineBasic

abbrev Path := List String

namespace Path

def enter (parts : Path) (segment : String) : Path :=
  if segment = "" ∨ segment = "." then parts
  else if segment = ".." then parts.dropLast
  else parts ++ [segment]

def resolve (directory : Path) (path : String) : Path :=
  (Text.stringFields '/' path).foldl enter
    (if path.toList.head? = some '/' then [] else directory)

/-- The slashes that a path of the host starts with. Two are as good as a root
of their own, and more than two are as good as one. -/
def hostRoot : List Char → String
  | '/' :: '/' :: '/' :: _ => "/"
  | '/' :: '/' :: _ => "//"
  | '/' :: _ => "/"
  | _ => ""

/-- A path of the host without empty segments and single dots. -/
def tidy (path : String) : String :=
  let segments := (Text.stringFields '/' path).filter fun s => s != "" && s != "."
  let tidied := hostRoot path.toList ++ "/".intercalate segments
  if tidied.isEmpty then "." else tidied

end Path

end LineBasic
