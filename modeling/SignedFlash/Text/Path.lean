/-!
# Paths of files

Two paths are put together here: that of a file, and that of another one which is named in it and
lies in the same folder unless its own path says otherwise.
-/

namespace SignedFlash.Text

/-- What stands before the first slash, and what stands after each one. -/
def pieces : List Char → List Char × List (List Char)
  | [] => ([], [])
  | c :: cs =>
    let (first, rest) := pieces cs
    if c = '/' then ([], first :: rest) else (c :: first, rest)

-- Whether a piece after a slash names nothing.
def isBlankPiece (piece : List Char) : Bool := piece = [] || piece = ['.']

/-- The folder of a file: its path less the last name in it, and less what names nothing before
that. The empty path is the folder of a file that is given by its name alone. -/
def folderOf (path : String) : String :=
  let (first, rest) := pieces path.toList
  match rest.reverse.dropWhile isBlankPiece with
  | [] => if first = [] then "." else ""
  | _ :: names =>
    let kept := (names.dropWhile isBlankPiece).reverse
    if first = [] ∧ kept = [] then "/" else String.ofList (first ++ kept.flatMap ('/' :: ·))

/-- The path of a file that another one names: in the folder of that one, or from the root. -/
def beside (path named : String) : String :=
  let folder := folderOf path
  if folder = "" ∨ named.toList.head? = some '/' then named
  else if folder = "/" then "/" ++ named
  else folder ++ "/" ++ named

end SignedFlash.Text
