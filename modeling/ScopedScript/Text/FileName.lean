/-!
# File names

A path is split at slashes; the extension of its last part is what follows the last point, unless
that point is the first character.
-/

namespace ScopedScript.Text

/-- The last part of a path, and all that stands before it. -/
def splitPath (path : List Char) : List Char × List Char :=
  let name := (path.reverse.takeWhile (· ≠ '/')).reverse
  (path.take (path.length - name.length), name)

/-- The stem of a name and its extension, when it has one. -/
def splitExtension (name : List Char) : List Char × Option (List Char) :=
  let extension := (name.reverse.takeWhile (· ≠ '.')).reverse
  let stem := name.take (name.length - extension.length - 1)
  if name = ['.', '.'] ∨ stem.isEmpty ∨ extension.length = name.length then (name, none)
  else (stem, some extension)

/-- The extension of the last part of a path. -/
def extension? (path : String) : Option String :=
  ((splitExtension (splitPath path.toList).2).2).map String.ofList

/-- The path with its extension replaced, or with one added. -/
def withExtension (path extension : String) : String :=
  let (directory, name) := splitPath path.toList
  String.ofList (directory ++ (splitExtension name).1) ++ "." ++ extension

end ScopedScript.Text
