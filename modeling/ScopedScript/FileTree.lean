/-!
# Files and the paths to them

A path is split at slashes and walked part by part, from the root if it begins with a slash and
from a base otherwise. It leads to a directory, to a file, to a place where a file could be made,
or nowhere.
-/

namespace ScopedScript

/-- Why a path cannot be opened. -/
inductive PathError
  | missing
  | notDirectory
  | isDirectory
  | nameTooLong
deriving DecidableEq, Repr

def PathError.message : PathError → String
  | missing => "No such file or directory (os error 2)"
  | notDirectory => "Not a directory (os error 20)"
  | isDirectory => "Is a directory (os error 21)"
  | nameTooLong => "File name too long (os error 36)"

/-- Files by the parts of their paths from the root, and the directory that relative paths start
in. A directory exists if the base or a file is below it. -/
structure FileTree where
  base : List String
  files : List (List String × String)
deriving Repr

namespace FileTree

/-- Where a path leads, as parts from the root. -/
inductive Place
  | directory (parts : List String)
  | file (parts : List String) (contents : String)
  /-- Nothing is there, but a file could be. -/
  | free (parts : List String)
deriving DecidableEq, Repr

def isDirectory (t : FileTree) (parts : List String) : Bool :=
  parts.isPrefixOf t.base ||
    t.files.any fun f => parts.length < f.1.length && parts.isPrefixOf f.1

/-- Walks parts of a path from a directory. Empty parts come from repeated slashes; a path that
ends in a slash is that of a directory, so no file can be made there. -/
def walk (t : FileTree) (creates : Bool) : List String → List String → Except PathError Place
  | here, [] => .ok (.directory here)
  | here, part :: rest =>
    if part = "" ∨ part = "." then t.walk creates here rest
    else if part = ".." then t.walk creates here.dropLast rest
    else if 255 < part.utf8ByteSize then .error .nameTooLong
    else
      let next := here ++ [part]
      if t.isDirectory next then t.walk creates next rest
      else
        let endsInSlash := !rest.isEmpty && rest.all String.isEmpty
        match t.files.lookup next, rest with
        | some contents, [] => .ok (.file next contents)
        | none, [] => .ok (.free next)
        | some _, _ => .error (if creates && endsInSlash then .isDirectory else .notDirectory)
        | none, _ => .error (if creates && endsInSlash then .isDirectory else .missing)

/-- Where a path leads that is opened for reading, or for writing. -/
def place (t : FileTree) (creates : Bool) (path : String) : Except PathError Place :=
  if path = "" then .error .missing
  else if 4096 ≤ path.utf8ByteSize then .error .nameTooLong
  else
    match path.splitOn "/" with
    | "" :: parts => t.walk creates [] parts
    | parts => t.walk creates t.base parts

/-- The contents of the file that a path leads to. -/
def read (t : FileTree) (path : String) : Except PathError String :=
  match t.place false path with
  | .ok (.file _ contents) => .ok contents
  | .ok (.directory _) => .error .isDirectory
  | .ok (.free _) => .error .missing
  | .error e => .error e

/-- The place of the file that writing to a path makes or replaces. -/
def target (t : FileTree) (path : String) : Except PathError (List String) :=
  match t.place true path with
  | .ok (.file parts _) | .ok (.free parts) => .ok parts
  | .ok (.directory _) => .error .isDirectory
  | .error e => .error e

/-- The path, from the base, of a file below it that writing to a path makes anew. -/
def madeBy? (t : FileTree) (path : String) : Option String :=
  match t.target path with
  | .ok parts =>
    if t.base.isPrefixOf parts ∧ (t.files.lookup parts).isNone then
      some ("/".intercalate (parts.drop t.base.length))
    else none
  | .error _ => none

end FileTree

end ScopedScript
