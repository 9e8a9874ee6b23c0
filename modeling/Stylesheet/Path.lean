import Stylesheet.Text.Split

/-!
# Paths

Names of files, with their elements divided by slashes.
-/

namespace Stylesheet.Path

/-- The elements of a path, empty ones included. -/
def parts (path : String) : List String :=
  (Text.splitChars '/' path.toList).map String.ofList

/-- The longest element that a path may have, in bytes. -/
def nameLimit : Nat := 255

/-- The longest path that can be followed, in bytes. -/
def limit : Nat := 4095

/-- Whether a path starts at the root of all folders. -/
def isRooted (path : String) : Bool :=
  path.toList.head? = some '/'

/-- The end of a path from the last dot of its last element; empty if there is
no such dot. -/
def extension (path : List Char) : List Char :=
  let name := path.reverse.takeWhile (· ≠ '/')
  let tail := name.takeWhile (· ≠ '.')
  if tail.length = name.length then [] else '.' :: tail.reverse

/-- Where the CSS of a source goes by default: beside it, with its extension
replaced. -/
def cssPath (path : String) : String :=
  let cs := path.toList
  String.ofList (cs.take (cs.length - (extension cs).length)) ++ ".css"

/-- A path to a folder with nothing superfluous in it: parent steps stand only
at its front. -/
structure Folder where
  rooted : Bool
  parts : List String
  deriving DecidableEq

namespace Folder

/-- The folder one step further; `acc` holds the elements so far, the last one
first. -/
def step (rooted : Bool) (acc : List String) (part : String) : List String :=
  if part = "" ∨ part = "." then acc
  else if part = ".." then
    match acc with
    | [] => if rooted then [] else [".."]
    | last :: rest => if last = ".." then ".." :: acc else rest
  else part :: acc

def ofParts (rooted : Bool) (parts : List String) : Folder :=
  ⟨rooted, (parts.foldl (step rooted) []).reverse⟩

/-- The text of a folder with the given elements. -/
def text (f : Folder) : String :=
  if f.rooted then "/" ++ "/".intercalate f.parts
  else if f.parts = [] then "."
  else "/".intercalate f.parts

end Folder

/-- The folder that a path leads into. -/
def folder (path : String) : Folder :=
  .ofParts (isRooted path) (parts path).dropLast

end Stylesheet.Path
