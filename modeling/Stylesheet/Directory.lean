import Stylesheet.Path

/-!
# Directories

The files that a command can reach, and what opening them by a path gives.  A
file holds bytes.  A path is followed element by element, from the working
directory or from the root of all folders.  Of what lies outside the working
directory only the null device is known, and what a command makes there.
-/

namespace Stylesheet

/-- Why an operation on a file fails. -/
inductive FileFault where
  | notFound
  | notFolder
  | isFolder
  | nameTooLong
  deriving DecidableEq

def FileFault.message : FileFault → String
  | notFound => "no such file or directory"
  | notFolder => "not a directory"
  | isFolder => "is a directory"
  | nameTooLong => "file name too long"

/-- A failed operation on the file or folder with the given path. -/
structure FileError where
  operation : String
  path : String
  fault : FileFault
  deriving DecidableEq

def FileError.message (e : FileError) : String :=
  e.operation ++ " " ++ e.path ++ ": " ++ e.fault.message

/-- A folder that is always there: the one some levels above the working
directory, or the root of all folders. -/
inductive Base where
  | up (levels : Nat)
  | root
  deriving DecidableEq

namespace Base

/-- The working directory. -/
def here : Base := up 0

def parent : Base → Base
  | up levels => up (levels + 1)
  | root => root

end Base

/-- A place that a path can lead to, by the names on the way down to it. -/
structure Place where
  base : Base
  elements : List String
  deriving DecidableEq

namespace Place

/-- Where following a path begins. -/
def start (rooted : Bool) : Place :=
  ⟨if rooted then .root else .here, []⟩

def parent (p : Place) : Place :=
  if p.elements = [] then ⟨p.base.parent, []⟩ else ⟨p.base, p.elements.dropLast⟩

def child (p : Place) (name : String) : Place :=
  ⟨p.base, p.elements ++ [name]⟩

end Place

/-- The files and folders that are known, by their places. -/
structure Directory where
  files : List (Place × List Char)
  folders : List Place

namespace Directory

/-- A working directory with nothing in it.  The null device is an empty
file. -/
def bare : Directory :=
  ⟨[(⟨.root, ["dev", "null"]⟩, [])], [⟨.root, ["dev"]⟩]⟩

/-- The bytes of the file at a place. -/
def file? (d : Directory) (place : Place) : Option (List Char) :=
  d.files.lookup place

def isFolder (d : Directory) (place : Place) : Bool :=
  place.elements = [] || d.folders.contains place

/-- Gives a file new bytes, and makes the file if there is none. -/
def put (place : Place) (bytes : List Char) (d : Directory) : Directory :=
  { d with files := (place, bytes) :: d.files.filter (·.1 ≠ place) }

def addFolder (place : Place) (d : Directory) : Directory :=
  if d.isFolder place then d else { d with folders := place :: d.folders }

/-- Follows a path from a place. -/
def follow (d : Directory) (place : Place) :
    List String → Except FileFault Place
  | [] => .ok place
  | part :: parts =>
      if (d.file? place).isSome then .error .notFolder
      else if part = "" ∨ part = "." then d.follow place parts
      else if part = ".." then d.follow place.parent parts
      else if part.utf8ByteSize > Path.nameLimit then .error .nameTooLong
      else
        let next := place.child part
        if (d.file? next).isSome || d.isFolder next then d.follow next parts
        else .error .notFound

/-- Reads a file. -/
def read (d : Directory) (path : String) : Except FileError (List Char) :=
  if path = "" then .error ⟨"open", path, .notFound⟩
  else if path.utf8ByteSize > Path.limit then
    .error ⟨"open", path, .nameTooLong⟩
  else match d.follow (.start (Path.isRooted path)) (Path.parts path) with
    | .error fault => .error ⟨"open", path, fault⟩
    | .ok place =>
        match d.file? place with
        | some bytes => .ok bytes
        | none => .error ⟨"read", path, .isFolder⟩

/-- The place of the file that a path names, which need not be there; the folder
it is in has to be.  A path that ends in a slash or a step names a folder. -/
def target (d : Directory) (path : String) : Except FileFault Place :=
  if path = "" then .error .notFound
  else if path.utf8ByteSize > Path.limit then .error .nameTooLong
  else
    let parts := Path.parts path
    match parts.reverse.dropWhile (· = "") with
    | [] => .error .isFolder
    | name :: front =>
        match d.follow (.start (Path.isRooted path)) front.reverse with
        | .error fault => .error fault
        | .ok folder =>
            if (d.file? folder).isSome then .error .notFolder
            else if parts.getLast? = some "" ∨ name = "." ∨ name = ".." then
              .error .isFolder
            else if name.utf8ByteSize > Path.nameLimit then .error .nameTooLong
            else if d.isFolder (folder.child name) then .error .isFolder
            else .ok (folder.child name)

/-- Writes a file. -/
def write (d : Directory) (path : String) (bytes : List Char) :
    Except FileError Directory :=
  match d.target path with
  | .error fault => .error ⟨"open", path, fault⟩
  | .ok place => .ok (d.put place bytes)

/-- Makes the folders on a path that are not there, from the one behind `done`
on. -/
def makeFoldersFrom (rooted : Bool) (done : List String) :
    List String → Directory → Except FileError Directory
  | [], d => .ok d
  | part :: parts, d =>
      let here := done ++ [part]
      let name := Path.Folder.text ⟨rooted, here⟩
      if name.utf8ByteSize > Path.limit then
        .error ⟨"mkdir", name, .nameTooLong⟩
      else match d.follow (.start rooted) done with
        | .error fault => .error ⟨"mkdir", name, fault⟩
        | .ok folder =>
            match d.follow folder [part] with
            | .ok place =>
                if (d.file? place).isSome then
                  .error ⟨"mkdir", name, .notFolder⟩
                else makeFoldersFrom rooted here parts d
            | .error .notFound =>
                makeFoldersFrom rooted here parts
                  (d.addFolder (folder.child part))
            | .error fault => .error ⟨"mkdir", name, fault⟩

/-- Makes a folder and those around it. -/
def makeFolders (d : Directory) (folder : Path.Folder) :
    Except FileError Directory :=
  makeFoldersFrom folder.rooted [] folder.parts d

/-- Adds a file with the folders around it; a name that ends in a slash is that
of a folder. -/
def addNamed (name : String) (bytes : List Char) (d : Directory) : Directory :=
  let elements := (Path.parts name).filter (· ≠ "")
  let around :=
    (List.range elements.length).map fun count =>
      Place.mk .here (elements.take count)
  let inside := around.foldl (fun d folder => d.addFolder folder) d
  if (Path.parts name).getLast? = some "" then
    inside.addFolder ⟨.here, elements⟩
  else inside.put ⟨.here, elements⟩ bytes

/-- The working directory with the given files. -/
def ofFiles (files : List (String × List Char)) : Directory :=
  files.foldl (fun d file => d.addNamed file.1 file.2) bare

/-- The files in the working directory that are new or have other bytes than
before, by their paths. -/
def changedFrom (d before : Directory) : List (String × List Char) :=
  (d.files.filter fun (place, bytes) =>
      place.base = .here && before.file? place ≠ some bytes).map
    fun (place, bytes) => ("/".intercalate place.elements, bytes)

end Directory
end Stylesheet
