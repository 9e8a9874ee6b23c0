import Stylesheet.Directory
import Stylesheet.Text.Bytes

/-!
# Scripts

What a command does to the world, step by step: it prints, reads and writes
files, and ends with a status.  A script can be run on a directory of files.
-/

namespace Stylesheet.Command

/-- A sequence of effects that ends with a status. -/
inductive Script where
  | done (status : Nat)
  | print (text : String) (next : Script)
  /-- Prints to the stream for errors. -/
  | complain (text : String) (next : Script)
  /-- Reads the bytes of a file. -/
  | read (path : String) (next : Except FileError (List Char) → Script)
  | write (path text : String) (next : Except FileError Unit → Script)
  | makeFolders (folder : Path.Folder) (next : Except FileError Unit → Script)

/-- What a command leaves behind. -/
structure Outcome where
  status : Nat
  stdout : String
  stderr : String
  directory : Directory

namespace Script

/-- Runs a script on a directory. -/
def run : Script → Directory → Outcome
  | done status, d => ⟨status, "", "", d⟩
  | print text next, d =>
      let after := next.run d
      { after with stdout := text ++ after.stdout }
  | complain text next, d =>
      let after := next.run d
      { after with stderr := text ++ after.stderr }
  | read path next, d => (next (d.read path)).run d
  | write path text next, d =>
      match d.write path (bytesOf text) with
      | .ok d' => (next (.ok ())).run d'
      | .error e => (next (.error e)).run d
  | makeFolders folder next, d =>
      match d.makeFolders folder with
      | .ok d' => (next (.ok ())).run d'
      | .error e => (next (.error e)).run d

end Script
end Stylesheet.Command
