import Stylesheet.Command

/-!
# The program

Running scripts and the interactive loop on the files and streams of the system.
-/

namespace Stylesheet.Command

/-- The code of the system for a path that goes through a file; it comes with
either sign. -/
def notFolderCode : UInt32 := 20

/-- The fault behind an error of the system. -/
def faultOf : IO.Error → FileFault
  | .inappropriateType _ code _ =>
      if code = notFolderCode ∨ code = -notFolderCode then .notFolder
        else .isFolder
  | .alreadyExists _ _ _ => .notFolder
  | .invalidArgument _ _ _ => .nameTooLong
  | _ => .notFound

/-- Runs an action on the file at `path`, giving what went wrong as a value. -/
def attempt {α : Type} (operation path : String) (act : IO α) :
    IO (Except FileError α) := do
  try
    return .ok (← act)
  catch e =>
    return .error ⟨operation, path, faultOf e⟩

/-- Reads the bytes of a file; that a path leads to a folder is noticed only in
reading. -/
def readBytes (path : String) : IO (Except FileError (List Char)) := do
  match ← attempt "open" path (IO.FS.readBinFile path) with
  | .ok bytes => return .ok (bytes.toList.map byteChar)
  | .error e =>
      return .error { e with operation :=
        if e.fault = .isFolder then "read" else "open" }

/-- Makes a folder and those around it, the outermost first; an error names the
folder it comes up at. -/
def makeFolders (folder : Path.Folder) : IO (Except FileError Unit) := do
  for count in List.range folder.parts.length do
    let text := Path.Folder.text ⟨folder.rooted, folder.parts.take (count + 1)⟩
    match ← attempt "mkdir" text (IO.FS.createDirAll text) with
    | .ok _ => pure ()
    | .error e => return .error e
  return .ok ()

/-- Runs a script on the files of the system. -/
def perform : Script → IO Nat
  | .done status => return status
  | .print text next => do
      (← IO.getStdout).putStr text
      perform next
  | .complain text next => do
      (← IO.getStderr).putStr text
      perform next
  | .read path next => do
      perform (next (← readBytes path))
  | .write path text next => do
      perform (next (← attempt "open" path (IO.FS.writeFile path text)))
  | .makeFolders folder next => do
      perform (next (← makeFolders folder))

/-- Reads the input up to the next newline; `before` holds what is read so far,
the last byte first. -/
partial def readLine (before : List Char) : IO (List Char) := do
  match (← (← IO.getStdin).read 1).toList with
  | [] => return before.reverse
  | b :: _ =>
      let line := byteChar b :: before
      if byteChar b = '\n' then return line.reverse else readLine line

/-- Feeds the interactive loop until the input ends or a line ends it; `ready`
holds the pieces of a line that are read but not fed yet. -/
partial def interact (r : Repl) (ready : List Text.Line) : IO Repl := do
  let stdout ← IO.getStdout
  stdout.putStr r.prompt
  stdout.flush
  let ready ← if ready = [] then Text.lines <$> readLine [] else pure ready
  match ready with
  | [] =>
      stdout.putStr "\n"
      return r
  | line :: ready =>
      let reply := r.feed line.bytes
      stdout.putStr reply.stdout
      (← IO.getStderr).putStr reply.stderr
      if reply.quits then return reply.next else interact reply.next ready

/-- Runs the interactive loop, with its history in the home directory. -/
def performRepl : IO Unit := do
  (← IO.getStdout).putStr Repl.banner
  let home := (← IO.getEnv "HOME").getD ""
  let path := if home = "" then History.file else home ++ "/" ++ History.file
  let before ← readBytes path
  let last ← interact (.start before.toOption) []
  let after := last.history.bytes.map fun c => c.toNat.toUInt8
  let _ ← attempt "open" path
      (IO.FS.writeBinFile path (ByteArray.mk after.toArray))

end Stylesheet.Command

open Stylesheet.Command in
def main (words : List String) : IO UInt32 := do
  match words with
  | "repl" :: _ =>
      performRepl
      return 0
  | _ => return UInt32.ofNat (← perform (scriptOf words))
