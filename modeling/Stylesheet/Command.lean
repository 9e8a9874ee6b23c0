import Stylesheet.Command.Flags
import Stylesheet.Command.Repl
import Stylesheet.Tree.Dump

/-!
# The command line

The commands on files: building, checking, remarking on style, laying out and
dumping.  Each is a script made from the words of the command line.
-/

namespace Stylesheet

/-- The commands on a file. -/
inductive Command where
  | build
  | check
  | lint
  | fmt
  | ast
  deriving DecidableEq

namespace Command

def named? : String → Option Command
  | "build" => some build
  | "check" => some check
  | "lint" => some lint
  | "fmt" => some fmt
  | "ast" => some ast
  | _ => none

/-- What the program can do, in short. -/
def overview : String :=
  String.join
    ["icssc - The ICSS stylesheet compiler\n",
      "\n",
      "Usage:\n",
      "  icssc build [-o out.css] <file.icss>   Compile to CSS\n",
      "  icssc check <file.icss>                Parse and type-check only\n",
      "  icssc lint <file.icss>                 Run lint checks for style issues\n",
      "  icssc fmt [-w] <file.icss>             Print canonical ICSS\n",
      "  icssc ast [-eval] <file.icss>          Dump the syntax tree\n",
      "  icssc repl                             Start an interactive session\n",
      "\n",
      "Examples:\n",
      "  icssc build theme.icss              Build theme.icss -> theme.css\n",
      "  icssc build -o - theme.icss         Write the CSS to stdout\n",
      "  icssc fmt -w theme.icss             Rewrite theme.icss in canonical form\n"]

/-- The flags of a command. -/
def flags : Command → List Flag
  | build => [⟨"o", .text⟩]
  | fmt => [⟨"w", .switch⟩]
  | ast => [⟨"eval", .switch⟩]
  | check | lint => []

/-- How a command is used. -/
def usage : Command → String
  | build => "Usage of build:\n  -o string\n    \toutput file (- for stdout)\n"
  | check => "Usage of check:\n"
  | lint => "Usage of lint:\n"
  | fmt =>
      "Usage of fmt:\n  -w\twrite result to the source file instead of stdout\n"
  | ast => "Usage of ast:\n  -eval\n    \tcheck and evaluate before dumping\n"

/-- Ends with a complaint. -/
def failWith (message : String) : Script :=
  .complain (message ++ "\n") (.done 1)

/-- Goes on with the bytes of a source file. -/
def withSource (path : String) (next : List Char → Script) : Script :=
  .read path fun
    | .ok source => next source
    | .error e => failWith ("Error reading file: " ++ e.message)

/-- Writes CSS to a file, making the folders around it. -/
def writeCss (path css : String) : Script :=
  .makeFolders (Path.folder path) fun
    | .error e => failWith ("Error: failed to create output dir: " ++ e.message)
    | .ok _ => .write path css fun
        | .error e =>
            failWith ("Error: failed to write " ++ path ++ ": " ++ e.message)
        | .ok _ => .print ("Wrote " ++ path ++ "\n") (.done 0)

/-- Compiles the source at `path`; the CSS goes to `out`, a dash standing for
the output. -/
def buildScript (path out : String) : Script :=
  .read path fun
    | .error e =>
        failWith ("Error: failed to read " ++ path ++ ": " ++ e.message)
    | .ok source =>
        let compiled := compile source
        if compiled.diagnostics.hasErrors then
          failWith ("Error: compilation errors:\n"
            ++ compiled.diagnostics.report path)
        else if out = "-" then .print compiled.css (.done 0)
        else writeCss out compiled.css

def checkScript (path : String) : Script :=
  withSource path fun source =>
    let found := Stylesheet.check source
    if found.hasErrors then failWith (found.report path)
    else .print "No errors found.\n" (.done 0)

def lintScript (path : String) : Script :=
  withSource path fun source =>
    let found := Stylesheet.lint source
    if found.hasErrors then failWith (found.report path)
    else if found.isEmpty then .print "No lint warnings.\n" (.done 0)
    else
      .print (found.report path ++ "\n" ++ toString found.length
        ++ " warning(s) found.\n")
        (.done 0)

/-- Lays out the source at `path`, in place if `write` is set. -/
def fmtScript (path : String) (write : Bool) : Script :=
  withSource path fun source =>
    match Stylesheet.format source with
    | .error found => failWith (found.report path)
    | .ok text =>
        if write then
          .write path text fun
            | .ok _ => .done 0
            | .error e => failWith ("Error writing file: " ++ e.message)
        else .print text (.done 0)

/-- Dumps the source at `path` with what checking it attaches, evaluated if
`eval` is set. -/
def astScript (path : String) (eval : Bool) : Script :=
  withSource path fun source =>
    let loaded := load source
    if loaded.diagnostics.hasErrors then
      failWith (loaded.diagnostics.report path)
    else
      let checked := loaded.arena.check
      let shown := if eval then checked.evaluate else checked
      .print shown.rootTree.dump (.done 0)

/-- The script of a command on the file at `path`. -/
def onFile (command : Command) (settings : Settings) (path : String) : Script :=
  match command with
  | build =>
      let out := settings.text "o"
      buildScript path (if out = "" then Path.cssPath path else out)
  | check => checkScript path
  | lint => lintScript path
  | fmt => fmtScript path (settings.isOn "w")
  | ast => astScript path (settings.isOn "eval")

/-- The script of a command with its words. -/
def script (command : Command) (words : List String) : Script :=
  match readFlags command.flags [] words with
  | .error fault => .complain (fault.message ++ command.usage) (.done 2)
  | .ok settings =>
      match settings.operands with
      | [] => failWith "Error: no input file specified"
      | path :: _ => command.onFile settings path

/-- The script of a whole command line, the interactive loop apart. -/
def scriptOf (words : List String) : Script :=
  match words with
  | [] => .complain overview (.done 1)
  | word :: rest =>
      match named? word with
      | some command => command.script rest
      | none =>
          if word ∈ ["help", "--help", "-h"] then .print overview (.done 0)
          else .complain ("Unknown command: " ++ word ++ "\n\n" ++ overview)
            (.done 1)

/-- Runs a command line in a directory, with the given input. -/
def run (words : List String) (input : List Char) (d : Directory) : Outcome :=
  match words with
  | "repl" :: _ => Repl.run input d
  | _ => (scriptOf words).run d

end Command
end Stylesheet
