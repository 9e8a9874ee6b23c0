import Stylesheet.Text.Quoted

/-!
# Flags

Options in front of the operands of a command.  One dash and two dashes mean the
same, the last setting of a flag counts, and the first word that is no flag ends
them.
-/

namespace Stylesheet.Command

/-- What a flag takes: a text, or a truth value that may be left out. -/
inductive FlagShape where
  | text
  | switch
  deriving DecidableEq

structure Flag where
  name : String
  shape : FlagShape
  deriving DecidableEq

/-- What can be wrong with the flags of a command; asking for help counts
too. -/
inductive FlagFault where
  | badSyntax (word : String)
  | undefined (name : String)
  | missingValue (name : String)
  | badSwitch (value name : String)
  | help
  deriving DecidableEq

/-- What is said about a fault before the usage of the command. -/
def FlagFault.message : FlagFault → String
  | badSyntax word => "bad flag syntax: " ++ word ++ "\n"
  | undefined name => "flag provided but not defined: -" ++ name ++ "\n"
  | missingValue name => "flag needs an argument: -" ++ name ++ "\n"
  | badSwitch value name =>
      "invalid boolean value " ++ Text.quote value ++ " for -" ++ name
        ++ ": parse error\n"
  | help => ""

/-- The settings of flags, the latest first, and the operands. -/
structure Settings where
  values : List (String × String)
  operands : List String

namespace Settings

def text (s : Settings) (flag : String) : String :=
  (s.values.lookup flag).getD ""

def isOn (s : Settings) (flag : String) : Bool :=
  s.values.lookup flag = some "true"

end Settings

/-- What a word of the command line is. -/
inductive Word where
  | operand
  | endOfFlags
  | malformed
  | flag (name : String) (value : Option String)

namespace Word

/-- A flag by what follows its dashes. -/
def ofFlag (body : List Char) : Word :=
  match body with
  | [] | '-' :: _ | '=' :: _ => malformed
  | _ =>
      let name := String.ofList (body.takeWhile (· ≠ '='))
      match body.dropWhile (· ≠ '=') with
      | _ :: value => flag name (some (String.ofList value))
      | [] => flag name none

def of (word : String) : Word :=
  match word.toList with
  | ['-', '-'] => endOfFlags
  | '-' :: '-' :: body => ofFlag body
  | '-' :: c :: body => ofFlag (c :: body)
  | _ => operand

end Word

/-- The truth value that a text stands for. -/
def switchValue? (text : String) : Option Bool :=
  if text ∈ ["1", "t", "T", "true", "TRUE", "True"] then some true
  else if text ∈ ["0", "f", "F", "false", "FALSE", "False"] then some false
  else none

/-- Reads flags from the front of the words of a command, with the settings so
far. -/
def readFlags (flags : List Flag) (values : List (String × String)) :
    List String → Except FlagFault Settings
  | [] => .ok ⟨values, []⟩
  | word :: rest =>
      match Word.of word with
      | .operand => .ok ⟨values, word :: rest⟩
      | .endOfFlags => .ok ⟨values, rest⟩
      | .malformed => .error (.badSyntax word)
      | .flag name value =>
          match flags.find? (·.name = name) with
          | none =>
              .error (if name = "help" ∨ name = "h" then .help
                else .undefined name)
          | some ⟨_, .switch⟩ =>
              match switchValue? (value.getD "true") with
              | some on =>
                  readFlags flags
                    ((name, if on then "true" else "false") :: values) rest
              | none => .error (.badSwitch (value.getD "true") name)
          | some ⟨_, .text⟩ =>
              match value with
              | some text => readFlags flags ((name, text) :: values) rest
              | none =>
                  match rest with
                  | text :: more =>
                      readFlags flags ((name, text) :: values) more
                  | [] => .error (.missingValue name)

end Stylesheet.Command
