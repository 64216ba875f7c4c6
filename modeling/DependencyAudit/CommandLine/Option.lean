import DependencyAudit.Text.Quoted
import DependencyAudit.Text.Scalar

/-!
# Options of the command line

The options with their names and values, and the problems that a command line can have.
-/

namespace DependencyAudit

/-- The options of the command line. -/
inductive OptionName
  | dir
  | format
  | verbose
  | quiet
  | noColor
  | noPrefixMatch
  | workers
  | packageManager
  | logFile
  | dryRun
  | version
  | help
  deriving DecidableEq, Repr

/-- What a command line is about. -/
inductive CommandName
  /-- No command is named. -/
  | root
  | analyze
  | remove
  deriving DecidableEq, Repr

namespace CommandName

/-- The words that lead to a command. -/
def path : CommandName → Text
  | root => "deptrim"
  | analyze => "deptrim analyze"
  | remove => "deptrim remove"

end CommandName

namespace OptionName

/-- The options of all commands. -/
def common : List OptionName :=
  [dir, format, verbose, quiet, noColor, noPrefixMatch, workers, packageManager, logFile]

/-- The options of a command. -/
def ofCommand : CommandName → List OptionName
  | .root => common ++ [version, help]
  | .analyze => common ++ [help]
  | .remove => common ++ [dryRun, help]

/-- The name of an option, as it is written behind two dashes. -/
def word : OptionName → Text
  | dir => "dir"
  | format => "format"
  | verbose => "verbose"
  | quiet => "quiet"
  | noColor => "no-color"
  | noPrefixMatch => "no-prefix-match"
  | workers => "workers"
  | packageManager => "package-manager"
  | logFile => "log-file"
  | dryRun => "dry-run"
  | version => "version"
  | help => "help"

/-- The letter of an option, as it is written behind one dash. -/
def letter? : OptionName → Option UInt8
  | verbose => some (Text.byte 'v')
  | quiet => some (Text.byte 'q')
  | help => some (Text.byte 'h')
  | _ => none

/-- Does the option need a value? The others can stand alone. -/
def needsValue : OptionName → Bool
  | dir | format | workers | packageManager | logFile => true
  | _ => false

/-- The option as it is shown in messages. -/
def label (o : OptionName) : Text :=
  match o.letter? with
  | some b => Text.concat ["-", [b], ", --", o.word]
  | none => Text.concat ["--", o.word]

end OptionName

/-- The values of the options. -/
structure Options where
  /-- The project root; empty for the current directory. -/
  dir : Text
  /-- The format of the output. -/
  format : Text
  /-- How much is logged. -/
  verbosity : Int
  /-- Log nothing. -/
  quiet : Bool
  /-- Paint nothing. -/
  noColor : Bool
  /-- Only exact names count as uses. -/
  noPrefixMatch : Bool
  /-- How many files are read at a time; only a positive number counts. -/
  workers : Int
  /-- The package manager; empty for the one in the settings. -/
  packageManager : Text
  /-- A file that the log is appended to, or empty. -/
  logFile : Text
  /-- Only show what would be removed. -/
  dryRun : Bool
  /-- Show the version. -/
  version : Bool
  /-- Show the help text. -/
  help : Bool
  deriving DecidableEq, Repr

/-- What is wrong with a command line. -/
inductive UsageProblem
  /-- There is no such command; some are similar. -/
  | unknownCommand (name : Text) (command : CommandName) (similar : List Text)
  | unknownOption (name : Text)
  /-- There is no option with the first letter of a group of letters. -/
  | unknownLetter (letter : UInt8) (letters : Text)
  /-- What stands behind two dashes is no name. -/
  | badSyntax (argument : Text)
  | missingValue (o : OptionName)
  | invalidInteger (o : OptionName) (value : Text) (problem : Scalar.IntegerProblem)
  | invalidBool (o : OptionName) (value : Text)
  deriving DecidableEq, Repr

namespace UsageProblem

/-- A character between single quotes. -/
def quotedLetter (letter : UInt8) : Text :=
  let c := letter.toNat
  let body : Text :=
    if c = 39 then "\\'"
    else if c = 92 then "\\\\"
    else if isPrintable c then Utf8.encode c
    else Quoted.escapeCode c
  Ascii.apostrophe :: (body ++ [Ascii.apostrophe])

/-- The wording of an invalid value. -/
def invalidValue (o : OptionName) (value cause : Text) : Text :=
  Text.concat
    ["invalid argument ", Quoted.encode value, " for ", Quoted.encode o.label, " flag: ", cause]

/-- The wording of a problem. -/
def message : UsageProblem → Text
  | unknownCommand name command similar =>
    Text.concat
      ["unknown command ", Quoted.encode name, " for ", Quoted.encode command.path,
       if similar.isEmpty then []
       else Text.concat
        ["\n\nDid you mean this?\n",
         similar.flatMap fun s => Text.concat ["\t", s, "\n"]]]
  | unknownOption name => Text.concat ["unknown flag: --", name]
  | unknownLetter letter letters =>
    Text.concat ["unknown shorthand flag: ", quotedLetter letter, " in -", letters]
  | badSyntax argument => Text.concat ["bad flag syntax: ", argument]
  | missingValue o => Text.concat ["flag needs an argument: --", o.word]
  | invalidInteger o value problem =>
    invalidValue o value (Text.concat
      ["strconv.ParseInt: parsing ", Quoted.encode value, ": ", problem.reason])
  | invalidBool o value =>
    invalidValue o value (Text.concat
      ["strconv.ParseBool: parsing ", Quoted.encode value, ": invalid syntax"])

end UsageProblem

namespace Options

/-- The values before any option is given. -/
def default : Options :=
  ⟨[], "human", 0, false, false, false, 0, [], [], false, false, false⟩

/-- Reads the value of an option that is on or off. -/
def bool (o : OptionName) (value : Text) : Except UsageProblem Bool :=
  match Scalar.bool? value with
  | some b => .ok b
  | none => .error (.invalidBool o value)

/-- Reads the value of an option that is a number. -/
def integer (o : OptionName) (value : Text) : Except UsageProblem Int :=
  match Scalar.integer value with
  | .ok n => .ok n
  | .error p => .error (.invalidInteger o value p)

/-- Gives an option a value. -/
def set (s : Options) (o : OptionName) (value : Text) : Except UsageProblem Options :=
  match o with
  | .dir => .ok { s with dir := value }
  | .format => .ok { s with format := value }
  | .packageManager => .ok { s with packageManager := value }
  | .logFile => .ok { s with logFile := value }
  | .workers => (integer o value).map fun n => { s with workers := n }
  | .verbose =>
    if value = Text.ofString "+1" then .ok { s with verbosity := s.verbosity + 1 }
    else (integer o value).map fun n => { s with verbosity := n }
  | .quiet => (bool o value).map fun b => { s with quiet := b }
  | .noColor => (bool o value).map fun b => { s with noColor := b }
  | .noPrefixMatch => (bool o value).map fun b => { s with noPrefixMatch := b }
  | .dryRun => (bool o value).map fun b => { s with dryRun := b }
  | .version => (bool o value).map fun b => { s with version := b }
  | .help => (bool o value).map fun b => { s with help := b }

/-- Gives an option that stands alone its value: one more, or on. -/
def setAlone (s : Options) (o : OptionName) : Except UsageProblem Options :=
  s.set o (if o = .verbose then "+1" else "true")

end Options

end DependencyAudit
