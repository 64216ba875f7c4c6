import DependencyAudit.CommandLine.Option
import DependencyAudit.Text.Case

/-!
# Invocations

What a list of arguments asks for. The command is the first argument that is neither an option
nor the value of one; then the options are read in order.
-/

namespace DependencyAudit

/-- What a command line asks for. -/
inductive Invocation
  | showHelp
  | showVersion
  | analyze (options : Options)
  | remove (options : Options)
  deriving DecidableEq, Repr

namespace Invocation

/-- The arguments of options that stand on their own take a value from the next argument,
judged by the options of all commands alone: an unknown option counts as one that takes a
value. -/
def takesNext (argument : Text) : Bool :=
  if argument.contains Ascii.equals then false
  else
    match Text.dropPrefix? "--" argument with
    | some name => !(OptionName.common.any fun o => o.word = name && !o.needsValue)
    | none =>
      match argument with
      | [Ascii.dash, letter] =>
        !(OptionName.common.any fun o => o.letter? = some letter && !o.needsValue)
      | _ => false

/-- Is the argument a word, neither empty nor an option? -/
def isWord (argument : Text) : Bool :=
  !argument.isEmpty && argument.head? != some Ascii.dash

/-- The first word of a command line, if it can be told from the value of an option. An option
that takes a value and has only one argument behind it ends the search. -/
def firstWord? : List Text → Option Text
  | [] => none
  | argument :: rest =>
    if argument = Text.ofString "--" then none
    else if takesNext argument then
      match rest with
      | _ :: second :: more => firstWord? (second :: more)
      | _ => none
    else if isWord argument then some argument
    else firstWord? rest

/-- Removes the first occurrence of a word that is not the value of an option. -/
def withoutWord (word : Text) : List Text → List Text
  | [] => []
  | argument :: rest =>
    if argument = Text.ofString "--" then argument :: rest
    else if takesNext argument then
      match rest with
      | value :: more => argument :: value :: withoutWord word more
      | [] => [argument]
    else if isWord argument && argument = word then rest
    else argument :: withoutWord word rest

/-- One row of the table of edit distances: the distances of all beginnings of `t` from the
text so far with `c` added, from those without it. -/
def nextDistances (c : UInt8) (t : Text) (left : Nat) (previous : List Nat) : List Nat :=
  match t, previous with
  | d :: t, diagonal :: above :: more =>
    let here := if c = d then diagonal else 1 + min diagonal (min above left)
    here :: nextDistances c t here (above :: more)
  | _, _ => []

/-- The least number of insertions, deletions and replacements that lead from one text to the
other. -/
def editDistance (s t : Text) : Nat :=
  let first := List.range (t.length + 1)
  let last := s.foldl (fun row c =>
    let start := row.headD 0 + 1
    start :: nextDistances c t start row) first
  last.getLastD 0

/-- The commands that can be meant by a misspelt name. -/
def suggestions (name : Text) : List Text :=
  (["analyze", "remove", "completion"] : List Text).filter fun c =>
    editDistance name.lower c ≤ 2 || c.startsWith name.lower

/-- Reads the letters behind one dash. -/
def readLetters (command : CommandName) (s : Options) (letters : Text) :
    Except UsageProblem Options :=
  match letters with
  | [] => .ok s
  | letter :: rest =>
    match (OptionName.ofCommand command).find? (·.letter? = some letter) with
    | none => .error (.unknownLetter letter letters)
    | some o =>
      match rest with
      | Ascii.equals :: b :: value => s.set o (b :: value)
      | rest => (s.setAlone o).bind fun s => readLetters command s rest

/-- Splits what stands behind two dashes into a name and a value. -/
def splitLong (body : Text) : Text × Option Text := body.cutAtByte Ascii.equals

/-- Reads the options of a command. Also returns the arguments that are no options. -/
def readOptions (command : CommandName) (s : Options) (words : List Text) :
    List Text → Except UsageProblem (Options × List Text)
  | [] => .ok (s, words.reverse)
  | argument :: rest =>
    match argument with
    | [Ascii.dash, Ascii.dash] => .ok (s, words.reverse ++ rest)
    | Ascii.dash :: Ascii.dash :: body =>
      let (name, value) := splitLong body
      if name.isEmpty || name.head? = some Ascii.dash then .error (.badSyntax argument)
      else
        match (OptionName.ofCommand command).find? (·.word = name) with
        | none => .error (.unknownOption name)
        | some o =>
          match value with
          | some value => (s.set o value).bind fun s => readOptions command s words rest
          | none =>
            if o.needsValue then
              match rest with
              | [] => .error (.missingValue o)
              | value :: rest => (s.set o value).bind fun s => readOptions command s words rest
            else (s.setAlone o).bind fun s => readOptions command s words rest
    | Ascii.dash :: letter :: letters =>
      (readLetters command s (letter :: letters)).bind fun s => readOptions command s words rest
    | _ => readOptions command s (argument :: words) rest

/-- What a command with its options asks for. Commands take no further arguments. -/
def ofCommand (command : CommandName) (arguments : List Text) :
    Except UsageProblem Invocation := do
  let (s, words) ← readOptions command Options.default [] arguments
  if s.help then .ok showHelp
  else
    match command, words with
    | .root, _ => .ok (if s.version then showVersion else showHelp)
    | command, word :: _ => .error (.unknownCommand word command [])
    | .analyze, [] => .ok (analyze s)
    | .remove, [] => .ok (remove s)

/-- Words that lead to help texts. -/
def helpWords : List Text := ["help", "completion"]

/-- What the arguments ask for. -/
def parse (arguments : List Text) : Except UsageProblem Invocation :=
  match firstWord? arguments with
  | none => ofCommand .root arguments
  | some word =>
    if word = Text.ofString "analyze" then ofCommand .analyze (withoutWord word arguments)
    else if word = Text.ofString "remove" then ofCommand .remove (withoutWord word arguments)
    else if helpWords.contains word then .ok showHelp
    else .error (.unknownCommand word .root (suggestions word))

end Invocation

end DependencyAudit
