import DependencyAudit.FileSystem.Basic

/-!
# Faults

Everything that can stop an operation, as causes. A fault of one of the stages of the tool
carries a stable code and, where there is one, the path and the cause behind it; `message`
puts a fault into words.
-/

namespace DependencyAudit

/-- The stable codes of faults. -/
inductive FaultCode
  /-- The project root is missing or unreadable. -/
  | io
  /-- A single source file could not be read. -/
  | fileRead
  /-- A source file does not parse. -/
  | parse
  /-- The manifest is missing or malformed. -/
  | manifest
  /-- The package manager failed. -/
  | removal
  /-- The settings are invalid. -/
  | config
  /-- The audit was interrupted. -/
  | canceled
  /-- A code of some other origin. -/
  | other (word : Text)
  deriving DecidableEq, Repr

namespace FaultCode

/-- The written form of a code. -/
def word : FaultCode → Text
  | io => "IO_ERROR"
  | fileRead => "FILE_READ_ERROR"
  | parse => "PARSE_ERROR"
  | manifest => "MANIFEST_ERROR"
  | removal => "REMOVAL_ERROR"
  | config => "CONFIG_INVALID"
  | canceled => "CANCELED"
  | other word => word

/-- The codes of the tool's own stages. -/
def known : List FaultCode :=
  [io, fileRead, parse, manifest, removal, config, canceled]

/-- The code with the given written form. -/
def ofWord (word : Text) : FaultCode :=
  (known.find? (·.word = word)).getD (other word)

end FaultCode

/-- The kinds of suggestions. -/
inductive FixKind
  | runCommand
  | editFile
  deriving DecidableEq, Repr

namespace FixKind

/-- The word that stands for the kind. -/
def word : FixKind → Text
  | runCommand => "run-command"
  | editFile => "edit-file"

end FixKind

/-- A suggestion what to do about a fault. -/
structure Fix where
  kind : FixKind
  command : Text
  path : Text
  description : Text
  deriving DecidableEq, Repr

namespace Fix

/-- The suggestion on one line, with the command or else the file in parentheses. -/
def hint (f : Fix) : Text :=
  if !f.command.isEmpty then Text.concat [f.description, " (", f.command, ")"]
  else if !f.path.isEmpty then Text.concat [f.description, " (", f.path, ")"]
  else f.description

end Fix

namespace FaultCode

/-- What to do about a fault with this code. -/
def fixes : FaultCode → List Fix
  | io =>
    [⟨.runCommand, "deptrim analyze --dir <project-root>", "",
      "Point deptrim at an existing, readable project directory"⟩]
  | manifest =>
    [⟨.editFile, "", "package.json", "Make sure package.json exists and is valid JSON"⟩]
  | removal =>
    [⟨.runCommand, "deptrim remove --dry-run", "",
      "package.json was left untouched; check the printed command and retry it by hand"⟩]
  | config =>
    [⟨.editFile, "", ".deptrim/config.json", "Fix the reported configuration field"⟩]
  | _ => []

end FaultCode

/-- Defects of a document in some data format, which are only told apart by the format. -/
inductive Defect
  /-- The text is not JSON. -/
  | json
  /-- The text is not TOML, or not a keep list. -/
  | toml
  /-- The settings file is not one JSON object. -/
  | settings
  /-- A setting has a value that does not fit. -/
  | setting
  deriving DecidableEq, Repr

namespace Defect

/-- The wording of a defect. -/
def describe : Defect → Text
  | json => "invalid JSON"
  | toml => "invalid TOML"
  | settings => "the settings file is not a single JSON object"
  | setting => "a setting has a value of the wrong type"

end Defect

/-- What went wrong. -/
inductive Fault
  /-- A fault of one of the stages of the tool. -/
  | coded (code : FaultCode) (text path : Text) (cause : Option Fault)
  /-- A fault with some context in front of it. -/
  | within (context : Text) (cause : Fault)
  /-- A fault that is fully described by its text. -/
  | plain (text : Text)
  /-- The operating system refused an operation. -/
  | system (error : SystemError)
  /-- A setting is invalid. -/
  | setting (field text : Text)
  /-- A settings file breaks the schema in several places, one per violation. -/
  | violations (texts : List Text)
  /-- A path leads out of the project. -/
  | outsideRoot
  /-- A file is larger than the limit. -/
  | tooLarge (size : Nat)
  /-- A document is not what its format asks for. -/
  | defect (d : Defect)
  /-- The settings file is not JSON at all. -/
  | unreadableSettings

namespace Fault

/-- A coded fault without a path. -/
def ofCode (code : FaultCode) (text : Text) (cause : Option Fault) : Fault :=
  coded code text [] cause

/-- Names the path that a coded fault is about. -/
def withPath (path : Text) : Fault → Fault
  | coded code text _ cause => coded code text path cause
  | f => f

/-- A fault in words, where `describe` words the defects of documents. -/
def messageWith (describe : Defect → Text) : Fault → Text
  | coded code text path cause =>
    Text.concat
      ["[", code.word, "] ", text,
       if path.isEmpty then [] else Text.concat [" (", path, ")"],
       match cause with
        | none => []
        | some c => Text.concat [": ", messageWith describe c]]
  | within context cause => Text.concat [context, ": ", messageWith describe cause]
  | plain text => text
  | system e => e.message
  | setting field text => Text.concat ["config error in field '", field, "': ", text]
  | violations texts => Text.join "; " texts
  | outsideRoot => "path escapes the project root"
  | tooLarge size => Text.concat ["file exceeds size limit: ", Text.ofNat size, " bytes"]
  | defect d => describe d
  | unreadableSettings => describe .json

/-- A fault in words. -/
def message (f : Fault) : Text := f.messageWith Defect.describe

/-- The fault directly behind this one. -/
def cause? : Fault → Option Fault
  | coded _ _ _ cause => cause
  | within _ cause => some cause
  | _ => none

/-- The first code in the chain of causes. -/
def code? : Fault → Option FaultCode
  | coded code _ _ _ => some code
  | within _ cause => code? cause
  | _ => none

/-- The written form of the first code in the chain, or nothing. -/
def codeWord (f : Fault) : Text :=
  (f.code?.map FaultCode.word).getD []

/-- The suggestions that come with a fault: those of its code, if it is itself a coded one. -/
def fixes : Fault → List Fix
  | coded code _ _ _ => code.fixes
  | _ => []

/-- Was the cause that a file is larger than the limit? -/
def isTooLarge : Fault → Bool
  | tooLarge _ => true
  | within _ cause => isTooLarge cause
  | coded _ _ _ (some cause) => isTooLarge cause
  | _ => false

/-- Was the cause that a path leads out of the project? -/
def isOutsideRoot : Fault → Bool
  | outsideRoot => true
  | within _ cause => isOutsideRoot cause
  | coded _ _ _ (some cause) => isOutsideRoot cause
  | _ => false

end Fault

end DependencyAudit
