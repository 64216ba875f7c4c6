import DependencyAudit.Log.Line
import DependencyAudit.Output.Response
import DependencyAudit.Output.Table

/-!
# Responses for people

The texts that the commands print by default, painted where colour is on.
-/

namespace DependencyAudit

namespace Human

/-- A natural number with commas between groups of three digits. -/
def commas (n : Nat) : Text :=
  let digits := Text.ofNat n
  let groups := digits.foldr
    (fun d (groups : List Text) =>
      match groups with
      | group :: more => if group.length < 3 then (d :: group) :: more else [d] :: group :: more
      | [] => [[d]])
    []
  Text.join "," groups

/-- An integer with commas between groups of three digits. -/
def comma : Int → Text
  | .ofNat n => commas n
  | .negSucc n => Ascii.dash :: commas (n + 1)

/-- The form of a noun for a count. -/
def plural (n : Int) (one many : Text) : Text :=
  if n = 1 then one else many

/-- The items of a list with commas between them. -/
def listing (l : Option (List Text)) : Text :=
  Text.join ", " (l.getD [])

/-- A reason in parentheses, if there is one. -/
def reasonText (k : KeptPackage) : Text :=
  if k.reason.isEmpty then [] else Text.concat [" (", k.reason, ")"]

end Human

open Human

namespace AnalysisResponse

/-- The table of the packages that are imported but unused. -/
def unusedTable (unused : List UnusedEntry) : Text :=
  Table.render ("Dependency", "Imported in")
    (unused.map fun u => (u.dependency, Text.join "\n" (u.files.getD [])))

/-- The lines on used packages and on those that are imported but unused. -/
def usedLines (color : Bool) (r : AnalysisResponse) : List Text :=
  let green := Paint.apply color [.green]
  let yellow := Paint.apply color [.yellow]
  let red := Paint.apply color [.red]
  let unused := r.importedButUnused.getD []
  [if (r.used.getD []).isEmpty then red "❌ No used dependencies found."
    else green "✅ Used dependencies: " ++ listing r.used,
   []] ++
  if unused.isEmpty then [green "✅ No dependencies are imported but unused!"]
  else [yellow "⚠️  Imported but unused dependencies:", unusedTable unused]

/-- The lines of the response. -/
def lines (color : Bool) (r : AnalysisResponse) : List Text :=
  let bold := Paint.apply color [.bold]
  let green := Paint.apply color [.green]
  let yellow := Paint.apply color [.yellow]
  let faint := Paint.apply color [.faint]
  let never := r.neverImported.getD []
  let diagnostics := r.diagnostics.getD []
  [bold (Text.concat ["deptrim v", r.version]), List.replicate 60 Ascii.equals,
   Text.concat ["Project: ", r.root]] ++
  (if r.noSourceFiles then []
    else [Text.concat
      ["Scanned ", comma r.filesScanned, " ", plural r.filesScanned "file" "files"]]) ++
  [[], bold "Results of the analysis:", []] ++
  (if r.noSourceFiles then
      [yellow "No JavaScript files found. Is the search path correct?"]
    else r.usedLines color) ++
  [[],
   if never.isEmpty then green "✅ All installed dependencies are imported!"
   else yellow "⚠️  Unused dependencies (installed but not imported): " ++
     listing r.neverImported] ++
  (if r.kept.isEmpty then []
    else
      [[], Text.concat ["Kept by keep list (", Text.ofNat r.kept.length, "):"]] ++
        r.kept.map fun k => Text.concat
          ["  ", k.name, if k.reason.isEmpty then [] else faint (reasonText k)]) ++
  (if diagnostics.isEmpty then []
    else
      [[], Text.concat ["Diagnostics (", Text.ofNat diagnostics.length, "):"]] ++
        diagnostics.map fun d =>
          Text.concat ["  [", d.kind.word, "] ", d.path, ": ", d.message])

end AnalysisResponse

namespace RemovalResponse

/-- The lines of the response. -/
def lines (color : Bool) (r : RemovalResponse) : List Text :=
  let green := Paint.apply color [.green]
  let yellow := Paint.apply color [.yellow]
  let faint := Paint.apply color [.faint]
  let packages (n : Nat) : Text :=
    Text.concat [Text.ofNat n, " ", plural n "dependency" "dependencies"]
  let candidates := r.candidates.getD []
  let removed := r.removed.getD []
  (if candidates.isEmpty then [green "No unused dependencies to remove!"]
    else if r.dryRun then
      let count := Text.ofNat candidates.length
      [yellow (Text.concat
          ["Would remove ", count, " unused ",
           plural candidates.length "dependency" "dependencies", ": "]) ++ listing r.candidates] ++
        if r.command.isEmpty then [] else [faint (Text.concat ["  ", r.command])]
    else
      [yellow "Removing unused dependencies: " ++ listing r.candidates,
       green (Text.concat ["Removed ", packages removed.length, " with ", r.manager, "."])]) ++
  r.kept.map fun k => faint (Text.concat ["Kept ", k.name, reasonText k])

end RemovalResponse

namespace Response

/-- The text of some lines, without line ends at its end. -/
def ofLines (lines : List Text) : Text :=
  Text.dropRightWhile (· = Ascii.newline) (Text.join "\n" lines)

end Response

end DependencyAudit
