import DependencyAudit.Text.Blank

/-!
# Module specifiers

A module specifier is the quoted text of an import. It names a package, a part of a package
(`lodash/fp/map`), a scoped package (`@babel/core/lib`), a file or an address. `packageName?`
reduces it to the name under which the package is declared, and `isBuiltin` recognises the
modules that ship with the runtime.
-/

namespace DependencyAudit.Specifier

/-- The part before the first slash and the part after it. -/
def firstSegment (text : Text) : Text × Option Text :=
  text.cutAtByte (Text.byte '/')

/-- Is the trimmed specifier a relative path, an absolute path or an address? -/
def isLocation (text : Text) : Bool :=
  text.startsWith "." || text.startsWith "/" || Text.containsText "://" text

/-- The package that a specifier refers to: its first segment, or the first two segments of a
scoped name. Paths and addresses refer to no package. -/
def packageName? (specifier : Text) : Option Text :=
  let text := specifier.trim
  if text.isEmpty || isLocation text then none
  else
    match firstSegment text with
    | (head, none) => some head
    | (head, some rest) =>
      let second := (firstSegment rest).1
      if text.startsWith "@" && !second.isEmpty then some (head ++ Text.byte '/' :: second)
      else some head

/-- The modules that ship with the runtime and are never declared. -/
def builtins : List Text :=
  ["assert", "async_hooks", "buffer", "child_process", "cluster", "console", "constants",
   "crypto", "dgram", "diagnostics_channel", "dns", "domain", "events", "fs", "http", "http2",
   "https", "inspector", "module", "net", "os", "path", "perf_hooks", "process", "punycode",
   "querystring", "readline", "repl", "stream", "string_decoder", "sys", "timers", "tls",
   "trace_events", "tty", "url", "util", "v8", "vm", "wasi", "worker_threads",
   "zlib"].map Text.ofString

/-- Does the specifier name a module of the runtime? -/
def isBuiltin (specifier : Text) : Bool :=
  specifier.startsWith "node:" || builtins.contains (firstSegment specifier).1

end DependencyAudit.Specifier
