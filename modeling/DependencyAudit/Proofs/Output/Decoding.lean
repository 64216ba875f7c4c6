import DependencyAudit.Proofs.Output.Record

/-!
# The JSON output loses nothing

A response in JSON is an object with the fields of the response by their names, the fields of the
report among them. The decoders below know these names and nothing about how a response is
written. They give back the response itself, for texts of any characters.

## Main definitions

* `AnalysisResponse.ofJson?` and `RemovalResponse.ofJson?`: the response that an object stands for;
* `AnalysisResponse.texts` and `RemovalResponse.texts`: all texts of a response.

## Main results

* `AnalysisResponse.ofJson?_toJson` and `RemovalResponse.ofJson?_toJson`: responses are read back
  from their values;
* `Response.json_output_decodes`: responses are read back from the output.
-/

namespace DependencyAudit

open JsonValue (IsWritten text? truth? integer? list? required? optional? text?_ofText
  list?_ofList list?_ofTexts required?_ofMembers optional?_ofMembers
  optional?_ofMembers_of_none truth?_bool integer?_ofInt)
open Utf8 (IsUtf8)

/-! ## Decoders -/

/-- The kept package that an object stands for. -/
def KeptPackage.ofJson? (v : JsonValue) : Option KeptPackage := do
  let name ← v.required? "name" text?
  let reason ← v.optional? "reason" text? []
  some ⟨name, reason⟩

/-- The unused package that an object stands for. -/
def UnusedEntry.ofJson? (v : JsonValue) : Option UnusedEntry := do
  let dependency ← v.required? "dependency" text?
  let files ← v.required? "files" (list? text?)
  some ⟨dependency, files⟩

/-- The problem that an object stands for. -/
def Diagnostic.ofJson? (v : JsonValue) : Option Diagnostic := do
  let path ← v.required? "path" text?
  let kind ← v.required? "kind" text?
  let message ← v.required? "message" text?
  some ⟨path, ⟨kind⟩, message⟩

/-- The list of kept packages in an object; it may be left out. -/
def KeptPackage.listIn? (v : JsonValue) : Option (List KeptPackage) :=
  (v.optional? "kept" (list? KeptPackage.ofJson?) none).map (·.getD [])

/-- The response of an analysis that an object stands for. -/
def AnalysisResponse.ofJson? (v : JsonValue) : Option AnalysisResponse := do
  let version ← v.required? "version" text?
  let root ← v.required? "root" text?
  let manifest ← v.required? "manifest" text?
  let used ← v.required? "used" (list? text?)
  let importedButUnused ← v.required? "importedButUnused" (list? UnusedEntry.ofJson?)
  let neverImported ← v.required? "neverImported" (list? text?)
  let noSourceFiles ← v.required? "noSourceFiles" truth?
  let filesScanned ← v.required? "filesScanned" integer?
  let diagnostics ← v.required? "diagnostics" (list? Diagnostic.ofJson?)
  let kept ← KeptPackage.listIn? v
  some ⟨version, root, manifest, used, importedButUnused, neverImported, noSourceFiles,
    filesScanned, diagnostics, kept⟩

/-- The response of a removal that an object stands for. -/
def RemovalResponse.ofJson? (v : JsonValue) : Option RemovalResponse := do
  let dryRun ← v.required? "dryRun" truth?
  let manager ← v.required? "manager" text?
  let command ← v.optional? "command" text? []
  let candidates ← v.required? "candidates" (list? text?)
  let removed ← v.required? "removed" (list? text?)
  let kept ← KeptPackage.listIn? v
  some ⟨dryRun, manager, command, candidates, removed, kept⟩

/-! ## Texts -/

/-- The texts of a kept package. -/
def KeptPackage.texts (k : KeptPackage) : List Text :=
  [k.name, k.reason]

/-- The texts of an unused package. -/
def UnusedEntry.texts (u : UnusedEntry) : List Text :=
  u.dependency :: u.files.getD []

/-- The texts of a problem. -/
def Diagnostic.texts (d : Diagnostic) : List Text :=
  [d.path, d.kind.word, d.message]

/-- All texts of the response of an analysis. -/
def AnalysisResponse.texts (r : AnalysisResponse) : List Text :=
  [r.version, r.root, r.manifest] ++ r.used.getD [] ++
    (r.importedButUnused.getD []).flatMap UnusedEntry.texts ++ r.neverImported.getD [] ++
    (r.diagnostics.getD []).flatMap Diagnostic.texts ++ r.kept.flatMap KeptPackage.texts

/-- All texts of the response of a removal. -/
def RemovalResponse.texts (r : RemovalResponse) : List Text :=
  [r.manager, r.command] ++ r.candidates.getD [] ++ r.removed.getD [] ++
    r.kept.flatMap KeptPackage.texts

/-! ## Reading values back -/

/-- A kept package is read as it was written. -/
theorem KeptPackage.ofJson?_toJson {k : KeptPackage} (h : ∀ t ∈ k.texts, IsUtf8 t) :
    ofJson? k.toJson = some k := by
  obtain ⟨name, reason⟩ := k
  simp only [texts, List.forall_mem_cons] at h
  obtain ⟨hname, hreason, -⟩ := h
  -- an empty reason is left out, and what is left out is empty
  cases reason with
  | nil =>
    rw [ofJson?, toJson, required?_ofMembers rfl rfl (text?_ofText hname),
      optional?_ofMembers_of_none rfl rfl]
    rfl
  | cons b more =>
    rw [ofJson?, toJson, required?_ofMembers rfl rfl (text?_ofText hname),
      optional?_ofMembers rfl rfl (text?_ofText hreason)]
    rfl

/-- An unused import is read as it was written. -/
theorem UnusedEntry.ofJson?_ofMembers {u : UnusedEntry} (h : ∀ t ∈ u.texts, IsUtf8 t) :
    ofJson? (.ofMembers [("dependency", .ofText u.dependency), ("files", .ofTexts u.files)]) =
      some u := by
  obtain ⟨hdependency, hfiles⟩ := List.forall_mem_cons.mp h
  rw [ofJson?, required?_ofMembers rfl rfl (text?_ofText hdependency),
    required?_ofMembers rfl rfl (list?_ofTexts hfiles)]
  rfl

/-- A diagnostic is read as it was written. -/
theorem Diagnostic.ofJson?_ofMembers {d : Diagnostic} (h : ∀ t ∈ d.texts, IsUtf8 t) :
    ofJson? (.ofMembers [("path", .ofText d.path), ("kind", .ofText d.kind.word),
      ("message", .ofText d.message)]) = some d := by
  simp only [texts, List.forall_mem_cons] at h
  obtain ⟨hpath, hkind, hmessage, -⟩ := h
  rw [ofJson?, required?_ofMembers rfl rfl (text?_ofText hpath),
    required?_ofMembers rfl rfl (text?_ofText hkind),
    required?_ofMembers rfl rfl (text?_ofText hmessage)]
  rfl

/-! ## Kept packages -/

/-- The member with the kept packages, which is left out if there are none. -/
abbrev KeptPackage.members (kept : List KeptPackage) : List (Text × JsonValue) :=
  if kept.isEmpty then [] else [("kept", .array (kept.map toJson))]

section Kept

variable {others : List (Text × JsonValue)} (kept : List KeptPackage)
  (hkeys : others.all (·.1.isAscii) = true)

include hkeys

/-- The names of the members are ASCII, also of the one for kept packages. -/
private theorem KeptPackage.all_isAscii_append :
    (others ++ members kept).all (·.1.isAscii) = true := by
  rw [List.all_append, hkeys, Bool.true_and]
  cases kept with
  | nil => rfl
  | cons k more => rfl

variable {α : Type} {read? : JsonValue → Option α} {name : Text} {w : JsonValue} {a : α}

/-- A field in front of the kept packages. -/
theorem KeptPackage.required?_append (hfield : others.lookup name = some w)
    (hread : read? w = some a) :
    (JsonValue.ofMembers (others ++ members kept)).required? name read? = some a := by
  refine required?_ofMembers (all_isAscii_append kept hkeys) ?_ hread
  rw [List.lookup_append, hfield, Option.some_or]

/-- An optional field in front of the kept packages. -/
theorem KeptPackage.optional?_append (hfield : others.lookup name = some w)
    (hread : read? w = some a) (empty : α) :
    (JsonValue.ofMembers (others ++ members kept)).optional? name read? empty = some a := by
  refine optional?_ofMembers (all_isAscii_append kept hkeys) ?_ hread empty
  rw [List.lookup_append, hfield, Option.some_or]

/-- A field that is not even among the kept packages. -/
theorem KeptPackage.optional?_append_of_none (hfield : others.lookup name = none)
    (hname : name ≠ Text.ofString "kept") (empty : α) :
    (JsonValue.ofMembers (others ++ members kept)).optional? name read? empty = some empty := by
  refine optional?_ofMembers_of_none (all_isAscii_append kept hkeys) ?_ empty
  rw [List.lookup_append, hfield, Option.none_or, members]
  split
  · rfl
  · rw [List.lookup_cons, beq_eq_false_iff_ne.mpr hname, List.lookup_nil]

/-- The kept packages are read back behind other members, also if there are none. -/
theorem KeptPackage.listIn?_ofMembers (h : ∀ k ∈ kept, ∀ t ∈ k.texts, IsUtf8 t)
    (hothers : others.lookup (Text.ofString "kept") = none) :
    listIn? (.ofMembers (others ++ members kept)) = some kept := by
  have hall := all_isAscii_append kept hkeys
  cases kept with
  | nil =>
    rw [listIn?, optional?_ofMembers_of_none hall (by simpa [members] using hothers)]
    rfl
  | cons k more =>
    have hfield : (others ++ members (k :: more)).lookup (Text.ofString "kept") =
        some (JsonValue.ofList toJson (some (k :: more))) := by
      rw [List.lookup_append, hothers]
      rfl
    rw [listIn?, optional?_ofMembers hall hfield
      (list?_ofList fun k hk => ofJson?_toJson (h k hk))]
    rfl

end Kept

/-! ## Responses -/

/-- The answer of an analysis is read as it was written. -/
theorem AnalysisResponse.ofJson?_toJson {r : AnalysisResponse} (h : ∀ t ∈ r.texts, IsUtf8 t) :
    ofJson? r.toJson = some r := by
  simp only [texts, List.forall_mem_append, List.forall_mem_cons, List.forall_mem_flatMap] at h
  obtain ⟨⟨⟨⟨⟨⟨hversion, hroot, hmanifest, -⟩, hused⟩, hunused⟩, hnever⟩, hdiagnostics⟩, hkept⟩ := h
  have hentries := list?_ofList fun u hu => UnusedEntry.ofJson?_ofMembers (hunused u hu)
  have hproblems := list?_ofList fun d hd => Diagnostic.ofJson?_ofMembers (hdiagnostics d hd)
  -- each field stands in front of the kept packages and is found by its name
  rw [toJson, JsonValue.ofParts, List.flatten_cons, List.flatten_singleton, ofJson?,
    KeptPackage.required?_append _ rfl rfl (text?_ofText hversion),
    KeptPackage.required?_append _ rfl rfl (text?_ofText hroot),
    KeptPackage.required?_append _ rfl rfl (text?_ofText hmanifest),
    KeptPackage.required?_append _ rfl rfl (list?_ofTexts hused),
    KeptPackage.required?_append _ rfl rfl hentries,
    KeptPackage.required?_append _ rfl rfl (list?_ofTexts hnever),
    KeptPackage.required?_append _ rfl rfl (truth?_bool r.noSourceFiles),
    KeptPackage.required?_append _ rfl rfl (integer?_ofInt r.filesScanned),
    KeptPackage.required?_append _ rfl rfl hproblems,
    KeptPackage.listIn?_ofMembers _ rfl hkept rfl]
  rfl

/-- The answer of a removal is read as it was written. -/
theorem RemovalResponse.ofJson?_toJson {r : RemovalResponse} (h : ∀ t ∈ r.texts, IsUtf8 t) :
    ofJson? r.toJson = some r := by
  obtain ⟨dryRun, manager, command, candidates, removed, kept⟩ := r
  simp only [texts, List.forall_mem_append, List.forall_mem_cons, List.forall_mem_flatMap] at h
  obtain ⟨⟨⟨⟨hmanager, hcommand, -⟩, hcandidates⟩, hremoved⟩, hkept⟩ := h
  rw [toJson, JsonValue.ofParts, List.flatten_cons, List.flatten_cons, List.flatten_cons,
    List.flatten_singleton, ← List.append_assoc, ← List.append_assoc, ofJson?]
  -- an empty command is left out, and what is left out is empty
  cases command with
  | nil =>
    rw [KeptPackage.required?_append _ rfl rfl (truth?_bool dryRun),
      KeptPackage.required?_append _ rfl rfl (text?_ofText hmanager),
      KeptPackage.optional?_append_of_none _ rfl rfl (by decide),
      KeptPackage.required?_append _ rfl rfl (list?_ofTexts hcandidates),
      KeptPackage.required?_append _ rfl rfl (list?_ofTexts hremoved),
      KeptPackage.listIn?_ofMembers _ rfl hkept rfl]
    rfl
  | cons b more =>
    rw [KeptPackage.required?_append _ rfl rfl (truth?_bool dryRun),
      KeptPackage.required?_append _ rfl rfl (text?_ofText hmanager),
      KeptPackage.optional?_append _ rfl rfl (text?_ofText hcommand),
      KeptPackage.required?_append _ rfl rfl (list?_ofTexts hcandidates),
      KeptPackage.required?_append _ rfl rfl (list?_ofTexts hremoved),
      KeptPackage.listIn?_ofMembers _ rfl hkept rfl]
    rfl

/-! ## Output -/

/-- A kept package is written one level deep. -/
theorem KeptPackage.isWritten_toJson (k : KeptPackage) : IsWritten 1 k.toJson := by
  obtain ⟨name, reason⟩ := k
  cases reason with
  | nil =>
    -- the values are variables, but the names are not: comparing them is a computation
    refine .ofMembers rfl (of_decide_eq_true rfl) ?_
    exact List.forall_mem_singleton.mpr (.ofText 0 _)
  | cons b more =>
    refine .ofMembers rfl (of_decide_eq_true rfl) (List.forall_mem_cons.mpr ⟨.ofText 0 _, ?_⟩)
    exact List.forall_mem_singleton.mpr (.ofText 0 _)

/-- An object with other members and the kept packages is written as such. -/
theorem KeptPackage.isWritten_append {n : Nat} {others : List (Text × JsonValue)}
    (kept : List KeptPackage) (hkeys : others.all (·.1.isAscii) = true)
    (hdistinct : (others.map (·.1) ++ [Text.ofString "kept"]).Nodup)
    (h : ∀ m ∈ others, IsWritten (n + 2) m.2) :
    IsWritten (n + 3) (.ofMembers (others ++ members kept)) := by
  -- the member is left out if there are no kept packages, for the keys as well as for the values
  refine .ofMembers (all_isAscii_append kept hkeys) ?_ (List.forall_mem_append.mpr ⟨h, ?_⟩)
  · cases kept with
    | nil => simpa [members] using (List.nodup_append.mp hdistinct).1
    | cons k more => simpa [members] using hdistinct
  · cases kept with
    | nil => simp
    | cons k more =>
      have hlist := IsWritten.ofList isWritten_toJson (some (k :: more))
      exact List.forall_mem_singleton.mpr (hlist.mono (by omega))

/-- The answer of an analysis is written four levels deep at most. -/
theorem AnalysisResponse.isWritten_toJson (r : AnalysisResponse) : IsWritten 4 r.toJson := by
  have hunused (u : UnusedEntry) : IsWritten 2 (.ofMembers
      [("dependency", .ofText u.dependency), ("files", .ofTexts u.files)]) :=
    .ofMembers rfl (of_decide_eq_true rfl) (by simpa using ⟨.ofText 1 _, .ofTexts 0 _⟩)
  have hdiagnostic (d : Diagnostic) : IsWritten 2 (.ofMembers [("path", .ofText d.path),
      ("kind", .ofText d.kind.word), ("message", .ofText d.message)]) :=
    .ofMembers rfl (of_decide_eq_true rfl) (by simpa using ⟨.ofText 1 _, .ofText 1 _, .ofText 1 _⟩)
  rw [toJson, JsonValue.ofParts, List.flatten_cons, List.flatten_singleton]
  refine KeptPackage.isWritten_append r.kept rfl (of_decide_eq_true rfl) ?_
  simp only [List.forall_mem_cons]
  exact ⟨.ofText 3 _, .ofText 3 _, .ofText 3 _, .ofTexts 2 _, .ofList hunused _, .ofTexts 2 _,
    .ofBool 3 _, .ofInt 3 _, .ofList hdiagnostic _, by simp⟩

/-- The answer of a removal is written three levels deep at most. -/
theorem RemovalResponse.isWritten_toJson (r : RemovalResponse) : IsWritten 3 r.toJson := by
  obtain ⟨dryRun, manager, command, candidates, removed, kept⟩ := r
  rw [toJson, JsonValue.ofParts, List.flatten_cons, List.flatten_cons, List.flatten_cons,
    List.flatten_singleton, ← List.append_assoc, ← List.append_assoc]
  cases command with
  | nil =>
    refine KeptPackage.isWritten_append kept rfl (of_decide_eq_true rfl) ?_
    simpa using ⟨.ofBool 2 _, .ofText 2 _, .ofTexts 1 _, .ofTexts 1 _⟩
  | cons b more =>
    refine KeptPackage.isWritten_append kept rfl (of_decide_eq_true rfl) ?_
    simpa using ⟨.ofBool 2 _, .ofText 2 _, .ofText 2 _, .ofTexts 1 _, .ofTexts 1 _⟩

namespace Response

/-- The text is an object with distinct keys at every level, and the value that it stands for is
decoded to `a`. -/
def DecodesTo {α : Type} (ofJson? : JsonValue → Option α) (text : Text) (a : α) : Prop :=
  ∃ members, JsonGrammar.Element (.object members) text ∧
    (JsonValue.object members).HasDistinctKeys ∧
    JsonValue.parse? text = some (.object members) ∧ ofJson? (.object members) = some a

/-- A written object is decoded from its layout to what it is decoded to itself. -/
theorem decodesTo_layout {α : Type} {ofJson? : JsonValue → Option α} {a : α}
    {members : List (Text × JsonValue)} {n : Nat} (hwritten : IsWritten n (.ofMembers members))
    (hn : n ≤ JsonValue.Reader.maxDepth) (h : ofJson? (.ofMembers members) = some a) :
    DecodesTo ofJson? ((JsonValue.ofMembers members).layout "  " 0) a := by
  obtain ⟨helement, hparse⟩ := hwritten.read_layout hn
  exact ⟨_, helement, hwritten.distinctKeys, hparse, h⟩

/-- In JSON a response whose texts are UTF-8 is written as an object that is decoded, field by
field, to the response itself. -/
theorem json_output_decodes (color : Bool) :
    (∀ r : AnalysisResponse, (∀ t ∈ r.texts, IsUtf8 t) →
      ∃ text, (analysis r).render color "json" = .ok text ∧
        DecodesTo AnalysisResponse.ofJson? text r) ∧
    ∀ r : RemovalResponse, (∀ t ∈ r.texts, IsUtf8 t) →
      ∃ text, (removal r).render color "json" = .ok text ∧
        DecodesTo RemovalResponse.ofJson? text r := by
  constructor
  · intro r h
    exact ⟨_, rfl, decodesTo_layout r.isWritten_toJson (by decide)
      (AnalysisResponse.ofJson?_toJson h)⟩
  · intro r h
    exact ⟨_, rfl, decodesTo_layout r.isWritten_toJson (by decide)
      (RemovalResponse.ofJson?_toJson h)⟩

/-- A quote, a control character, markup and a line separator; a list that is not set, an empty
one, and fields that are left out. -/
theorem json_output_decodes_sample :
    let r : AnalysisResponse :=
      { version := "1.0", root := "a\"b\\c", manifest := "\u0001<&>\u2028", used := none
        importedButUnused := some [⟨"é", none⟩, ⟨"", some ["x\ty"]⟩], neverImported := some []
        noSourceFiles := false, filesScanned := -3
        diagnostics := some [⟨"p", ⟨"parse"⟩, "\n"⟩], kept := [⟨"k", ""⟩, ⟨"", "why"⟩] }
    let dry : RemovalResponse :=
      { dryRun := true, manager := "npm", command := "", candidates := some ["a"]
        removed := none, kept := [] }
    (∃ text, (analysis r).render true "json" = .ok text ∧
      DecodesTo AnalysisResponse.ofJson? text r) ∧
    ∃ text, (removal dry).render true "json" = .ok text ∧
      DecodesTo RemovalResponse.ofJson? text dry :=
  ⟨(json_output_decodes true).1 _ (by decide), (json_output_decodes true).2 _ (by decide)⟩

end Response

end DependencyAudit
