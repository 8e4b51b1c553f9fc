import DbClinic.Runtime.PathBuf
import DbClinic.Runtime.Json

/-!
The check of one configuration file against the table of known keys. A file is
refused for its first error: a key that no table has, or a value of another
type. The text of an error names the field, the line of its key and, for an
unknown key, the closest known one.
-/

namespace DbClinic.Runtime.Config

inductive DiagnosticKind where
  | unknownKey (suggestion : Option String)
  | wrongType (expected got : String)
  | deprecated (replacement : String)
  deriving DecidableEq

structure ConfigDiagnostic where
  path : String
  field : String
  line : Option Nat
  kind : DiagnosticKind
  deriving DecidableEq

/-- `Display for ConfigDiagnostic`. -/
def ConfigDiagnostic.display (d : ConfigDiagnostic) : String :=
  let location := match d.line with
    | none => ""
    | some line => " (line " ++ toString line ++ ")"
  match d.kind with
  | .unknownKey none => d.path ++ ": unknown key \"" ++ d.field ++ "\"" ++ location
  | .unknownKey (some hint) =>
    d.path ++ ": unknown key \"" ++ d.field ++ "\"" ++ location ++
      ". Did you mean \"" ++ hint ++ "\"?"
  | .wrongType expected got =>
    d.path ++ ": field \"" ++ d.field ++ "\" must be " ++ expected ++ ", got " ++ got ++ location
  | .deprecated replacement =>
    d.path ++ ": field \"" ++ d.field ++ "\" is deprecated" ++ location ++
      ". Use \"" ++ replacement ++ "\" instead"

structure ValidationResult where
  errors : List ConfigDiagnostic
  warnings : List ConfigDiagnostic
  deriving DecidableEq

namespace ValidationResult

def merge (r other : ValidationResult) : ValidationResult :=
  ⟨r.errors ++ other.errors, r.warnings ++ other.warnings⟩

end ValidationResult

inductive FieldType where
  | string
  | bool
  | object
  | stringArray
  | number
  deriving DecidableEq

namespace FieldType

def label : FieldType → String
  | string => "a string"
  | bool => "a boolean"
  | object => "an object"
  | stringArray => "an array of strings"
  | number => "a number"

/-- `FieldType::matches`. -/
def accepts (t : FieldType) (value : JsonValue) : Bool :=
  match t with
  | string => value.asStr.isSome
  | bool => value.asBool.isSome
  | object => value.asObject.isSome
  | stringArray => value.asArray.any fun items => items.all fun item => item.asStr.isSome
  | number => value.asI64.isSome

end FieldType

def jsonTypeLabel : JsonValue → String
  | .null => "null"
  | .bool _ => "a boolean"
  | .number _ => "a number"
  | .string _ => "a string"
  | .array _ => "an array"
  | .object _ => "an object"

structure FieldSpec where
  name : String
  expected : FieldType
  deriving DecidableEq

structure DeprecatedField where
  name : String
  replacement : String
  deriving DecidableEq

def topLevelFields : List FieldSpec :=
  [⟨"$schema", .string⟩, ⟨"model", .string⟩, ⟨"hooks", .object⟩, ⟨"permissions", .object⟩,
    ⟨"permissionMode", .string⟩, ⟨"mcpServers", .object⟩, ⟨"oauth", .object⟩,
    ⟨"enabledPlugins", .object⟩, ⟨"plugins", .object⟩, ⟨"sandbox", .object⟩, ⟨"env", .object⟩,
    ⟨"aliases", .object⟩, ⟨"providerFallbacks", .object⟩, ⟨"trustedRoots", .stringArray⟩]

def hooksFields : List FieldSpec :=
  [⟨"PreToolUse", .stringArray⟩, ⟨"PostToolUse", .stringArray⟩,
    ⟨"PostToolUseFailure", .stringArray⟩]

def permissionsFields : List FieldSpec :=
  [⟨"defaultMode", .string⟩, ⟨"allow", .stringArray⟩, ⟨"deny", .stringArray⟩,
    ⟨"ask", .stringArray⟩]

def pluginsFields : List FieldSpec :=
  [⟨"enabled", .object⟩, ⟨"externalDirectories", .stringArray⟩, ⟨"installRoot", .string⟩,
    ⟨"registryPath", .string⟩, ⟨"bundledRoot", .string⟩, ⟨"maxOutputTokens", .number⟩]

def sandboxFields : List FieldSpec :=
  [⟨"enabled", .bool⟩, ⟨"namespaceRestrictions", .bool⟩, ⟨"networkIsolation", .bool⟩,
    ⟨"filesystemMode", .string⟩, ⟨"allowedMounts", .stringArray⟩]

def oauthFields : List FieldSpec :=
  [⟨"clientId", .string⟩, ⟨"authorizeUrl", .string⟩, ⟨"tokenUrl", .string⟩,
    ⟨"callbackPort", .number⟩, ⟨"manualRedirectUrl", .string⟩, ⟨"scopes", .stringArray⟩]

def deprecatedFields : List DeprecatedField :=
  [⟨"permissionMode", "permissions.defaultMode"⟩, ⟨"enabledPlugins", "plugins.enabled"⟩]

/-- `char::is_ascii_whitespace`. -/
def isAsciiWhitespace (c : Char) : Bool :=
  c = ' ' || c = '\t' || c = '\n' || c = '\r' || c = Char.ofNat 12

/-- The loop of `find_key_line`; `lines` line ends stand before the rest of the
source. Each round passes an occurrence of the needle, which is not empty. -/
def findKeyLineFrom (needle : List Char) : (fuel : Nat) → (lines : Nat) → List Char → Option Nat
  | 0, _, _ => none
  | fuel + 1, lines, source =>
    match splitOnce needle source with
    | none => none
    | some (before, after) =>
      let lines := lines + before.count '\n'
      if after.find? (fun c => !isAsciiWhitespace c) = some ':' then some (lines + 1)
      else findKeyLineFrom needle fuel (lines + needle.count '\n') after

def findKeyLine (source : List Char) (key : String) : Option Nat :=
  findKeyLineFrom ('"' :: key.toList ++ ['"']) (source.length + 1) 0 source

/-- One row of the table of `simple_edit_distance`, after its first cell. -/
def editRow (leftChar : Char) : (last : Nat) → (right : List Char) → (previous : List Nat) →
    List Nat
  | last, rightChar :: right, diagonal :: above :: previous =>
    let cost := if leftChar ≠ rightChar then 1 else 0
    let cell := min (min (above + 1) (last + 1)) (diagonal + cost)
    cell :: editRow leftChar cell right (above :: previous)
  | _, _, _ => []

def editRows (right : List Char) : (leftIndex : Nat) → (left : List Char) →
    (previous : List Nat) → List Nat
  | _, [], previous => previous
  | leftIndex, leftChar :: left, previous =>
    editRows right (leftIndex + 1) left
      ((leftIndex + 1) :: editRow leftChar (leftIndex + 1) right previous)

def simpleEditDistance (left right : String) : Nat :=
  if left = "" then right.utf8ByteSize
  else if right = "" then left.utf8ByteSize
  else
    let rightChars := right.toList
    (editRows rightChars 0 left.toList (List.range (rightChars.length + 1))).getD
      rightChars.length 0

/-- `str::to_ascii_lowercase`. -/
def toAsciiLowercase (text : String) : String := String.ofList (text.toList.map Char.toLower)

/-- `Iterator::min_by_key` on the distance: the first of the closest. -/
def closest : List (Nat × String) → Option (Nat × String)
  | [] => none
  | first :: rest =>
    some (rest.foldl (fun best e => if e.1 < best.1 then e else best) first)

def suggestField (input : String) (candidates : List String) : Option String :=
  let inputLower := toAsciiLowercase input
  let near := candidates.filterMap fun candidate =>
    let distance := simpleEditDistance inputLower (toAsciiLowercase candidate)
    if distance ≤ 3 then some (distance, candidate) else none
  (closest near).map Prod.snd

/-- What `validate_object_keys` finds wrong with one entry. A deprecated key is
no unknown one, in whatever object it stands. -/
def entryError (knownFields : List FieldSpec) (path : String) (source : List Char)
    (pathDisplay key : String) (value : JsonValue) : Option ConfigDiagnostic :=
  let fieldPath := if path = "" then key else path ++ "." ++ key
  match knownFields.find? fun f => f.name = key with
  | some spec =>
    if spec.expected.accepts value then none
    else some ⟨pathDisplay, fieldPath, findKeyLine source key,
      .wrongType spec.expected.label (jsonTypeLabel value)⟩
  | none =>
    if deprecatedFields.any fun d => d.name = key then none
    else some ⟨pathDisplay, fieldPath, findKeyLine source key,
      .unknownKey (suggestField key (knownFields.map FieldSpec.name))⟩

def validateObjectKeys (object : List (String × JsonValue)) (knownFields : List FieldSpec)
    (path : String) (source : List Char) (pathDisplay : String) : ValidationResult :=
  ⟨object.filterMap fun e => entryError knownFields path source pathDisplay e.1 e.2, []⟩

def validateNested (object : List (String × JsonValue)) (key : String)
    (knownFields : List FieldSpec) (source : List Char) (pathDisplay : String) :
    ValidationResult :=
  match (getEntry object key).bind JsonValue.asObject with
  | none => ⟨[], []⟩
  | some nested => validateObjectKeys nested knownFields key source pathDisplay

/-- The warnings of `validate_config_file`. -/
def deprecationWarnings (object : List (String × JsonValue)) (source : List Char)
    (pathDisplay : String) : List ConfigDiagnostic :=
  deprecatedFields.filterMap fun d =>
    if (getEntry object d.name).isSome then
      some ⟨pathDisplay, d.name, findKeyLine source d.name, .deprecated d.replacement⟩
    else none

def validateConfigFile (object : List (String × JsonValue)) (source : List Char)
    (filePath : PathBuf) : ValidationResult :=
  let pathDisplay := filePath.display
  let result := validateObjectKeys object topLevelFields "" source pathDisplay
  let result := result.merge ⟨[], deprecationWarnings object source pathDisplay⟩
  let result := result.merge (validateNested object "hooks" hooksFields source pathDisplay)
  let result := result.merge
    (validateNested object "permissions" permissionsFields source pathDisplay)
  let result := result.merge (validateNested object "plugins" pluginsFields source pathDisplay)
  let result := result.merge (validateNested object "sandbox" sandboxFields source pathDisplay)
  result.merge (validateNested object "oauth" oauthFields source pathDisplay)

end DbClinic.Runtime.Config
