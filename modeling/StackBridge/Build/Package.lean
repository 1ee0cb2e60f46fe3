/-
The contents of a build file: what was built, and for each API the provider with its settings. Keys
that are not known at the top are kept and written back; within a provider they are passed over.
-/
import StackBridge.SortedMap
import StackBridge.Yaml.Reading
import StackBridge.Yaml.Writing

namespace StackBridge.Build

open StackBridge.Yaml (Value Node Path Document Taking)

/-- The provider chosen for an API. -/
structure Provider where
  providerId : String
  /-- The settings of the provider, usually a mapping. -/
  config : Value := .null
deriving DecidableEq, Repr

abbrev Providers := SortedMap Provider

/-- The contents of a build file. -/
structure Package where
  builtAt : String
  packageName : String
  dockerImage : Option String := none
  condaEnv : Option String := none
  providers : Providers := .empty
  /-- The keys that are not known. -/
  extra : SortedMap Value := .empty
deriving DecidableEq, Repr

/-- A field that was given twice. -/
def refuseRepeated {α : Type} (name : String) : Taking α :=
  Taking.refuse (.mismatch (.duplicateField name))

/-- A field that has to be given. -/
def requireField {α : Type} (name : String) : Option α → Taking α
  | some value => return value
  | none => Taking.refuse (.mismatch (.missingField name))

/-- A field that may be given once. -/
def takeField {α : Type} (name : String) (before : Option α) (taking : Taking α) :
    Taking (Option α) :=
  if before.isSome then refuseRepeated name else some <$> taking

/-- What has been read of a provider. -/
structure ProviderFields where
  providerId : Option String := none
  config : Option Value := none

namespace ProviderFields

def take (document : Document) (depth : Nat) (path : Path) (fields : ProviderFields)
    (entry : Node × Node) : Taking ProviderFields := do
  let (key, value) := entry
  let name ← document.takeText "field identifier" path key
  let below := path.under key
  if name = "provider_id" then
    let providerId ← takeField name fields.providerId (document.takeText "a string" below value)
    return { fields with providerId }
  else if name = "config" then
    let config ← takeField name fields.config (document.takeValue .free depth below value)
    return { fields with config }
  else
    document.passOver value
    return fields

end ProviderFields

def takeProvider (document : Document) (depth : Nat) (path : Path) (node : Node) :
    Taking Provider :=
  document.takeMapping "struct ProviderConfig" depth path node fun depth path entries => do
    let fields ← entries.foldlM (ProviderFields.take document depth path) {}
    return { providerId := ← requireField "provider_id" fields.providerId
             config := fields.config.getD .null }

/-- The providers that a node describes. Of two for one API the later counts. -/
def takeProviders (document : Document) (depth : Nat) (path : Path) (node : Node) :
    Taking Providers :=
  document.takeMapping "a map" depth path node fun depth path entries =>
    entries.foldlM (fun providers (key, value) => do
      let api ← document.takeText "a string" path key
      return providers.insert api (← takeProvider document depth (path.under key) value)) .empty

/-- What has been read of a package. -/
structure PackageFields where
  builtAt : Option String := none
  packageName : Option String := none
  dockerImage : Option (Option String) := none
  condaEnv : Option (Option String) := none
  providers : Option Providers := none
  /-- The other fields, in the order of the file. -/
  extra : List (String × Value) := []

namespace PackageFields

def take (document : Document) (depth : Nat) (path : Path) (fields : PackageFields)
    (entry : Node × Node) : Taking PackageFields := do
  let (key, value) := entry
  let name ← document.takeText "field identifier" path key
  let below := path.under key
  if name = "built_at" then
    let builtAt ← takeField name fields.builtAt (document.takeText "a string" below value)
    return { fields with builtAt }
  else if name = "package_name" then
    let packageName ← takeField name fields.packageName (document.takeText "a string" below value)
    return { fields with packageName }
  else if name = "docker_image" then
    let dockerImage ← takeField name fields.dockerImage
      (document.takeOptionalText "a string" below value)
    return { fields with dockerImage }
  else if name = "conda_env" then
    let condaEnv ← takeField name fields.condaEnv
      (document.takeOptionalText "a string" below value)
    return { fields with condaEnv }
  else if name = "providers" then
    let providers ← takeField name fields.providers (takeProviders document depth below value)
    return { fields with providers }
  else
    let value ← document.takeValue .aside depth below value
    return { fields with extra := fields.extra ++ [(name, value)] }

/-- The package that the fields form. Repeated keys within the other fields are noticed last. -/
def package (fields : PackageFields) : Taking Package := do
  let builtAt ← requireField "built_at" fields.builtAt
  let packageName ← requireField "package_name" fields.packageName
  match fields.extra.findSome? (·.2.repeatedKey?) with
  | some key => Taking.refuse (.duplicateEntry key)
  | none =>
      return {
        builtAt, packageName
        dockerImage := fields.dockerImage.join
        condaEnv := fields.condaEnv.join
        providers := fields.providers.getD .empty
        extra := .ofList fields.extra }

end PackageFields

def takePackage (document : Document) (depth : Nat) (path : Path) (node : Node) :
    Taking Package :=
  document.takeMapping "struct PackageConfig" depth path node fun depth path entries => do
    (← entries.foldlM (PackageFields.take document depth path) {}).package

def Package.ofText (text : String) : Except Yaml.Fault Package :=
  Yaml.read text fun document => takePackage document Yaml.maxDepth .root document.root

def Providers.ofText (text : String) : Except Yaml.Fault Providers :=
  Yaml.read text fun document => takeProviders document Yaml.maxDepth .root document.root

def optionalText : Option String → Value
  | some text => .string text
  | none => .null

def mappingOf {α : Type} (value : α → Value) (map : SortedMap α) : Value :=
  .mapping (map.entries.map fun (key, a) => (.string key, value a))

def Provider.toValue (provider : Provider) : Value :=
  .mapping [(.string "provider_id", .string provider.providerId),
    (.string "config", provider.config)]

def Providers.toValue (providers : Providers) : Value :=
  mappingOf Provider.toValue providers

/-- A package as a value: the known keys and then the others. -/
def Package.toValue (package : Package) : Value :=
  .mapping ([(.string "built_at", .string package.builtAt),
    (.string "package_name", .string package.packageName),
    (.string "docker_image", optionalText package.dockerImage),
    (.string "conda_env", optionalText package.condaEnv),
    (.string "providers", package.providers.toValue)] ++
    package.extra.entries.map fun (key, value) => (.string key, value))

def Package.text (package : Package) : Except Yaml.Fault String :=
  package.toValue.text

/-- Whether two maps have the same keys with the same values. -/
def sameEntries {α : Type} (same : α → α → Bool) (left right : SortedMap α) : Bool :=
  left.entries.length == right.entries.length &&
    (left.entries.zip right.entries).all fun (a, b) => a.1 == b.1 && same a.2 b.2

def Provider.same (left right : Provider) : Bool :=
  left.providerId == right.providerId && left.config.same right.config

def Package.same (left right : Package) : Bool :=
  left.builtAt == right.builtAt && left.packageName == right.packageName &&
    left.dockerImage == right.dockerImage && left.condaEnv == right.condaEnv &&
    sameEntries Provider.same left.providers right.providers &&
    sameEntries Value.same left.extra right.extra

end StackBridge.Build
