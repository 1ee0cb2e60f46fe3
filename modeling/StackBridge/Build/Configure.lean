/-
Configuring a build: its file is read, the providers are changed, and the file is written again.
Nothing is written unless everything before has succeeded.
-/
import StackBridge.Build.Location
import StackBridge.Build.Prompting

namespace StackBridge.Build

variable {host : Host}

def Package.ofBytes (path : String) (bytes : ByteArray) : Except Failure Package :=
  match String.fromUTF8? bytes with
  | none => throw (.file .notText)
  | some text =>
      match Package.ofText text with
      | .ok package => return package
      | .error fault => throw <| .configuration s!"failed to parse build config: {fault.message}"
          { details := some path, source := some "package_config" }

/-- The bytes of the file that holds a package. -/
def Package.bytes (package : Package) : Except Failure ByteArray :=
  match package.text with
  | .ok text => return text.toUTF8
  | .error fault => throw (.yaml fault)

def Package.load (files : FileTree host) (path : String) : Except Failure Package := do
  match files.read path with
  | .ok bytes => Package.ofBytes path bytes
  | .error fault => throw (.file fault)

def Package.save (package : Package) (files : FileTree host) (path : String) :
    Except Failure (FileTree host) := do
  let bytes ← package.bytes
  (files.write path bytes).mapError .file

/-- A way to change providers, which may fail and may go along with a dialogue. -/
abbrev Configurator (σ : Type) := σ → Providers → Except Failure Providers × σ

def prompting : Configurator Dialogue := Dialogue.configure

/-- What has come of configuring a build. -/
structure Configured (host : Host) (σ : Type) where
  outcome : Except Failure Package
  files : FileTree host
  state : σ

def configure {σ : Type} (configurator : Configurator σ) (files : FileTree host) (path : String)
    (state : σ) : Configured host σ :=
  match Package.load files path with
  | .error failure => ⟨.error failure, files, state⟩
  | .ok package =>
      match configurator state package.providers with
      | (.error failure, state) => ⟨.error failure, files, state⟩
      | (.ok providers, state) =>
          let package := { package with providers }
          match package.save files path with
          | .error failure => ⟨.error failure, files, state⟩
          | .ok files => ⟨.ok package, files, state⟩

end StackBridge.Build
