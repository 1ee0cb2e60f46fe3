/-
Where build files are kept: one file per API and build name under the builds directory.
-/
import StackBridge.Build.Api

namespace StackBridge.Build

/-- The variables of the environment that say where builds are kept. -/
structure Environment where
  buildsDir : Option String
  home : Option String
deriving DecidableEq, Repr

def buildsDirVariable : String := "LLAMA_STACK_BUILDS_DIR"

/-- Where builds are kept below the home directory. -/
def buildsDirBelowHome : String := ".llama/builds"

/-- A path followed by a further one. A path from the root stands for itself, whatever came
before it. -/
def joinPath (base path : String) : String :=
  if path.startsWith "/" || base = "" then path
  else if base.endsWith "/" then base ++ path
  else base ++ "/" ++ path

/-- The directory that holds all builds. A variable that is empty counts as unset. -/
def Environment.buildsRoot (environment : Environment) : Except Failure String :=
  match environment.buildsDir.filter (· ≠ ""), environment.home.filter (· ≠ "") with
  | some directory, _ => return directory
  | none, some home => return joinPath home buildsDirBelowHome
  | none, none => throw <| .configuration "cannot resolve the builds directory"
      { details := some s!"set HOME or {buildsDirVariable}" }

def buildSuffix : String := ".yaml"

/-- The name of a build file, which has its ending once. -/
def buildFileName (buildName : String) : String :=
  if buildName.endsWith buildSuffix then buildName else buildName ++ buildSuffix

def buildPath (root : String) (api : StackApi) (buildName : String) : String :=
  joinPath (joinPath root api.name) (buildFileName buildName)

end StackBridge.Build
