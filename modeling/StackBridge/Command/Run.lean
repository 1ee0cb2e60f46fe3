/-
A run of the program: what it prints, how it ends, and what becomes of the files.
-/
import StackBridge.Build.Configure
import StackBridge.Command.Arguments

namespace StackBridge.Command

open StackBridge.Build

/-- What a run prints, and the code that it ends with: 0 for success, 1 for a failure and 2 for a
usage error. -/
structure Report where
  code : UInt32
  output : String := ""
  errors : String := ""
deriving DecidableEq, Repr

def usageText : String :=
  "stack-cli: configure stack builds\n\n" ++
  "USAGE:\n" ++
  "    stack-cli <COMMAND> [OPTIONS]\n\n" ++
  "COMMANDS:\n" ++
  "    api configure <api> --build-name <name>\n" ++
  "                                Configure a stack API provider\n" ++
  s!"                                (api: {StackApi.allowed})\n" ++
  "    version                     Show version information\n" ++
  "    help                        Show this help message\n\n" ++
  "ENVIRONMENT:\n" ++
  "    LLAMA_STACK_BUILDS_DIR      Build configuration root (default: ~/.llama/builds)\n" ++
  "    RUST_LOG                    Log filter (default: warn)\n"

def versionText : String := "stack-cli 0.1.0\n"

namespace Report

def ofUsageError (error : UsageError) : Report :=
  ⟨2, usageText, s!"stack-cli: error: {error.message}\n\n"⟩

/-- The report on a build without a file. -/
def ofMissingBuild (path : String) : Report :=
  ⟨2, "", s!"stack-cli: error: Could not find {path}. Please run `stack-cli api build` first\n"⟩

/-- The report on a failure, behind what was printed before it. -/
def ofFailure (output : String) (failure : Failure) : Report :=
  ⟨1, output, s!"Error: {failure.report}\n"⟩

/-- The report on a build that has been configured, behind the dialogue. -/
def ofSuccess (output path : String) : Report :=
  ⟨0, output ++ s!"YAML configuration has been written to {path}\n", ""⟩

def ofOutcome {α : Type} (output path : String) : Except Failure α → Report
  | .ok _ => ofSuccess output path
  | .error failure => ofFailure output failure

end Report

variable {host : Host}

def configureAt (path : String) (files : FileTree host) (input : Bytes) :
    Report × FileTree host :=
  if files.exists? path then
    let configured := configure prompting files path { unread := input }
    (.ofOutcome configured.state.transcript path configured.outcome, configured.files)
  else (.ofMissingBuild path, files)

def Action.run (environment : Environment) (files : FileTree host) (input : Bytes) :
    Action → Report × FileTree host
  | .version => (⟨0, versionText, ""⟩, files)
  | .help => (⟨0, usageText, ""⟩, files)
  | .configure api buildName =>
      match environment.buildsRoot with
      | .error failure => (.ofFailure "" failure, files)
      | .ok root => configureAt (buildPath root api buildName) files input

def run (arguments : List String) (environment : Environment) (files : FileTree host)
    (input : Bytes) : Report × FileTree host :=
  match ofArguments arguments with
  | .error error => (.ofUsageError error, files)
  | .ok action => action.run environment files input

end StackBridge.Command
