/-
The program itself: the only place that touches the terminal and the files of the machine. What is
asked, answered, written and reported is settled by the modules that it calls.
-/
import StackBridge.Command.Run

namespace StackBridge.Program

open StackBridge.Build StackBridge.Command

/-- A fault of the machine. -/
def faultOf : IO.Error → FileFault
  | .noFileOrDirectory .. => .notFound
  | .inappropriateType _ code _ => if code = 21 then .isDirectory else .notDirectory
  | .permissionDenied .. => .refused
  | error => .other (toString error)

/-- What comes of doing something with a file. -/
def attempt {α : Type} (action : IO α) : IO (Except FileFault α) := do
  try
    return .ok (← action)
  catch error => return .error (faultOf error)

def readLine (input : IO.FS.Stream) : IO Bytes := do
  let mut line := []
  repeat
    match (← input.read 1).toList with
    | [] => break
    | byte :: _ =>
        line := byte :: line
        if byte = 10 then break
  return line.reverse

/-- Show the parts of a dialogue and gather the lines that answer it, up to the first that cannot be
read. -/
def converse (input output : IO.FS.Stream) : List Prompt → IO Bytes
  | [] => return []
  | prompt :: rest => do
      output.putStr prompt.text
      output.flush
      if prompt.isQuestion then
        let line ← readLine input
        match replyOf line with
        | .error _ => return line
        | .ok _ => return line ++ (← converse input output rest)
      else converse input output rest

/-- Print a report, without what the dialogue has printed before. -/
def print (printed : String) (report : Report) : IO UInt32 := do
  IO.print (report.output.drop printed.length).toString
  IO.eprint report.errors
  return report.code

def configureAt (path : String) : IO UInt32 := do
  match ← attempt (IO.FS.readBinFile path) with
  | .error .notFound | .error .notDirectory => print "" (.ofMissingBuild path)
  | .error fault => print "" (.ofFailure "" (.file fault))
  | .ok bytes =>
      match Package.ofBytes path bytes with
      | .error failure => print "" (.ofFailure "" failure)
      | .ok package =>
          let answers ← converse (← IO.getStdin) (← IO.getStdout) package.providers.prompts
          let (outcome, dialogue) := prompting { unread := answers } package.providers
          let written ← match do ({ package with providers := ← outcome } : Package).bytes with
            | .ok bytes => pure ((← attempt (IO.FS.writeBinFile path bytes)).mapError Failure.file)
            | .error failure => pure (.error failure)
          print dialogue.transcript (.ofOutcome dialogue.transcript path written)

def perform (environment : Environment) (action : Action) : IO UInt32 := do
  match action, environment.buildsRoot with
  | .configure api buildName, .ok root => configureAt (buildPath root api buildName)
  | .configure .., .error failure => print "" (.ofFailure "" failure)
  | action, _ => print "" (action.run environment (⟨.empty⟩ : FileTree) []).1

end StackBridge.Program

/-- Run the program with the arguments of the command line. -/
def main (arguments : List String) : IO UInt32 := do
  let environment : StackBridge.Build.Environment :=
    ⟨← IO.getEnv StackBridge.Build.buildsDirVariable, ← IO.getEnv "HOME"⟩
  match StackBridge.Command.ofArguments arguments with
  | .error error => StackBridge.Program.print "" (.ofUsageError error)
  | .ok action => StackBridge.Program.perform environment action
