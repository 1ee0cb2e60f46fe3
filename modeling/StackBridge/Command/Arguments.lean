/-
The arguments of the command line. Options and the name of the API can stand in any order; of
several build names the last one counts. The first argument that does not fit is what is complained
about.
-/
import StackBridge.Build.Api

namespace StackBridge.Command

open StackBridge.Build (StackApi)

/-- What the program can be asked to do. -/
inductive Action where
  | configure (api : StackApi) (buildName : String)
  | version
  | help
deriving DecidableEq, Repr

/-- What can be wrong with the arguments. -/
inductive UsageError where
  | commandMissing
  | commandUnknown (name : String)
  | subcommandMissing
  | subcommandUnknown (name : String)
  /-- The option for the build name is the last argument. -/
  | buildNameDangling
  | unrecognized (argument : String)
  | apiMissing
  | apiUnknown (name : String)
  | buildNameMissing
deriving DecidableEq, Repr

def UsageError.message : UsageError → String
  | .commandMissing => "missing command"
  | .commandUnknown name => s!"unknown command: {name}"
  | .subcommandMissing => "missing api subcommand"
  | .subcommandUnknown name => s!"unknown api subcommand: {name}"
  | .buildNameDangling => "argument --build-name: expected one argument"
  | .unrecognized argument => s!"unrecognized argument: {argument}"
  | .apiMissing => "the following arguments are required: api"
  | .apiUnknown name =>
      s!"argument api: invalid choice: '{name}' (choose from {StackApi.allowed})"
  | .buildNameMissing => "the following arguments are required: --build-name"

/-- What has been found among the arguments. -/
structure Found where
  api : Option String := none
  buildName : Option String := none
deriving DecidableEq, Repr

/-- The text behind a beginning, if it begins so. -/
def textBehind? (beginning text : String) : Option String :=
  if beginning.toList.isPrefixOf text.toList then
    some (String.ofList (text.toList.drop beginning.toList.length))
  else none

def Found.takeAll (found : Found) : List String → Except UsageError Found
  | [] => return found
  | argument :: rest =>
      if argument = "--build-name" then
        match rest with
        | [] => throw .buildNameDangling
        | name :: rest => { found with buildName := some name }.takeAll rest
      else
        match textBehind? "--build-name=" argument with
        | some name => { found with buildName := some name }.takeAll rest
        | none =>
            if (textBehind? "--" argument).isSome || found.api.isSome then
              throw (.unrecognized argument)
            else { found with api := some argument }.takeAll rest

/-- The action that the arguments behind `api configure` ask for. An empty build name is none. -/
def Found.action (found : Found) : Except UsageError Action :=
  match found.api with
  | none => throw .apiMissing
  | some name =>
      match StackApi.find? name with
      | none => throw (.apiUnknown name)
      | some api =>
          match found.buildName.filter (· ≠ "") with
          | none => throw .buildNameMissing
          | some buildName => return .configure api buildName

/-- The action that the arguments behind `api configure` ask for. -/
def ofConfigureArguments (arguments : List String) : Except UsageError Action := do
  (← ({} : Found).takeAll arguments).action

/-- The action that the arguments ask for. -/
def ofArguments : List String → Except UsageError Action
  | [] => throw .commandMissing
  | ["api"] => throw .subcommandMissing
  | "api" :: "configure" :: rest => ofConfigureArguments rest
  | "api" :: subcommand :: _ => throw (.subcommandUnknown subcommand)
  | name :: _ =>
      if ["version", "--version", "-V"].contains name then return .version
      else if ["help", "--help", "-h"].contains name then return .help
      else throw (.commandUnknown name)

end StackBridge.Command
