/-
What the program says about itself and about its failures.
-/
import BuildImport.Session

namespace BuildImport.Help

open CommandLine

def programName : String := "bazel-bridge"

def version : String := "0.1.0"

/-- how the program is called -/
def usage : String := "Usage: " ++ programName ++ " [OPTIONS] <COMMAND>"

/-- the commands and their options -/
def text : List String :=
  [usage,
   "",
   "Commands:",
   "  sync         Resolve the project from aspect output files",
   "                 -a, --aspect-output <DIRECTORY>  Directory with the files",
   "                     --exec-root <DIRECTORY>      Execution root (the workspace root)",
   "                 -r, --refresh                    Resolve again",
   "                     --json                       Print the whole project",
   "  inputs       List the inputs of a target",
   "                 <TARGET>                         Label of the target",
   "                 -g, --action-graph <FILE>        File with the action graph",
   "                 -s, --suffix <TEXT>              Endings to keep (.jar, js)",
   "                     --exec-root <DIRECTORY>      Print paths below this directory",
   "  outputs      List the outputs of a target",
   "                 <TARGET>                         Label of the target",
   "                 -g, --action-graph <FILE>        File with the action graph",
   "                 -s, --suffix <TEXT>              Endings to keep (.jar)",
   "  show-config  Print the configuration",
   "  help         Print this text",
   "",
   "Options:",
   "  -w, --workspace <DIRECTORY>  Workspace root (the current directory)",
   "  -h, --help                   Print this text",
   "  -V, --version                Print the version"]

/-- what is wrong with a command line -/
def complaint : Usage → String
  | .missingCommand => "a command is missing"
  | .unknownCommand => "there is no such command"
  | .missingArgument => "an argument or option that the command needs is missing"
  | .unknownArgument => "there is an argument or option that the command does not know"
  | .badValue => "an option has no value"
  | .unneededValue => "an option has a value but takes none"
  | .repeatedOption => "an option is given twice"
  | .help | .version | .nothingGiven => ""

/-- what is shown for a command line that is not carried out -/
def usageLines : Usage → List String
  | .help | .nothingGiven => text
  | .version => [programName ++ " " ++ version]
  | fault => ["error: " ++ complaint fault, "", usage]

/-- lines with numbers, if there are several -/
def numbered : List String → List String
  | [line] => ["    " ++ line]
  | lines => lines.mapIdx fun i line => "    " ++ toString i ++ ": " ++ line

/-- a failure, the outermost step first -/
def failureLines (f : Session.Failure) : List String :=
  match f.contexts ++ [f.cause.message] with
  | [] => []
  | [only] => ["Error: " ++ only]
  | first :: causes => ["Error: " ++ first, "", "Caused by:"] ++ numbered causes

end BuildImport.Help
