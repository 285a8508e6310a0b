import RegisterAllocation.Command.Artifact
import RegisterAllocation.Command.Directory
import RegisterAllocation.Command.Environment
import RegisterAllocation.Command.Help
import RegisterAllocation.ConfigFile

namespace RegisterAllocation.Command

structure Ending where
  exitCode : Nat := 0
  stdout : String := ""
  file : Option (String × String) := none
  log : List (String × Event) := []

-- A command as a dialogue with its surroundings. It asks for files one at a time, and goes on with
-- the answer: a text, or why there is none.
inductive Session where
  | readFile (path : String) (next : Except String String → Session)
  | readInput (next : Except String String → Session)
  | createFile (path : String) (next : Option String → Session)
  | finish (ending : Ending)

namespace Session

def crash : Session := .finish { exitCode := 2 }

def fail (text : String) : Session := .finish { exitCode := 1, stdout := text ++ "\n" }

-- The end of a run. What it wrote goes to the output file if there is one; an error is always shown
-- on the standard output.
def ofRun (o : Options) (run : Run) : Session :=
  let problem :=
    match run.error with
    | none => ""
    | some e => "Register allocation error: " ++ e.message?.getD "" ++ "\n"
  .finish {
    exitCode := if run.error.isSome then 1 else 0
    stdout := (if o.output.isEmpty then run.text else "") ++ problem
    file := if o.output.isEmpty then none else some (o.output, run.text)
    log := if o.verbose then run.events else [] }

-- The output file is made before the program is looked at.
def writing (o : Options) (rf : RegisterFile) (source : String) : Session :=
  if o.output.isEmpty then ofRun o (run o rf source)
  else .createFile o.output fun
    | some reason => fail ("could not open output file: " ++ reason)
    | none => ofRun o (run o rf source)

def reading (o : Options) (rf : RegisterFile) : Session :=
  let next : Except String String → Session := fun
    | .error reason => fail ("Could not read source code: " ++ reason)
    | .ok source => writing o rf source
  if o.source.isEmpty then .readInput next else .readFile o.source next

def configured (o : Options) (overrides cfg : Config) : Session :=
  match RegisterFile.ofConfig (Config.x8664.merge (cfg.merge overrides)) with
  | .error found => fail ("Configuration error: " ++ RegisterFile.flawsMessage found)
  | .ok rf => reading o rf

def configuring (o : Options) (overrides : Config) : Session :=
  if o.config.isEmpty then configured o overrides {}
  else .readFile o.config fun
    | .error reason => fail ("Configuration error: failed to read config file: " ++ reason)
    | .ok text =>
      match ConfigFile.parse text with
      | .error (.misuse _) => crash
      | .error e => fail ("Configuration error: " ++ e.message)
      | .ok cfg => configured o overrides cfg

end Session

def session (words : List String) (env : Environment) : Session :=
  match parse words with
  | .error e => Session.fail ("Command line argument error: " ++ e.message)
  | .ok .help => .finish { stdout := Help.text }
  | .ok .version => .finish { stdout := versionText }
  | .ok (.run o) => Session.configuring (o.withEnvironment env) env.overrides

-- What remains of a session in a directory: its ending, and the files. A text written to the
-- standard output by its path comes before what is shown there at the end.
def Ending.inDirectory (e : Ending) (d : Directory) : Ending × Directory :=
  match e.file with
  | none => (e, d)
  | some (path, text) =>
    match d.target path with
    | .ok (.file name) | .ok (.free name) => (e, d.set name text)
    | .ok (.device .output) => ({ e with stdout := text ++ e.stdout }, d)
    | _ => (e, d)

def Session.inDirectory (d : Directory) (input : String) : Session → Ending × Directory
  | .readFile path next => (next (d.read input path)).inDirectory d input
  | .readInput next => (next (.ok input)).inDirectory d input
  | .createFile path next => (next (d.refusal? path)).inDirectory d input
  | .finish ending => ending.inDirectory d

end RegisterAllocation.Command
