import RegisterAllocation.Command.Session

namespace RegisterAllocation.Command

def fault? : IO.Error → Option (PathFault × String)
  | .noFileOrDirectory .. => some (.missing, "open")
  | .inappropriateType none .. => some (.isDirectory, "read")
  | .inappropriateType (some _) _ details =>
    some (if details.startsWith "not" then .notDirectory else .isDirectory, "open")
  | .invalidArgument (some _) .. => some (.nameTooLong, "open")
  | _ => none

def reason (path : String) (e : IO.Error) : String :=
  match fault? e with
  | some (fault, action) => fault.message action path
  | none => toString e

def attempt (path : String) (action : IO String) : IO (Except String String) := do
  try
    return .ok (← action)
  catch e =>
    return .error (reason path e)

def create (path : String) : IO (Option String) := do
  try
    IO.FS.writeFile path ""
    return none
  catch e =>
    return some (reason path e)

partial def readAll (input : IO.FS.Stream) (read : String) : IO String := do
  let line ← input.getLine
  if line.isEmpty then return read else readAll input (read ++ line)

def logLine (name : String) (event : Event) : String := name ++ ": " ++ event.text

def finish (ending : Ending) : IO UInt32 := do
  for (name, event) in ending.log do
    IO.eprintln (logLine name event)
  if let some (path, text) := ending.file then
    IO.FS.writeFile path text
  IO.print ending.stdout
  return ending.exitCode.toUInt32

def hold : Session → IO UInt32
  | .readFile path next => do hold (next (← attempt path (IO.FS.readFile path)))
  | .readInput next => do hold (next (← attempt "" do readAll (← IO.getStdin) ""))
  | .createFile path next => do hold (next (← create path))
  | .finish ending => finish ending

end RegisterAllocation.Command

def main (words : List String) : IO UInt32 := do
  let names := [RegisterAllocation.Command.Environment.configName,
    RegisterAllocation.Command.Environment.threadsName,
    RegisterAllocation.Command.Environment.retryName,
    RegisterAllocation.Command.Environment.verboseName]
  let values ← names.mapM fun name => return (name, ← IO.getEnv name)
  let env := RegisterAllocation.Command.Environment.ofLookup fun name => (values.lookup name).join
  RegisterAllocation.Command.hold (RegisterAllocation.Command.session words env)
