import TopicSchema.Command.Run

namespace TopicSchema.Main

open Command

def osError : IO.Error → OsError
  | .noFileOrDirectory .. => .notFound
  | .alreadyExists .. => .alreadyExists
  | .inappropriateType _ 20 _ => .notDirectory
  | .inappropriateType _ 21 _ => .isDirectory
  | e => .other (toString e)

def attempt {α : Type} (action : IO α) : IO (Except OsError α) := do
  match ← action.toBaseIO with
  | .ok a => return .ok a
  | .error e => return .error (osError e)

def perform : Step → IO (Except OsError Unit)
  | .directory path => attempt (if path = "" then pure () else IO.FS.createDirAll path)
  | .file path content => attempt (IO.FS.writeFile path content)
  | .line text => attempt (IO.println text)

def performAll : List Step → IO UInt32
  | [] => return 0
  | step :: rest => do
    match ← perform step with
    | .ok () => performAll rest
    | .error e => do
      IO.eprint (step.failure e).report
      return 1

def compile (arguments : CompileArguments) : IO UInt32 := do
  IO.println (opening arguments)
  let content ← attempt (IO.FS.readBinFile arguments.descriptorSet)
  match steps arguments (content.map (·.data.toList)) with
  | .ok steps => performAll steps
  | .error f => do
    IO.eprint f.report
    return 1

def plugin : IO UInt32 := do
  let input ← (← IO.getStdin).readBinToEnd
  match generate input.data.toList with
  | .ok output => do
    let stdout ← IO.getStdout
    stdout.write output.toByteArray
    stdout.flush
    return 0
  | .error e => do
    IO.eprint (generatorFailure e).report
    return 1

end TopicSchema.Main

open TopicSchema Command in
def main (arguments : List String) : IO UInt32 := do
  match Invocation.ofArguments arguments with
  | .plugin => Main.plugin
  | .compile arguments => Main.compile arguments
  | .version => do
    IO.println versionLine
    return 0
  | .help => do
    IO.println usageLine
    return 0
  | .invalid => do
    IO.eprintln usageLine
    return 2
