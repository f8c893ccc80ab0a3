import TaskTree.CommandLine.Run

/-!
# The program

Gathers what a run can see, runs it, and writes what it leaves behind.
-/

namespace TaskTree
namespace CommandLine

/-- The bytes of a file. -/
def readFile (path : String) : IO (Except LoadFault ByteArray) := do
  try
    return .ok (← IO.FS.readBinFile path)
  catch error =>
    match error with
    | .inappropriateType .. => return .error .isDirectory
    | _ => return .error .notFound

/-- The files that an invocation may look at. -/
def Invocation.paths (invocation : Invocation) : List String :=
  invocation.options.config.toList
    ++ if isStandardInput invocation.input then [] else [invocation.input]

/-- The bytes that are left of a stream, behind those that have been read. -/
partial def readAll (stream : IO.FS.Stream) (bytes : ByteArray) : IO ByteArray := do
  let chunk ← stream.read 65536
  if chunk.isEmpty then return bytes
  else readAll stream (bytes ++ chunk)

/-- What a run with the given arguments can see. -/
def gather (args : List String) : IO Surroundings := do
  match Invocation.ofArgs? args with
  | none => return { files := fun _ => .error .notFound, standardInput := ByteArray.empty }
  | some invocation =>
      let contents ← invocation.paths.mapM fun path => do
        return (path, ← readFile path)
      let standardInput ←
        if isStandardInput invocation.input then readAll (← IO.getStdin) ByteArray.empty
        else pure ByteArray.empty
      return {
        files := fun path => (contents.lookup path).getD (.error .notFound)
        standardInput }

end CommandLine
end TaskTree

/-- Runs the program on the given arguments. -/
def main (args : List String) : IO UInt32 := do
  let surroundings ← TaskTree.CommandLine.gather args
  let outcome := TaskTree.CommandLine.run surroundings args
  (← IO.getStdout).putStr outcome.output
  (← IO.getStderr).putStr outcome.errors
  return outcome.code.toUInt32
