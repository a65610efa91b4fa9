import PdfObjects.CommandLine

/-! The program: reads the file that the arguments name, and writes what the run yields. -/
namespace PdfObjects.CommandLine

/-- The content of a file, or the reason for which it cannot be read. -/
def readDocument (path : String) : IO (Except String (Array UInt8)) := do
  try
    return .ok (← IO.FS.readBinFile path).data
  catch e =>
    match e with
    | .noFileOrDirectory .. => return .error missingFile
    | .permissionDenied .. => return .error "Permission denied (os error 13)"
    | e => return .error (toString e)

/-- Serves a request, with the file read if one is named. -/
def serveFromDisk (request : Request) : IO Outcome := do
  match request with
  | .run _ path _ =>
    let content ← readDocument path
    return serve request fun _ => content
  | _ => return serve request fun _ => .ok #[]

end PdfObjects.CommandLine

/-- Runs the program; the result is its exit code. -/
def main (args : List String) : IO UInt32 := do
  let outcome ←
    match PdfObjects.CommandLine.request? args with
    | some request => PdfObjects.CommandLine.serveFromDisk request
    | none => pure PdfObjects.CommandLine.misuse
  IO.print outcome.stdout
  IO.eprint outcome.stderr
  return outcome.code
