import Lox.CommandLine.Ending
import Std.Time.DateTime.Timestamp

/-! The program itself: arguments, files and streams in, streams and an exit status out. -/
namespace Lox.Main

/-- The clock counts seconds from the beginning of 1970. It is read once for each unit, and readings
that belong to one unit are a microsecond apart. -/
def hostNow : IO Host := do
  let now := (← Std.Time.Timestamp.now).toNanosecondsSinceUnixEpoch.val
  return ⟨fun n => Float.ofInt (now / 1000 + n) / 1000000.0, some maxCallDepth⟩

def write (stream : IO.FS.Stream) (text : String) : IO Unit := do
  stream.putStr text
  stream.flush

def finish (e : Ending) : IO UInt32 := do
  write (← IO.getStdout) e.output
  write (← IO.getStderr) e.complaints
  return e.exitCode.toUInt32

/-- A line with its newline, or nothing at the end of the input. -/
partial def readLine (input : IO.FS.Stream) (read : List UInt8) : IO (List UInt8) := do
  match (← input.read 1).toList with
  | [] => return read.reverse
  | b :: _ => if b = 0x0a then return (b :: read).reverse else readLine input (b :: read)

partial def serve (input : IO.FS.Stream) (s : Session) : IO UInt32 := do
  write (← IO.getStdout) Ending.promptMark
  let line ← readLine input []
  if line.isEmpty then finish .farewell
  else match Ending.lineText line with
    | .error _ => finish .noText
    | .ok text =>
      let ((output, complaints), s) := Ending.answer (← hostNow) practicalBound text s
      write (← IO.getStdout) output
      write (← IO.getStderr) complaints
      serve input s

/-- The code that the system gives with a failure to read a folder. -/
def folderCode : UInt32 := 21

def contentOf (file : String) : IO (Except Unread ByteArray) := do
  try return .ok (← IO.FS.readBinFile file)
  catch
  | .inappropriateType _ code _ => return .error (if code = folderCode then .folder else .noFolder)
  | .invalidArgument .. => return .error .tooLong
  | .permissionDenied .. => return .error .denied
  | _ => return .error .missing

def perform : Command → IO UInt32
  | .prompt => do serve (← IO.getStdin) (.start none)
  | command => do
    let read ← match command.file? with
      | some file => contentOf file
      | none => pure (.error .missing)
    finish (.ofCommand (← hostNow) practicalBound (fun _ => read) .empty command)

def start (arguments : List String) : IO UInt32 := do
  match Request.ofArguments false arguments with
  | .command command log =>
    if log then IO.FS.writeFile "app.log" (reprStr command ++ "\n")
    perform command
  | .version => finish .version
  | .misuse => finish .misuse

end Lox.Main

def main (arguments : List String) : IO UInt32 := Lox.Main.start arguments
