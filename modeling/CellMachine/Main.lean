import CellMachine.CommandLine.Session

/-!
# Main — the program on real files and streams

The outer layer: it reads the program file, drives the session step by step, and copies between the
session and the standard streams.  A line of input is read when the program asks for it, after the
output so far is out.
-/

namespace CellMachine
namespace Main

def causeText : IO.Error → String
  | .noFileOrDirectory _ _ _ => "No such file or directory (os error 2)"
  | .permissionDenied _ code details | .inappropriateType _ code details =>
      details ++ " (os error " ++ toString code.toNat ++ ")"
  | error => toString error

def readContent (path : String) : IO (Except String Bytes) := do
  try
    return .ok (← IO.FS.readBinFile path).toList
  catch error =>
    return .error (causeText error)

/-- Reads bytes up to the end of a line or of the stream. -/
partial def readLine (stream : IO.FS.Stream) (line : Array UInt8) : IO Bytes := do
  let bytes ← stream.read 1
  match bytes.toList with
  | [] => return line.toList
  | b :: _ =>
      if b = Console.lineFeed then return (line.push b).toList
      else readLine stream (line.push b)

def conclude (outcome : Outcome) : IO UInt32 := do
  let output ← IO.getStdout
  output.putStr outcome.output
  output.flush
  (← IO.getStderr).putStr outcome.errors
  return outcome.exitCode

def handOver (session : Session) : IO Session := do
  let (events, session) := session.takeEvents
  for event in events do
    (← IO.getStderr).putStrLn event
  let (text, session) := session.takeOutput
  (← IO.getStdout).putStr text
  return session

partial def drive (session : Session) : IO UInt32 := do
  match session.outcome? with
  | some outcome =>
      let _ ← handOver session
      conclude { outcome with output := "" }
  | none =>
      if session.wantsLine then
        let session ← handOver session
        (← IO.getStdout).flush
        let line ← readLine (← IO.getStdin) #[]
        drive ((session.feed line).advance 1)
      else drive (← handOver (session.advance 1))

def execute (arguments : List String) : IO UInt32 := do
  match Command.ofArguments arguments with
  | .error fault => conclude (.ofUsageFault fault)
  | .ok .help => conclude { exitCode := 0, output := Outcome.helpText }
  | .ok .version => conclude { exitCode := 0, output := Outcome.versionText }
  | .ok (.explain code) => conclude (.explain code)
  | .ok (.run path options) =>
      match Session.start options path (← readContent path) [] with
      | .error outcome => conclude outcome
      | .ok session => drive session

end Main
end CellMachine

def main (arguments : List String) : IO UInt32 :=
  CellMachine.Main.execute arguments
