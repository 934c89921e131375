import Std.Time.DateTime.Timestamp
import Workboard.Cli.Run

/-! The program: a command line on the real disk. -/

namespace Workboard.Cli

/-- An error of the system in the program's words. -/
def FileError.ofSystem : IO.Error → FileError
  | .noFileOrDirectory _ code description => ⟨description, code.toNat⟩
  | .alreadyExists _ code description => ⟨description, code.toNat⟩
  | .inappropriateType _ code description => ⟨description, code.toNat⟩
  | .permissionDenied _ code description => ⟨description, code.toNat⟩
  | .invalidArgument _ code description => ⟨description, code.toNat⟩
  | .resourceExhausted _ code description => ⟨description, code.toNat⟩
  | .resourceBusy code description => ⟨description, code.toNat⟩
  | .otherError code description => ⟨description, code.toNat⟩
  | e => ⟨toString e, 0⟩

/-- Answers requests from the real disk. -/
def Console.perform : Console α → IO α
  | done a => return a
  | read path next => do
    let r ← (IO.FS.readFile path).toBaseIO
    (next (r.mapError FileError.ofSystem)).perform
  | write path text next => do
    let r ← (IO.FS.writeFile path text).toBaseIO
    (next (r.mapError FileError.ofSystem)).perform
  | makeFolder path next => do
    let r ← (IO.FS.createDir path).toBaseIO
    (next (r.mapError FileError.ofSystem)).perform
  | isFolder path next => do
    let there ← try (← IO.FS.realPath path).isDir catch _ => pure false
    (next there).perform

/-- The time, and the waiting times that the environment asks for. -/
def Surroundings.ofSystem : IO Surroundings := do
  let now ← Std.Time.Timestamp.now
  let betweenCommands ← IO.getEnv "WORKBOARD_INTER_COMMAND_DELAY_MS"
  let afterConnect ← IO.getEnv "WORKBOARD_POST_CONNECT_DELAY_MS"
  return ⟨.ofNat now.toMillisecondsSinceUnixEpoch.toInt.toNat, .ofSettings betweenCommands afterConnect⟩

end Workboard.Cli

def main (arguments : List String) : IO UInt32 := do
  let surroundings ← Workboard.Cli.Surroundings.ofSystem
  let finish ← (Workboard.Cli.run surroundings arguments).perform
  IO.print finish.output
  IO.eprint finish.errors
  return finish.exit
