import ObjectSpace.CommandLine.Command
import ObjectSpace.CommandLine.Help
import ObjectSpace.Settings.Environment

/-!
# The program

From the words of the command line to what is printed and the code that the program ends with.
-/

namespace ObjectSpace
namespace CommandLine

/-- What a program can see beside its command line. -/
structure Surroundings where
  environment : String → Option String
  /-- The text of the file at a path, or why it cannot be read. -/
  file : String → Except String String
  /-- A number that no other object has. -/
  fresh : UInt64

structure Ending where
  code : UInt32
  output : String
  error : String

def readSettings (env : Surroundings) : Option String → Except CommandError Settings
  | some path =>
    match env.file path with
    | .ok text => (Settings.ofText text).mapError .settings
    | .error reason => .error (.unreadable path reason)
  | none => (Settings.ofEnvironment env.environment).mapError .settings

def Invocation.run (i : Invocation) (env : Surroundings) : Ending :=
  let work : Work Unit := do
    let s ← .ofExcept (readSettings env i.settingsFile)
    i.command.run s env.fresh
  match work .empty with
  | (.ok (), (output, _)) => ⟨0, output, ""⟩
  | (.fail e, (output, _)) => ⟨1, output, e.text⟩
  | (.crash, (output, _)) => ⟨101, output, ""⟩

/-- How the program ends where there is nothing to invoke. -/
def Stop.ending : Stop → Ending
  | usage => ⟨2, "", usage.text⟩
  | s => ⟨0, s.text, ""⟩

def run (words : List String) (env : Surroundings) : Ending :=
  match parse words with
  | .ok i => i.run env
  | .error s => s.ending

/-- A number that can be written, from random ones. -/
def freshNumber (random : List UInt8) : UInt64 :=
  (random.foldl (fun (n : Nat) (b : UInt8) => 256 * n + b.toNat) 0 % 2 ^ 63).toUInt64

end CommandLine
end ObjectSpace
