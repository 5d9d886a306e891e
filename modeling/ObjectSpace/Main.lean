import ObjectSpace.CommandLine.Program

/-!
# The command line program

Reads the surroundings, and prints what the program has to say.
-/

open ObjectSpace CommandLine

/-- Why a file cannot be read. -/
def reasonOf : IO.Error → String
  | .noFileOrDirectory .. => "No such file or directory (os error 2)"
  | .permissionDenied .. => "Permission denied (os error 13)"
  | .inappropriateType .. => "Is a directory (os error 21)"
  | e => toString e

def readSettingsFile (words : List String) : IO (Except String String) :=
  match parse words with
  | .ok ⟨_, some path⟩ => do
    try
      return .ok (← IO.FS.readFile path)
    catch e => return .error (reasonOf e)
  | _ => return .error ""

def settingsVariables : List String :=
  ["OBJWIRE_AUTO_COMMIT", "OBJWIRE_AUTO_COMMIT_INTERVAL_MS", "OBJWIRE_LOCAL_ONLY",
    "OBJWIRE_CALL_TIMEOUT_MS", "OBJWIRE_DEFAULT_PARTITION"]

def main (words : List String) : IO UInt32 := do
  let found ← settingsVariables.filterMapM fun key => do
    return (← IO.getEnv key).map (key, ·)
  let file ← readSettingsFile words
  let random ← IO.getRandomBytes 8
  let ending := run words ⟨(found.lookup ·), fun _ => file, freshNumber random.toList⟩
  (← IO.getStdout).putStr ending.output
  (← IO.getStderr).putStr ending.error
  return ending.code
