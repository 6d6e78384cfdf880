import LSystem.Cli.Run
import LSystem.Image.Png

/-!
# The program

Reads the grammar file, runs, writes what came of it, and reports how it went: 0 if all went well, 1
if the run failed, and 2 if the arguments do not fit.
-/

namespace LSystem.Cli

def tell (notices : List (Notice Float)) : IO Unit := do
  for n in notices do
    if n.level = .warn then
      IO.eprintln ("[" ++ n.level.name ++ "] " ++ n.text)

def fail (error : RunError) : IO UInt32 := do
  IO.eprintln ("Error: " ++ error.message)
  return 1

def readContents (path : String) : IO (Except ReadError ByteArray) := do
  try
    return .ok (← IO.FS.readBinFile path)
  catch
    | .noFileOrDirectory .. => return .error .notFound
    | error => return .error (.other (toString error))

/-- Whether a file can be put at a path.  One that is there loses its contents. -/
def tryCreate (path : String) : IO Bool := do
  try
    IO.FS.writeBinFile path .empty
    return true
  catch _ => return false

/-- A word from the randomness of the system. -/
def entropyWord : IO UInt64 := do
  return (← IO.getRandomBytes 8).foldl (fun n b => n <<< 8 ||| b.toUInt64) 0

def execute (inv : Invocation) : IO UInt32 := do
  let loaded := inv.load (← readContents inv.file) (← entropyWord)
  tell loaded.notices
  match loaded.value with
  | .error error => fail error
  | .ok figure =>
    let writable ← match inv.format, inv.output with
      | .png, _ | _, none => pure true
      | _, some path => tryCreate path
    let result := inv.draw figure writable
    tell result.notices
    match result.product, inv.output with
    | some (.document bytes), none => (← IO.getStdout).write bytes
    | some (.document bytes), some path => IO.FS.writeBinFile path bytes
    | some (.picture canvas), some path =>
      try
        IO.FS.writeBinFile path (Png.encode canvas)
      catch _ => return ← fail (.cannotWrite path)
    | _, _ => pure ()
    match result.error with
    | some error => fail error
    | none => return 0

end LSystem.Cli

open LSystem.Cli in
def main (arguments : List String) : IO UInt32 := do
  match read? arguments with
  | none =>
    IO.eprintln "error: the arguments do not fit; try --help"
    return 2
  | some .help =>
    IO.print helpText
    return 0
  | some .version =>
    IO.print versionText
    return 0
  | some (.run invocation) => execute invocation
