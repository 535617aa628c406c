import TagScript.CommandLine

namespace TagScript

/-- The number of a system error. Some layers below report it negated. -/
def systemNumber (code : UInt32) : Nat :=
  (if code < 0x80000000 then code else 0 - code).toNat

def ReadFailure.ofSystem (code : UInt32) (details : String) : ReadFailure :=
  match systemNumber code with
  | 20 => .notDirectory
  | 21 => .isDirectory
  | 36 => .nameTooLong
  | number => .other (details.capitalize ++ " (os error " ++ toString number ++ ")")

def ReadFailure.ofError : IO.Error → ReadFailure
  | .noFileOrDirectory .. => .missing
  | .permissionDenied .. => .denied
  | .inappropriateType _ code details => .ofSystem code details
  | .invalidArgument _ code details => .ofSystem code details
  | error => .other (toString error)

def readProgramFile (path : String) : IO (Except ReadFailure ByteArray) := do
  try
    return .ok (← IO.FS.readBinFile path)
  catch error =>
    return .error (.ofError error)

end TagScript

def main (args : List String) : IO UInt32 := do
  let outcome ← (TagScript.Request.ofArgs args).perform TagScript.readProgramFile
  IO.print outcome.stdout
  IO.eprint outcome.stderr
  return outcome.code
