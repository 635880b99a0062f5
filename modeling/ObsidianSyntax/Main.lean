import ObsidianSyntax.CommandLine.Run

/-!
# The program

Reads the file that the arguments name, writes what the run gives, and ends with its code.
-/

namespace ObsidianSyntax

/-- The fault that the system numbers. Some calls give the number with its sign turned. -/
def ReadFault.ofNumber (number : UInt32) (description : String) : ReadFault :=
  let number := if number < 0x80000000 then number.toNat else (0 - number).toNat
  if number = 20 then .notFolder else if number = 21 then .isFolder else .other number description.capitalize

/-- Why the system could not read a file. -/
def ReadFault.ofSystem : IO.Error → ReadFault
  | .noFileOrDirectory .. => .notFound
  | .inappropriateType _ number description | .permissionDenied _ number description
  | .invalidArgument _ number description | .resourceExhausted _ number description
  | .otherError number description => .ofNumber number description
  | fault => .other 5 (toString fault)

/-- The source in a file of the system. -/
def readSource (path : String) : IO (Except ReadFault String) := do
  try return decodeSource (← IO.FS.readBinFile path)
  catch fault => return .error (.ofSystem fault)

end ObsidianSyntax

def main (arguments : List String) : IO UInt32 := do
  let outcome ← ObsidianSyntax.run ObsidianSyntax.readSource arguments
  IO.print outcome.output
  IO.eprint outcome.errors
  return outcome.code.toUInt32
