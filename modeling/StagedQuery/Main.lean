import StagedQuery.CommandLine.Commands

/-!
# The command line

This program carries no connections of its own: a graph can be planned and shown, but no
worker is ever reached.
-/

namespace StagedQuery.CommandLine

/-- An identifier of random bits. -/
def randomIdentifier : IO Identifier := do
  let mut bits := 0
  for _ in [0:4] do
    bits := bits * 0x100000000 + (← IO.rand 0 0xffffffff)
  return ⟨BitVec.ofNat 128 bits⟩

/-- The texts of the files that are named among the arguments. -/
def readFiles (arguments : List String) : IO (List (String × String)) := do
  let mut files := []
  for argument in arguments do
    let attached := String.ofList (argument.toList.drop 2)
    for path in argument :: attached :: (argument.splitOn "=").drop 1 do
      match ← (IO.FS.readFile path).toBaseIO with
      | .ok text => files := (path, text) :: files
      | .error _ => pure ()
  return files

end StagedQuery.CommandLine

open StagedQuery StagedQuery.CommandLine

/-- Carry out the command line. -/
def main (arguments : List String) : IO UInt32 := do
  let seed ← randomIdentifier
  let names : NameSupply :=
    { suffix := fun k => String.ofList (Identifier.digits ⟨seed.bits + BitVec.ofNat 128 (2 * k)⟩)
      task := fun k => ⟨seed.bits + BitVec.ofNat 128 (2 * k + 1)⟩ }
  let files ← readFiles arguments
  let world : World :=
    { file := fileAmong files, fresh := ← randomIdentifier, names
      listens := isOwnAddress, execute := unreachable "no connections" }
  let exit := world.main arguments
  for line in exit.output do IO.println line
  for line in exit.errors do IO.eprintln line
  return UInt32.ofNat exit.code
