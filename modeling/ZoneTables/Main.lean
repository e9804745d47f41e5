import ZoneTables.CommandLine.Run

/-!
# The command

Reads files, prints messages and writes the output file. Everything else is decided by
`CommandLine.run`.
-/

namespace ZoneTables.CommandLine

/-- The directory of the host's compiled zone files. -/
def hostDirectory : String := "/usr/share/zoneinfo"

/-- What is found at a path of the file system. What cannot be read is not there. -/
def lookUp (path : String) : IO Found := do
  try return .contents (← IO.FS.readBinFile path).toList
  catch _ => return .nothing

/-- Prints and writes what a run results in. -/
def finish : Except Failure Outcome → IO UInt32
  | .error e => do
    IO.eprintln e.message
    return if e matches .usage then 2 else 1
  | .ok o => do
    if let some (path, text) := o.file then IO.FS.writeFile path text
    for m in o.log do IO.eprintln s!"{m.level.label}:root:{m.text}"
    IO.print o.stdout
    return o.exit.toUInt32

end ZoneTables.CommandLine

def main (args : List String) : IO UInt32 := do
  ZoneTables.CommandLine.finish
    (← ZoneTables.CommandLine.run ZoneTables.CommandLine.lookUp
      ZoneTables.CommandLine.hostDirectory args)
