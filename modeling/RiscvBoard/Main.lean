import RiscvBoard.CommandLine.Console
import RiscvBoard.Elf.Format

/-!
The program. It reads the files that its arguments name, runs the guest in bursts, and carries bytes
between the guest's serial line and the standard streams.
-/

set_option autoImplicit false

namespace RiscvBoard.CommandLine

def readFailure : IO.Error → String
  | .noFileOrDirectory .. => "No such file or directory (os error 2)"
  | .permissionDenied .. => "Permission denied (os error 13)"
  | .inappropriateType _ _ "not a directory" => "Not a directory (os error 20)"
  | .inappropriateType .. => "Is a directory (os error 21)"
  | e => toString e

def readBytes (path : String) : IO (Except String ByteArray) := do
  try
    return .ok (← IO.FS.readBinFile path)
  catch e =>
    return .error (readFailure e)

/-- Bytes from the console that the guest has not been given yet, the last one first. -/
abbrev Waiting := IO.Ref (List UInt8)

/-- Collects the bytes of a stream one at a time, until it ends or nobody waits for them any
more. -/
partial def collect (input : IO.FS.Stream) (waiting : Waiting) : IO Unit := do
  let bytes ← input.read 1
  if bytes.isEmpty ∨ (← IO.checkCanceled) then return
  waiting.modify fun old => bytes.data.toList.reverse ++ old
  collect input waiting

def conclude (output error : IO.FS.Stream) (e : Ending) : IO UInt32 := do
  output.putStr e.stdout
  output.flush
  error.putStr e.stderr
  return e.code.toUInt32

/-- Runs bursts until the run ends. Before each one the guest gets the bytes that came in. -/
partial def serve (trace : Bool) (waiting : Waiting) (output error : IO.FS.Stream) (c : Console) :
    IO UInt32 := do
  let bytes ← waiting.modifyGet fun old => (old.reverse, [])
  let c := c.pushInput bytes
  if trace then
    for line in c.nextTrace do
      error.putStr (line.text ++ "\n")
  match c.burst with
  | .more text c =>
    output.write ⟨text.toArray⟩
    output.flush
    serve trace waiting output error c
  | .ended text e =>
    output.write ⟨text.toArray⟩
    output.flush
    conclude output error e

def carryOut (a : Arguments) : IO UInt32 := do
  let output ← IO.getStdout
  let error ← IO.getStderr
  match ← (Console.start Elf.fileReader readBytes a).run with
  | .error f => conclude output error f.ending
  | .ok c =>
    let waiting ← IO.mkRef []
    let input ← IO.getStdin
    let reader ← IO.asTask (collect input waiting) Task.Priority.dedicated
    let code ← serve a.trace waiting output error c
    IO.cancel reader
    return code

def usage : String :=
  "Usage: riscv-board [OPTIONS] [IMAGE]\n\n" ++
  "  --elf <PATH>          image to load, an ELF file or a flat binary; same as IMAGE\n" ++
  "  --fs <PATH>           disk image for the block device\n" ++
  "  --dtb <PATH>          device tree blob to use instead of the generated one\n" ++
  "  --xlen <32|64>        register width, by default that of the image\n" ++
  "  --ram-mib <N>         memory size in MiB, by default 128\n" ++
  "  --max-insns <N>       stop after N instructions; 0 means never\n" ++
  "  --page-cache <BOOL>   page cache on or off, by default on\n" ++
  "  --bootargs <TEXT>     boot arguments for the generated device tree\n" ++
  "  --trace               print each instruction before it executes\n"

end RiscvBoard.CommandLine

open RiscvBoard.CommandLine

def main (args : List String) : IO UInt32 := do
  match Request.ofList args with
  | .run a => carryOut a
  | .help =>
    (← IO.getStdout).putStr usage
    return 0
  | .version =>
    (← IO.getStdout).putStr "riscv-board 0.1.0\n"
    return 0
  | .misuse message =>
    (← IO.getStderr).putStr ("error: " ++ message ++ "\n\n" ++ usage)
    return 2
