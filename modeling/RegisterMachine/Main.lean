import RegisterMachine.Tool.Assembler
import RegisterMachine.Tool.Launcher
import RegisterMachine.Tool.Lister

/-!
# The command line

One program with four tools: `assemble` and `list` work on files by name, `run` runs a code file, and
`demo` runs the demonstration. The environment variable `DEBUG` asks for explanations, and
`FUZZ` leaves commands out; it is enough that they are set.

The machine's requests to run a command of the host are not granted here.
-/

namespace RegisterMachine.Shell

/-- The bytes of a text. -/
def utf8 (s : String) : Bytes := s.toUTF8.toList

/-- Writes bytes to a stream. -/
def writeBytes (stream : IO.FS.Stream) (t : Bytes) : IO Unit := do
  stream.write t.toByteArray
  stream.flush

/-- The files of the host that have one of the given names. -/
def loadFiles (names : List String) : IO Files := do
  let mut fs : Files := {}
  for name in names do
    match ← (IO.FS.readBinFile name).toBaseIO with
    | .ok content => fs := fs.put (Path.ofName (utf8 name)) content.toList
    | .error _ => pure ()
  return fs

/-- What the user has decided. -/
def userSettings : IO Launcher.Settings := do
  return { verbose := (← IO.getEnv "DEBUG").isSome, skipCommands := (← IO.getEnv "FUZZ").isSome }

/-- Ends a tool. -/
def finish : Launcher.Result → IO UInt32
  | .exited status output errors => do
    writeBytes (← IO.getStdout) output
    writeBytes (← IO.getStderr) errors
    return UInt32.ofNat status
  | .trapped _ | .unfinished => return 134
  | .killed .arithmetic => return 136
  | .killed .segmentation => return 139

/-- Goes on with a run in stretches of cycles, and writes out what each of them says. -/
partial def follow (g : Launcher.Settings) (limit : Int) (p : Progress) (s : State) : IO UInt32 := do
  let r := proceed Table.builtin g.config 0 limit 4096 p s
  if r.ending == .outOfFuel then
    writeBytes (← IO.getStdout) (Event.renderAll r.state.log 0 r.state.log.size)
    follow g limit r.toProgress { r.state with log := #[] }
  else finish (Launcher.conclude g r)

/-- The launcher. -/
def runTool (args : List String) : IO UInt32 := do
  let fs ← loadFiles (args.take 1)
  match Launcher.start (utf8 "registermachine run") fs (args.map utf8) with
  | .ended r => finish r
  | .ready limit s => follow (← userSettings) limit (Progress.start s) s

/-- The assembler. It writes the code files that are new or have changed. -/
def assembleTool (args : List String) : IO UInt32 := do
  let before ← loadFiles args
  let r := Assembler.build before (args.map utf8)
  for name in args do
    let output := Assembler.outputName (utf8 name)
    match String.fromUTF8? output.toByteArray, (r.files.read output).toOption with
    | some file, some content =>
      if (before.read output).toOption != some content then
        IO.FS.writeBinFile file content.toByteArray
    | _, _ => pure ()
  writeBytes (← IO.getStdout) r.output
  match r.failure with
  | none => return 0
  | some f =>
    writeBytes (← IO.getStderr) (f.message ++ ascii "\n")
    return 255

/-- The lister. -/
def listTool (args : List String) : IO UInt32 := do
  let (output, failure) := Lister.list (← loadFiles args) (args.map utf8)
  writeBytes (← IO.getStdout) output
  match failure with
  | none => return 0
  | some f =>
    writeBytes (← IO.getStderr) (f.message ++ ascii "\n")
    return 255

end RegisterMachine.Shell

open RegisterMachine RegisterMachine.Shell

/-- The command line. -/
def main : List String → IO UInt32
  | "run" :: args => runTool args
  | "demo" :: _ => do finish (Launcher.demo (← userSettings))
  | "assemble" :: args => assembleTool args
  | "list" :: args => listTool args
  | _ => do
    writeBytes (← IO.getStderr) (ascii "Usage: registermachine run|demo|assemble|list arguments\n")
    return 2
