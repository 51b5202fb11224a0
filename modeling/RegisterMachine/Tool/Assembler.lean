import RegisterMachine.Assembly.Warning
import RegisterMachine.Files

/-!
# The assembler as a tool

The assembler writes a code file beside each source file that it is given. It is a function of its
arguments and of the files: what it prints, what the files are afterwards, and why it gave
up if it did.

## Main definitions

* `Assembler.Failure`, `Assembler.Failure.message` — why it gives up.
* `Assembler.outputName` — the code file of a source file.
* `Assembler.build` — what becomes of a number of source files.
-/

namespace RegisterMachine

namespace Assembler

/-- Why the assembler gave up. -/
inductive Failure where
  /-- A source file cannot be read. -/
  | unreadable (name : Bytes) (problem : Files.Problem)
  /-- A code file cannot be written. -/
  | unwritable (name : Bytes) (problem : Files.Problem)
  /-- A source has a fault. -/
  | faulty (fault : Fault)
  deriving DecidableEq, Repr

/-- The wording of a failure. -/
def Failure.message : Failure → Bytes
  | unreadable name problem =>
    ascii "Failed to read source " ++ name ++ ascii " - " ++ problem.message
  | unwritable name problem =>
    ascii "Failed to write to " ++ name ++ ascii " - " ++ problem.message
  | faulty fault => fault.message

/-- What becomes of a number of source files. -/
structure Result where
  /-- The files afterwards. -/
  files : Files
  /-- What was printed. -/
  output : Bytes
  /-- The warnings on the error stream. -/
  warnings : List Warning := []
  /-- Why the assembler gave up, if it did. -/
  failure : Option Failure
  deriving DecidableEq, Repr

/-- A name without its last point and what follows that, unless nothing does. The point may
stand in the name of a directory. -/
def withoutExtension (name : Bytes) : Bytes :=
  let extension := (name.reverse.takeWhile (· != byte '.')).reverse
  if extension.isEmpty || extension.length = name.length then name
  else name.take (name.length - extension.length - 1)

/-- The name of the code file of a source file. -/
def outputName (name : Bytes) : Bytes := withoutExtension name ++ ascii ".raw"

/-- Assembles one source file. The code file is emptied before the source is read, so a source
that is its own code file is empty. -/
def buildOne (fs : Files) (name : Bytes) : Result :=
  match fs.read name with
  | .error problem => { files := fs, output := [], failure := some (.unreadable name problem) }
  | .ok _ =>
    match fs.target (outputName name) with
    | .error problem =>
      { files := fs, output := [], failure := some (.unwritable (outputName name) problem) }
    | .ok p =>
      let emptied := fs.put p []
      let t := (emptied.read name).toOption.getD []
      let a := assemble t
      { files := emptied.put p a.code
        output := a.messages
        warnings := RegisterMachine.warnings t
        failure := a.fault.map .faulty }

/-- Whether an argument ends the list of files. -/
def endsList (name : Bytes) : Bool := name.isEmpty || name == ascii "0"

/-- Assembles source files one after the other, up to the first failure. -/
def build (fs : Files) : List Bytes → Result
  | [] => { files := fs, output := [], failure := none }
  | name :: names =>
    if endsList name then { files := fs, output := [], failure := none }
    else
      let r := buildOne fs name
      if r.failure.isSome then r
      else
        let rest := build r.files names
        { rest with
          output := r.output ++ rest.output
          warnings := r.warnings ++ rest.warnings }

end Assembler

end RegisterMachine
