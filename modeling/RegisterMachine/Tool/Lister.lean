import RegisterMachine.Files
import RegisterMachine.Listing

/-!
# The lister as a tool

The lister prints listings of code files, one after the other. Its one option shows the address of
each line.

## Main definitions

* `Lister.Options`, `Lister.options` — what the arguments ask for.
* `Lister.Failure`, `Lister.Failure.message` — why it gives up.
* `Lister.list` — what it prints.
-/

namespace RegisterMachine

namespace Lister

/-- What the arguments ask for. -/
structure Options where
  /-- Whether each line shows its address. -/
  addresses : Bool
  /-- The code files. -/
  names : List Bytes
  deriving DecidableEq, Repr

/-- The name of the one option. -/
def optionName : Bytes := ascii "show-address"

/-- The name behind the mark of an option, if an argument is one. A single minus sign is none. -/
def optionText? (arg : Bytes) : Option Bytes :=
  if (ascii "--").isPrefixOf arg then some (arg.drop 2)
  else if arg == ascii "-" then none
  else if arg.head? == some (byte '-') || arg.head? == some (byte '+') then some (arg.drop 1)
  else none

/-- Whether a text names the option: any beginning of its name does, in letters of either case. -/
def namesOption (t : Bytes) : Bool := !t.isEmpty && (t.map lowerCase).isPrefixOf optionName

/-- Reads the arguments. Options and files may stand in any order; a double minus sign ends the
options. There is no result if an option is not known. -/
def options : List Bytes → Option Options
  | [] => some { addresses := false, names := [] }
  | arg :: args =>
    if arg == ascii "--" then some { addresses := false, names := args }
    else
      match optionText? arg, options args with
      | _, none => none
      | some t, some o => if namesOption t then some { o with addresses := true } else none
      | none, some o => some { o with names := arg :: o.names }

/-- A code file cannot be read. -/
structure Failure where
  /-- The file. -/
  name : Bytes
  /-- Why. -/
  problem : Files.Problem
  deriving DecidableEq, Repr

/-- The wording of a failure. -/
def Failure.message (f : Failure) : Bytes :=
  ascii "Failed to open " ++ f.name ++ ascii " - " ++ f.problem.message

/-- Lists code files one after the other, up to the first that cannot be read. -/
def listAll (fs : Files) (addresses : Bool) : List Bytes → Bytes × Option Failure
  | [] => ([], none)
  | name :: names =>
    match fs.read name with
    | .error problem => ([], some { name, problem })
    | .ok code =>
      let (rest, failure) := listAll fs addresses names
      (Listing.render addresses code ++ rest, failure)

/-- The lister: it prints nothing if an option is not known. -/
def list (fs : Files) (args : List Bytes) : Bytes × Option Failure :=
  match options args with
  | none => ([], none)
  | some o => listAll fs o.addresses o.names

end Lister

end RegisterMachine
