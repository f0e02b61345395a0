import Stripe.CommandLine.Startup

/-!
# The program

The first word of the command line names the side, the others are its
options. All that a side prints before it has a connection is decided by
`CommandLine.startUp`; this module looks up files, prints and exits.
-/

namespace Stripe

open CommandLine

/-- What the system says of a path that leads to no file. -/
def noFile : IO.Error → SystemFailure
  | .noFileOrDirectory _ code text => ⟨code.toNat, "NotFound", text⟩
  | .inappropriateType _ code text => ⟨code.toNat, "NotADirectory", text⟩
  | .invalidArgument _ code text => ⟨code.toNat, "InvalidFilename", text⟩
  | e => ⟨0, "Uncategorized", toString e⟩

/-- The length of the file that a path leads to. -/
def fileLength (path : String) : IO (Except SystemFailure Nat) := do
  if path.isEmpty then
    return .error ⟨2, "NotFound", "No such file or directory"⟩
  let found ← ((← IO.currentDir) / path).metadata.toBaseIO
  return match found with
    | .ok file => .ok file.byteSize.toNat
    | .error e => .error (noFile e)

/-- The length of the file that a command line names; of no file, if it
names none. -/
def namedLength (role : Role) (words : List String) :
    IO (Except SystemFailure Nat) := do
  match (Options.initial role).read role words with
  | .ok { path := some path, .. } => fileLength path
  | _ => return .ok 0

/-- A machine without a network: no connection comes up, and no memory is
set aside for any. -/
def machine (length : Except SystemFailure Nat) : Machine where
  lengthOf _ := length
  listen _ := .ok ()
  connect _ := .ok ()
  connectionSize := 0
  memoryLimit := 0

def roleOf : String → Option Role
  | "server" => some .server
  | "client" => some .client
  | _ => none

/-- Starts one side. There are no network connections here, so a side that
needs one stops after its log. -/
def runRole (role : Role) (words : List String) : IO UInt32 := do
  let length ← namedLength role words
  let s := startUp (machine length) role words
  s.output.forM IO.println
  s.errors.forM IO.eprintln
  match s.exitCode with
  | some code => return .ofNat code
  | none =>
    IO.eprintln "Error: no network connections"
    return 1

end Stripe

def main (args : List String) : IO UInt32 := do
  match args with
  | [] => IO.eprintln "server or client?"; return 2
  | role :: words =>
    match Stripe.roleOf role with
    | some role => Stripe.runRole role words
    | none => IO.eprintln "server or client?"; return 2
