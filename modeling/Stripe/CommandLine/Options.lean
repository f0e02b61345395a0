import Stripe.Address
import Stripe.CommandLine.Size
import Stripe.Config

/-!
# Options of the two programs

One program serves a file over many connections, the other receives it.
Options are taken from left to right, and a later one replaces what an
earlier one has set. An option whose value is missing and a word that is
no option are passed over.
-/

namespace Stripe.CommandLine

/-- Which of the two programs runs. -/
inductive Role where
  /-- Sends. -/
  | server
  /-- Receives. -/
  | client
deriving DecidableEq

structure Options where
  /-- Where the server listens. -/
  address : Address
  /-- The file that is sent, or that receives. -/
  path : Option String
  connections : Nat
  config : Config
deriving DecidableEq

def Options.initial : Role → Options
  | .server => ⟨⟨.v4 0 0 0 0, 9000⟩, none, 4, .standard⟩
  | .client => ⟨⟨.v4 127 0 0 1, 9000⟩, none, 4, .standard⟩

/-- An option that a value follows. -/
inductive Setting where
  | address
  | path
  | connections
  | segmentLen
  | payloadLen
deriving DecidableEq

/-- What a word on the command line says. -/
inductive Word where
  | setting (s : Setting)
  | preset (c : Config)
  | help
  | unknown
deriving DecidableEq

/-- The words of each program. -/
def Word.ofString (role : Role) (s : String) : Word :=
  match role, s with
  | .server, "--bind" | .server, "-b" => .setting .address
  | .server, "--file" | .server, "-f" => .setting .path
  | .server, "--segment-size" => .setting .segmentLen
  | .server, "--high-performance" => .preset .highPerformance
  | .client, "--server" | .client, "-s" => .setting .address
  | .client, "--output" | .client, "-o" => .setting .path
  | .client, "--max-payload" => .setting .payloadLen
  | _, "--connections" | _, "-n" => .setting .connections
  | _, "--low-spec" => .preset .lowSpec
  | _, "--help" | _, "-h" => .help
  | _, _ => .unknown

/-- Why a command line is not carried out. -/
inductive Refusal where
  /-- The help was asked for. -/
  | help
  | badSize (e : SizeError)
  | badAddress
deriving DecidableEq

def readSize (s : String) : Except Refusal Nat :=
  match size s with
  | .ok n => .ok n
  | .error e => .error (.badSize e)

/-- Sets an option to the value that a text stands for. -/
def Options.set (o : Options) (setting : Setting) (value : String) :
    Except Refusal Options :=
  match setting with
  | .address =>
    match Address.parse value with
    | some address => .ok { o with address }
    | none => .error .badAddress
  | .path => .ok { o with path := some value }
  | .connections => do
    let connections ← readSize value
    return { o with connections }
  | .segmentLen => do
    let maxSegmentLen ← readSize value
    return { o with config := { o.config with maxSegmentLen } }
  | .payloadLen => do
    let maxPayloadLen ← readSize value
    return { o with config := { o.config with maxPayloadLen } }

/-- The options that a command line adds to `o`. -/
def Options.read (role : Role) (o : Options) :
    List String → Except Refusal Options
  | [] => .ok o
  | word :: rest =>
    match Word.ofString role word, rest with
    | .setting setting, value :: rest =>
      match o.set setting value with
      | .ok o => o.read role rest
      | .error e => .error e
    | .preset config, rest => { o with config }.read role rest
    | .help, _ => .error .help
    | _, rest => o.read role rest

end Stripe.CommandLine
