import Stripe.CommandLine.Help
import Stripe.CommandLine.Options
import Stripe.CommandLine.Term
import Stripe.Reader
import Stripe.Writer

/-!
# How the two programs start

A program reads its options, checks the settings, and writes down what it
is about to do. Then it opens its connections. `startUp` says what it
prints and how it ends, if it ends before it has a connection; what it
finds on its machine is given as a `Machine`.
-/

namespace Stripe.CommandLine

/-- What a program prints, and how it ends. Without an exit code it goes on,
or has run out of memory. -/
structure Startup where
  output : List String
  errors : List String
  exitCode : Option Nat
deriving DecidableEq

/-- The length of the data that is sent if no file is named. -/
def sampleLength : Nat := 1024 * 1024

/-- An argument was refused: the program breaks off. -/
def refused (expectation term : String) : Startup :=
  ⟨[], [expectation ++ ": " ++ term], some 101⟩

/-- The word for what makes a text no size. -/
def SizeError.name : SizeError → String
  | .empty => "Empty"
  | .invalidDigit => "InvalidDigit"
  | .overflow => "PosOverflow"

/-- What a program does that does not carry out its command line. -/
def Refusal.startup (role : Role) : Refusal → Startup
  | .help => ⟨helpText role, [], some 0⟩
  | .badSize e =>
    refused "유효한 숫자 필요" (term "ParseIntError" [("kind", e.name)])
  | .badAddress => refused "유효한 주소 필요" "AddrParseError(Socket)"

/-- A line of the log. -/
def info (text : String) : String := "INFO: " ++ text

/-- A program that has logged `log` ends with a failure. -/
def failed (log : List String) (failure : String) : Startup :=
  ⟨log.map info, ["Error: " ++ failure], some 1⟩

/-- A failure that the system reports: its number, its kind and its
text. -/
structure SystemFailure where
  code : Nat
  kind : String
  text : String
deriving DecidableEq

def SystemFailure.term (f : SystemFailure) : String :=
  CommandLine.term "Os" [("code", toString f.code), ("kind", f.kind),
    ("message", Quoted.quote f.text)]

/-- The most memory that can be asked for at once, in bytes. -/
def requestLimit : Nat := UInt64.size / 2 - 1

/-- What a program finds on the machine where it starts. -/
structure Machine where
  /-- How long the file is that a path leads to. -/
  lengthOf : String → Except SystemFailure Nat
  /-- Whether a program can listen at an address. -/
  listen : Address → Except SystemFailure Unit
  /-- Whether somebody listens at an address. -/
  connect : Address → Except SystemFailure Unit
  /-- How much memory is set aside for each connection, in bytes. -/
  connectionSize : Nat
  /-- The most memory that a program can have, in bytes. -/
  memoryLimit : Nat

/-- A program that has logged `log` sets memory aside for its connections,
opens each of them as `opening` says, and uses them as `use` says. -/
def openConnections (m : Machine) (connections : Nat) (log : List String)
    (opening : Except SystemFailure Unit) (use : Except Error Unit) :
    Startup :=
  let size := m.connectionSize * connections
  if requestLimit < size then
    ⟨log.map info, ["capacity overflow"], some 101⟩
  else if m.memoryLimit < size then
    ⟨log.map info, [s!"memory allocation of {size} bytes failed"], none⟩
  else if 0 < connections then
    match opening with
    | .error e => failed log e.term
    | .ok () => ⟨log.map info, [], none⟩
  else
    match use with
    | .error e => failed log (errorTerm e)
    | .ok () => ⟨log.map info, [], none⟩

/-- What a server logs of its options. -/
def serverLog (o : Options) : List String :=
  ["xblock Server starting...",
   "Bind address: " ++ o.address.text,
   s!"Connections: {o.connections}",
   s!"Segment size: {o.config.maxSegmentLen} bytes"]

/-- What a server logs once it has the data that it will send. -/
def loadedLog (o : Options) (source : String) (length : Nat) : List String :=
  serverLog o ++
  [source,
   s!"Expected segments: {o.config.segmentsFor length} data + 1 control + {o.connections} terminal"]

/-- What a server logs once it listens. -/
def listeningLog (o : Options) (source : String) (length : Nat) : List String :=
  loadedLog o source length ++
  ["Server listening on " ++ o.address.text,
   s!"Waiting for {o.connections} connections..."]

/-- A server that has its data listens, and takes its connections. -/
def serve (m : Machine) (o : Options) (source : String) (length : Nat) :
    Startup :=
  match m.listen o.address with
  | .error e => failed (loadedLog o source length) e.term
  | .ok () =>
    openConnections m o.connections (listeningLog o source length) (.ok ())
      ((Writer.make [] o.config).map fun _ => ())

/-- Starts a server. -/
def startServer (m : Machine) (o : Options) : Startup :=
  match o.path with
  | none => serve m o "Using test data (1MB)" sampleLength
  | some path =>
    match m.lengthOf path with
    | .error e => failed (serverLog o) e.term
    | .ok length =>
      serve m o
        ("Loading file: " ++ Quoted.quote path ++ s!" ({length} bytes)")
        length

/-- Starts a client. -/
def startClient (m : Machine) (o : Options) : Startup :=
  openConnections m o.connections
    ["xblock Client starting...",
     "Server address: " ++ o.address.text,
     s!"Connections: {o.connections}"]
    (m.connect o.address) ((Reader.make 0 o.config).map fun _ => ())

/-- Starts a program with the words of its command line. -/
def startUp (m : Machine) (role : Role) (words : List String) : Startup :=
  match (Options.initial role).read role words with
  | .error refusal => refusal.startup role
  | .ok o =>
    match o.config.validate with
    | .error e => failed [] (errorTerm e)
    | .ok () =>
      match role with
      | .server => startServer m o
      | .client => startClient m o

end Stripe.CommandLine
