/-!
# What a transfer has carried

Each side counts the segments and payload bytes of every connection, the
control segments, and the connections that were ended. Counts of a
connection that does not exist enter the totals only.
-/

namespace Stripe

/-- What one connection has carried. -/
structure ConnectionStats where
  id : Nat
  /-- Data segments. -/
  segments : Nat
  /-- Payload bytes. -/
  bytes : Nat
  control : Nat
  /-- The terminal segment has passed. -/
  terminated : Bool
  /-- Something has passed. -/
  active : Bool
deriving DecidableEq, Inhabited

/-- What all connections have carried. -/
structure Stats where
  totalBytes : Nat
  totalSegments : Nat
  connections : List ConnectionStats
deriving DecidableEq

namespace ConnectionStats

def fresh (id : Nat) : ConnectionStats where
  id := id
  segments := 0
  bytes := 0
  control := 0
  terminated := false
  active := false

def recordSegment (size : Nat) (c : ConnectionStats) : ConnectionStats :=
  { c with segments := c.segments + 1, bytes := c.bytes + size, active := true }

def recordControl (c : ConnectionStats) : ConnectionStats :=
  { c with control := c.control + 1, active := true }

def recordTerminal (c : ConnectionStats) : ConnectionStats :=
  { c with terminated := true, active := true }

/-- The measured rate. It takes two segments to measure one; until then
the rate is zero, and from then on it depends on the clock. -/
def restingRate? (c : ConnectionStats) : Option Float :=
  if c.segments < 2 then some 0.0 else none

end ConnectionStats

namespace Stats

def ofConnections (count : Nat) : Stats where
  totalBytes := 0
  totalSegments := 0
  connections := (List.range count).map ConnectionStats.fresh

instance : Inhabited Stats := ⟨ofConnections 1⟩

def recordSegment (connection size : Nat) (s : Stats) : Stats where
  totalBytes := s.totalBytes + size
  totalSegments := s.totalSegments + 1
  connections := s.connections.modify connection (·.recordSegment size)

def recordControl (connection : Nat) (s : Stats) : Stats :=
  { s with connections := s.connections.modify connection (·.recordControl) }

def recordTerminal (connection : Nat) (s : Stats) : Stats :=
  { s with connections := s.connections.modify connection (·.recordTerminal) }

/-- The number of control segments. -/
def control (s : Stats) : Nat :=
  s.connections.foldr (fun c n => c.control + n) 0

/-- The number of connections that were ended. -/
def terminated (s : Stats) : Nat := s.connections.countP (·.terminated)

/-- A count as a binary fraction, rounded to nearest. -/
def toFloat (n : Nat) : Float := (UInt64.ofNat n).toFloat

/-- The share of each connection in the payload bytes. Before the first
byte all shares are equal. -/
def ratios (s : Stats) : List Float :=
  if s.totalBytes = 0 then
    s.connections.map fun _ => 1.0 / toFloat s.connections.length
  else s.connections.map fun c => toFloat c.bytes / toFloat s.totalBytes

/-- The counts as text, one piece for each. -/
def summary (s : Stats) : List String :=
  let perConnection := s.connections.map fun c => s!"#{c.id}:{c.segments}"
  [s!"Segments: {s.totalSegments}",
   s!"Bytes: {s.totalBytes}",
   s!"Connections: {s.terminated}/{s.connections.length} terminated",
   "Per-conn: [" ++ String.intercalate " " perConnection ++ "]"]

@[simp] theorem length_connections_recordSegment (c n : Nat) (s : Stats) :
    (s.recordSegment c n).connections.length = s.connections.length := by
  simp [recordSegment]

@[simp] theorem length_connections_recordControl (c : Nat) (s : Stats) :
    (s.recordControl c).connections.length = s.connections.length := by
  simp [recordControl]

@[simp] theorem length_connections_recordTerminal (c : Nat) (s : Stats) :
    (s.recordTerminal c).connections.length = s.connections.length := by
  simp [recordTerminal]

end Stats
end Stripe
