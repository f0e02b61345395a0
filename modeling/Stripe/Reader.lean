import Stripe.Decoder
import Stripe.Reader.Intake

/-!
# The receiver

A reader has one worker for each connection. A worker decodes segments and
files them in the intake; the first failure stops all of them. A call to
the reader looks at what was filed, and waits if there is nothing for it.

The reader is a machine of small moves. One move of a worker is one read
call on its connection, together with the filing of the segment that the
call completes; a failure is recorded by a move of its own. One move of a
call is to look whether the reader was stopped and how many workers are
left, or to look at what was filed, or to wake up. `step` is any of these
moves, or something that a user or a peer does.
-/

namespace Stripe

namespace Reader

/-- What a worker is about to do. -/
inductive Phase where
  /-- To read on, with what it has of a segment. -/
  | reading (d : Decoder)
  /-- To record that its connection has failed. -/
  | failing (e : Error)
  /-- To let its connection go. -/
  | leaving
  /-- Nothing; its connection is gone. -/
  | gone
deriving DecidableEq

/-- A connection and its worker. -/
structure Lane where
  inlet : Inlet
  phase : Phase
deriving DecidableEq

/-- How much of the stream a call is for. -/
inductive Extent where
  /-- Some bytes, at most `max` of them. -/
  | upTo (max : Nat)
  /-- All bytes; `out` holds what was there before and what came, and
  `count` says how many came. -/
  | toEnd (out : Bytes) (count : Nat)
  /-- The message that is left, of which `out` came. -/
  | remainder (out : Bytes)
deriving DecidableEq

/-- What a call is for. -/
inductive Task where
  | stream (extent : Extent)
  /-- The whole message, collected by place. -/
  | collect
deriving DecidableEq

/-- What a call is about to do. -/
inductive Stage where
  /-- To look whether the reader was stopped, and who is left. -/
  | looking
  /-- To look at what was filed, after `live` workers were left. -/
  | taking (live : Nat)
  /-- To wake up. -/
  | waiting
deriving DecidableEq

structure Call where
  task : Task
  stage : Stage
deriving DecidableEq

/-- What a call comes to. -/
inductive Answer where
  /-- Some bytes; none at the end of the stream. -/
  | bytes (bytes : Bytes)
  /-- The stream has ended, after `count` bytes that were added to what is
  now `out`. -/
  | appended (count : Nat) (out : Bytes)
  | message (bytes : Bytes)
  | failed (e : Error)
  /-- The stream failed, after what is now `out`. -/
  | interrupted (e : Error) (out : Bytes)
deriving DecidableEq

end Reader

structure Reader where
  config : Config
  lanes : List Reader.Lane
  /-- How payloads are filed, once the workers have started. -/
  mode : Option Mode
  intake : Intake
  /-- The first failure. -/
  failure : Option Error
  cancelled : Bool
  /-- Something has changed since a call last woke up. -/
  wakeup : Bool
  /-- How many workers have not let go of their connection. -/
  live : Nat
  /-- How many bytes were returned. -/
  delivered : Nat
  /-- The call in flight. -/
  call : Option Reader.Call
  /-- What the last call came to. -/
  answer : Option Reader.Answer
deriving DecidableEq, Inhabited

namespace Reader

/-- A reader of `connections` connections on which nothing has arrived. -/
def make (connections : Nat) (config : Config) : Except Error Reader :=
  match config.validate with
  | .error e => .error e
  | .ok () =>
    if connections = 0 then .error .noConnections
    else .ok {
      config
      lanes := List.replicate connections ⟨.empty, .reading .start⟩
      mode := none
      intake := ⟨.fresh, .ofConnections connections⟩
      failure := none
      cancelled := false
      wakeup := false
      live := 0
      delivered := 0
      call := none
      answer := none }

def connections (r : Reader) : Nat := r.lanes.length

def transmission (r : Reader) : Transmission := r.intake.transmission

def stats (r : Reader) : Stats := r.intake.stats

/-- All connections have ended as announced. -/
def completed (r : Reader) : Bool := r.transmission.completed

/-- Connection `i` was not let go. -/
def isOpen (r : Reader) (i : Nat) : Bool :=
  match r.lanes[i]? with
  | some lane => lane.phase != .gone
  | none => false

/-- Records a failure, unless there is an earlier one, and stops the
reader. -/
def fail (e : Error) (r : Reader) : Reader :=
  { r with
    failure := some (r.failure.getD e)
    cancelled := true
    wakeup := true }

/-- Why a stopped reader was stopped. -/
def reason (r : Reader) : Error := r.failure.getD .cancelled

/-! ## Workers -/

def setLane (i : Nat) (lane : Lane) (r : Reader) : Reader :=
  { r with lanes := r.lanes.set i lane }

/-- A worker has completed a segment. -/
def file (i : Nat) (mode : Mode) (inlet : Inlet) (s : Segment) (r : Reader) :
    Reader :=
  match r.intake.accept r.connections i mode s with
  | (.error e, intake) => { r with intake }.setLane i ⟨inlet, .failing e⟩
  | (.ok true, intake) =>
    { r with intake, wakeup := true }.setLane i ⟨inlet, .reading .start⟩
  | (.ok false, intake) =>
    { r with intake, wakeup := true }.setLane i ⟨inlet, .leaving⟩

/-- A worker reads, unless the reader was stopped. -/
def readOn (i : Nat) (mode : Mode) (inlet : Inlet) (d : Decoder) (r : Reader) :
    Option Reader :=
  if r.cancelled then some (r.setLane i ⟨inlet, .leaving⟩)
  else match d.advance i r.config.maxPayloadLen inlet with
    | none => none
    | some (.more d, inlet) => some (r.setLane i ⟨inlet, .reading d⟩)
    | some (.failed e, inlet) => some (r.setLane i ⟨inlet, .failing e⟩)
    | some (.done s, inlet) => some (r.file i mode inlet s)

/-- A move of worker `i`, if it can make one. -/
def work (i : Nat) (r : Reader) : Option Reader :=
  match r.mode, r.lanes[i]? with
  | some mode, some ⟨inlet, phase⟩ =>
    match phase with
    | .reading d => r.readOn i mode inlet d
    | .failing e => some ((r.fail e).setLane i ⟨inlet, .leaving⟩)
    | .leaving =>
      some ({ r with live := r.live - 1, wakeup := true }.setLane i
        ⟨inlet, .gone⟩)
    | .gone => none
  | _, _ => none

/-- Starts the workers, unless they have started. -/
def start (mode : Mode) (r : Reader) : Reader :=
  match r.mode with
  | some _ => r
  | none =>
    let transmission := match mode with
      | .stream => r.transmission
      | .collect => .withCapacity r.config.initialBufferCapacity
    { r with
      mode := some mode
      live := r.connections
      intake := { r.intake with transmission } }

/-! ## Calls -/

/-- A call is over. -/
def conclude (a : Answer) (r : Reader) : Reader :=
  { r with call := none, answer := some a }

def setStage (task : Task) (stage : Stage) (r : Reader) : Reader :=
  { r with call := some ⟨task, stage⟩ }

/-- A call for the message uses the reader up. -/
def Task.usesUp : Task → Bool
  | .stream (.remainder _) | .collect => true
  | _ => false

/-- A call is over because the reader was stopped. -/
def giveUp (task : Task) (r : Reader) : Reader :=
  let answer := match task with
    | .stream (.toEnd out _) => .interrupted r.reason out
    | _ => .failed r.reason
  { r with cancelled := r.cancelled || task.usesUp }.conclude answer

/-- A call has found the end of the stream. -/
def concludeStream (extent : Extent) (r : Reader) : Reader :=
  match extent with
  | .upTo _ => r.conclude (.bytes [])
  | .toEnd out count => r.conclude (.appended count out)
  | .remainder out => { r with cancelled := true }.conclude (.message out)

/-- A call has found the next bytes of the stream. -/
def handOut (extent : Extent) (bytes : Bytes) (r : Reader) : Reader :=
  let r := { r with delivered := r.delivered + bytes.length }
  match extent with
  | .upTo _ => r.conclude (.bytes bytes)
  | .toEnd out count =>
    r.setStage (.stream (.toEnd (out ++ bytes) (count + bytes.length))) .looking
  | .remainder out => r.setStage (.stream (.remainder (out ++ bytes))) .looking

/-- The most bytes that a call takes at once. -/
def Extent.max : Extent → Nat
  | .upTo max => max
  | _ => maxCount

/-- A call looks for the next bytes of the stream. -/
def takeNext (extent : Extent) (live : Nat) (r : Reader) : Reader :=
  let (result, transmission) := r.transmission.nextDelivery extent.max
  let r := { r with intake := { r.intake with transmission } }
  match result with
  | .error e => (r.fail e).giveUp (.stream extent)
  | .ok (.ready bytes) => r.handOut extent bytes
  | .ok .finished => r.concludeStream extent
  | .ok .pending =>
    if live = 0 then
      (r.fail (.gap transmission.cursor transmission.queue.min?)).giveUp
        (.stream extent)
    else r.setStage (.stream extent) .waiting

/-- A call takes the collected message. -/
def takeMessage (r : Reader) : Reader :=
  let message := r.transmission.toMessage
  let r := { r with
    intake := { r.intake with transmission := .fresh }, cancelled := true }
  match message with
  | .error e => r.conclude (.failed e)
  | .ok m => { r with delivered := m.length }.conclude (.message m)

/-- A call looks whether the message is complete. -/
def takeCollected (live : Nat) (r : Reader) : Reader :=
  if r.completed then r.takeMessage
  else if live = 0 then
    (r.fail (.gap r.transmission.writtenLen none)).giveUp .collect
  else r.setStage .collect .waiting

/-- A move of the call in flight, if it can make one. -/
def advance (r : Reader) : Option Reader :=
  match r.call with
  | none => none
  | some ⟨task, .looking⟩ =>
    if r.cancelled then some (r.giveUp task)
    else some (r.setStage task (.taking r.live))
  | some ⟨.collect, .taking live⟩ => some (r.takeCollected live)
  | some ⟨.stream extent, .taking live⟩ => some (r.takeNext extent live)
  | some ⟨task, .waiting⟩ =>
    if r.wakeup then some ({ r with wakeup := false }.setStage task .looking)
    else if r.cancelled then some (r.setStage task .looking)
    else none

/-! ## Users -/

/-- Begins a call that reads at most `max` bytes. -/
def beginRead (max : Nat) (r : Reader) : Reader :=
  if max = 0 then r.conclude (.bytes [])
  else (r.start .stream).setStage (.stream (.upTo max)) .looking

/-- Begins a call that adds all bytes to `out`. -/
def beginReadToEnd (out : Bytes) (r : Reader) : Reader :=
  (r.start .stream).setStage (.stream (.toEnd out 0)) .looking

/-- Begins a call that uses the reader up for its message. -/
def beginMessage (r : Reader) : Reader :=
  match r.mode with
  | some .stream => r.setStage (.stream (.remainder [])) .looking
  | _ => (r.start .collect).setStage .collect .looking

/-- Stops the reader. -/
def cancel (r : Reader) : Reader := { r with cancelled := true, wakeup := true }

/-- Lets the reader go. Workers that have not started let go of their
connections at once. -/
def drop (r : Reader) : Reader :=
  let lanes := match r.mode with
    | none => r.lanes.map ({ · with phase := .gone })
    | some _ => r.lanes
  { r with lanes, cancelled := true, call := none }

/-- Lets go of the call in flight, and of the reader with it if the call
uses it up. -/
def abandon (r : Reader) : Reader :=
  match r.call with
  | none => r
  | some call => if call.task.usesUp then r.drop else { r with call := none }

/-- Something arrives on connection `i`. -/
def arrive (i : Nat) (f : Inlet → Inlet) (r : Reader) : Reader :=
  { r with lanes := r.lanes.modify i fun l => { l with inlet := f l.inlet } }

/-- What can happen to a reader. -/
inductive Event where
  | work (i : Nat)
  | advance
  | read (max : Nat)
  | readToEnd (out : Bytes)
  | message
  | abandon
  | cancel
  | drop
  | feed (i : Nat) (bytes : Bytes)
  | fault (i : Nat) (cause : IoError)
  | close (i : Nat)
deriving DecidableEq

/-- What happens to the reader, if it is possible. -/
def step (r : Reader) : Event → Option Reader
  | .work i => r.work i
  | .advance => r.advance
  | .read max => if r.call.isNone then some (r.beginRead max) else none
  | .readToEnd out =>
    if r.call.isNone then some (r.beginReadToEnd out) else none
  | .message => if r.call.isNone then some r.beginMessage else none
  | .abandon => if r.call.isSome then some r.abandon else none
  | .cancel => some r.cancel
  | .drop => some r.drop
  | .feed i bytes => some (r.arrive i (·.feed bytes))
  | .fault i cause => some (r.arrive i (·.fail cause))
  | .close i => some (r.arrive i (·.finish))

end Reader
end Stripe
