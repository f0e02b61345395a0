import Stripe.Barrier
import Stripe.Config
import Stripe.Handoff
import Stripe.Inlet
import Stripe.Outlet
import Stripe.Quoted
import Stripe.Stats

/-!
# The sender

A writer has one worker for each connection. A call to the writer cuts
bytes into segments and hands each of them to a worker that is idle; the
worker writes it to its connection. The first call also hands over the
control segment. The last call, `finish`, tells the workers to stop. Each
of them then writes a terminal segment, and when all have left, the
connections are shut down. The first failure stops all workers.

The writer is a machine of small moves. One move of a worker is one write
call on its connection, or one look at what it is to do next; one move of
a call is to cut a segment or to hand it over. `step` is any of these
moves, or something that a user or a peer does.
-/

namespace Stripe

namespace Writer

/-- What a worker is about to do. -/
inductive Phase where
  /-- Nothing; the workers have not started. -/
  | unstarted
  /-- To look whether a segment was handed to it. -/
  | idle
  /-- To look whether it is to stop. -/
  | asking
  /-- To write what is left of a segment; if `last`, it was told to stop
  before. -/
  | writing (s : Segment) (rest : Outgoing) (last : Bool)
  /-- To write what is left of its terminal segment. -/
  | ending (rest : Outgoing)
  | flushing
  /-- Nothing; it has left. -/
  | gone
  /-- Nothing; it was lost. -/
  | lost (message : String)
deriving DecidableEq

/-- A connection and its worker. -/
structure Lane where
  outlet : Outlet
  phase : Phase
deriving DecidableEq

/-- How far a writer has come. -/
inductive Stage where
  /-- The workers have not started. -/
  | fresh
  | running
  /-- `finish` has begun. -/
  | closed
deriving DecidableEq

/-- What is left to do of a call. -/
inductive Job where
  /-- To send one segment of these bytes. -/
  | write (bytes : Bytes)
  /-- To return, now that one segment of `count` bytes was sent. -/
  | wrote (count : Nat)
  /-- To send these bytes. -/
  | writeAll (rest : Bytes)
  /-- To send what a source yields, after `count` bytes that it has
  yielded; `ended` once it yields no more. If `last`, the writer finishes
  after that. -/
  | copy (source : List Inlet.Item) (count : Nat) (ended last : Bool)
  /-- To finish, and to report `copied` if nothing else fails. -/
  | finish (copied : Option Error)
deriving DecidableEq

/-- What a call is about to do. -/
inductive Call where
  /-- To start the workers, if they have not started. -/
  | opening (job : Job)
  /-- To hand a segment over. -/
  | offering (s : Segment) (job : Job)
  /-- To go on with its job. -/
  | working (job : Job)
  /-- To wait until all workers have left; `started` is what has failed
  before they were told to stop. -/
  | stopping (started copied : Option Error)
  /-- To shut the connections from `next` on down, after `acknowledged`
  workers have left in order. -/
  | shutting (next acknowledged : Nat) (started copied : Option Error)
deriving DecidableEq

/-- What a call comes to. -/
inductive Answer where
  /-- So many bytes were sent. -/
  | wrote (count : Nat)
  | done
  /-- The source has yielded so many bytes. -/
  | copied (count : Nat)
  | finished (stats : Stats)
  | failed (e : Error)
deriving DecidableEq

end Writer

structure Writer where
  config : Config
  lanes : List Writer.Lane
  stage : Writer.Stage
  handoff : Handoff
  barrier : Barrier
  /-- How many bytes were handed over. -/
  cursor : Nat
  /-- The first failure. -/
  failure : Option Error
  cancelled : Bool
  stats : Stats
  /-- The call in flight. -/
  call : Option Writer.Call
  /-- What the last call came to. -/
  answer : Option Writer.Answer
deriving DecidableEq

namespace Writer

/-- A writer to these connections. -/
def make (outlets : List Outlet) (config : Config) : Except Error Writer :=
  match config.validate with
  | .error e => .error e
  | .ok () =>
    if outlets.isEmpty then .error .noConnections
    else .ok {
      config
      lanes := outlets.map (⟨·, .unstarted⟩)
      stage := .fresh
      handoff := .make outlets.length outlets.length
      barrier := .make outlets.length
      cursor := 0
      failure := none
      cancelled := false
      stats := .ofConnections outlets.length
      call := none
      answer := none }

def connections (w : Writer) : Nat := w.lanes.length

/-- What the workers are about to do. -/
def phases (w : Writer) : List Phase := w.lanes.map (·.phase)

/-- The bytes on the wire of connection `i`. -/
def wire (w : Writer) (i : Nat) : Bytes :=
  match w.lanes[i]? with
  | some lane => lane.outlet.wire
  | none => []

/-- Records a failure, unless there is an earlier one, and stops the
writer. -/
def fail (e : Error) (w : Writer) : Writer :=
  { w with failure := some (w.failure.getD e), cancelled := true }

/-- Why a stopped writer was stopped. -/
def reason (w : Writer) : Error := w.failure.getD .cancelled

/-! ## Workers -/

def setLane (i : Nat) (lane : Lane) (w : Writer) : Writer :=
  { w with lanes := w.lanes.set i lane }

/-- A worker leaves, and acknowledges that. -/
def leave (i : Nat) (outlet : Outlet) (w : Writer) : Writer :=
  { w with
    handoff := w.handoff.leave i
    barrier := w.barrier.done i }.setLane i ⟨outlet, .gone⟩

/-- A worker is lost, and cannot acknowledge that. -/
def lose (i : Nat) (outlet : Outlet) (message : String) (w : Writer) : Writer :=
  { w with
    handoff := w.handoff.leave i
    barrier := w.barrier.giveBack i }.setLane i ⟨outlet, .lost message⟩

/-- A worker records that its connection has failed, and leaves. -/
def failLane (i : Nat) (outlet : Outlet) (cause : IoError) (w : Writer) :
    Writer :=
  (w.fail (.transport i cause)).leave i outlet

/-- A worker begins its terminal segment. -/
def beginEnd (i : Nat) (outlet : Outlet) (w : Writer) : Writer :=
  w.setLane i ⟨outlet, .ending (.ofSegment (.terminal (.ofNat w.cursor)))⟩

/-- A worker begins a segment. -/
def beginSegment (i : Nat) (outlet : Outlet) (s : Segment) (last : Bool)
    (w : Writer) : Writer :=
  w.setLane i ⟨outlet, .writing s (.ofSegment s) last⟩

/-- A segment was written completely. -/
def record (i : Nat) (s : Segment) (w : Writer) : Writer :=
  { w with stats :=
      if s.isControl then w.stats.recordControl i
      else w.stats.recordSegment i s.length }

/-- The worker will never be handed a segment, or it has a reason to look
whether it is to stop. -/
def disturbed (i : Nat) (w : Writer) : Bool :=
  w.cancelled || (w.barrier.shouldStop i).1 != .pending

/-- An idle worker looks whether a segment was handed to it, and posts a
slot if it has none. -/
def lookForSegment (i : Nat) (outlet : Outlet) (w : Writer) : Option Writer :=
  let (received, handoff) := w.handoff.recv i
  match received with
  | .segment s => some ({ w with handoff }.beginSegment i outlet s false)
  | .pending =>
    if w.handoff.slot i != handoff.slot i then some { w with handoff }
    else if w.disturbed i then some (w.setLane i ⟨outlet, .asking⟩)
    else none
  | _ => some ({ w with handoff }.leave i outlet)

/-- A worker that was told to stop takes what may still be in its slot. -/
def obey (i : Nat) (outlet : Outlet) (w : Writer) : Writer :=
  let (pending, handoff) := w.handoff.takePending i
  let w := { w with handoff }
  match pending with
  | some s => w.beginSegment i outlet s true
  | none => w.beginEnd i outlet

/-- A worker looks whether it is to stop. -/
def lookForStop (i : Nat) (outlet : Outlet) (w : Writer) : Writer :=
  let (verdict, barrier) := w.barrier.shouldStop i
  let w := { w with barrier }
  match verdict with
  | .stop true => w.obey i outlet
  | .stop false => w.leave i outlet
  | _ =>
    if w.cancelled then w.leave i outlet else w.setLane i ⟨outlet, .idle⟩

/-- A worker writes on at a segment, unless the writer was stopped. -/
def writeOn (i : Nat) (outlet : Outlet) (s : Segment) (rest : Outgoing)
    (last : Bool) (w : Writer) : Option Writer :=
  if w.cancelled then some (w.leave i outlet)
  else match rest.write outlet with
    | none => none
    | some (.more rest, outlet) =>
      some (w.setLane i ⟨outlet, .writing s rest last⟩)
    | some (.done, outlet) =>
      let w := w.record i s
      some (if last then w.beginEnd i outlet else w.setLane i ⟨outlet, .idle⟩)
    | some (.failed cause, outlet) => some (w.failLane i outlet cause)
    | some (.panicked message, outlet) => some (w.lose i outlet message)

/-- A worker writes on at its terminal segment, unless the writer was
stopped. -/
def writeEnd (i : Nat) (outlet : Outlet) (rest : Outgoing) (w : Writer) :
    Option Writer :=
  if w.cancelled then some (w.leave i outlet)
  else match rest.write outlet with
    | none => none
    | some (.more rest, outlet) => some (w.setLane i ⟨outlet, .ending rest⟩)
    | some (.done, outlet) => some (w.setLane i ⟨outlet, .flushing⟩)
    | some (.failed cause, outlet) => some (w.failLane i outlet cause)
    | some (.panicked message, outlet) => some (w.lose i outlet message)

/-- A worker flushes its connection and leaves. -/
def flush (i : Nat) (outlet : Outlet) (w : Writer) : Writer :=
  match outlet.flush with
  | (none, outlet) =>
    { w with stats := w.stats.recordTerminal i }.leave i outlet
  | (some cause, outlet) => w.failLane i outlet cause

/-- A move of worker `i`, if it can make one. -/
def work (i : Nat) (w : Writer) : Option Writer :=
  match w.lanes[i]? with
  | none => none
  | some ⟨outlet, phase⟩ =>
    match phase with
    | .idle => w.lookForSegment i outlet
    | .asking => some (w.lookForStop i outlet)
    | .writing s rest last => w.writeOn i outlet s rest last
    | .ending rest => w.writeEnd i outlet rest
    | .flushing => some (w.flush i outlet)
    | .unstarted | .gone | .lost _ => none

/-! ## Calls -/

/-- A call is over. -/
def conclude (a : Answer) (w : Writer) : Writer :=
  { w with call := none, answer := some a }

def setCall (call : Call) (w : Writer) : Writer := { w with call := some call }

/-- Starts the workers. -/
def start (w : Writer) : Writer :=
  { w with
    stage := .running
    lanes := w.lanes.map ({ · with phase := .idle }) }

/-- Something that a call needs has failed. A call that was to finish the
writer goes on to do so. -/
def reject (e : Error) (job : Job) (w : Writer) : Writer :=
  match job with
  | .copy _ _ _ true => (w.fail e).setCall (.opening (.finish (some e)))
  | .finish copied =>
    if w.stage = .running then
      { w with stage := .closed, barrier := w.barrier.start }.setCall
        (.stopping (some e) copied)
    else w.conclude (.failed .writerClosed)
  | _ => w.conclude (.failed e)

/-- A call starts the workers, if they have not started, with the control
segment as the first one to hand over. -/
def openWith (job : Job) (w : Writer) : Writer :=
  match w.stage with
  | .fresh =>
    w.start.setCall (.offering (.control (.ofNat w.connections)) job)
  | .running => w.setCall (.working job)
  | .closed => w.reject .writerClosed job

/-- A call hands a segment over, if a worker is idle. -/
def handOver (s : Segment) (job : Job) (w : Writer) : Option Writer :=
  if w.cancelled then some (w.reject w.reason job)
  else
    let (sent, handoff) := w.handoff.send s
    let w := { w with handoff }
    match sent with
    | .sent _ =>
      some ({ w with cursor := w.cursor + s.length }.setCall (.working job))
    | .pending => none
    | _ => some (w.reject (w.failure.getD .channelError) job)

/-- The data segment that carries `bytes` next. -/
def nextSegment (bytes : Bytes) (w : Writer) : Segment :=
  .data bytes (.ofNat w.cursor) .none

/-- What a source yields until it has yielded `max` bytes: the bytes, what
is left of the source, and the failure that came first. -/
def fill (max : Nat) : List Inlet.Item → Bytes × List Inlet.Item × Option IoError
  | [] => ([], [], none)
  | .fault cause :: rest =>
    if max = 0 then ([], .fault cause :: rest, none) else ([], rest, some cause)
  | .chunk bytes :: rest =>
    if bytes.length < max then
      let (more, rest, failed) := fill (max - bytes.length) rest
      (bytes ++ more, rest, failed)
    else (bytes.take max, .chunk (bytes.drop max) :: rest, none)

/-- A call cuts the next segment from its source. If the source fails, what
it has yielded for this segment is lost. -/
def cut (source : List Inlet.Item) (count : Nat) (last : Bool) (w : Writer) :
    Writer :=
  let (bytes, source, failed) := fill w.config.maxSegmentLen source
  match failed with
  | some cause => w.reject (.source cause) (.copy source count false last)
  | none =>
    let job := .copy source (count + bytes.length)
      (bytes.length < w.config.maxSegmentLen) last
    if bytes.isEmpty then w.setCall (.working job)
    else w.setCall (.offering (w.nextSegment bytes) job)

/-- A call goes on with its job. -/
def proceed (job : Job) (w : Writer) : Writer :=
  match job with
  | .write bytes =>
    let chunk := bytes.take w.config.maxSegmentLen
    if chunk.isEmpty then w.conclude (.wrote 0)
    else w.setCall (.offering (w.nextSegment chunk) (.wrote chunk.length))
  | .wrote count => w.conclude (.wrote count)
  | .writeAll rest =>
    let chunk := rest.take w.config.maxSegmentLen
    if chunk.isEmpty then w.conclude .done
    else
      w.setCall (.offering (w.nextSegment chunk)
        (.writeAll (rest.drop w.config.maxSegmentLen)))
  | .copy source count false last => w.cut source count last
  | .copy _ count true false => w.conclude (.copied count)
  | .copy _ _ true true => w.setCall (.opening (.finish none))
  | .finish copied =>
    { w with stage := .closed, barrier := w.barrier.start }.setCall
      (.stopping none copied)

/-- How a lost worker is reported. -/
def lossText (message : String) : String :=
  "워커 비정상 종료: task # panicked with message " ++ Quoted.quote message

/-- Shuts a connection down once its worker has left. A failure of that is
recorded unless the writer was stopped before; that a worker was lost is
always a failure. -/
def shutLane (w : Writer) (i : Nat) : Writer :=
  match w.lanes[i]? with
  | none => w
  | some ⟨_, .lost message⟩ =>
    w.fail (.transport i ⟨.other, lossText message⟩)
  | some ⟨outlet, phase⟩ =>
    let (failed, outlet) := outlet.shutdown
    let w := w.setLane i ⟨outlet, phase⟩
    match failed with
    | some cause => if w.cancelled then w else w.fail (.transport i cause)
    | none => w

/-- What finishing comes to, after `acknowledged` workers have left in
order. -/
def outcome (acknowledged : Nat) (started copied : Option Error) (w : Writer) :
    Answer :=
  if w.cancelled then .failed w.reason
  else match started with
    | some e => .failed e
    | none =>
      if acknowledged < w.connections then .failed .channelError
      else match copied with
        | some e => .failed e
        | none => .finished w.stats

/-- A call tells the workers to leave, and waits until they have. -/
def awaitWorkers (started copied : Option Error) (w : Writer) : Option Writer :=
  if w.barrier.owner = .begun then
    some { w with barrier := w.barrier.announce }
  else match w.barrier.count with
    | none => none
    | some (none, barrier) => some { w with barrier }
    | some (some acknowledged, barrier) =>
      some ({ w with barrier, handoff := w.handoff.close }.setCall
        (.shutting 0 acknowledged started copied))

/-- A call shuts the next connection down, or is over if that was done for
all of them. -/
def shutNext (next acknowledged : Nat) (started copied : Option Error)
    (w : Writer) : Writer :=
  if next < w.connections then
    (w.shutLane next).setCall
      (.shutting (next + 1) acknowledged started copied)
  else w.conclude (w.outcome acknowledged started copied)

/-- A move of the call in flight, if it can make one. -/
def advance (w : Writer) : Option Writer :=
  match w.call with
  | none => none
  | some (.opening job) => some (w.openWith job)
  | some (.offering s job) => w.handOver s job
  | some (.working job) => some (w.proceed job)
  | some (.stopping started copied) => w.awaitWorkers started copied
  | some (.shutting next acknowledged started copied) =>
    some (w.shutNext next acknowledged started copied)

/-- The next move of the call needs a worker: it is to take a segment, has
left or has acknowledged that it leaves. -/
def meets (w : Writer) : Bool :=
  match w.call with
  | some (.offering _ _) => !w.cancelled
  | some (.stopping _ _) => w.barrier.owner != .begun
  | some (.shutting next ..) => next < w.connections
  | _ => false

/-! ## Users -/

/-- Begins a call, if none is in flight. -/
def launch (job : Job) (w : Writer) : Option Writer :=
  if w.call.isSome then none else some (w.setCall (.opening job))

/-- Stops the writer. -/
def cancel (w : Writer) : Writer := { w with cancelled := true }

/-- The feeder goes; no worker will be handed a segment or told to stop. -/
def release (w : Writer) : Writer :=
  { w with handoff := w.handoff.close, barrier := w.barrier.release.2 }

/-- Lets go of the call in flight. The segment that it offers is lost; a
call that has told the workers to stop takes the feeder with it. -/
def abandon (w : Writer) : Writer :=
  match w.call with
  | some (.stopping ..) | some (.shutting ..) =>
    { w.release with call := none }
  | _ => { w with call := none }

/-- Lets the writer go, and the call in flight with it. A writer that was
not finished is stopped. -/
def drop (w : Writer) : Writer :=
  match w.stage with
  | .fresh => { w with stage := .closed, call := none }
  | .running =>
    { w.release with stage := .closed, cancelled := true, call := none }
  | .closed => { w.abandon with call := none }

/-- Connection `i` takes `n` bytes more, or any number of them. -/
def grantRoom (i : Nat) (n : Option Nat) (w : Writer) : Writer :=
  { w with lanes := w.lanes.modify i fun l =>
      { l with outlet := l.outlet.grantRoom n } }

/-- What can happen to a writer. -/
inductive Event where
  | work (i : Nat)
  | advance
  | write (bytes : Bytes)
  | writeAll (bytes : Bytes)
  | copyFrom (source : List Inlet.Item)
  | sendFrom (source : List Inlet.Item)
  | finish
  | abandon
  | cancel
  | drop
  | room (i : Nat) (n : Option Nat)
deriving DecidableEq

/-- What happens to the writer, if it is possible. -/
def step (w : Writer) : Event → Option Writer
  | .work i => w.work i
  | .advance => w.advance
  | .write bytes => w.launch (.write bytes)
  | .writeAll bytes => w.launch (.writeAll bytes)
  | .copyFrom source => w.launch (.copy source 0 false false)
  | .sendFrom source => w.launch (.copy source 0 false true)
  | .finish => w.launch (.finish none)
  | .abandon => if w.call.isSome then some w.abandon else none
  | .cancel => some w.cancel
  | .drop => some w.drop
  | .room i n => some (w.grantRoom i n)

end Writer
end Stripe
