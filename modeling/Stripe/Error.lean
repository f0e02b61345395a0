/-!
# Failures of a transfer

`Error` lists the causes for which a transfer, or a call on it, fails.
Each cause has a text (`Error.message`) and belongs to one of five kinds
(`Error.kind`). `IoError` is what a connection or a source reports; the
conversions in both directions are `Error.transport`, `Error.source` and
`Error.toIo`.
-/

namespace Stripe

/-- The largest count that a size or an offset may have. -/
def maxCount : Nat := UInt64.size - 1

/-- What went wrong on a connection. -/
inductive IoKind where
  | notFound
  | permissionDenied
  | connectionRefused
  | connectionReset
  | connectionAborted
  | notConnected
  | brokenPipe
  | wouldBlock
  | invalidData
  | timedOut
  | writeZero
  | interrupted
  | unexpectedEof
  | other
deriving DecidableEq, Inhabited

/-- The text of a failure that brings none of its own. -/
def IoKind.text : IoKind → String
  | .notFound => "entity not found"
  | .permissionDenied => "permission denied"
  | .connectionRefused => "connection refused"
  | .connectionReset => "connection reset"
  | .connectionAborted => "connection aborted"
  | .notConnected => "not connected"
  | .brokenPipe => "broken pipe"
  | .wouldBlock => "operation would block"
  | .invalidData => "invalid data"
  | .timedOut => "timed out"
  | .writeZero => "write zero"
  | .interrupted => "operation interrupted"
  | .unexpectedEof => "unexpected end of file"
  | .other => "other error"

/-- The word for a kind of failure. -/
def IoKind.name : IoKind → String
  | .notFound => "NotFound"
  | .permissionDenied => "PermissionDenied"
  | .connectionRefused => "ConnectionRefused"
  | .connectionReset => "ConnectionReset"
  | .connectionAborted => "ConnectionAborted"
  | .notConnected => "NotConnected"
  | .brokenPipe => "BrokenPipe"
  | .wouldBlock => "WouldBlock"
  | .invalidData => "InvalidData"
  | .timedOut => "TimedOut"
  | .writeZero => "WriteZero"
  | .interrupted => "Interrupted"
  | .unexpectedEof => "UnexpectedEof"
  | .other => "Other"

/-- All kinds of failure. -/
def IoKind.all : List IoKind :=
  [.notFound, .permissionDenied, .connectionRefused, .connectionReset,
   .connectionAborted, .notConnected, .brokenPipe, .wouldBlock, .invalidData,
   .timedOut, .writeZero, .interrupted, .unexpectedEof, .other]

/-- A failure reported by a connection or a source. -/
structure IoError where
  kind : IoKind
  message : String
deriving DecidableEq, Inhabited

/-- The failure of a kind, with the text of the kind. -/
def IoError.ofKind (kind : IoKind) : IoError := ⟨kind, kind.text⟩

/-- The five kinds of failure. -/
inductive ErrorKind where
  /-- The bytes of a connection are not a row of segments. -/
  | framing
  /-- The segments contradict each other. -/
  | protocol
  /-- A connection or the source failed. -/
  | transport
  | cancellation
  /-- The call was not admissible. -/
  | usage
deriving DecidableEq, Inhabited

/-- Why a transfer, or a call on it, failed. -/
inductive Error where
  /-- A connection ended inside a header. -/
  | framing (expected got : Nat)
  /-- A connection ended inside a payload. -/
  | truncatedPayload (expected got : Nat)
  | oversizedPayload (byteCount max : Nat)
  | duplicateOffset (offset : Nat)
  /-- Two control segments announced different numbers of connections. -/
  | conflictingEodCount (existing got : Nat)
  /-- The announced number is not the number of connections. -/
  | eodCountMismatch (announced connections : Nat)
  | invalidEodCount (count : Nat)
  | overlappingSegment (offset existing : Nat)
  | offsetBelowCursor (offset cursor : Nat)
  /-- Bytes are missing at the cursor; the next segment, if any, is later. -/
  | gap (cursor : Nat) (next : Option Nat)
  /-- A control segment announced a payload. -/
  | unexpectedPayload (byteCount : Nat)
  | transport (connection : Nat) (cause : IoError)
  | source (cause : IoError)
  | cancelled
  | noConnections
  | writerClosed
  | invalidConfig (text : String)
  | bufferOverflow (maxSize : Nat)
  /-- Every worker has left. -/
  | channelError
deriving DecidableEq, Inhabited

namespace Error

/-- The offset of the next segment, as it stands in the text of a gap. -/
def offsetText : Option Nat → String
  | none => "None"
  | some n => "Some(" ++ toString n ++ ")"

/-- The text of a failure. -/
def message : Error → String
  | framing expected got =>
    s!"프레이밍 에러: 헤더 {expected}바이트 필요, {got}바이트 수신 후 스트림 종료"
  | truncatedPayload expected got =>
    s!"페이로드 절단: {expected}바이트 필요, {got}바이트 수신 후 스트림 종료"
  | oversizedPayload byteCount max =>
    s!"페이로드 크기 초과: {byteCount}바이트 (최대 {max})"
  | duplicateOffset offset => s!"중복 오프셋: {offset}"
  | conflictingEodCount existing got =>
    s!"EOD 카운트 충돌: 기존 {existing}, 수신 {got}"
  | eodCountMismatch announced connections =>
    s!"EOD 카운트 불일치: 알림 {announced}, 연결 수 {connections}"
  | invalidEodCount count => s!"유효하지 않은 EOD 카운트: {count}"
  | overlappingSegment offset existing =>
    s!"세그먼트 범위 겹침: offset={offset}, 기존 세그먼트 offset={existing}"
  | offsetBelowCursor offset cursor =>
    s!"커서보다 작은 오프셋: offset={offset}, cursor={cursor}"
  | gap cursor next =>
    s!"오프셋 공백: cursor={cursor}, 다음 세그먼트={offsetText next}"
  | unexpectedPayload byteCount =>
    s!"제어 헤더에 페이로드 존재: byte_count={byteCount}"
  | transport connection cause =>
    s!"전송 에러 (연결 {connection}): {cause.message}"
  | source cause => s!"원본 읽기 에러: {cause.message}"
  | cancelled => "전송 취소"
  | noConnections => "연결 없음"
  | writerClosed => "이미 닫힌 writer"
  | invalidConfig text => s!"유효하지 않은 설정: {text}"
  | bufferOverflow maxSize => s!"버퍼 오버플로우: 최대 크기 {maxSize} 초과"
  | channelError => "채널 에러"

/-- The word for a cause. -/
def name : Error → String
  | framing .. => "Framing"
  | truncatedPayload .. => "TruncatedPayload"
  | oversizedPayload .. => "OversizedPayload"
  | duplicateOffset _ => "DuplicateOffset"
  | conflictingEodCount .. => "ConflictingEodCount"
  | eodCountMismatch .. => "EodCountMismatch"
  | invalidEodCount _ => "InvalidEodCount"
  | overlappingSegment .. => "OverlappingSegment"
  | offsetBelowCursor .. => "OffsetBelowCursor"
  | gap .. => "Gap"
  | unexpectedPayload _ => "UnexpectedPayload"
  | transport .. => "Transport"
  | source _ => "Source"
  | cancelled => "Cancelled"
  | noConnections => "NoConnections"
  | writerClosed => "WriterClosed"
  | invalidConfig _ => "InvalidConfig"
  | bufferOverflow _ => "BufferOverflow"
  | channelError => "ChannelError"

def kind : Error → ErrorKind
  | framing .. | truncatedPayload .. | oversizedPayload .. => .framing
  | duplicateOffset _ | conflictingEodCount .. | eodCountMismatch ..
  | invalidEodCount _ | overlappingSegment .. | offsetBelowCursor ..
  | gap .. | unexpectedPayload _ => .protocol
  | transport .. | source _ => .transport
  | cancelled => .cancellation
  | noConnections | writerClosed | invalidConfig _ | bufferOverflow _
  | channelError => .usage

def isFraming (e : Error) : Bool := e.kind == .framing

def isProtocol (e : Error) : Bool := e.kind == .protocol

/-- The kind under which a failure is reported to callers that know only
connection failures. -/
def ioKind : Error → IoKind
  | transport _ cause | source cause => cause.kind
  | cancelled => .interrupted
  | framing .. | truncatedPayload .. => .unexpectedEof
  | _ => .invalidData

/-- The same failure for callers that know only connection failures. -/
def toIo (e : Error) : IoError := ⟨e.ioKind, e.message⟩

end Error
end Stripe
