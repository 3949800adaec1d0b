/-
# The fragment slot

A producer thread does not write its records one by one.  It batches frames in its slot and writes
the batch to the fragment file in one go, and because a killed process loses its batch the file
carries markers: `read-tail-pending` when the first captured dependency enters an empty batch,
`read-tail-committed` when the batch has reached the file.

The slot is modelled with its file.  What the model cannot decide is an input of the operation:
whether the handle is still the fragment's, whether a file can be opened, whether the batch is
stale, and how many bytes of a batch reached the file.  Marker writes succeed.
-/
import IoMon.Merge.Fragments

namespace IoMon

open ByteText ByteCodec MonitorRecordKind MonitorObservationKind

/-! ## 1. Records and markers -/

def FragmentBatchBufLen : Nat := 64 * 1024

def SigSafeCommittedBufLen : Nat := 256

def FragmentCapReachedDetail : NimStr := str "fragment-byte-cap-reached "

def LocalFdCreateDetailPrefix : NimStr := str "chan=localfd role=create"

def kindCarriesCapturedDependency : MonitorRecordKind → Bool
  | mrProcessStart | mrProcessExec | mrProcessSpawn | mrBackendProfile | mrCapabilityGap
  | mrEventLoss => false
  | _ => true

def recordSuppressesOnlyADowngrade (r : MonitorRecord) : Bool :=
  r.kind == mrExternalContent && startsWith r.detail LocalFdCreateDetailPrefix

/-- The records the sentinel guards. -/
def sentinelGuards (r : MonitorRecord) : Bool :=
  kindCarriesCapturedDependency r.kind && !recordSuppressesOnlyADowngrade r

/-- The loss marker of a fragment that reached its byte cap. -/
def isCapMarker (r : MonitorRecord) : Bool :=
  r.kind == mrEventLoss && startsWith r.detail FragmentCapReachedDetail

/-- A text the environment or a fixed buffer holds, so far shorter than a frame can be. -/
abbrev ShortText : Type := { s : NimStr // s.length < 2 ^ 20 }

/-- What does not change while the slot lives: its key, the run token and the byte cap. -/
structure SlotConfig where
  osPid : UInt64
  threadId : UInt64
  runToken : ShortText
  byteCap : Nat

def SlotConfig.key (cfg : SlotConfig) : ThreadKey := (cfg.osPid, cfg.threadId)

/-- The marker record, with the run token and the diagnostic context behind its detail. -/
def slotMarker (cfg : SlotConfig) (detail : NimStr) (ctx : ShortText) : MonitorRecord :=
  { kind := mrEventLoss, observationKind := moEventLoss, osPid := cfg.osPid
    threadId := cfg.threadId, detail := detail ++ cfg.runToken.1 ++ ctx.1 }

def noContext : ShortText := ⟨[], by decide⟩

/-- `precomputeSigSafeCommittedFrame`: nothing when the frame does not fit the buffer. -/
def sigSafeCommittedFrame (cfg : SlotConfig) : List UInt8 :=
  let frame := encodeFrame (slotMarker cfg ReadTailCommittedDetail noContext)
  if SigSafeCommittedBufLen < frame.length then [] else frame

/-! ## 2. The slot -/

/-- The slot and its file.  `holdsKey` says that the key fields hold the slot's key, and `accepted`
is every record an append has returned from. -/
structure FragmentSlot where
  isOpen : Bool := false
  holdsKey : Bool := false
  batch : List UInt8 := []
  readingSentinelActive : Bool := false
  committedFrame : List UInt8 := []
  fragmentBytes : Nat := 0
  overCap : Bool := false
  file : List UInt8 := []
  accepted : List MonitorRecord := []
  deriving DecidableEq, Repr

/-- What became of a write: how many bytes reached the file, and whether it raised instead of
returning their number. -/
structure WriteOutcome where
  reached : Nat
  raised : Bool := false
  deriving DecidableEq, Repr

/-- All of it reached the file, and the caller was told so. -/
def WriteOutcome.whole (w : WriteOutcome) (len : Nat) : Bool :=
  !w.raised && decide (len ≤ w.reached)

/-- What an operation meets outside the slot. -/
structure SlotIo where
  /-- the handle is current, or could be reopened -/
  handleOk : Bool := true
  openOk : Bool := true
  /-- the clock says that the batch is too old -/
  stale : Bool := false
  write : WriteOutcome
  /-- the write of a frame larger than the batch -/
  direct : WriteOutcome := ⟨0, false⟩
  ctx : ShortText := noContext

inductive SlotRaise
  | envelope (e : EnvelopeError)
  | ioError
  deriving DecidableEq, Repr

def handleLost : SlotRaise :=
  .envelope ⟨.eeMalformed, str "cannot recover externally replaced iomon fragment handle"⟩

def cannotOpen (path : NimStr) : SlotRaise :=
  .envelope ⟨.eeMalformed, str "cannot open iomon fragment for append: " ++ path⟩

def shortWrite (cfg : SlotConfig) : SlotRaise :=
  .envelope ⟨.eeMalformed, str "short write to iomon fragment for osPid=" ++ decimal cfg.osPid ++
    str " threadId=" ++ decimal cfg.threadId⟩

section Operations

variable (cfg : SlotConfig)

/-- `writeReadTailMarker`, to the file and past the batch. -/
def writeReadTailMarker (detail : NimStr) (ctx : ShortText) (s : FragmentSlot) : FragmentSlot :=
  if s.isOpen then { s with file := s.file ++ encodeFrame (slotMarker cfg detail ctx) } else s

def markReadingSentinel (r : MonitorRecord) (ctx : ShortText) (s : FragmentSlot) : FragmentSlot :=
  if !kindCarriesCapturedDependency r.kind then s
  else if recordSuppressesOnlyADowngrade r then s
  else if s.readingSentinelActive || !s.isOpen then s
  else { writeReadTailMarker cfg ReadTailPendingDetail ctx s with readingSentinelActive := true }

def clearReadingSentinel (ctx : ShortText) (s : FragmentSlot) : FragmentSlot :=
  if !s.readingSentinelActive then s
  else { writeReadTailMarker cfg ReadTailCommittedDetail ctx s with readingSentinelActive := false }

/-- `accountFragmentBytes`: at the cap the fragment is retired. -/
def accountFragmentBytes (written : Nat) (ctx : ShortText) (s : FragmentSlot) : FragmentSlot :=
  if s.overCap || !s.isOpen then s
  else
    let s := { s with fragmentBytes := s.fragmentBytes + written }
    if s.fragmentBytes < cfg.byteCap then s
    else
      let s := { writeReadTailMarker cfg FragmentCapReachedDetail ctx s with overCap := true }
      let s := clearReadingSentinel cfg ctx s
      { s with isOpen := false, batch := [], readingSentinelActive := false }

/-- `flushFragmentBatch`.  A short write drops the batch and a raising one keeps it; neither
touches the sentinel. -/
def flushFragmentBatch (io : SlotIo) (s : FragmentSlot) : FragmentSlot × Option SlotRaise :=
  if !s.isOpen || s.batch.isEmpty then (s, none)
  else if !io.handleOk then ({ s with isOpen := false }, some handleLost)
  else
    let bufLen := s.batch.length
    let s := { s with file := s.file ++ s.batch.take io.write.reached }
    if io.write.raised then (s, some .ioError)
    else if io.write.reached < bufLen then ({ s with batch := [] }, some (shortWrite cfg))
    else
      let s := clearReadingSentinel cfg io.ctx { s with batch := [] }
      (accountFragmentBytes cfg bufLen io.ctx s, none)

/-- `closeFragmentSlot`: whatever the flush raised is dropped, and the sentinel is cleared. -/
def closeFragmentSlot (retainIdentity : Bool) (io : SlotIo) (s : FragmentSlot) : FragmentSlot :=
  if !s.isOpen then s
  else if !io.handleOk then { s with isOpen := false }
  else
    let s := clearReadingSentinel cfg io.ctx (flushFragmentBatch cfg io s).1
    { s with
      isOpen := false
      holdsKey := retainIdentity && s.holdsKey
      batch := []
      readingSentinelActive := false
      fragmentBytes := if retainIdentity then s.fragmentBytes else 0
      overCap := retainIdentity && s.overCap }

/-- `flushAllRegisteredSlots` on another thread reaching this slot. -/
def sweepSlot (w : WriteOutcome) (s : FragmentSlot) : FragmentSlot :=
  if !s.isOpen || s.batch.isEmpty then s
  else
    let bufLen := s.batch.length
    let s := { s with file := s.file ++ s.batch.take w.reached, batch := [] }
    if w.whole bufLen && s.readingSentinelActive && !s.committedFrame.isEmpty then
      { s with file := s.file ++ s.committedFrame, readingSentinelActive := false }
    else s

def sigSafeMarkSlotClosed (s : FragmentSlot) : FragmentSlot :=
  { s with isOpen := false, batch := [], readingSentinelActive := false, committedFrame := [] }

/-- `repro_linux_sig_safe_flush`: the batch as far as it goes, then the committed frame. -/
def sigSafeFlush (identityMatches : Bool) (w : WriteOutcome) (s : FragmentSlot) : FragmentSlot :=
  if !s.isOpen then s
  else if !identityMatches then sigSafeMarkSlotClosed s
  else
    sigSafeMarkSlotClosed
      { s with file := s.file ++ s.batch.take w.reached ++ s.committedFrame }

/-- `openFragmentSlot`, for the slot's own key. -/
def openFragmentSlot (s : FragmentSlot) : FragmentSlot :=
  { s with
    isOpen := true
    holdsKey := true
    batch := []
    readingSentinelActive := false
    committedFrame := sigSafeCommittedFrame cfg
    fragmentBytes := if s.holdsKey then s.fragmentBytes else 0
    overCap := s.holdsKey && s.overCap }

/-- The frame goes into the batch. -/
def pushFrame (r : MonitorRecord) (ctx : ShortText) (s : FragmentSlot) : FragmentSlot :=
  markReadingSentinel cfg r ctx
    { s with batch := s.batch ++ encodeFrame r, accepted := s.accepted ++ [r] }

/-- A frame larger than the batch buffer goes to the file directly.  When the flush before it
retired the fragment there is no open file left to write to. -/
def writeGiantFrame (io : SlotIo) (r : MonitorRecord) (s : FragmentSlot) :
    FragmentSlot × Option SlotRaise :=
  if !s.isOpen then (s, some .ioError)
  else
    let frame := encodeFrame r
    let s := { s with file := s.file ++ frame.take io.direct.reached }
    if io.direct.raised then (s, some .ioError)
    else if io.direct.reached < frame.length then (s, some (shortWrite cfg))
    else
      (accountFragmentBytes cfg frame.length io.ctx { s with accepted := s.accepted ++ [r] }, none)

/-- The part of `appendFragmentRecord` behind the open file. -/
def appendToOpen (io : SlotIo) (r : MonitorRecord) (s : FragmentSlot) :
    FragmentSlot × Option SlotRaise :=
  let frameLen := (encodeFrame r).length
  if FragmentBatchBufLen < frameLen then
    match flushFragmentBatch cfg { io with handleOk := true } s with
    | (s, some e) => (s, some e)
    | (s, none) => writeGiantFrame cfg io r s
  else if FragmentBatchBufLen < s.batch.length + frameLen || (!s.batch.isEmpty && io.stale) then
    match flushFragmentBatch cfg { io with handleOk := true } s with
    | (s, some e) => (s, some e)
    | (s, none) => (pushFrame cfg r io.ctx s, none)
  else (pushFrame cfg r io.ctx s, none)

/-- `fragmentPath`, below the fragment directory. -/
def fragmentName : NimStr :=
  str "repro-monitor-" ++ decimal cfg.osPid ++ str "-" ++ decimal cfg.threadId ++
    str ".iomon-frag"

/-- `appendFragmentRecord` with a record of the slot's own key: dropped once the fragment is over
its cap, else written to the open fragment. -/
def appendFragmentRecord (io : SlotIo) (r : MonitorRecord) (s : FragmentSlot) :
    FragmentSlot × Option SlotRaise :=
  if s.overCap && s.holdsKey then ({ s with accepted := s.accepted ++ [r] }, none)
  else if s.isOpen then
    if !io.handleOk then ({ s with isOpen := false }, some handleLost)
    else appendToOpen cfg io r s
  else if !io.openOk then (s, some (cannotOpen (fragmentName cfg)))
  else appendToOpen cfg io r (openFragmentSlot cfg s)

end Operations

/-! ## 3. Runs -/

inductive SlotOp
  | append (io : SlotIo) (r : MonitorRecord)
  | flush (io : SlotIo)
  | close (retainIdentity : Bool) (io : SlotIo)
  | sweep (w : WriteOutcome)
  | sigSafe (identityMatches : Bool) (w : WriteOutcome)

def FragmentSlot.step (cfg : SlotConfig) (s : FragmentSlot) : SlotOp → FragmentSlot
  | .append io r => (appendFragmentRecord cfg io r s).1
  | .flush io => (flushFragmentBatch cfg io s).1
  | .close retainIdentity io => closeFragmentSlot cfg retainIdentity io s
  | .sweep w => sweepSlot w s
  | .sigSafe identityMatches w => sigSafeFlush identityMatches w s

def FragmentSlot.run (cfg : SlotConfig) (s : FragmentSlot) (ops : List SlotOp) : FragmentSlot :=
  ops.foldl (FragmentSlot.step cfg) s

/-- What the merge reads from the file. -/
def FragmentSlot.records (s : FragmentSlot) : List MonitorRecord := (decodeFramesTolerant s.file).1

/-- The file decodes to its end. -/
def FragmentSlot.clean (s : FragmentSlot) : Bool := (decodeFramesTolerant s.file).2

/-- **A kill here is honest**: every guarded record an append returned from is in the file, or the
file shows that something may be missing. -/
def KillHonest (cfg : SlotConfig) (s : FragmentSlot) : Prop :=
  ∀ r ∈ s.accepted, kindCarriesCapturedDependency r.kind = true →
    recordSuppressesOnlyADowngrade r = false →
    r ∈ s.records ∨ committedCount s.records cfg.key < pendingCount s.records cfg.key ∨
      s.clean = false ∨ ∃ m ∈ s.records, isCapMarker m = true

end IoMon
