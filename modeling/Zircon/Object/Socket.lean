import Mathlib
import Zircon.Object.MBuf

/-!
# Socket dispatchers

A socket (`object/socket_dispatcher.cc`) is a pair of endpoints.  Each is a
`SocketDispatcher` whose `MBufChain` `data_` holds the bytes its peer wrote to
it, and whose signals report the state of that chain and of the peer's:
`UpdateStateLocked(clear, set)` turns the signals into
`(signals & ~clear) | set`, and the calls build their masks bit by bit.

* `Write` on an endpoint goes into its peer's chain (`WriteSelfLocked` on the
  peer), which then asserts `READABLE` and `READ_THRESHOLD` on the reader and
  deasserts `WRITE_THRESHOLD` and `WRITABLE` on the writer;
* `Read` takes from the endpoint's own chain, deasserts `READ_THRESHOLD` and
  `READABLE` on the reader and asserts `WRITE_THRESHOLD` and `WRITABLE` on the
  writer; a peek changes nothing;
* `SetDisposition` disables or enables writes on either side;
* `SetReadThreshold` and `SetWriteThreshold` set a threshold and the signal
  that reports it;
* when the last handle of an endpoint goes (`on_zero_handles`), its peer loses
  `peer()` and sees `PEER_CLOSED`.

The two endpoints share the lock of their `PeerHolder`, so each call runs
alone, and `SocketPair` holds both endpoints, the flags they were made with (of
which only `ZX_SOCKET_DATAGRAM` is read) and which of them still has handles.
Sides are `Bool`s: `p.ep s` is one endpoint and `p.ep !s` its peer.
-/

namespace Zircon.Object

/-- The `ZX_SOCKET_*` signals that the socket calls read or write. -/
inductive SocketSignal where
  | readable
  | writable
  | peerClosed
  | peerWriteDisabled
  | writeDisabled
  | readThreshold
  | writeThreshold
  deriving DecidableEq, Repr

/-- `SocketDispatcher::Disposition::Value`. -/
inductive Disposition where
  | none
  | writeDisabled
  | writeEnabled
  deriving DecidableEq, Repr

/-- `SocketDispatcher::ReadType`. -/
inductive ReadType where
  | consume
  | peek
  deriving DecidableEq, Repr

/-- The mask holding the one signal `x` when `c` holds, the `mask |= x` under an
`if`. -/
def maskIf (c : Bool) (x : SocketSignal) : Finset SocketSignal := if c then {x} else ∅

@[simp] theorem mem_maskIf {c : Bool} {x y : SocketSignal} : y ∈ maskIf c x ↔ c = true ∧ y = x := by
  cases c <;> simp [maskIf]

/-- One endpoint: `data_`, `read_threshold_`, `write_threshold_`,
`read_disabled_`, and the signals of its `Dispatcher`. -/
structure SocketDispatcher (α : Type*) where
  data : MBufChain α
  readThreshold : ℕ
  writeThreshold : ℕ
  readDisabled : Bool
  signals : Finset SocketSignal

/-- The four masks of `SetDisposition`: `clear_mask`, `set_mask`,
`clear_mask_peer` and `set_mask_peer`. -/
structure SignalMasks where
  clearMask : Finset SocketSignal
  setMask : Finset SocketSignal
  clearMaskPeer : Finset SocketSignal
  setMaskPeer : Finset SocketSignal

/-- The masks with the endpoint's and the peer's exchanged, as `SetDisposition`
passes them for the peer's disposition. -/
def SignalMasks.swap (m : SignalMasks) : SignalMasks :=
  ⟨m.clearMaskPeer, m.setMaskPeer, m.clearMask, m.setMask⟩

/-- `ExtendMasksFromDisposition`. -/
def extendMasksFromDisposition : Disposition → SignalMasks → SignalMasks
  | .writeDisabled, m =>
    { m with clearMask := m.clearMask ∪ {.writable}, setMask := m.setMask ∪ {.writeDisabled},
             setMaskPeer := m.setMaskPeer ∪ {.peerWriteDisabled} }
  | .writeEnabled, m =>
    { m with clearMask := m.clearMask ∪ {.writeDisabled}, setMask := m.setMask ∪ {.writable},
             clearMaskPeer := m.clearMaskPeer ∪ {.peerWriteDisabled} }
  | .none, m => m

section Masks

variable {d : Disposition} {m : SignalMasks} {x : SocketSignal}

@[simp] theorem swap_clearMask : m.swap.clearMask = m.clearMaskPeer := rfl
@[simp] theorem swap_setMask : m.swap.setMask = m.setMaskPeer := rfl
@[simp] theorem swap_clearMaskPeer : m.swap.clearMaskPeer = m.clearMask := rfl
@[simp] theorem swap_setMaskPeer : m.swap.setMaskPeer = m.setMask := rfl

@[simp] theorem mem_extendMasks_clearMask : x ∈ (extendMasksFromDisposition d m).clearMask ↔
    x ∈ m.clearMask ∨ d = .writeDisabled ∧ x = .writable ∨ d = .writeEnabled ∧ x = .writeDisabled := by
  cases d <;> simp [extendMasksFromDisposition, or_comm]

@[simp] theorem mem_extendMasks_setMask : x ∈ (extendMasksFromDisposition d m).setMask ↔
    x ∈ m.setMask ∨ d = .writeDisabled ∧ x = .writeDisabled ∨ d = .writeEnabled ∧ x = .writable := by
  cases d <;> simp [extendMasksFromDisposition, or_comm]

@[simp] theorem mem_extendMasks_clearMaskPeer : x ∈ (extendMasksFromDisposition d m).clearMaskPeer ↔
    x ∈ m.clearMaskPeer ∨ d = .writeEnabled ∧ x = .peerWriteDisabled := by
  cases d <;> simp [extendMasksFromDisposition, or_comm]

@[simp] theorem mem_extendMasks_setMaskPeer : x ∈ (extendMasksFromDisposition d m).setMaskPeer ↔
    x ∈ m.setMaskPeer ∨ d = .writeDisabled ∧ x = .peerWriteDisabled := by
  cases d <;> simp [extendMasksFromDisposition, or_comm]

end Masks

namespace SocketDispatcher

variable {α : Type*}

/-- `Dispatcher::UpdateStateLocked(clear_mask, set_mask)`, without the
observers it wakes. -/
def updateStateLocked (e : SocketDispatcher α) (clearMask setMask : Finset SocketSignal) :
    SocketDispatcher α :=
  { e with signals := e.signals \ clearMask ∪ setMask }

/-- `SocketDispatcher::UpdateReadStatus(disposition_peer)`. -/
def updateReadStatus (e : SocketDispatcher α) : Disposition → SocketDispatcher α
  | .writeDisabled => { e with readDisabled := true }
  | .writeEnabled => { e with readDisabled := false }
  | .none => e

/-- `SocketDispatcher::IsDispositionStateValid(disposition_peer)`: the peer's
writes are not re-enabled while bytes it wrote before disabling them are left. -/
def isDispositionStateValid (e : SocketDispatcher α) (dispositionPeer : Disposition) : Bool :=
  !decide (dispositionPeer = .writeEnabled ∧ e.data.isEmpty = false ∧
    SocketSignal.peerWriteDisabled ∈ e.signals)

/-- `SocketDispatcher::OnPeerZeroHandlesLocked`. -/
def onPeerZeroHandlesLocked (e : SocketDispatcher α) : SocketDispatcher α :=
  e.updateStateLocked {.writable} {.peerClosed}

@[simp] theorem updateStateLocked_data (e : SocketDispatcher α) (c t : Finset SocketSignal) :
    (e.updateStateLocked c t).data = e.data := rfl

@[simp] theorem updateStateLocked_readThreshold (e : SocketDispatcher α) (c t : Finset SocketSignal) :
    (e.updateStateLocked c t).readThreshold = e.readThreshold := rfl

@[simp] theorem updateStateLocked_writeThreshold (e : SocketDispatcher α) (c t : Finset SocketSignal) :
    (e.updateStateLocked c t).writeThreshold = e.writeThreshold := rfl

@[simp] theorem updateStateLocked_readDisabled (e : SocketDispatcher α) (c t : Finset SocketSignal) :
    (e.updateStateLocked c t).readDisabled = e.readDisabled := rfl

@[simp] theorem mem_updateStateLocked_signals {e : SocketDispatcher α} {c t : Finset SocketSignal}
    {x : SocketSignal} : x ∈ (e.updateStateLocked c t).signals ↔ x ∈ t ∨ x ∈ e.signals ∧ x ∉ c := by
  simp [updateStateLocked, or_comm]

@[simp] theorem updateReadStatus_data (e : SocketDispatcher α) (d : Disposition) :
    (e.updateReadStatus d).data = e.data := by
  cases d <;> rfl

@[simp] theorem updateReadStatus_readThreshold (e : SocketDispatcher α) (d : Disposition) :
    (e.updateReadStatus d).readThreshold = e.readThreshold := by
  cases d <;> rfl

@[simp] theorem updateReadStatus_writeThreshold (e : SocketDispatcher α) (d : Disposition) :
    (e.updateReadStatus d).writeThreshold = e.writeThreshold := by
  cases d <;> rfl

@[simp] theorem updateReadStatus_signals (e : SocketDispatcher α) (d : Disposition) :
    (e.updateReadStatus d).signals = e.signals := by
  cases d <;> rfl

@[simp] theorem updateReadStatus_readDisabled (e : SocketDispatcher α) (d : Disposition) :
    (e.updateReadStatus d).readDisabled = true ↔
      d = .writeDisabled ∨ d = .none ∧ e.readDisabled = true := by
  cases d <;> simp [updateReadStatus]

end SocketDispatcher

/-- A socket: its two endpoints, whether it was made with `ZX_SOCKET_DATAGRAM`,
and which endpoints still have handles. -/
structure SocketPair (α : Type*) where
  datagram : Bool
  ep : Bool → SocketDispatcher α
  hasHandles : Bool → Bool

namespace SocketPair

variable {α : Type*}

/-- The pair `SocketDispatcher::Create(flags, ...)` makes: two empty endpoints
asserting `ZX_SOCKET_WRITABLE`, with no threshold and reads enabled. -/
def create (datagram : Bool) : SocketPair α where
  datagram := datagram
  ep _ := ⟨.empty, 0, 0, false, {.writable}⟩
  hasHandles _ := true

/-- `peer() != nullptr` in a call on the endpoint `s`: the peer has handles. -/
def peerOpen (p : SocketPair α) (s : Bool) : Bool := p.hasHandles !s

/-- The pair with the endpoint `s` replaced. -/
def setEp (p : SocketPair α) (s : Bool) (e : SocketDispatcher α) : SocketPair α :=
  { p with ep := Function.update p.ep s e }

/-- `SocketDispatcher::WriteSelfLocked` on the endpoint `s`, whose peer writes:
the status, the bytes added to the chain (`*written` when the status is
`ZX_OK`), and the pair. -/
def writeSelfLocked (p : SocketPair α) (s : Bool) (src : ℕ → α) (len : ℕ) (copyFrom : ℕ → ZxStatus)
    (allocOk : Bool) : ZxStatus × ℕ × SocketPair α :=
  let self := p.ep s
  if self.data.isFull then (.errShouldWait, 0, p)
  else
    let wasEmpty := self.data.isEmpty
    let (status, st, data) :=
      if p.datagram then self.data.writeDatagram src len copyFrom allocOk
      else self.data.writeStream src len copyFrom allocOk
    -- whatever the status, bytes may have been added; `UpdateStateLocked(0, 0)`
    -- changes nothing, so the `if (set)` and `if (clear)` only spare calls
    let setMask := maskIf (0 < st && wasEmpty) .readable ∪
      maskIf (0 < st && 0 < self.readThreshold && self.readThreshold ≤ data.size) .readThreshold
    let q := p.setEp s ({ self with data := data }.updateStateLocked ∅ setMask)
    let peer := q.ep !s
    let clearMask :=
      maskIf (q.peerOpen s && 0 < st && 0 < peer.writeThreshold &&
        kSizeMax - data.size < peer.writeThreshold) .writeThreshold ∪
      maskIf (q.peerOpen s && data.isFull) .writable
    (status, st, q.setEp (!s) (peer.updateStateLocked clearMask ∅))

/-- `SocketDispatcher::Write` on the endpoint `s`: the status, the bytes added
to the peer's chain, and the pair.  A length is a `size_t` that must fit in 32
bits. -/
def write (p : SocketPair α) (s : Bool) (src : ℕ → α) (len : ℕ) (copyFrom : ℕ → ZxStatus)
    (allocOk : Bool) : ZxStatus × ℕ × SocketPair α :=
  if p.peerOpen s = false then (.errPeerClosed, 0, p)
  else if SocketSignal.writeDisabled ∈ (p.ep s).signals then (.errBadState, 0, p)
  else if len = 0 then (.ok, 0, p)
  else if len % 2 ^ 32 ≠ len then (.errInvalidArgs, 0, p)
  else p.writeSelfLocked (!s) src len copyFrom allocOk

/-- `SocketDispatcher::Read(type, dst, len, nread)` on the endpoint `s`: the
status, the bytes copied to `dst` (`*nread` of them when the status is
`ZX_OK`), and the pair. -/
def read (p : SocketPair α) (s : Bool) (type : ReadType) (len : ℕ) (copyTo : ℕ → ZxStatus) :
    ZxStatus × List α × SocketPair α :=
  let self := p.ep s
  if len % 2 ^ 32 ≠ len then (.errInvalidArgs, [], p)
  else if self.data.isEmpty then
    if p.peerOpen s = false then (.errPeerClosed, [], p)
    else if self.readDisabled then (.errBadState, [], p)
    else (.errShouldWait, [], p)
  else
    match type with
    | .peek =>
      let (status, out) := self.data.peek len p.datagram copyTo
      (status, out, p)
    | .consume =>
      let wasFull := self.data.isFull
      let (status, out, data) := self.data.read len p.datagram copyTo
      -- whatever the status, bytes may have been taken
      let clearMask := maskIf (0 < self.readThreshold && data.size < self.readThreshold) .readThreshold ∪
        maskIf data.isEmpty .readable
      let q := p.setEp s ({ self with data := data }.updateStateLocked clearMask ∅)
      let q :=
        if q.peerOpen s then
          let peer := q.ep !s
          let setMask :=
            maskIf (0 < peer.writeThreshold && peer.writeThreshold ≤ kSizeMax - data.size) .writeThreshold ∪
            maskIf (wasFull && 0 < out.length) .writable
          q.setEp (!s) (peer.updateStateLocked ∅ setMask)
        else q
      (status, out, q)

/-- `SocketDispatcher::SetDisposition(disposition, disposition_peer)` on the
endpoint `s`. -/
def setDisposition (p : SocketPair α) (s : Bool) (disposition dispositionPeer : Disposition) :
    ZxStatus × SocketPair α :=
  if disposition = .none ∧ dispositionPeer = .none then (.ok, p)
  else
    let m := extendMasksFromDisposition disposition ⟨∅, ∅, ∅, ∅⟩
    if (p.ep s).isDispositionStateValid dispositionPeer = false then (.errBadState, p)
    else if p.peerOpen s then
      if (p.ep !s).isDispositionStateValid disposition = false then (.errBadState, p)
      else
        let m := (extendMasksFromDisposition dispositionPeer m.swap).swap
        let q := p.setEp (!s)
          (((p.ep !s).updateReadStatus disposition).updateStateLocked m.clearMaskPeer m.setMaskPeer)
        (.ok, q.setEp s (((p.ep s).updateReadStatus dispositionPeer).updateStateLocked m.clearMask m.setMask))
    else
      (.ok, p.setEp s (((p.ep s).updateReadStatus dispositionPeer).updateStateLocked m.clearMask m.setMask))

/-- `SocketDispatcher::SetReadThreshold(value)` on the endpoint `s`. -/
def setReadThreshold (p : SocketPair α) (s : Bool) (value : ℕ) : ZxStatus × SocketPair α :=
  if kSizeMax < value then (.errInvalidArgs, p)
  else
    let self := { p.ep s with readThreshold := value }
    -- a threshold of zero disables it
    let self :=
      if value = 0 then self.updateStateLocked {.readThreshold} ∅
      else if value ≤ self.data.size then self.updateStateLocked ∅ {.readThreshold}
      else self.updateStateLocked {.readThreshold} ∅
    (.ok, p.setEp s self)

/-- `SocketDispatcher::SetWriteThreshold(value)` on the endpoint `s`. -/
def setWriteThreshold (p : SocketPair α) (s : Bool) (value : ℕ) : ZxStatus × SocketPair α :=
  if p.peerOpen s = false then (.errPeerClosed, p)
  else if kSizeMax < value then (.errInvalidArgs, p)
  else
    let self := { p.ep s with writeThreshold := value }
    let peer := p.ep !s
    let self :=
      if value = 0 then self.updateStateLocked {.writeThreshold} ∅
      else if value ≤ kSizeMax - peer.data.size then self.updateStateLocked ∅ {.writeThreshold}
      else self.updateStateLocked {.writeThreshold} ∅
    (.ok, p.setEp s self)

/-- `PeeredDispatcher::on_zero_handles` on the endpoint `s`: the peer's `peer_`
is reset, and the peer, when there is one, runs `OnPeerZeroHandlesLocked`. -/
def onZeroHandles (p : SocketPair α) (s : Bool) : SocketPair α :=
  let q := { p with hasHandles := Function.update p.hasHandles s false }
  if p.peerOpen s then q.setEp (!s) (p.ep !s).onPeerZeroHandlesLocked else q

/-- `zx_info_socket_t` without its `options`. -/
structure SocketInfo where
  rxBufMax : ℕ
  rxBufSize : ℕ
  rxBufAvailable : ℕ
  txBufMax : ℕ
  txBufSize : ℕ
  deriving DecidableEq, Repr

/-- `SocketDispatcher::GetInfo` on the endpoint `s`. -/
def getInfo (p : SocketPair α) (s : Bool) : SocketInfo :=
  let self := p.ep s
  let info : SocketInfo := ⟨kSizeMax, self.data.size, self.data.sizeWith p.datagram, 0, 0⟩
  if p.peerOpen s then { info with txBufMax := kSizeMax, txBufSize := (p.ep !s).data.size } else info

/-! ### Runs -/

/-- A call on one endpoint of a socket, with the statuses of its user copies
and, for a write, whether its page allocation succeeds; `close` drops the last
handle. -/
inductive SocketOp (α : Type*) where
  | write (src : ℕ → α) (len : ℕ) (copyFrom : ℕ → ZxStatus) (allocOk : Bool)
  | read (type : ReadType) (len : ℕ) (copyTo : ℕ → ZxStatus)
  | setDisposition (disposition dispositionPeer : Disposition)
  | setReadThreshold (value : ℕ)
  | setWriteThreshold (value : ℕ)
  | close

/-- A call and the endpoint it is made on. -/
structure SocketCall (α : Type*) where
  side : Bool
  op : SocketOp α

/-- What a call returns: a write's status and the bytes it added, a read's
status and the bytes it copied out, or a status; `noHandle` when the endpoint
has no handle left to make the call with. -/
inductive SocketReturn (α : Type*) where
  | written (status : ZxStatus) (n : ℕ)
  | read (status : ZxStatus) (out : List α)
  | status (status : ZxStatus)
  | noHandle

/-- One call of a run: the pair after it, and what it returns. -/
def socketStep (p : SocketPair α) (c : SocketCall α) : SocketPair α × SocketReturn α :=
  if p.hasHandles c.side = false then (p, .noHandle)
  else
    match c.op with
    | .write src len copyFrom allocOk =>
      let r := p.write c.side src len copyFrom allocOk
      (r.2.2, .written r.1 r.2.1)
    | .read type len copyTo =>
      let r := p.read c.side type len copyTo
      (r.2.2, .read r.1 r.2.1)
    | .setDisposition disposition dispositionPeer =>
      let r := p.setDisposition c.side disposition dispositionPeer
      (r.2, .status r.1)
    | .setReadThreshold value =>
      let r := p.setReadThreshold c.side value
      (r.2, .status r.1)
    | .setWriteThreshold value =>
      let r := p.setWriteThreshold c.side value
      (r.2, .status r.1)
    | .close => (p.onZeroHandles c.side, .status .ok)

/-! ### Small lemmas -/

@[simp] theorem setEp_ep_self (p : SocketPair α) (s : Bool) (e : SocketDispatcher α) :
    (p.setEp s e).ep s = e := by
  simp [setEp]

@[simp] theorem setEp_ep_not (p : SocketPair α) (s : Bool) (e : SocketDispatcher α) :
    (p.setEp s e).ep (!s) = p.ep (!s) := by
  simp [setEp]

@[simp] theorem setEp_ep_not_self (p : SocketPair α) (s : Bool) (e : SocketDispatcher α) :
    (p.setEp (!s) e).ep s = p.ep s := by
  simpa using setEp_ep_not p (!s) e

@[simp] theorem setEp_datagram (p : SocketPair α) (s : Bool) (e : SocketDispatcher α) :
    (p.setEp s e).datagram = p.datagram := rfl

@[simp] theorem setEp_hasHandles (p : SocketPair α) (s : Bool) (e : SocketDispatcher α) :
    (p.setEp s e).hasHandles = p.hasHandles := rfl

@[simp] theorem setEp_peerOpen (p : SocketPair α) (s t : Bool) (e : SocketDispatcher α) :
    (p.setEp s e).peerOpen t = p.peerOpen t := rfl

theorem ite_setEp (c : Prop) [Decidable c] (q : SocketPair α) (s : Bool) (e : SocketDispatcher α) :
    (if c then q.setEp s e else q) = q.setEp s (if c then e else q.ep s) := by
  split_ifs
  · rfl
  · simp [setEp]

theorem forall_side {P : Bool → Prop} (s : Bool) (h : P s) (h' : P !s) : ∀ t, P t := by
  intro t
  cases s <;> cases t <;> assumption

/-! ### What a call does to the chains -/

section Frame

variable {p p' : SocketPair α} {t : Bool} {status : ZxStatus} {src : ℕ → α} {len : ℕ}
  {copyFrom copyTo : ℕ → ZxStatus} {allocOk : Bool} {n : ℕ} {type : ReadType} {out : List α}

theorem write_data (h : p.write t src len copyFrom allocOk = (status, n, p')) :
    p'.datagram = p.datagram ∧ (p'.ep t).data = (p.ep t).data ∧
      ((n = 0 ∧ (p'.ep !t).data = (p.ep !t).data) ∨
        (if p.datagram then (p.ep !t).data.writeDatagram src len copyFrom allocOk
          else (p.ep !t).data.writeStream src len copyFrom allocOk) = (status, n, (p'.ep !t).data)) := by
  unfold SocketPair.write at h
  split_ifs at h
  any_goals cases h; exact ⟨rfl, rfl, .inl ⟨rfl, rfl⟩⟩
  unfold SocketPair.writeSelfLocked at h
  dsimp only at h
  by_cases hfull : (p.ep !t).data.isFull = true
  · rw [if_pos hfull] at h
    cases h
    exact ⟨rfl, rfl, .inl ⟨rfl, rfl⟩⟩
  rw [if_neg hfull] at h
  rcases hwr : (if p.datagram then (p.ep !t).data.writeDatagram src len copyFrom allocOk
      else (p.ep !t).data.writeStream src len copyFrom allocOk) with ⟨status₀, st₀, c'⟩
  rw [hwr] at h
  simp only [Prod.mk.injEq] at h
  obtain ⟨rfl, rfl, rfl⟩ := h
  exact ⟨rfl, by simp, .inr (by simp)⟩

theorem write_signals (h : p.write t src len copyFrom allocOk = (status, n, p')) :
    p'.hasHandles = p.hasHandles ∧ (p'.ep t).signals ⊆ (p.ep t).signals := by
  unfold SocketPair.write at h
  split_ifs at h
  any_goals cases h; exact ⟨rfl, subset_rfl⟩
  unfold SocketPair.writeSelfLocked at h
  dsimp only at h
  by_cases hfull : (p.ep !t).data.isFull = true
  · rw [if_pos hfull] at h
    cases h
    exact ⟨rfl, subset_rfl⟩
  rw [if_neg hfull] at h
  rcases hwr : (if p.datagram then (p.ep !t).data.writeDatagram src len copyFrom allocOk
      else (p.ep !t).data.writeStream src len copyFrom allocOk) with ⟨status₀, st₀, c'⟩
  rw [hwr] at h
  simp only [Prod.mk.injEq] at h
  obtain ⟨rfl, rfl, rfl⟩ := h
  refine ⟨rfl, fun x hx ↦ ?_⟩
  simp only [Bool.not_not, setEp_ep_self, SocketDispatcher.mem_updateStateLocked_signals] at hx
  simp only [Finset.notMem_empty, false_or, setEp_ep_not_self] at hx
  exact hx.1

/-- A read leaves the peer's chain alone, and either returns nothing and leaves
the reader's chain alone, or is a peek, which leaves it alone too, or is the
chain read of the reader's chain. -/
theorem read_data (h : p.read t type len copyTo = (status, out, p')) :
    p'.datagram = p.datagram ∧ (p'.ep !t).data = (p.ep !t).data ∧
      ((out = [] ∧ (p'.ep t).data = (p.ep t).data) ∨ (type = .peek ∧ p' = p) ∨
        (type = .consume ∧ (p.ep t).data.read len p.datagram copyTo = (status, out, (p'.ep t).data))) := by
  unfold SocketPair.read at h
  dsimp only at h
  by_cases hlen : len % 2 ^ 32 ≠ len
  · rw [if_pos hlen] at h
    cases h
    exact ⟨rfl, rfl, .inl ⟨rfl, rfl⟩⟩
  rw [if_neg hlen] at h
  by_cases hempty : (p.ep t).data.isEmpty = true
  · rw [if_pos hempty] at h
    split_ifs at h <;> cases h <;> exact ⟨rfl, rfl, .inl ⟨rfl, rfl⟩⟩
  rw [if_neg hempty] at h
  cases type with
  | peek =>
    cases h
    exact ⟨rfl, rfl, .inr (.inl ⟨rfl, rfl⟩)⟩
  | consume =>
    rcases hr : (p.ep t).data.read len p.datagram copyTo with ⟨status₀, out₀, c'⟩
    dsimp only at h
    rw [hr] at h
    dsimp only at h
    simp only [Prod.mk.injEq] at h
    obtain ⟨rfl, rfl, rfl⟩ := h
    rw [ite_setEp, setEp_peerOpen]
    refine ⟨rfl, ?_, .inr (.inr ⟨rfl, by simp⟩)⟩
    split <;> simp [SocketDispatcher.updateStateLocked]

theorem setDisposition_data {d dp : Disposition} (h : p.setDisposition t d dp = (status, p')) :
    p'.datagram = p.datagram ∧ ∀ u, (p'.ep u).data = (p.ep u).data := by
  unfold SocketPair.setDisposition at h
  dsimp only at h
  split_ifs at h <;> simp only [Prod.mk.injEq] at h <;> obtain ⟨-, rfl⟩ := h
  any_goals exact ⟨rfl, fun _ ↦ rfl⟩
  all_goals
    refine ⟨rfl, forall_side t ?_ ?_⟩ <;> simp

theorem setReadThreshold_data {value : ℕ} (h : p.setReadThreshold t value = (status, p')) :
    p'.datagram = p.datagram ∧ ∀ u, (p'.ep u).data = (p.ep u).data := by
  unfold SocketPair.setReadThreshold at h
  dsimp only at h
  split_ifs at h <;> simp only [Prod.mk.injEq] at h <;> obtain ⟨-, rfl⟩ := h
  · exact ⟨rfl, fun _ ↦ rfl⟩
  all_goals
    refine ⟨rfl, forall_side t ?_ ?_⟩ <;> simp

theorem setWriteThreshold_data {value : ℕ} (h : p.setWriteThreshold t value = (status, p')) :
    p'.datagram = p.datagram ∧ ∀ u, (p'.ep u).data = (p.ep u).data := by
  unfold SocketPair.setWriteThreshold at h
  dsimp only at h
  split_ifs at h <;> simp only [Prod.mk.injEq] at h <;> obtain ⟨-, rfl⟩ := h
  any_goals exact ⟨rfl, fun _ ↦ rfl⟩
  all_goals
    refine ⟨rfl, forall_side t ?_ ?_⟩ <;> simp

theorem onZeroHandles_data (t : Bool) :
    (p.onZeroHandles t).datagram = p.datagram ∧ ∀ u, ((p.onZeroHandles t).ep u).data = (p.ep u).data := by
  unfold SocketPair.onZeroHandles
  dsimp only
  rw [ite_setEp]
  refine ⟨rfl, forall_side t ?_ ?_⟩
  · simp
  · split <;> simp [SocketDispatcher.onPeerZeroHandlesLocked]

theorem write_of_checks (hpo : p.peerOpen t = true) (hwd : SocketSignal.writeDisabled ∉ (p.ep t).signals)
    (h0 : len ≠ 0) (hlen : len % 2 ^ 32 = len) :
    p.write t src len copyFrom allocOk = p.writeSelfLocked (!t) src len copyFrom allocOk := by
  unfold SocketPair.write
  rw [if_neg (by simp [hpo]), if_neg hwd, if_neg h0, if_neg (fun h ↦ h hlen)]

theorem writeSelfLocked_of_room {u : Bool} {st : ℕ} {c' : MBufChain α} (hroom : (p.ep u).data.isFull = false)
    (hwr : (if p.datagram then (p.ep u).data.writeDatagram src len copyFrom allocOk
      else (p.ep u).data.writeStream src len copyFrom allocOk) = (status, st, c')) :
    (p.writeSelfLocked u src len copyFrom allocOk).1 = status ∧
      (p.writeSelfLocked u src len copyFrom allocOk).2.1 = st ∧
      ((p.writeSelfLocked u src len copyFrom allocOk).2.2.ep u).data = c' := by
  unfold SocketPair.writeSelfLocked
  dsimp only
  rw [if_neg (by simp [hroom]), hwr]
  simp

theorem writeSelfLocked_of_full {u : Bool} (hfull : (p.ep u).data.isFull = true) :
    p.writeSelfLocked u src len copyFrom allocOk = (.errShouldWait, 0, p) := by
  unfold SocketPair.writeSelfLocked
  dsimp only
  rw [if_pos hfull]

end Frame

theorem socketStep_datagram {p : SocketPair α} (c : SocketCall α) :
    (p.socketStep c).1.datagram = p.datagram := by
  unfold SocketPair.socketStep
  split_ifs
  · rfl
  cases hop : c.op with
  | write src len copyFrom allocOk =>
    rcases hw : p.write c.side src len copyFrom allocOk with ⟨status, n, p'⟩
    simp only [hw]
    exact (write_data hw).1
  | read type len copyTo =>
    rcases hr : p.read c.side type len copyTo with ⟨status, out, p'⟩
    simp only [hr]
    exact (read_data hr).1
  | setDisposition d dp =>
    rcases hd : p.setDisposition c.side d dp with ⟨status, p'⟩
    simp only [hd]
    exact (setDisposition_data hd).1
  | setReadThreshold value =>
    rcases hv : p.setReadThreshold c.side value with ⟨status, p'⟩
    simp only [hv]
    exact (setReadThreshold_data hv).1
  | setWriteThreshold value =>
    rcases hv : p.setWriteThreshold c.side value with ⟨status, p'⟩
    simp only [hv]
    exact (setWriteThreshold_data hv).1
  | close => exact (onZeroHandles_data c.side).1

end SocketPair

end Zircon.Object
