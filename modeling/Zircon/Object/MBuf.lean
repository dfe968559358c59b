import Mathlib
import Zircon.Types

/-!
# MBuf chains

`MBufChain` (`object/mbuf.cc`) keeps the bytes of a socket in a list `buffers_`
of page-sized `MBuf`s of up to `kPayloadSize` bytes each, with a read cursor
`read_cursor_off_` into the first buffer and the count `size_` of the bytes not
read yet.  In stream mode `WriteStream` fills the room left in the last buffer
and then new ones, and `Read` copies from the cursor on, dropping each buffer it
empties; `Peek` copies the same bytes and drops nothing.

A user copy is an oracle: `copyFrom pos` and `copyTo pos` are the status of the
copy of the chunk at byte `pos` of the user buffer.  A call allocates pages at
most once, and `allocOk` says whether that allocation succeeds.  A byte is a
value of `α`.

Both copy loops stop at the first chunk that fails and keep what the chunks
before it did.  A stream chain so refines a byte queue in which a call removes
exactly the `*actual` bytes it delivers, whether or not it fails
(`StreamInv.streamRun`).
-/

namespace Zircon.Object

/-- `MBuf::kHeaderSize`: the list node and the explicit fields. -/
def kHeaderSize : ℕ := 8 * 2 + 4 * 2 + 8

/-- `MBuf::kPayloadSize`: the rest of the page. -/
def kPayloadSize : ℕ := 4096 - kHeaderSize

/-- `MBufChain::kSizeMax`. -/
def kSizeMax : ℕ := 128 * kPayloadSize

/-- `MBuf::NumBuffersForPayload`. -/
def numBuffersForPayload (payload : ℕ) : ℕ := 1 + (payload - 1) / kPayloadSize

/-- An `MBuf`: its bytes `data_[0, len_)` and its `pkt_len_`. -/
structure MBuf (α : Type*) where
  data : List α
  pktLen : ℕ

/-- `MBuf::rem`: the room left in the buffer. -/
def MBuf.rem {α : Type*} (buf : MBuf α) : ℕ := kPayloadSize - buf.data.length

/-- An `MBufChain`: `buffers_`, `read_cursor_off_` and `size_`. -/
structure MBufChain (α : Type*) where
  buffers : List (MBuf α)
  readCursorOff : ℕ
  size : ℕ

namespace MBufChain

variable {α : Type*}

/-- `MBufChain()`: no buffer. -/
def empty : MBufChain α := ⟨[], 0, 0⟩

/-- The bytes `[pos, pos + n)` of a user buffer. -/
def userBytes (src : ℕ → α) (pos n : ℕ) : List α := (List.range n).map fun j ↦ src (pos + j)

/-- The length of the first buffer, `0` for none. -/
def frontLen : List (MBuf α) → ℕ
  | [] => 0
  | buf :: _ => buf.data.length

/-! ### Writes -/

/-- The lambda `write_buffer` of `WriteStream`: the chunk of `src` at `pos`, up
to the room left in `buf` and the `len - pos` bytes still to write, appended to
`buf`, with its length; the status of the copy when it fails. -/
def writeBuffer (src : ℕ → α) (copyFrom : ℕ → ZxStatus) (len pos : ℕ) (buf : MBuf α) :
    Except ZxStatus (MBuf α × ℕ) :=
  let copyLen := min buf.rem (len - pos)
  if copyFrom pos = .ok then .ok ({ buf with data := buf.data ++ userBytes src pos copyLen }, copyLen)
  else .error (copyFrom pos)

/-- The loop of `WriteStream` over `n` new buffers, from byte `pos` of `src`:
the bytes written and the chain, or, when a copy fails, the status, the bytes
written and the chain with the buffers filled before. -/
def writeNew (src : ℕ → α) (copyFrom : ℕ → ZxStatus) (len : ℕ) :
    ℕ → MBufChain α → ℕ → Except (ZxStatus × ℕ × MBufChain α) (ℕ × MBufChain α)
  | 0, c, pos => .ok (pos, c)
  | n + 1, c, pos =>
    match writeBuffer src copyFrom len pos ⟨[], 0⟩ with
    | .error status => .error (status, pos, c)
    | .ok (buf, copyLen) =>
      writeNew src copyFrom len n { c with buffers := c.buffers ++ [buf], size := c.size + copyLen }
        (pos + copyLen)

/-- The first part of `WriteStream`: the room left in the last buffer. -/
def writeBack (src : ℕ → α) (copyFrom : ℕ → ZxStatus) (len : ℕ) (c : MBufChain α) :
    Except (ZxStatus × ℕ × MBufChain α) (ℕ × MBufChain α) :=
  match c.buffers.getLast? with
  | some back =>
    if 0 < back.rem then
      match writeBuffer src copyFrom len 0 back with
      | .error status => .error (status, 0, c)
      | .ok (back, copyLen) =>
        .ok (copyLen, { c with buffers := c.buffers.dropLast ++ [back], size := c.size + copyLen })
    else .ok (0, c)
  | none => .ok (0, c)

/-- `MBufChain::WriteStream(src, len, written)`: the status, `*written`, and
the chain. -/
def writeStream (c : MBufChain α) (src : ℕ → α) (len : ℕ) (copyFrom : ℕ → ZxStatus)
    (allocOk : Bool) : ZxStatus × ℕ × MBufChain α :=
  -- the write is cut to the room left in the chain
  let len := min (kSizeMax - c.size) len
  match writeBack src copyFrom len c with
  | .error r => r
  | .ok (pos, c) =>
    let r := if pos ≠ len ∧ allocOk = true then
        writeNew src copyFrom len (numBuffersForPayload (len - pos)) c pos
      else .ok (pos, c)
    match r with
    | .error r => r
    | .ok (pos, c) => (if pos = 0 then .errShouldWait else .ok, pos, c)

/-- The copy loop of `WriteDatagram` into `n` new buffers from byte `pos`, or
`none` when a copy fails. -/
def fillDatagram (src : ℕ → α) (copyFrom : ℕ → ZxStatus) (len : ℕ) :
    ℕ → ℕ → Option (List (MBuf α))
  | 0, _ => some []
  | n + 1, pos =>
    let copyLen := min kPayloadSize (len - pos)
    if copyFrom pos = .ok then
      (fillDatagram src copyFrom len n (pos + copyLen)).map (⟨userBytes src pos copyLen, 0⟩ :: ·)
    else none

/-- `bufs.front().pkt_len_ = len`. -/
def setPktLen (len : ℕ) : List (MBuf α) → List (MBuf α)
  | [] => []
  | buf :: rest => { buf with pktLen := len } :: rest

/-- `MBufChain::WriteDatagram(src, len, written)`: the status, `*written`, and
the chain. -/
def writeDatagram (c : MBufChain α) (src : ℕ → α) (len : ℕ) (copyFrom : ℕ → ZxStatus)
    (allocOk : Bool) : ZxStatus × ℕ × MBufChain α :=
  if len = 0 then (.errInvalidArgs, 0, c)
  else if kSizeMax < len then (.errOutOfRange, 0, c)
  else if kSizeMax < len + c.size then (.errShouldWait, 0, c)
  else if allocOk = false then (.errShouldWait, 0, c)
  else
    match fillDatagram src copyFrom len (numBuffersForPayload len) 0 with
    | none => (.errInvalidArgs, 0, c)
    | some bufs => (.ok, len, { c with buffers := c.buffers ++ setPktLen len bufs, size := c.size + len })

/-! ### Reads -/

/-- What the loop of `ReadHelper` carries on a chain it consumes: the chain's
buffers, `read_off`, `pos`, `size_`, `status`, and the bytes copied to `dst`. -/
structure ReadState (α : Type*) where
  buffers : List (MBuf α)
  readOff : ℕ
  pos : ℕ
  size : ℕ
  status : ZxStatus
  out : List α

/-- One pass of the loop of `ReadHelper` on a chain it consumes: the chunk from
the cursor, up to the end of the first buffer and the `len - pos` bytes still to
read, is copied out and consumed when its copy succeeds; the buffer is dropped
when it is used up or holds a datagram. -/
def readStep (len : ℕ) (datagram : Bool) (copyTo : ℕ → ZxStatus) (s : ReadState α) :
    ReadState α :=
  match s.buffers with
  | [] => s
  | buf :: rest =>
    let copyLen := min (buf.data.length - s.readOff) (len - s.pos)
    let status := copyTo s.pos
    let out := if status = .ok then s.out ++ (buf.data.drop s.readOff).take copyLen else s.out
    let pos := if status = .ok then s.pos + copyLen else s.pos
    let readOff := if status = .ok then s.readOff + copyLen else s.readOff
    let size := if status = .ok then s.size - copyLen else s.size
    if readOff = buf.data.length ∨ datagram = true then
      -- a datagram's buffer goes whatever was read of it
      let size := if datagram = true then size - (buf.data.length - readOff) else size
      ⟨rest, 0, pos, size, status, out⟩
    else ⟨buf :: rest, readOff, pos, size, status, out⟩

/-- The loop of `ReadHelper` on a chain it consumes, for at most `passes`
passes: while bytes are wanted, buffers are left and no copy has failed.  A
pass that keeps the first buffer has read all that is wanted or has failed, so
`buffers_.size() + 1` passes are enough (`ReadState.readLoop_done`). -/
def readLoop (len : ℕ) (datagram : Bool) (copyTo : ℕ → ZxStatus) :
    ℕ → ReadState α → ReadState α
  | 0, s => s
  | passes + 1, s =>
    if s.pos < len ∧ s.buffers ≠ [] ∧ s.status = .ok then
      readLoop len datagram copyTo passes (readStep len datagram copyTo s)
    else s

/-- The loop of `ReadHelper` that drops the rest of a datagram: the body
buffers at the front, whose `pkt_len_` is zero. -/
def drainBody : List (MBuf α) → ℕ → ℕ → List (MBuf α) × ℕ × ℕ
  | [], readOff, size => ([], readOff, size)
  | buf :: rest, readOff, size =>
    if buf.pktLen = 0 then drainBody rest 0 (size - (buf.data.length - readOff))
    else (buf :: rest, readOff, size)

/-- `len`, cut to the length of the first datagram when reading datagrams. -/
def readLen (c : MBufChain α) (len : ℕ) (datagram : Bool) : ℕ :=
  match c.buffers with
  | buf :: _ => if datagram = true ∧ buf.pktLen < len then buf.pktLen else len
  | [] => len

/-- `MBufChain::Read(dst, len, datagram, actual)`: the status, the bytes
`dst[0, *actual)`, and the chain. -/
def read (c : MBufChain α) (len : ℕ) (datagram : Bool) (copyTo : ℕ → ZxStatus) :
    ZxStatus × List α × MBufChain α :=
  if c.size = 0 then (.ok, [], c)
  else
    let s := readLoop (c.readLen len datagram) datagram copyTo (c.buffers.length + 1)
      ⟨c.buffers, c.readCursorOff, 0, c.size, .ok, []⟩
    let (buffers, readOff, size) :=
      if datagram = true then drainBody s.buffers s.readOff s.size else (s.buffers, s.readOff, s.size)
    (s.status, s.out, ⟨buffers, readOff, size⟩)

/-- The loop of `ReadHelper` on a chain it only reads: `iter` walks the buffers
and `read_off` is the cursor for the first of them only. -/
def peekLoop (len : ℕ) (copyTo : ℕ → ZxStatus) :
    List (MBuf α) → ℕ → ℕ → List α → ZxStatus × List α
  | [], _, _, out => (.ok, out)
  | buf :: rest, readOff, pos, out =>
    if pos < len then
      let copyLen := min (buf.data.length - readOff) (len - pos)
      if copyTo pos = .ok then
        peekLoop len copyTo rest 0 (pos + copyLen) (out ++ (buf.data.drop readOff).take copyLen)
      else (copyTo pos, out)
    else (.ok, out)

/-- `MBufChain::Peek(dst, len, datagram, actual)`: the status and the bytes
`dst[0, *actual)`; the chain is `const`. -/
def peek (c : MBufChain α) (len : ℕ) (datagram : Bool) (copyTo : ℕ → ZxStatus) :
    ZxStatus × List α :=
  if c.size = 0 then (.ok, [])
  else peekLoop (c.readLen len datagram) copyTo c.buffers c.readCursorOff 0 []

/-- `MBufChain::is_full`. -/
def isFull (c : MBufChain α) : Bool := decide (kSizeMax ≤ c.size)

/-- `MBufChain::is_empty`. -/
def isEmpty (c : MBufChain α) : Bool := decide (c.size = 0)

/-- `MBufChain::size(datagram)`: the `pkt_len_` of the first buffer when asked
for datagrams and there are bytes, else `size_`.  (A chain with bytes has a
first buffer; the `0` stands for the front of an empty list, never read.) -/
def sizeWith (c : MBufChain α) (datagram : Bool) : ℕ :=
  if datagram = true ∧ c.size ≠ 0 then (c.buffers.head?.map MBuf.pktLen).getD 0 else c.size

/-! ### Small lemmas -/

@[simp] theorem length_userBytes (src : ℕ → α) (pos n : ℕ) : (userBytes src pos n).length = n := by
  simp [userBytes]

theorem userBytes_add (src : ℕ → α) (pos m n : ℕ) :
    userBytes src pos (m + n) = userBytes src pos m ++ userBytes src (pos + m) n := by
  simp only [userBytes, List.range_add, List.map_append, List.map_map]
  congr 1
  refine List.map_congr_left fun j _ ↦ ?_
  simp only [Function.comp, Nat.add_assoc]

theorem frontLen_le_length (bufs : List (MBuf α)) :
    frontLen bufs ≤ (bufs.flatMap MBuf.data).length := by
  cases bufs with
  | nil => exact le_rfl
  | cons buf rest => simp [frontLen]

theorem drop_flatMap_cons {buf : MBuf α} {rest : List (MBuf α)} {r : ℕ} (h : r ≤ buf.data.length) :
    ((buf :: rest).flatMap MBuf.data).drop r = buf.data.drop r ++ rest.flatMap MBuf.data := by
  rw [List.flatMap_cons, List.drop_append_of_le_length h]

theorem writeBuffer_eq_ok {src : ℕ → α} {copyFrom : ℕ → ZxStatus} {len pos n : ℕ} {buf buf' : MBuf α}
    (h : writeBuffer src copyFrom len pos buf = .ok (buf', n)) :
    copyFrom pos = .ok ∧ n = min buf.rem (len - pos) ∧
      buf' = { buf with data := buf.data ++ userBytes src pos n } := by
  unfold writeBuffer at h
  split_ifs at h with hok
  cases h
  exact ⟨hok, rfl, rfl⟩

theorem writeBuffer_eq_error {src : ℕ → α} {copyFrom : ℕ → ZxStatus} {len pos : ℕ} {buf : MBuf α}
    {status : ZxStatus} (h : writeBuffer src copyFrom len pos buf = .error status) :
    status = copyFrom pos ∧ copyFrom pos ≠ .ok := by
  unfold writeBuffer at h
  split_ifs at h with hok
  cases h
  exact ⟨rfl, hok⟩

end MBufChain

end Zircon.Object
