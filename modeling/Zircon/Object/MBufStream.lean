import Zircon.Object.MBuf
import Zircon.Lib.QueueRun

/-!
# Stream mode: a byte queue

In stream mode a chain holds, in order, the bytes written and not read yet:
`content`, its buffers' bytes from the read cursor on.  `StreamInv` is what
every call keeps, with `size_` the length of `content` and never above
`kSizeMax`.  `WriteStream` appends the first `*written` bytes of its source to
`content` (`StreamInv.writeStream`), and `Read` takes the first `*actual` bytes
of `content` off it (`StreamInv.read`), whether or not a copy failed.  `Peek`
returns what `Read` would (`peek_eq_read`).  A stream chain so passes bytes
through as a FIFO over any run of these calls (`StreamInv.streamRun`), the
bytes removed being every `Read`'s `*actual` bytes, failed or not.
-/

namespace Zircon.Object

namespace MBufChain

variable {α : Type*}

/-- The bytes of a chain not read yet: those of its buffers from the read
cursor on. -/
def content (c : MBufChain α) : List α := (c.buffers.flatMap MBuf.data).drop c.readCursorOff

/-- What the calls keep of a chain in stream mode: no buffer holds more than a
payload, the read cursor lies in the first buffer, and `size_` counts the bytes
not read yet, at most `kSizeMax`. -/
structure StreamInv (c : MBufChain α) : Prop where
  len_le : ∀ buf ∈ c.buffers, buf.data.length ≤ kPayloadSize
  cursor_le : c.readCursorOff ≤ frontLen c.buffers
  size_eq : c.size = c.content.length
  size_le : c.size ≤ kSizeMax

theorem streamInv_empty : (empty : MBufChain α).StreamInv :=
  ⟨by simp [empty], le_rfl, rfl, Nat.zero_le _⟩

theorem frontLen_le_append (bufs bufs' : List (MBuf α)) : frontLen bufs ≤ frontLen (bufs ++ bufs') := by
  cases bufs with
  | nil => exact Nat.zero_le _
  | cons buf rest => exact le_rfl

/-! ### Writes -/

section Write

variable {src : ℕ → α} {len : ℕ} {c c' c'' : MBufChain α} {pos pos' pos'' : ℕ}

/-- A part of a stream write, from byte `pos` to byte `pos'` of `src`, that
takes the chain `c` to `c'`: it appends those bytes to `content`, and moves
neither the cursor nor past the `len` bytes of the write. -/
structure Wrote (src : ℕ → α) (len : ℕ) (c c' : MBufChain α) (pos pos' : ℕ) : Prop where
  inv : c'.StreamInv
  le : pos ≤ pos'
  le_len : pos' ≤ len
  cursor_eq : c'.readCursorOff = c.readCursorOff
  content_eq : c'.content = c.content ++ userBytes src pos (pos' - pos)

theorem Wrote.refl (hc : c.StreamInv) (h : pos ≤ len) : Wrote src len c c pos pos :=
  ⟨hc, le_rfl, h, rfl, by simp [userBytes]⟩

theorem Wrote.trans (h₁ : Wrote src len c c' pos pos') (h₂ : Wrote src len c' c'' pos' pos'') :
    Wrote src len c c'' pos pos'' := by
  have hsplit : userBytes src pos (pos'' - pos) =
      userBytes src pos (pos' - pos) ++ userBytes src pos' (pos'' - pos') := by
    rw [show pos'' - pos = (pos' - pos) + (pos'' - pos') by have := h₁.le; have := h₂.le; omega,
      userBytes_add, Nat.add_sub_cancel' h₁.le]
  refine ⟨h₂.inv, h₁.le.trans h₂.le, h₂.le_len, h₂.cursor_eq.trans h₁.cursor_eq, ?_⟩
  rw [h₂.content_eq, h₁.content_eq, List.append_assoc, hsplit]

/-- A step of a write that adds the bytes `[pos, pos')` of the source at the
end of the buffers' bytes, and keeps the cursor in the first buffer and every
buffer within a payload. -/
theorem wrote_of_extend (hc : c.StreamInv)
    (hdata : c'.buffers.flatMap MBuf.data = c.buffers.flatMap MBuf.data ++ userBytes src pos (pos' - pos))
    (hcursor : c'.readCursorOff = c.readCursorOff) (hfront : frontLen c.buffers ≤ frontLen c'.buffers)
    (hlen : ∀ buf ∈ c'.buffers, buf.data.length ≤ kPayloadSize) (hsize : c'.size = c.size + (pos' - pos))
    (hle : pos ≤ pos') (hpos : pos' ≤ len) (hroom : c.size + (len - pos) ≤ kSizeMax) :
    Wrote src len c c' pos pos' := by
  have hcontent : c'.content = c.content ++ userBytes src pos (pos' - pos) := by
    rw [content, hdata, hcursor, List.drop_append_of_le_length (hc.cursor_le.trans (frontLen_le_length _))]
    rfl
  have hsize_le := hc.size_le
  refine ⟨⟨hlen, hcursor ▸ hc.cursor_le.trans hfront, ?_, by omega⟩, hle, hpos, hcursor, hcontent⟩
  rw [hsize, hcontent, List.length_append, length_userBytes, hc.size_eq]

theorem wrote_push (hc : c.StreamInv) (hn : n ≤ kPayloadSize) (hpos : pos + n ≤ len)
    (hroom : c.size + (len - pos) ≤ kSizeMax) :
    Wrote src len c { c with buffers := c.buffers ++ [⟨userBytes src pos n, 0⟩], size := c.size + n }
      pos (pos + n) := by
  refine wrote_of_extend hc (by simp) rfl (frontLen_le_append _ _) (fun buf hbuf ↦ ?_) (by simp)
    (by omega) hpos hroom
  rcases List.mem_append.mp hbuf with hbuf | hbuf
  · exact hc.len_le buf hbuf
  · rw [List.mem_singleton.mp hbuf]
    simpa using hn

theorem Wrote.room (hc : c.StreamInv) (h : Wrote src len c c' pos pos')
    (hroom : c.size + (len - pos) ≤ kSizeMax) : c'.size + (len - pos') ≤ kSizeMax := by
  have hsize : c'.size = c.size + (pos' - pos) := by
    rw [h.inv.size_eq, h.content_eq, List.length_append, length_userBytes, hc.size_eq]
  have := h.le
  have := h.le_len
  omega

/-- What a part of a stream write returns, from byte `pos` and chain `c`: how
far it got and the chain, and, when it stopped at a failed copy, that copy's
status. -/
def WroteTo (src : ℕ → α) (len : ℕ) (c : MBufChain α) (pos : ℕ) :
    Except (ZxStatus × ℕ × MBufChain α) (ℕ × MBufChain α) → Prop
  | .ok (pos', c') => Wrote src len c c' pos pos'
  | .error (status, pos', c') => Wrote src len c c' pos pos' ∧ status ≠ .ok

theorem WroteTo.of_wrote {r : Except (ZxStatus × ℕ × MBufChain α) (ℕ × MBufChain α)}
    (h₁ : Wrote src len c c' pos pos') (h₂ : WroteTo src len c' pos' r) : WroteTo src len c pos r := by
  rcases r with ⟨status, pos'', c''⟩ | ⟨pos'', c''⟩
  · exact ⟨h₁.trans h₂.1, h₂.2⟩
  · exact h₁.trans h₂

variable {copyFrom : ℕ → ZxStatus}

theorem wroteTo_writeNew (n : ℕ) (hc : c.StreamInv) (hpos : pos ≤ len)
    (hroom : c.size + (len - pos) ≤ kSizeMax) :
    WroteTo src len c pos (writeNew src copyFrom len n c pos) := by
  induction n generalizing c pos with
  | zero => exact Wrote.refl hc hpos
  | succ n ih =>
    rw [writeNew]
    rcases hw : writeBuffer src copyFrom len pos (⟨[], 0⟩ : MBuf α) with status | ⟨buf, k⟩
    · obtain ⟨rfl, hfail⟩ := writeBuffer_eq_error hw
      exact ⟨Wrote.refl hc hpos, hfail⟩
    · obtain ⟨-, hk, rfl⟩ := writeBuffer_eq_ok hw
      have hkK : k ≤ kPayloadSize := by
        rw [hk, MBuf.rem]
        exact (min_le_left _ _).trans (Nat.sub_le _ _)
      have hklen : k ≤ len - pos := hk ▸ min_le_right _ _
      have hpush : Wrote src len c _ pos (pos + k) := wrote_push hc hkK (by omega) hroom
      refine WroteTo.of_wrote (by simpa using hpush) (ih hpush.inv (by omega) ?_)
      dsimp only
      omega

theorem frontLen_append_singleton_le {bufs : List (MBuf α)} {buf buf' : MBuf α}
    (h : buf.data.length ≤ buf'.data.length) : frontLen (bufs ++ [buf]) ≤ frontLen (bufs ++ [buf']) := by
  cases bufs with
  | nil => exact h
  | cons b rest => exact le_rfl

theorem wroteTo_writeBack (hc : c.StreamInv) (hroom : c.size + (len - 0) ≤ kSizeMax) :
    WroteTo src len c 0 (writeBack src copyFrom len c) := by
  unfold writeBack
  rcases hlast : c.buffers.getLast? with _ | back
  · exact Wrote.refl hc (Nat.zero_le _)
  dsimp only
  split_ifs with hrem
  swap
  · exact Wrote.refl hc (Nat.zero_le _)
  rcases hw : writeBuffer src copyFrom len 0 back with status | ⟨back', k⟩
  · obtain ⟨rfl, hfail⟩ := writeBuffer_eq_error hw
    exact ⟨Wrote.refl hc (Nat.zero_le _), hfail⟩
  obtain ⟨-, hk, rfl⟩ := writeBuffer_eq_ok hw
  obtain ⟨bufs, hbufs⟩ := List.getLast?_eq_some_iff.mp hlast
  have hback : back.data.length ≤ kPayloadSize := hc.len_le back (by simp [hbufs])
  have hklen : k ≤ len - 0 := hk ▸ min_le_right _ _
  have hkrem : k ≤ back.rem := hk ▸ min_le_left _ _
  rw [MBuf.rem] at hkrem
  refine wrote_of_extend hc ?_ rfl ?_ (fun buf hbuf ↦ ?_) (by simp) (Nat.zero_le _) (by omega) hroom
  · simp [hbufs]
  · rw [hbufs, List.dropLast_concat]
    exact frontLen_append_singleton_le (by simp)
  · rw [hbufs, List.dropLast_concat] at hbuf
    rcases List.mem_append.mp hbuf with hbuf | hbuf
    · exact hc.len_le buf (by simp [hbufs, hbuf])
    · rw [List.mem_singleton.mp hbuf]
      simp only [List.length_append, length_userBytes]
      omega

theorem wrote_of_wroteTo {r : Except (ZxStatus × ℕ × MBufChain α) (ℕ × MBufChain α)}
    {status : ZxStatus}
    (h : (match r with
      | .error r => r
      | .ok (pos, c) => ((if pos = 0 then .errShouldWait else .ok : ZxStatus), pos, c)) =
        (status, pos', c')) (hr : WroteTo src len c pos r) : Wrote src len c c' pos pos' := by
  rcases r with ⟨status, pos'', c''⟩ | ⟨pos'', c''⟩
  · cases h
    exact hr.1
  · cases h
    exact hr

/-- `WriteStream` appends the first `*written` bytes of its source to the
bytes not read yet, `*written` at most the room left, and keeps the invariant,
whichever copy fails and whether or not the allocation succeeds. -/
theorem StreamInv.writeStream {allocOk : Bool} {status : ZxStatus} {written : ℕ} (hc : c.StreamInv)
    (h : c.writeStream src len copyFrom allocOk = (status, written, c')) :
    c'.StreamInv ∧ written ≤ min (kSizeMax - c.size) len ∧
      c'.content = c.content ++ userBytes src 0 written := by
  unfold MBufChain.writeStream at h
  dsimp only at h
  set len' := min (kSizeMax - c.size) len with hlen'
  have hroom : c.size + (len' - 0) ≤ kSizeMax := by
    have := hc.size_le
    omega
  have hback : WroteTo src len' c 0 (writeBack src copyFrom len' c) := wroteTo_writeBack hc hroom
  rcases hb : writeBack src copyFrom len' c with ⟨st, pos, c₁⟩ | ⟨pos, c₁⟩ <;> rw [hb] at hback h
  · cases h
    have hw := hback.1
    exact ⟨hw.inv, hw.le_len, by simpa using hw.content_eq⟩
  dsimp only at h
  have hnew : WroteTo src len' c₁ pos (if pos ≠ len' ∧ allocOk = true then
      writeNew src copyFrom len' (numBuffersForPayload (len' - pos)) c₁ pos else .ok (pos, c₁)) := by
    split_ifs
    · exact wroteTo_writeNew _ hback.inv hback.le_len (hback.room hc hroom)
    · exact Wrote.refl hback.inv hback.le_len
  have hw := hback.trans (wrote_of_wroteTo h hnew)
  exact ⟨hw.inv, hw.le_len, by simpa using hw.content_eq⟩

end Write

/-! ### Writes whose copies succeed -/

theorem le_numBuffersForPayload_mul {r : ℕ} (h : 0 < r) : r ≤ numBuffersForPayload r * kPayloadSize := by
  unfold numBuffersForPayload
  have hlt := Nat.lt_div_mul_add (a := r - 1) (b := kPayloadSize) (by decide)
  rw [Nat.add_mul, one_mul]
  omega

section Complete

variable {src : ℕ → α} {len : ℕ} {copyFrom : ℕ → ZxStatus} (hcopy : ∀ p, copyFrom p = .ok)
include hcopy

theorem writeBuffer_of_ok (pos : ℕ) (buf : MBuf α) :
    writeBuffer src copyFrom len pos buf =
      .ok ({ buf with data := buf.data ++ userBytes src pos (min buf.rem (len - pos)) },
        min buf.rem (len - pos)) := by
  simp [writeBuffer, hcopy]

theorem writeNew_of_ok (n : ℕ) (c : MBufChain α) {pos : ℕ} (hpos : pos ≤ len) :
    ∃ c', writeNew src copyFrom len n c pos = .ok (min (pos + n * kPayloadSize) len, c') := by
  induction n generalizing c pos with
  | zero => exact ⟨c, by simp [writeNew, hpos]⟩
  | succ n ih =>
    rw [writeNew, writeBuffer_of_ok hcopy]
    simp only [MBuf.rem, List.length_nil, Nat.sub_zero, List.nil_append]
    have hpos' : pos + min kPayloadSize (len - pos) ≤ len := by omega
    have hsum : min (pos + min kPayloadSize (len - pos) + n * kPayloadSize) len =
        min (pos + (n + 1) * kPayloadSize) len := by
      rw [Nat.succ_mul]
      omega
    rw [← hsum]
    exact ih _ hpos'

theorem writeBack_of_ok (c : MBufChain α) :
    ∃ c', writeBack src copyFrom len c = .ok (min ((c.buffers.getLast?.map MBuf.rem).getD 0) len, c') := by
  unfold writeBack
  rcases c.buffers.getLast? with _ | back
  · exact ⟨c, by simp⟩
  dsimp only
  split_ifs with hrem
  · exact ⟨_, by rw [writeBuffer_of_ok hcopy, Nat.sub_zero]; rfl⟩
  · exact ⟨c, by simp [Nat.eq_zero_of_not_pos hrem]⟩

/-- Past the last buffer, new buffers take the rest of the write. -/
theorem writeRest_of_ok (c : MBufChain α) {pos : ℕ} (hpos : pos ≤ len) :
    ∃ c', (if pos ≠ len ∧ true = true then writeNew src copyFrom len (numBuffersForPayload (len - pos)) c pos
      else .ok (pos, c)) = .ok (len, c') := by
  by_cases hfull : pos = len
  · exact ⟨c, by simp [hfull]⟩
  obtain ⟨c', hc'⟩ := writeNew_of_ok hcopy (numBuffersForPayload (len - pos)) c hpos
  have hcover := le_numBuffersForPayload_mul (r := len - pos) (by omega)
  refine ⟨c', ?_⟩
  rw [if_pos ⟨hfull, rfl⟩, hc']
  congr 2
  omega

/-- When every copy and the page allocation succeed, `WriteStream` writes the
whole write, cut to the room left in the chain, and returns `ZX_OK`, or
`ZX_ERR_SHOULD_WAIT` when that is nothing. -/
theorem writeStream_of_ok (c : MBufChain α) :
    (c.writeStream src len copyFrom true).2.1 = min (kSizeMax - c.size) len ∧
      (c.writeStream src len copyFrom true).1 =
        if 0 < min (kSizeMax - c.size) len then .ok else .errShouldWait := by
  obtain ⟨c₁, hb⟩ : ∃ c₁, writeBack src copyFrom (min (kSizeMax - c.size) len) c =
      .ok (min ((c.buffers.getLast?.map MBuf.rem).getD 0) (min (kSizeMax - c.size) len), c₁) :=
    writeBack_of_ok hcopy c
  set len' := min (kSizeMax - c.size) len
  set pos := min ((c.buffers.getLast?.map MBuf.rem).getD 0) len'
  obtain ⟨c₂, hc₂⟩ := writeRest_of_ok hcopy c₁ (min_le_right _ _ : pos ≤ len')
  unfold MBufChain.writeStream
  dsimp only
  rw [hb]
  dsimp only
  rw [hc₂]
  refine ⟨rfl, ?_⟩
  dsimp only
  split_ifs with h0 h1 h1 <;> first | rfl | omega

end Complete

theorem writeStream_of_ok_empty :
    (∀ p : ℕ, (fun _ ↦ ZxStatus.ok) p = .ok) ∧
      ((empty : MBufChain ℕ).writeStream id 5 (fun _ ↦ .ok) true).2.1 = min (kSizeMax - (empty : MBufChain ℕ).size) 5 ∧
      ((empty : MBufChain ℕ).writeStream id 5 (fun _ ↦ .ok) true).1 =
        if 0 < min (kSizeMax - (empty : MBufChain ℕ).size) 5 then .ok else .errShouldWait :=
  ⟨fun _ ↦ rfl, writeStream_of_ok (fun _ ↦ rfl) empty⟩

/-! ### The read loop

A pass of the loop either drops the first buffer or ends the loop: when it
keeps the buffer, its copy has failed or reached `len`.  So `buffers_.size() + 1`
passes always suffice, in either mode. -/

namespace ReadState

/-- The bytes a read has not reached yet: its buffers' bytes from `read_off` on. -/
def rest (s : ReadState α) : List α := (s.buffers.flatMap MBuf.data).drop s.readOff

section Loop

/-- The bytes a pass consumes from the first buffer `buf`: the chunk from the
cursor when its copy succeeds, none when it fails. -/
def consumed (len : ℕ) (copyTo : ℕ → ZxStatus) (s : ReadState α) (buf : MBuf α) : ℕ :=
  if copyTo s.pos = .ok then min (buf.data.length - s.readOff) (len - s.pos) else 0

variable {len : ℕ} {datagram : Bool} {copyTo : ℕ → ZxStatus} {s : ReadState α} {buf : MBuf α}
  {bufs : List (MBuf α)}

theorem consumed_le_left : s.consumed len copyTo buf ≤ buf.data.length - s.readOff := by
  unfold consumed
  split_ifs
  · exact min_le_left _ _
  · exact Nat.zero_le _

theorem consumed_le_right : s.consumed len copyTo buf ≤ len - s.pos := by
  unfold consumed
  split_ifs
  · exact min_le_right _ _
  · exact Nat.zero_le _

theorem consumed_of_ok (h : copyTo s.pos = .ok) :
    s.consumed len copyTo buf = min (buf.data.length - s.readOff) (len - s.pos) := if_pos h

theorem readStep_cons (hb : s.buffers = buf :: bufs) :
    readStep len datagram copyTo s =
      if s.readOff + s.consumed len copyTo buf = buf.data.length ∨ datagram = true then
        ⟨bufs, 0, s.pos + s.consumed len copyTo buf,
          if datagram = true then
            s.size - s.consumed len copyTo buf - (buf.data.length - (s.readOff + s.consumed len copyTo buf))
          else s.size - s.consumed len copyTo buf,
          copyTo s.pos, s.out ++ (buf.data.drop s.readOff).take (s.consumed len copyTo buf)⟩
      else
        ⟨buf :: bufs, s.readOff + s.consumed len copyTo buf, s.pos + s.consumed len copyTo buf,
          s.size - s.consumed len copyTo buf, copyTo s.pos,
          s.out ++ (buf.data.drop s.readOff).take (s.consumed len copyTo buf)⟩ := by
  simp only [readStep, hb, consumed]
  by_cases hok : copyTo s.pos = .ok <;> simp [hok]

section Cons

variable (hb : s.buffers = buf :: bufs)
include hb

theorem readStep_pop (hpop : s.readOff + s.consumed len copyTo buf = buf.data.length ∨ datagram = true) :
    readStep len datagram copyTo s =
      ⟨bufs, 0, s.pos + s.consumed len copyTo buf,
        if datagram = true then
          s.size - s.consumed len copyTo buf - (buf.data.length - (s.readOff + s.consumed len copyTo buf))
        else s.size - s.consumed len copyTo buf,
        copyTo s.pos, s.out ++ (buf.data.drop s.readOff).take (s.consumed len copyTo buf)⟩ := by
  rw [readStep_cons hb, if_pos hpop]

theorem readStep_keep (hkeep : ¬(s.readOff + s.consumed len copyTo buf = buf.data.length ∨ datagram = true)) :
    readStep len datagram copyTo s =
      ⟨buf :: bufs, s.readOff + s.consumed len copyTo buf, s.pos + s.consumed len copyTo buf,
        s.size - s.consumed len copyTo buf, copyTo s.pos,
        s.out ++ (buf.data.drop s.readOff).take (s.consumed len copyTo buf)⟩ := by
  rw [readStep_cons hb, if_neg hkeep]

end Cons

theorem readLoop_of_not_guard {passes : ℕ} (h : ¬(s.pos < len ∧ s.buffers ≠ [] ∧ s.status = .ok)) :
    readLoop len datagram copyTo passes s = s := by
  cases passes with
  | zero => rfl
  | succ passes => rw [readLoop, if_neg h]

theorem readStep_cursor_le (h : s.readOff ≤ frontLen s.buffers) :
    (readStep len datagram copyTo s).readOff ≤ frontLen (readStep len datagram copyTo s).buffers := by
  rcases hb : s.buffers with _ | ⟨buf, bufs⟩
  · simpa [readStep, hb] using h
  have hk : s.consumed len copyTo buf ≤ buf.data.length - s.readOff := consumed_le_left
  rw [hb, frontLen] at h
  by_cases hpop : s.readOff + s.consumed len copyTo buf = buf.data.length ∨ datagram = true
  · rw [readStep_pop hb hpop]
    exact Nat.zero_le _
  · rw [readStep_keep hb hpop]
    dsimp only [frontLen]
    omega

theorem readStep_progress (hcur : s.readOff ≤ frontLen s.buffers)
    (hg : s.pos < len ∧ s.buffers ≠ [] ∧ s.status = .ok) :
    (readStep len datagram copyTo s).buffers.length < s.buffers.length ∨
      ¬((readStep len datagram copyTo s).pos < len ∧ (readStep len datagram copyTo s).buffers ≠ [] ∧
        (readStep len datagram copyTo s).status = .ok) := by
  rcases hb : s.buffers with _ | ⟨buf, bufs⟩
  · exact absurd hb hg.2.1
  rw [hb, frontLen] at hcur
  by_cases hpop : s.readOff + s.consumed len copyTo buf = buf.data.length ∨ datagram = true
  · left
    simp [readStep_pop hb hpop]
  · right
    rw [readStep_keep hb hpop]
    rintro ⟨hlt, -, hok : copyTo s.pos = .ok⟩
    dsimp only at hlt
    rw [consumed_of_ok hok] at hpop hlt
    omega

/-- `buffers_.size() + 1` passes end the loop. -/
theorem readLoop_done {passes : ℕ} (h : s.buffers.length < passes) (hcur : s.readOff ≤ frontLen s.buffers) :
    ¬((readLoop len datagram copyTo passes s).pos < len ∧ (readLoop len datagram copyTo passes s).buffers ≠ [] ∧
      (readLoop len datagram copyTo passes s).status = .ok) := by
  induction passes generalizing s with
  | zero => exact absurd h (Nat.not_lt_zero _)
  | succ passes ih =>
    by_cases hg : s.pos < len ∧ s.buffers ≠ [] ∧ s.status = .ok
    · rw [readLoop, if_pos hg]
      rcases readStep_progress hcur hg with hlt | hstop
      · exact ih (lt_of_lt_of_le hlt (Nat.lt_succ_iff.mp h)) (readStep_cursor_le hcur)
      · rw [readLoop_of_not_guard hstop]
        exact hstop
    · rw [readLoop_of_not_guard hg]
      exact hg

theorem peekLoop_of_le {bufs : List (MBuf α)} {readOff pos : ℕ} {out : List α} (h : len ≤ pos) :
    peekLoop len copyTo bufs readOff pos out = (.ok, out) := by
  cases bufs with
  | nil => rfl
  | cons buf bufs => rw [peekLoop, if_neg (by omega)]

/-- `Peek`'s loop, which walks the buffers with an iterator and drops none,
returns the status and bytes of `Read`'s loop, which drops each buffer it uses
up, in either mode: by induction on the passes, each pass of one matched by a
step of the other. -/
theorem peekLoop_eq_readLoop {passes : ℕ} (h : s.buffers.length < passes)
    (hcur : s.readOff ≤ frontLen s.buffers) (hok : s.status = .ok) :
    peekLoop len copyTo s.buffers s.readOff s.pos s.out =
      ((readLoop len datagram copyTo passes s).status, (readLoop len datagram copyTo passes s).out) := by
  induction passes generalizing s with
  | zero => exact absurd h (Nat.not_lt_zero _)
  | succ passes ih =>
    rcases hb : s.buffers with _ | ⟨buf, bufs⟩
    · rw [readLoop_of_not_guard (by simp [hb]), hok]
      rfl
    by_cases hlt : s.pos < len
    swap
    · rw [readLoop_of_not_guard (by simp [hlt]), hok, peekLoop_of_le (by omega)]
    have hg : s.pos < len ∧ s.buffers ≠ [] ∧ s.status = .ok := ⟨hlt, by simp [hb], hok⟩
    rw [readLoop, if_pos hg, peekLoop, if_pos hlt]
    rw [hb, frontLen] at hcur
    by_cases hcopy : copyTo s.pos = .ok
    swap
    -- a failed copy stops both loops with nothing more copied
    · have hk : s.consumed len copyTo buf = 0 := if_neg hcopy
      have hstop : ¬((readStep len datagram copyTo s).pos < len ∧
          (readStep len datagram copyTo s).buffers ≠ [] ∧ (readStep len datagram copyTo s).status = .ok) := by
        rintro ⟨-, -, hst⟩
        rw [readStep_cons hb] at hst
        split_ifs at hst <;> exact hcopy hst
      rw [if_neg hcopy, readLoop_of_not_guard hstop, readStep_cons hb, hk]
      split_ifs <;> simp
    rw [if_pos hcopy]
    have hk : s.consumed len copyTo buf = min (buf.data.length - s.readOff) (len - s.pos) :=
      consumed_of_ok hcopy
    by_cases hpop : s.readOff + s.consumed len copyTo buf = buf.data.length ∨ datagram = true
    · have hlen : (readStep len datagram copyTo s).buffers.length < passes := by
        rw [readStep_pop hb hpop]
        simpa [hb] using h
      have hstep := ih hlen (readStep_cursor_le (by simpa [hb, frontLen] using hcur))
        (by rw [readStep_pop hb hpop]; exact hcopy)
      rw [← hstep, readStep_pop hb hpop, hk]
    · have hend : s.pos + s.consumed len copyTo buf = len := by
        rw [hk] at hpop ⊢
        omega
      have hstop : ¬((readStep len datagram copyTo s).pos < len ∧
          (readStep len datagram copyTo s).buffers ≠ [] ∧ (readStep len datagram copyTo s).status = .ok) := by
        rw [readStep_keep hb hpop]
        rintro ⟨hlt', -, -⟩
        exact absurd hend (by dsimp only at hlt'; omega)
      rw [readLoop_of_not_guard hstop, readStep_keep hb hpop, ← hk, peekLoop_of_le (by omega)]
      simp [hcopy]

theorem readStep_out (hb : s.buffers = buf :: bufs) (hr : s.readOff ≤ buf.data.length) :
    (readStep len datagram copyTo s).out = s.out ++ s.rest.take (s.consumed len copyTo buf) := by
  have hk : s.consumed len copyTo buf ≤ (buf.data.drop s.readOff).length := by
    simpa using consumed_le_left
  have hrest : s.rest = buf.data.drop s.readOff ++ bufs.flatMap MBuf.data := by
    rw [rest, hb, drop_flatMap_cons hr]
  rw [readStep_cons hb, hrest, List.take_append_of_le_length hk]
  split_ifs <;> rfl

theorem readStep_pos (hb : s.buffers = buf :: bufs) :
    (readStep len datagram copyTo s).pos = s.pos + s.consumed len copyTo buf := by
  rw [readStep_cons hb]
  split_ifs <;> rfl

theorem mem_readStep_buffers {b : MBuf α} (h : b ∈ (readStep len datagram copyTo s).buffers) :
    b ∈ s.buffers := by
  rcases hb : s.buffers with _ | ⟨buf, bufs⟩
  · simp [readStep, hb] at h
  by_cases hpop : s.readOff + s.consumed len copyTo buf = buf.data.length ∨ datagram = true
  · rw [readStep_pop hb hpop] at h
    exact List.mem_cons_of_mem buf h
  · rwa [readStep_keep hb hpop] at h

theorem readStep_rest_stream (hb : s.buffers = buf :: bufs) (hr : s.readOff ≤ buf.data.length) :
    (readStep len false copyTo s).rest = s.rest.drop (s.consumed len copyTo buf) ∧
      (readStep len false copyTo s).size = s.size - s.consumed len copyTo buf := by
  have hk : s.consumed len copyTo buf ≤ buf.data.length - s.readOff := consumed_le_left
  have hrest : s.rest = buf.data.drop s.readOff ++ bufs.flatMap MBuf.data := by
    rw [rest, hb, drop_flatMap_cons hr]
  rw [hrest, List.drop_append_of_le_length (by simpa using hk), List.drop_drop]
  by_cases hpop : s.readOff + s.consumed len copyTo buf = buf.data.length ∨ false = true
  · have hend : s.readOff + s.consumed len copyTo buf = buf.data.length := by simpa using hpop
    rw [readStep_pop hb hpop, hend, List.drop_length]
    exact ⟨rfl, rfl⟩
  · have hle : s.readOff + s.consumed len copyTo buf ≤ buf.data.length := by omega
    rw [readStep_keep hb hpop]
    refine ⟨?_, rfl⟩
    show ((buf :: bufs).flatMap MBuf.data).drop (s.readOff + s.consumed len copyTo buf) = _
    rw [drop_flatMap_cons hle]

end Loop

/-! ### Stream reads -/

section Stream

variable {len : ℕ} {copyTo : ℕ → ZxStatus} {whole : List α} {s : ReadState α}

/-- What the loop of a stream `Read` of up to `len` bytes keeps, `whole` being
the bytes not read when it began: the bytes copied out and the bytes not reached
make up `whole`, `pos` counts the first and `size_` the second. -/
structure ReadInv (len : ℕ) (whole : List α) (s : ReadState α) : Prop where
  out_append : s.out ++ s.rest = whole
  pos_eq : s.pos = s.out.length
  pos_le : s.pos ≤ len
  size_eq : s.size = s.rest.length
  cursor_le : s.readOff ≤ frontLen s.buffers
  len_le : ∀ buf ∈ s.buffers, buf.data.length ≤ kPayloadSize

theorem ReadInv.step (h : ReadInv len whole s) : ReadInv len whole (readStep len false copyTo s) := by
  rcases hb : s.buffers with _ | ⟨buf, bufs⟩
  · simpa [readStep, hb] using h
  have hr : s.readOff ≤ buf.data.length := by simpa [hb, frontLen] using h.cursor_le
  have hk : s.consumed len copyTo buf ≤ len - s.pos := consumed_le_right
  have hkrest : s.consumed len copyTo buf ≤ s.rest.length := by
    have hkl : s.consumed len copyTo buf ≤ buf.data.length - s.readOff := consumed_le_left
    simp only [rest, hb, drop_flatMap_cons hr, List.length_append, List.length_drop]
    omega
  have hstep : (readStep len false copyTo s).rest = s.rest.drop (s.consumed len copyTo buf) ∧
      (readStep len false copyTo s).size = s.size - s.consumed len copyTo buf :=
    readStep_rest_stream hb hr
  obtain ⟨hrest, hsize⟩ := hstep
  have hpos := h.pos_le
  refine ⟨?_, ?_, ?_, ?_, readStep_cursor_le h.cursor_le,
    fun b hmem ↦ h.len_le b (mem_readStep_buffers hmem)⟩
  · rw [readStep_out hb hr, hrest, List.append_assoc, List.take_append_drop, h.out_append]
  · rw [readStep_pos hb, readStep_out hb hr, List.length_append, List.length_take, h.pos_eq,
      min_eq_left hkrest]
  · rw [readStep_pos hb]
    omega
  · rw [hsize, hrest, List.length_drop, h.size_eq]

/-- The run lemma: the whole loop keeps `ReadInv`, by induction on its passes. -/
theorem ReadInv.readLoop (passes : ℕ) (h : ReadInv len whole s) :
    ReadInv len whole (readLoop len false copyTo passes s) := by
  induction passes generalizing s with
  | zero => exact h
  | succ passes ih =>
    rw [MBufChain.readLoop]
    split_ifs
    · exact ih h.step
    · exact h

end Stream

end ReadState

/-! ### Stream calls -/

section StreamCalls

open ReadState

variable {c c' : MBufChain α} {len : ℕ} {copyTo : ℕ → ZxStatus} {status : ZxStatus} {out : List α}

theorem readLen_false (c : MBufChain α) (len : ℕ) : c.readLen len false = len := by
  unfold readLen
  split <;> simp

/-- `Peek` returns the status and the bytes that `Read` would, in either mode,
from any chain whose cursor lies in its first buffer. -/
theorem peek_eq_read (hcur : c.readCursorOff ≤ frontLen c.buffers) (datagram : Bool) :
    c.peek len datagram copyTo = ((c.read len datagram copyTo).1, (c.read len datagram copyTo).2.1) := by
  unfold peek MBufChain.read
  by_cases hz : c.size = 0
  · rw [if_pos hz, if_pos hz]
  rw [if_neg hz, if_neg hz,
    peekLoop_eq_readLoop (s := ⟨c.buffers, c.readCursorOff, 0, c.size, .ok, []⟩) (Nat.lt_succ_self _) hcur rfl]

/-- A stream `Read` takes the `*actual` bytes it delivers off the front of the
bytes not read, at most `len` of them, whether or not a copy fails, and keeps
the invariant; when no copy fails it delivers all it can, `min len size_`. -/
theorem StreamInv.read (hc : c.StreamInv) (h : c.read len false copyTo = (status, out, c')) :
    c'.StreamInv ∧ out.length ≤ len ∧ out ++ c'.content = c.content ∧
      (status = .ok → out.length = min len c.content.length) := by
  have hsize := hc.size_eq
  unfold MBufChain.read at h
  by_cases hz : c.size = 0
  · simp only [hz, if_true, Prod.mk.injEq] at h
    obtain ⟨rfl, rfl, rfl⟩ := h
    refine ⟨hc, Nat.zero_le _, rfl, fun _ ↦ ?_⟩
    simp [← hsize, hz]
  rw [if_neg hz, readLen_false] at h
  simp only [Bool.false_eq_true, if_false, Prod.mk.injEq] at h
  set s := readLoop len false copyTo (c.buffers.length + 1) ⟨c.buffers, c.readCursorOff, 0, c.size, .ok, []⟩
  obtain ⟨rfl, rfl, rfl⟩ := h
  have hinit : ReadInv len c.content ⟨c.buffers, c.readCursorOff, 0, c.size, .ok, []⟩ :=
    ⟨rfl, rfl, Nat.zero_le _, hsize, hc.cursor_le, hc.len_le⟩
  have hinv : ReadInv len c.content s := hinit.readLoop _
  have hdone : ¬(s.pos < len ∧ s.buffers ≠ [] ∧ s.status = .ok) :=
    readLoop_done (Nat.lt_succ_self _) hc.cursor_le
  have hlen : s.out.length + s.rest.length = c.content.length := by
    rw [← List.length_append, hinv.out_append]
  have hpos := hinv.pos_le
  have hout := hinv.pos_eq
  refine ⟨⟨hinv.len_le, hinv.cursor_le, hinv.size_eq, ?_⟩, by omega, hinv.out_append, fun hok ↦ ?_⟩
  · have := hc.size_le
    have := hinv.size_eq
    show s.size ≤ kSizeMax
    omega
  by_cases hlt : s.pos < len
  · have hnil : s.buffers = [] := by
      by_contra hne
      exact hdone ⟨hlt, hne, hok⟩
    have hrest : s.rest = [] := by simp [rest, hnil]
    rw [hrest, List.length_nil] at hlen
    omega
  · omega

end StreamCalls

theorem peek_eq_read_midBuffer :
    let c : MBufChain ℕ := ⟨[⟨[1, 2, 3], 0⟩], 1, 2⟩
    c.readCursorOff ≤ frontLen c.buffers ∧
      c.peek 4 false (fun _ ↦ .ok) = ((c.read 4 false (fun _ ↦ .ok)).1, (c.read 4 false (fun _ ↦ .ok)).2.1) :=
  ⟨by decide, peek_eq_read (by decide) false⟩

/-- A stream `Read` that succeeds returns the first `len` bytes not read, and
leaves the rest. -/
theorem StreamInv.read_ok {c c' : MBufChain α} {len : ℕ} {copyTo : ℕ → ZxStatus} {out : List α}
    (hc : c.StreamInv) (h : c.read len false copyTo = (.ok, out, c')) :
    out = c.content.take len ∧ c'.content = c.content.drop len := by
  obtain ⟨-, -, happ, hlen⟩ := hc.read h
  have hout : out.length = min len c.content.length := hlen rfl
  have hprefix : out <+: c.content := ⟨c'.content, happ⟩
  constructor
  · rw [List.prefix_iff_eq_take.mp hprefix, hout]
    exact List.take_eq_take_min.symm
  · have hdrop : c.content.drop out.length = c'.content := by rw [← happ, List.drop_left]
    rw [← hdrop, hout]
    exact List.drop_eq_drop_min.symm

theorem StreamInv.read_ok_twoOfThree :
    let c : MBufChain ℕ := ⟨[⟨[7, 8, 9], 0⟩], 0, 3⟩
    c.StreamInv ∧ c.read 2 false (fun _ ↦ .ok) = (.ok, [7, 8], ⟨[⟨[7, 8, 9], 0⟩], 2, 1⟩) ∧
      ([7, 8] = c.content.take 2 ∧ (⟨[⟨[7, 8, 9], 0⟩], 2, 1⟩ : MBufChain ℕ).content = c.content.drop 2) :=
  have hc : (⟨[⟨[7, 8, 9], 0⟩], 0, 3⟩ : MBufChain ℕ).StreamInv := ⟨by decide, by decide, by decide, by decide⟩
  have hr : (⟨[⟨[7, 8, 9], 0⟩], 0, 3⟩ : MBufChain ℕ).read 2 false (fun _ ↦ .ok) =
      (.ok, [7, 8], ⟨[⟨[7, 8, 9], 0⟩], 2, 1⟩) := rfl
  ⟨hc, hr, StreamInv.read_ok hc hr⟩

/-! ### Runs of stream calls -/

/-- A call on the chain of a stream socket: `WriteStream`, or `Read` or `Peek`
with `datagram` false, with the statuses of its user copies and, for a write,
whether its page allocation succeeds. -/
inductive StreamCall (α : Type*) where
  | writeStream (src : ℕ → α) (len : ℕ) (copyFrom : ℕ → ZxStatus) (allocOk : Bool)
  | read (len : ℕ) (copyTo : ℕ → ZxStatus)
  | peek (len : ℕ) (copyTo : ℕ → ZxStatus)

/-- What a call returns: its status and `*written`, or its status and the bytes
`dst[0, *actual)`. -/
inductive ChainReturn (α : Type*) where
  | written (status : ZxStatus) (written : ℕ)
  | read (status : ZxStatus) (out : List α)

/-- One call on a stream chain: the chain after it, and what it returns. -/
def streamStep (c : MBufChain α) : StreamCall α → MBufChain α × ChainReturn α
  | .writeStream src len copyFrom allocOk =>
    let r := c.writeStream src len copyFrom allocOk
    (r.2.2, .written r.1 r.2.1)
  | .read len copyTo =>
    let r := c.read len false copyTo
    (r.2.2, .read r.1 r.2.1)
  | .peek len copyTo =>
    let r := c.peek len false copyTo
    (c, .read r.1 r.2)

/-- The bytes a call adds to the stream: a write's first `*written` bytes. -/
def StreamCall.accepted : StreamCall α → ChainReturn α → List α
  | .writeStream src _ _ _, .written _ written => userBytes src 0 written
  | _, _ => []

/-- The bytes a call takes off the stream: a read's `*actual` bytes, a peek's
none. -/
def StreamCall.delivered : StreamCall α → ChainReturn α → List α
  | .read _ _, .read _ out => out
  | _, _ => []

theorem StreamInv.streamStep {c : MBufChain α} (hc : c.StreamInv) (call : StreamCall α) :
    (c.streamStep call).1.StreamInv ∧
      call.delivered (c.streamStep call).2 ++ (c.streamStep call).1.content =
        c.content ++ call.accepted (c.streamStep call).2 := by
  cases call with
  | writeStream src len copyFrom allocOk =>
    rcases hw : c.writeStream src len copyFrom allocOk with ⟨status, written, c'⟩
    obtain ⟨hinv, -, hcontent⟩ := hc.writeStream hw
    simp only [MBufChain.streamStep, hw, StreamCall.delivered, StreamCall.accepted, List.nil_append]
    exact ⟨hinv, hcontent⟩
  | read len copyTo =>
    rcases hr : c.read len false copyTo with ⟨status, out, c'⟩
    obtain ⟨hinv, -, hout, -⟩ := hc.read hr
    simp only [MBufChain.streamStep, hr, StreamCall.delivered, StreamCall.accepted, List.append_nil]
    exact ⟨hinv, hout⟩
  | peek len copyTo => exact ⟨hc, by simp [MBufChain.streamStep, StreamCall.delivered, StreamCall.accepted]⟩

/-- Over any run of `WriteStream`, `Read` and `Peek` calls from a chain that
keeps `StreamInv`, it keeps `StreamInv` (`size_` is the count of bytes not read,
at most `kSizeMax`), and the bytes all the reads returned, then those not read,
are the bytes there at the start, then the first `*written` bytes of each write:
whichever copies and allocations fail, no byte is lost, duplicated or
reordered. -/
theorem StreamInv.streamRun {c : MBufChain α} (hc : c.StreamInv) (calls : List (StreamCall α)) :
    (Lib.run MBufChain.streamStep c calls).1.StreamInv ∧
      Lib.items StreamCall.delivered calls (Lib.run MBufChain.streamStep c calls).2 ++
          (Lib.run MBufChain.streamStep c calls).1.content =
        c.content ++ Lib.items StreamCall.accepted calls (Lib.run MBufChain.streamStep c calls).2 :=
  ⟨Lib.run_invariant StreamInv (fun _ call h ↦ (h.streamStep call).1) hc calls,
    Lib.run_fifo StreamInv content StreamCall.accepted StreamCall.delivered
      (fun _ call h ↦ (h.streamStep call).1) (fun _ call h ↦ (h.streamStep call).2) hc calls⟩

/-- The bytes a call hands over when it succeeds: those of a `Read` that
returns `ZX_OK`. -/
def StreamCall.deliveredOk : StreamCall α → ChainReturn α → List α
  | .read _ _, .read .ok out => out
  | _, _ => []

/-- A write of one byte more than a buffer holds, a `Read` of all of it whose
copy fails at the second buffer, and a `Read` of one byte. -/
def failedCopyCalls : List (StreamCall ℕ) :=
  [.writeStream id (kPayloadSize + 1) (fun _ ↦ .ok) true,
    .read (kPayloadSize + 1) (fun pos ↦ if pos = 0 then .ok else .errInvalidArgs), .read 1 (fun _ ↦ .ok)]

/-- The failed `Read` consumed the buffer it copied before its copy failed, so
the one `Read` that succeeds returns the last byte written, which is no prefix
of the bytes written. -/
theorem streamRead_failedCopy_consumes :
    Lib.items StreamCall.deliveredOk failedCopyCalls (Lib.run streamStep empty failedCopyCalls).2 = [kPayloadSize] ∧
      ¬Lib.items StreamCall.deliveredOk failedCopyCalls (Lib.run streamStep empty failedCopyCalls).2 <+:
        Lib.items StreamCall.accepted failedCopyCalls (Lib.run streamStep empty failedCopyCalls).2 := by
  decide +kernel

end MBufChain

end Zircon.Object
