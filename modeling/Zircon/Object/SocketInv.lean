import Mathlib
import Zircon.Object.MBufDatagram
import Zircon.Object.Socket

/-!
# The signals of a socket over its runs

The signals of an endpoint report the state of the chains: `READABLE` that its
chain holds bytes, `READ_THRESHOLD` that it holds at least the read threshold,
`WRITE_THRESHOLD` that its peer's chain has room for the write threshold.
The calls only ever raise such a signal when a chain grows towards it and lower
it when a chain shrinks away from it, so that they are exact relies on each call
moving the chains in one direction: a write only adds to one chain, a read only
takes from one (`MBufChain.ChainInv.write`, `MBufChain.ChainInv.read`).

`SocketInv` collects what every run keeps, from `Create` on: the chains keep
their own invariants, the three signals above are exact, `PEER_CLOSED` is
exact, and while both endpoints are open the two ends of a disposition agree:
an endpoint has `WRITE_DISABLED` exactly when its peer has
`PEER_WRITE_DISABLED` and `read_disabled_`.  In stream mode no wakeup is lost:
an open endpoint whose writes are enabled and whose peer's chain has room is
`WRITABLE`.  In datagram mode that last fact fails (`dgram_writable_lost`): a
`Read` that fails to copy a packet out still drops it, frees room, reports no
byte read, and `WRITABLE` waits for `actual > 0`.
-/

namespace Zircon.Object

namespace MBufChain

variable {α : Type*} {c c' : MBufChain α} {datagram : Bool}

/-- What the calls keep of a chain: `StreamInv` in stream mode, in datagram mode
`DgramInv` of the packets its buffers hold. -/
def ChainInv (datagram : Bool) (c : MBufChain α) : Prop :=
  if datagram then c.DgramInv (packetsOf c.buffers) else c.StreamInv

theorem chainInv_empty (datagram : Bool) : (empty : MBufChain α).ChainInv datagram := by
  cases datagram
  · exact streamInv_empty
  · show (empty : MBufChain α).DgramInv (packetsOf [])
    rw [packetsOf]
    exact dgramInv_empty

theorem ChainInv.size_le (h : c.ChainInv datagram) : c.size ≤ kSizeMax := by
  cases datagram
  · exact StreamInv.size_le h
  · exact DgramInv.size_le h

theorem ChainInv.write {src : ℕ → α} {len : ℕ} {copyFrom : ℕ → ZxStatus} {allocOk : Bool}
    {status : ZxStatus} {st : ℕ} (hc : c.ChainInv datagram)
    (h : (if datagram then c.writeDatagram src len copyFrom allocOk
      else c.writeStream src len copyFrom allocOk) = (status, st, c')) :
    c'.ChainInv datagram ∧ c'.size = c.size + st := by
  cases datagram
  · have hc : c.StreamInv := hc
    obtain ⟨hinv, -, hcontent⟩ := hc.writeStream h
    refine ⟨hinv, ?_⟩
    rw [hinv.size_eq, hc.size_eq, hcontent, List.length_append, length_userBytes]
  · have hc : c.DgramInv (packetsOf c.buffers) := hc
    rcases hc.writeDatagram h with ⟨-, -, rfl, hc'⟩ | ⟨-, rfl, rfl⟩
    · have hps := hc'.packets.packetsOf_eq
      refine ⟨show c'.DgramInv (packetsOf c'.buffers) by rwa [hps], ?_⟩
      rw [hc'.size_eq, hc.size_eq]
      simp
    · exact ⟨hc, rfl⟩

theorem ChainInv.read {len : ℕ} {copyTo : ℕ → ZxStatus} {status : ZxStatus} {out : List α}
    (hc : c.ChainInv datagram) (h : c.read len datagram copyTo = (status, out, c')) :
    c'.ChainInv datagram ∧ c'.size ≤ c.size ∧ (datagram = false → c'.size + out.length = c.size) := by
  cases datagram
  · have hc : c.StreamInv := hc
    obtain ⟨hinv, -, happ, -⟩ := hc.read h
    have hlen : c'.size + out.length = c.size := by
      rw [hinv.size_eq, hc.size_eq, ← happ, List.length_append, Nat.add_comm]
    exact ⟨hinv, by omega, fun _ ↦ hlen⟩
  · have hc : c.DgramInv (packetsOf c.buffers) := hc
    suffices hc' : c' = c ∨ ∃ ps, c'.DgramInv ps ∧ ps.flatten.length ≤ c.size by
      rcases hc' with rfl | ⟨ps, hc', hle⟩
      · exact ⟨hc, le_rfl, nofun⟩
      · refine ⟨show c'.DgramInv (packetsOf c'.buffers) by rwa [hc'.packets.packetsOf_eq], ?_, nofun⟩
        rw [hc'.size_eq]
        exact hle
    rcases hps : packetsOf c.buffers with _ | ⟨q, ps⟩ <;> rw [hps] at hc
    · have hz : c.size = 0 := by simpa using hc.size_eq
      rw [MBufChain.read, if_pos hz] at h
      cases h
      exact .inl rfl
    · obtain ⟨-, -, hpos, hzero⟩ := hc.read h
      rcases Nat.eq_zero_or_pos len with rfl | hlen
      · exact .inl (hzero rfl).1
      · exact .inr ⟨ps, hpos hlen, by rw [hc.size_eq]; simp⟩

theorem read_of_copy_fail {len : ℕ} {copyTo : ℕ → ZxStatus} (hsize : c.size ≠ 0) (hbuf : c.buffers ≠ [])
    (hlen : 0 < c.readLen len datagram) (hfail : copyTo 0 ≠ .ok) :
    (c.read len datagram copyTo).1 = copyTo 0 ∧ (c.read len datagram copyTo).2.1 = [] := by
  obtain ⟨buf, bufs, hb⟩ := List.exists_cons_of_ne_nil hbuf
  let s₀ : ReadState α := ⟨c.buffers, c.readCursorOff, 0, c.size, .ok, []⟩
  have hb₀ : s₀.buffers = buf :: bufs := hb
  have hnone : s₀.consumed (c.readLen len datagram) copyTo buf = 0 := if_neg hfail
  have hstep : (readStep (c.readLen len datagram) datagram copyTo s₀).status = copyTo 0 ∧
      (readStep (c.readLen len datagram) datagram copyTo s₀).out = [] := by
    rw [ReadState.readStep_cons hb₀, hnone]
    split_ifs <;> exact ⟨rfl, by simp [s₀]⟩
  have hloop : readLoop (c.readLen len datagram) datagram copyTo (c.buffers.length + 1) s₀ =
      readStep (c.readLen len datagram) datagram copyTo s₀ := by
    rw [readLoop, if_pos ⟨hlen, hbuf, rfl⟩, ReadState.readLoop_of_not_guard (by simp [hstep.1, hfail])]
  unfold MBufChain.read
  rw [if_neg hsize]
  dsimp only
  rw [hloop]
  exact hstep

theorem read_of_copy_ok {len : ℕ} {copyTo : ℕ → ZxStatus} (hcopy : ∀ i, copyTo i = .ok) :
    (c.read len datagram copyTo).1 = .ok := by
  have hloop : ∀ passes (s : ReadState α), s.status = .ok →
      (readLoop (c.readLen len datagram) datagram copyTo passes s).status = .ok := by
    intro passes
    induction passes with
    | zero => exact fun _ hs ↦ hs
    | succ passes ih =>
      intro s hs
      rw [readLoop]
      split_ifs with hg
      · apply ih
        obtain ⟨buf, bufs, hb⟩ := List.exists_cons_of_ne_nil hg.2.1
        rw [ReadState.readStep_cons hb]
        split_ifs <;> exact hcopy s.pos
      · exact hs
  unfold MBufChain.read
  by_cases hz : c.size = 0
  · rw [if_pos hz]
  · rw [if_neg hz]
    dsimp only
    exact hloop _ _ rfl

theorem size_ne_zero_of_sizeWith (h : 0 < c.sizeWith datagram) : c.size ≠ 0 := by
  unfold sizeWith at h
  split_ifs at h with hd
  · exact hd.2
  · exact h.ne'

theorem ChainInv.sizeWith (hc : c.ChainInv datagram) :
    c.sizeWith datagram =
      if datagram then ((packetsOf c.buffers).head?.map List.length).getD 0 else c.content.length := by
  cases datagram
  · have hc : c.StreamInv := hc
    simp [MBufChain.sizeWith, hc.size_eq]
  · have hc : c.DgramInv (packetsOf c.buffers) := hc
    have hpk := hc.packets
    generalize hps : packetsOf c.buffers = ps at hc hpk
    generalize hb : c.buffers = bufs at hpk
    cases hpk with
    | nil =>
      have hz : c.size = 0 := by simpa using hc.size_eq
      simp [MBufChain.sizeWith, hz]
    | cons _ hlen hpos _ =>
      have hz : c.size ≠ 0 := by
        rw [hc.size_eq]
        simp only [List.flatten_cons, List.length_append] at hlen ⊢
        omega
      simp [MBufChain.sizeWith, hz, hb, hlen]

/-- A read of at least `size(datagram)` bytes, on a chain the calls can leave
that holds some, whose copies all succeed, returns `ZX_OK` and all of the first
packet in datagram mode, all the bytes not read in stream mode: as many bytes as
`size(datagram)`. -/
theorem ChainInv.read_all {len : ℕ} {copyTo : ℕ → ZxStatus} (hc : c.ChainInv datagram)
    (hcopy : ∀ i, copyTo i = .ok) (hpos : 0 < c.sizeWith datagram) (hle : c.sizeWith datagram ≤ len) :
    (c.read len datagram copyTo).1 = .ok ∧
      (c.read len datagram copyTo).2.1 =
        (if datagram then (packetsOf c.buffers).head?.getD [] else c.content) ∧
      (c.read len datagram copyTo).2.1.length = c.sizeWith datagram := by
  have hok : (c.read len datagram copyTo).1 = .ok := read_of_copy_ok hcopy
  have hsize := hc.sizeWith
  rcases h : c.read len datagram copyTo with ⟨status, out, c'⟩
  rw [h] at hok
  dsimp only at hok ⊢
  subst hok
  refine ⟨rfl, ?_⟩
  cases datagram
  · have hc : c.StreamInv := hc
    obtain ⟨-, -, happ, hlen⟩ := hc.read h
    simp only [Bool.false_eq_true, if_false] at hsize hle ⊢
    have hout : out.length = c.content.length := by
      rw [hlen rfl]
      omega
    have hnil : c'.content = [] := by
      rw [← List.length_eq_zero_iff]
      rw [← happ, List.length_append] at hout
      omega
    rw [hsize, hout]
    refine ⟨?_, rfl⟩
    rw [← happ, hnil, List.append_nil]
  · have hc : c.DgramInv (packetsOf c.buffers) := hc
    simp only [if_true] at hsize hle ⊢
    rcases hps : packetsOf c.buffers with _ | ⟨pk, ps⟩
    · rw [hsize, hps] at hpos
      simp at hpos
    rw [hps] at hc hsize
    rw [hsize] at hle ⊢
    obtain ⟨-, hout, -, -⟩ := hc.read h
    simp only [List.head?_cons, Option.map_some, Option.getD_some] at hle ⊢
    rw [hout rfl, List.take_of_length_le hle]
    exact ⟨rfl, rfl⟩

end MBufChain

namespace SocketPair

variable {α : Type*} {p p' : SocketPair α}

/-- What every run keeps of a socket: see the module's doc. -/
structure SocketInv (p : SocketPair α) : Prop where
  chain : ∀ s, (p.ep s).data.ChainInv p.datagram
  readable : ∀ s, SocketSignal.readable ∈ (p.ep s).signals ↔ 0 < (p.ep s).data.size
  readThreshold : ∀ s, SocketSignal.readThreshold ∈ (p.ep s).signals ↔
    0 < (p.ep s).readThreshold ∧ (p.ep s).readThreshold ≤ (p.ep s).data.size
  writeThreshold : ∀ s, p.hasHandles s = true → (SocketSignal.writeThreshold ∈ (p.ep s).signals ↔
    0 < (p.ep s).writeThreshold ∧ (p.ep s).writeThreshold ≤ kSizeMax - (p.ep !s).data.size)
  peerClosed : ∀ s, p.hasHandles s = true →
    (SocketSignal.peerClosed ∈ (p.ep s).signals ↔ p.hasHandles (!s) = false)
  peerWriteDisabled : ∀ s, p.hasHandles s = true → p.hasHandles (!s) = true →
    (SocketSignal.writeDisabled ∈ (p.ep s).signals ↔ SocketSignal.peerWriteDisabled ∈ (p.ep !s).signals)
  readDisabled : ∀ s, p.hasHandles s = true → p.hasHandles (!s) = true →
    (SocketSignal.writeDisabled ∈ (p.ep s).signals ↔ (p.ep !s).readDisabled = true)
  writable : ∀ s, p.datagram = false → p.hasHandles s = true → p.hasHandles (!s) = true →
    SocketSignal.writeDisabled ∉ (p.ep s).signals → (p.ep !s).data.size < kSizeMax →
    SocketSignal.writable ∈ (p.ep s).signals

theorem socketInv_create (datagram : Bool) : (create datagram : SocketPair α).SocketInv where
  chain _ := MBufChain.chainInv_empty datagram
  readable _ := by simp [create, MBufChain.empty]
  readThreshold _ := by simp [create]
  writeThreshold _ _ := by simp [create]
  peerClosed _ _ := by simp [create]
  peerWriteDisabled _ _ _ := by simp [create]
  readDisabled _ _ _ := by simp [create]
  writable _ _ _ _ _ _ := by simp [create]

section Write

variable {u : Bool} {src : ℕ → α} {len : ℕ} {copyFrom : ℕ → ZxStatus} {allocOk : Bool}
  {status : ZxStatus} {st : ℕ}

theorem SocketInv.writeSelfLocked (hp : p.SocketInv) (hw : p.hasHandles (!u) = true)
    (h : p.writeSelfLocked u src len copyFrom allocOk = (status, st, p')) : p'.SocketInv := by
  unfold SocketPair.writeSelfLocked at h
  dsimp only at h
  by_cases hfull : (p.ep u).data.isFull = true
  · rw [if_pos hfull] at h
    cases h
    exact hp
  rw [if_neg hfull] at h
  rcases hwr : (if p.datagram then (p.ep u).data.writeDatagram src len copyFrom allocOk
      else (p.ep u).data.writeStream src len copyFrom allocOk) with ⟨status₀, st₀, c'⟩
  rw [hwr] at h
  simp only [Prod.mk.injEq] at h
  obtain ⟨rfl, rfl, rfl⟩ := h
  obtain ⟨hc', hsize⟩ := MBufChain.ChainInv.write (hp.chain u) hwr
  have hle := hc'.size_le
  simp only [MBufChain.isFull, decide_eq_true_eq, not_le] at hfull
  constructor
  · refine forall_side u ?_ ?_
    · simpa using hc'
    · simpa using hp.chain (!u)
  · refine forall_side u ?_ ?_
    · simp [hp.readable u, MBufChain.isEmpty, hsize]
      omega
    · simpa using hp.readable (!u)
  · refine forall_side u ?_ ?_
    · simp [hp.readThreshold u, hsize]
      omega
    · simpa using hp.readThreshold (!u)
  · refine forall_side u ?_ ?_
    · simpa using hp.writeThreshold u
    · intro ho
      simp [hp.writeThreshold (!u) ho, peerOpen, hw, hsize]
      omega
  · refine forall_side u ?_ ?_
    · simpa using hp.peerClosed u
    · simpa using hp.peerClosed (!u)
  · refine forall_side u ?_ ?_
    · simpa using hp.peerWriteDisabled u
    · simpa using hp.peerWriteDisabled (!u)
  · refine forall_side u ?_ ?_
    · simpa using hp.readDisabled u
    · simpa using hp.readDisabled (!u)
  · refine forall_side u ?_ ?_
    · intro hd ho ho' hen hroom
      have h := hp.writable u hd ho ho' (by simpa using hen) (by simpa using hroom)
      simp [h]
    -- the writer stays writable while the chain it wrote to has room
    · intro hd ho ho' hen hroom
      have hroom' : c'.size < kSizeMax := by simpa using hroom
      have h := hp.writable (!u) hd ho ho' (by simpa using hen) (by simp only [Bool.not_not]; omega)
      simp [h, MBufChain.isFull, hroom']

variable {s : Bool}

theorem SocketInv.write (hp : p.SocketInv) (hs : p.hasHandles s = true)
    (h : p.write s src len copyFrom allocOk = (status, st, p')) : p'.SocketInv := by
  unfold SocketPair.write at h
  split_ifs at h
  any_goals cases h; exact hp
  exact hp.writeSelfLocked (by simpa using hs) h

end Write

section Read

variable {s : Bool} {type : ReadType} {len : ℕ} {copyTo : ℕ → ZxStatus} {status : ZxStatus}
  {out : List α}

theorem SocketInv.read (hp : p.SocketInv) (h : p.read s type len copyTo = (status, out, p')) :
    p'.SocketInv := by
  unfold SocketPair.read at h
  dsimp only at h
  by_cases hlen : len % 2 ^ 32 ≠ len
  · rw [if_pos hlen] at h
    cases h
    exact hp
  rw [if_neg hlen] at h
  by_cases hempty : (p.ep s).data.isEmpty = true
  · rw [if_pos hempty] at h
    split_ifs at h <;> cases h <;> exact hp
  rw [if_neg hempty] at h
  cases type with
  | peek =>
    cases h
    exact hp
  | consume =>
  rcases hr : (p.ep s).data.read len p.datagram copyTo with ⟨status₀, out₀, c'⟩
  dsimp only at h
  rw [hr] at h
  dsimp only at h
  simp only [Prod.mk.injEq] at h
  obtain ⟨rfl, rfl, rfl⟩ := h
  obtain ⟨hc', hle, hstream⟩ := MBufChain.ChainInv.read (hp.chain s) hr
  have hpos : 0 < (p.ep s).data.size := by
    simpa [MBufChain.isEmpty, Nat.pos_iff_ne_zero] using hempty
  rw [ite_setEp, setEp_peerOpen]
  constructor
  · refine forall_side s ?_ ?_
    · simpa using hc'
    · split <;> simpa using hp.chain (!s)
  · refine forall_side s ?_ ?_
    · simp [hp.readable s, MBufChain.isEmpty]
      omega
    · split <;> simpa using hp.readable (!s)
  · refine forall_side s ?_ ?_
    · simp [hp.readThreshold s]
      grind
    · split <;> simpa using hp.readThreshold (!s)
  · refine forall_side s ?_ ?_
    · split <;> simpa using hp.writeThreshold s
    · intro ho
      have ho' : p.hasHandles (!s) = true := by simpa using ho
      have hpo : p.peerOpen s = true := ho'
      simp [hpo, hp.writeThreshold (!s) ho']
      omega
  · refine forall_side s ?_ ?_
    · simpa using hp.peerClosed s
    · split <;> simpa using hp.peerClosed (!s)
  · refine forall_side s ?_ ?_
    · split <;> simpa using hp.peerWriteDisabled s
    · split <;> simpa using hp.peerWriteDisabled (!s)
  · refine forall_side s ?_ ?_
    · split <;> simpa using hp.readDisabled s
    · split <;> simpa using hp.readDisabled (!s)
  · refine forall_side s ?_ ?_
    · split <;> simpa using hp.writable s
    -- the writer is woken when the read makes room in a full chain
    · intro hd ho ho' hen hroom
      simp at hd ho ho' hroom
      have hpo : p.peerOpen s = true := ho
      simp only [hpo, if_true, setEp_ep_self, SocketDispatcher.mem_updateStateLocked_signals] at hen ⊢
      by_cases hfull : kSizeMax ≤ (p.ep s).data.size
      · have := hstream hd
        simp [MBufChain.isFull, hfull]
        omega
      · have h := hp.writable (!s) hd ho (by simpa using ho') (by simpa using hen) (by simp only [Bool.not_not]; omega)
        simp [h]

end Read

section Thresholds

variable {s : Bool} {e : SocketDispatcher α}

theorem SocketInv.setEp_thresholds (hp : p.SocketInv) (hdata : e.data = (p.ep s).data)
    (hrd : e.readDisabled = (p.ep s).readDisabled)
    (hsig : ∀ x, x ≠ .readThreshold → x ≠ .writeThreshold → (x ∈ e.signals ↔ x ∈ (p.ep s).signals))
    (hrt : SocketSignal.readThreshold ∈ e.signals ↔ 0 < e.readThreshold ∧ e.readThreshold ≤ e.data.size)
    (hwt : p.hasHandles s = true → (SocketSignal.writeThreshold ∈ e.signals ↔
      0 < e.writeThreshold ∧ e.writeThreshold ≤ kSizeMax - (p.ep !s).data.size)) :
    (p.setEp s e).SocketInv := by
  have hsig' : ∀ x, x ≠ .readThreshold → x ≠ .writeThreshold →
      (x ∈ e.signals ↔ x ∈ (p.ep s).signals) := hsig
  constructor
  · refine forall_side s ?_ ?_
    · simpa [hdata] using hp.chain s
    · simpa using hp.chain (!s)
  · refine forall_side s ?_ ?_
    · simpa [hdata, hsig' .readable] using hp.readable s
    · simpa using hp.readable (!s)
  · refine forall_side s ?_ ?_
    · simpa using hrt
    · simpa using hp.readThreshold (!s)
  · refine forall_side s ?_ ?_
    · simpa using hwt
    · simpa [hdata] using hp.writeThreshold (!s)
  · refine forall_side s ?_ ?_
    · simpa [hsig' .peerClosed] using hp.peerClosed s
    · simpa using hp.peerClosed (!s)
  · refine forall_side s ?_ ?_
    · simpa [hsig' .writeDisabled] using hp.peerWriteDisabled s
    · simpa [hsig' .peerWriteDisabled] using hp.peerWriteDisabled (!s)
  · refine forall_side s ?_ ?_
    · simpa [hsig' .writeDisabled] using hp.readDisabled s
    · simpa [hrd] using hp.readDisabled (!s)
  · refine forall_side s ?_ ?_
    · simpa [hsig' .writeDisabled, hsig' .writable] using hp.writable s
    · simpa [hdata] using hp.writable (!s)

variable {value : ℕ} {status : ZxStatus}

theorem SocketInv.setReadThreshold (hp : p.SocketInv) (h : p.setReadThreshold s value = (status, p')) :
    p'.SocketInv := by
  unfold SocketPair.setReadThreshold at h
  dsimp only at h
  split_ifs at h with hv h0 hle <;> simp only [Prod.mk.injEq] at h <;> obtain ⟨-, rfl⟩ := h
  · exact hp
  all_goals
    refine hp.setEp_thresholds rfl rfl (fun x h1 h2 ↦ by simp [h1]) ?_ (by simpa using hp.writeThreshold s)
    simp
    omega

theorem SocketInv.setWriteThreshold (hp : p.SocketInv) (h : p.setWriteThreshold s value = (status, p')) :
    p'.SocketInv := by
  unfold SocketPair.setWriteThreshold at h
  dsimp only at h
  split_ifs at h with hpo hv h0 hle <;> simp only [Prod.mk.injEq] at h <;> obtain ⟨-, rfl⟩ := h
  · exact hp
  · exact hp
  all_goals
    refine hp.setEp_thresholds rfl rfl (fun x h1 h2 ↦ by simp [h2]) (by simpa using hp.readThreshold s) ?_
    intro
    simp
    omega

end Thresholds

section Disposition

variable {s : Bool} {d dp : Disposition} {status : ZxStatus}

theorem SocketInv.setDisposition (hp : p.SocketInv) (h : p.setDisposition s d dp = (status, p')) :
    p'.SocketInv := by
  unfold SocketPair.setDisposition at h
  dsimp only at h
  split_ifs at h with hnone hvalid hpo hvalid' <;> simp only [Prod.mk.injEq] at h <;> obtain ⟨-, rfl⟩ := h
  any_goals exact hp
  -- both endpoints take their new dispositions
  · have ho : p.hasHandles (!s) = true := hpo
    constructor
    · refine forall_side s ?_ ?_
      · simpa using hp.chain s
      · simpa using hp.chain (!s)
    · refine forall_side s ?_ ?_
      · simpa using hp.readable s
      · simpa using hp.readable (!s)
    · refine forall_side s ?_ ?_
      · simpa using hp.readThreshold s
      · simpa using hp.readThreshold (!s)
    · refine forall_side s ?_ ?_
      · simpa using hp.writeThreshold s
      · simpa using hp.writeThreshold (!s)
    · refine forall_side s ?_ ?_
      · simpa using hp.peerClosed s
      · simpa using hp.peerClosed (!s)
    · refine forall_side s ?_ ?_
      · intro h1 h2
        simp [hp.peerWriteDisabled s h1 ho]
      · intro h1 h2
        simp at h1 h2
        simp [hp.peerWriteDisabled (!s) h1 (by simpa using h2)]
    · refine forall_side s ?_ ?_
      · intro h1 h2
        have := hp.readDisabled s h1 ho
        cases d <;> simp [this]
      · intro h1 h2
        simp at h1 h2
        have := hp.readDisabled (!s) h1 (by simpa using h2)
        cases dp <;> simp_all
    · refine forall_side s ?_ ?_
      · intro hd h1 h2 hen hroom
        simp at hd h1 h2 hen hroom ⊢
        have := hp.writable s hd h1 ho
        cases d <;> simp_all
      · intro hd h1 h2 hen hroom
        simp at hd h1 h2 hen hroom ⊢
        have := hp.writable (!s) hd h1 (by simpa using h2)
        cases dp <;> simp_all
  · have ho : p.hasHandles (!s) = false := by simpa [peerOpen] using hpo
    constructor
    · refine forall_side s ?_ ?_
      · simpa using hp.chain s
      · simpa using hp.chain (!s)
    · refine forall_side s ?_ ?_
      · simpa using hp.readable s
      · simpa using hp.readable (!s)
    · refine forall_side s ?_ ?_
      · simpa using hp.readThreshold s
      · simpa using hp.readThreshold (!s)
    · refine forall_side s ?_ ?_
      · simpa using hp.writeThreshold s
      · simpa using hp.writeThreshold (!s)
    · refine forall_side s ?_ ?_
      · simpa using hp.peerClosed s
      · simpa using hp.peerClosed (!s)
    all_goals
      refine forall_side s ?_ ?_ <;> simp [ho]

end Disposition

theorem SocketInv.onZeroHandles (hp : p.SocketInv) (s : Bool) : (p.onZeroHandles s).SocketInv := by
  unfold SocketPair.onZeroHandles
  dsimp only
  rw [ite_setEp]
  constructor
  · refine forall_side s ?_ ?_
    · simpa using hp.chain s
    · split <;> simpa [SocketDispatcher.onPeerZeroHandlesLocked] using hp.chain (!s)
  · refine forall_side s ?_ ?_
    · simpa using hp.readable s
    · split <;> simpa [SocketDispatcher.onPeerZeroHandlesLocked] using hp.readable (!s)
  · refine forall_side s ?_ ?_
    · simpa using hp.readThreshold s
    · split <;> simpa [SocketDispatcher.onPeerZeroHandlesLocked] using hp.readThreshold (!s)
  · refine forall_side s ?_ ?_
    · simp
    · split <;> simpa [SocketDispatcher.onPeerZeroHandlesLocked] using hp.writeThreshold (!s)
  · refine forall_side s ?_ ?_
    · simp
    · intro ho
      have hpo : p.peerOpen s = true := by simpa [peerOpen] using ho
      simp [hpo, SocketDispatcher.onPeerZeroHandlesLocked]
  all_goals
    refine forall_side s ?_ ?_ <;> simp

section Step

variable {c : SocketCall α}

theorem SocketInv.socketStep (hp : p.SocketInv) (c : SocketCall α) : (p.socketStep c).1.SocketInv := by
  unfold SocketPair.socketStep
  split_ifs with hs
  · exact hp
  simp only [Bool.not_eq_false] at hs
  cases hop : c.op with
  | write src len copyFrom allocOk => exact hp.write hs rfl
  | read type len copyTo => exact hp.read rfl
  | setDisposition d dp => exact hp.setDisposition rfl
  | setReadThreshold value => exact hp.setReadThreshold rfl
  | setWriteThreshold value => exact hp.setWriteThreshold rfl
  | close => exact hp.onZeroHandles c.side

theorem SocketInv.run (hp : p.SocketInv) (calls : List (SocketCall α)) :
    (Lib.run SocketPair.socketStep p calls).1.SocketInv :=
  Lib.run_invariant SocketInv (fun _ c h ↦ h.socketStep c) hp calls

/-- A socket keeps the mode it was created in. -/
theorem socketRun_datagram (datagram : Bool) (calls : List (SocketCall α)) :
    (Lib.run socketStep (create datagram) calls).1.datagram = datagram :=
  Lib.run_invariant (fun q : SocketPair α ↦ q.datagram = datagram) (fun _ c h ↦ (socketStep_datagram c).trans h)
    rfl calls

end Step

/-- Over every run of calls on the two endpoints of a socket, from `Create` on
and in either mode, the chains keep their invariants; `READABLE`,
`READ_THRESHOLD`, the `WRITE_THRESHOLD` of an open endpoint and the
`PEER_CLOSED` of an open endpoint are exact; while both endpoints are open an
endpoint has `WRITE_DISABLED` exactly when its peer has `PEER_WRITE_DISABLED`
and reads disabled; and in stream mode an open endpoint with an open peer whose
writes are enabled and whose peer's chain is not full is `WRITABLE`. -/
theorem socketRun_inv (datagram : Bool) (calls : List (SocketCall α)) :
    (Lib.run socketStep (create datagram) calls).1.SocketInv :=
  (socketInv_create datagram).run calls

/-! ### What `GetInfo` reports -/

section Info

variable {s : Bool} {len : ℕ} {copyTo : ℕ → ZxStatus}

theorem getInfo_rxBufAvailable (p : SocketPair α) (s : Bool) :
    (p.getInfo s).rxBufAvailable = (p.ep s).data.sizeWith p.datagram := by
  unfold getInfo
  split_ifs <;> rfl

theorem read_consume_of_nonempty (hlen : len % 2 ^ 32 = len) (hne : (p.ep s).data.isEmpty = false) :
    (p.read s .consume len copyTo).1 = ((p.ep s).data.read len p.datagram copyTo).1 ∧
      (p.read s .consume len copyTo).2.1 = ((p.ep s).data.read len p.datagram copyTo).2.1 := by
  unfold SocketPair.read
  rw [if_neg (not_not_intro hlen), if_neg (by simp [hne])]
  exact ⟨rfl, rfl⟩

theorem SocketInv.read_available (hp : p.SocketInv) (hcopy : ∀ i, copyTo i = .ok) (hlen : len % 2 ^ 32 = len)
    (hpos : 0 < (p.getInfo s).rxBufAvailable) (hle : (p.getInfo s).rxBufAvailable ≤ len) :
    (p.read s .consume len copyTo).1 = .ok ∧
      (p.read s .consume len copyTo).2.1 =
        (if p.datagram then (MBufChain.packetsOf (p.ep s).data.buffers).head?.getD [] else (p.ep s).data.content) ∧
      (p.read s .consume len copyTo).2.1.length = (p.getInfo s).rxBufAvailable := by
  rw [getInfo_rxBufAvailable] at hpos hle ⊢
  have hne : (p.ep s).data.isEmpty = false := by
    simpa [MBufChain.isEmpty] using MBufChain.size_ne_zero_of_sizeWith hpos
  obtain ⟨hst, hout⟩ : (p.read s .consume len copyTo).1 = ((p.ep s).data.read len p.datagram copyTo).1 ∧
      (p.read s .consume len copyTo).2.1 = ((p.ep s).data.read len p.datagram copyTo).2.1 :=
    read_consume_of_nonempty hlen hne
  rw [hst, hout]
  exact (hp.chain s).read_all hcopy hpos hle

/-- Over every run of a socket, in either mode: when `GetInfo` reports some
`rx_buf_available` on an endpoint, a `Read` there of at least that many bytes
(a length that fits 32 bits) whose copies all succeed returns `ZX_OK` and
exactly `rx_buf_available` bytes: the whole next datagram in datagram mode,
every byte not read in stream mode. -/
theorem socketRun_read_available (datagram : Bool) (calls : List (SocketCall α)) (s : Bool) (len : ℕ)
    (copyTo : ℕ → ZxStatus) (hcopy : ∀ i, copyTo i = .ok) (hlen : len % 2 ^ 32 = len)
    (hpos : 0 < ((Lib.run socketStep (create datagram) calls).1.getInfo s).rxBufAvailable)
    (hle : ((Lib.run socketStep (create datagram) calls).1.getInfo s).rxBufAvailable ≤ len) :
    ((Lib.run socketStep (create datagram) calls).1.read s .consume len copyTo).1 = .ok ∧
      ((Lib.run socketStep (create datagram) calls).1.read s .consume len copyTo).2.1 =
        (if datagram then (MBufChain.packetsOf ((Lib.run socketStep (create datagram) calls).1.ep s).data.buffers).head?.getD []
          else ((Lib.run socketStep (create datagram) calls).1.ep s).data.content) ∧
      ((Lib.run socketStep (create datagram) calls).1.read s .consume len copyTo).2.1.length =
        ((Lib.run socketStep (create datagram) calls).1.getInfo s).rxBufAvailable := by
  have h := ((socketInv_create datagram).run calls).read_available hcopy hlen hpos hle
  rwa [socketRun_datagram] at h

theorem socketRun_read_available_dgramOfThree :
    let calls : List (SocketCall ℕ) := [⟨true, .write (fun i ↦ i) 3 (fun _ ↦ .ok) true⟩]
    0 < ((Lib.run socketStep (create true) calls).1.getInfo false).rxBufAvailable ∧
      ((Lib.run socketStep (create true) calls).1.getInfo false).rxBufAvailable ≤ 4 ∧
      ((Lib.run socketStep (create true) calls).1.read false .consume 4 (fun _ ↦ .ok)).1 = .ok ∧
      ((Lib.run socketStep (create true) calls).1.read false .consume 4 (fun _ ↦ .ok)).2.1 =
        (if true then (MBufChain.packetsOf ((Lib.run socketStep (create true) calls).1.ep false).data.buffers).head?.getD []
          else ((Lib.run socketStep (create true) calls).1.ep false).data.content) ∧
      ((Lib.run socketStep (create true) calls).1.read false .consume 4 (fun _ ↦ .ok)).2.1.length =
        ((Lib.run socketStep (create true) calls).1.getInfo false).rxBufAvailable := by
  intro calls
  have hpos : 0 < ((Lib.run socketStep (create true) calls).1.getInfo false).rxBufAvailable := by decide
  have hle : ((Lib.run socketStep (create true) calls).1.getInfo false).rxBufAvailable ≤ 4 := by decide
  exact ⟨hpos, hle, socketRun_read_available true calls false 4 (fun _ ↦ .ok) (fun _ ↦ rfl) (by decide) hpos hle⟩

end Info

/-! ### Re-enabling writes -/

section Reenable

variable {s t : Bool} {d dp : Disposition} {status : ZxStatus}

/-- From a state of the invariant, a `SetDisposition` that clears
`WRITE_DISABLED` on an endpoint whose peer is open finds the peer's chain
empty: the check of `IsDispositionStateValid` reads the peer's
`PEER_WRITE_DISABLED`, which the invariant ties to the endpoint's
`WRITE_DISABLED`. -/
theorem SocketInv.reenable_empty (hp : p.SocketInv) (ht : p.hasHandles t = true)
    (ht' : p.hasHandles (!t) = true) (hwd : SocketSignal.writeDisabled ∈ (p.ep t).signals)
    (h : p.setDisposition s d dp = (status, p')) (hclear : SocketSignal.writeDisabled ∉ (p'.ep t).signals) :
    (p.ep !t).data.size = 0 := by
  have hpwd : SocketSignal.peerWriteDisabled ∈ (p.ep !t).signals := (hp.peerWriteDisabled t ht ht').mp hwd
  unfold SocketPair.setDisposition at h
  dsimp only at h
  split_ifs at h with hnone hvalid hpo hvalid' <;> simp only [Prod.mk.injEq] at h <;> obtain ⟨-, rfl⟩ := h
  · exact absurd hwd hclear
  · exact absurd hwd hclear
  · exact absurd hwd hclear
  · obtain rfl | rfl : s = t ∨ s = !t := by cases s <;> cases t <;> simp
    · simp only [setEp_ep_self, SocketDispatcher.mem_updateStateLocked_signals,
        SocketDispatcher.updateReadStatus_signals] at hclear
      simp only [SocketDispatcher.isDispositionStateValid, Bool.not_eq_false', decide_eq_true_eq] at hvalid'
      cases d <;> simp_all [MBufChain.isEmpty]
    · simp only [Bool.not_not, setEp_ep_not_self, setEp_ep_self, SocketDispatcher.mem_updateStateLocked_signals,
        SocketDispatcher.updateReadStatus_signals] at hclear hvalid hpwd ⊢
      simp only [SocketDispatcher.isDispositionStateValid, Bool.not_eq_false', decide_eq_true_eq] at hvalid
      cases dp <;> simp_all [MBufChain.isEmpty]
  · have ho : p.hasHandles (!s) = false := by simpa [peerOpen] using hpo
    obtain rfl | rfl : s = t ∨ s = !t := by cases s <;> cases t <;> simp
    · simp_all
    · simp_all

/-- Over every run from `Create`, in either mode: a `SetDisposition`, from
either endpoint, that clears `WRITE_DISABLED` on an endpoint `t` while both
endpoints are open, is made only when the chain `t` writes to is empty.  All
that `t` wrote before its writes were disabled has been read before they are
enabled again. -/
theorem socketRun_reenable_empty (datagram : Bool) (calls : List (SocketCall α)) (s t : Bool)
    (d dp : Disposition) (ht : (Lib.run socketStep (create datagram) calls).1.hasHandles t = true)
    (ht' : (Lib.run socketStep (create datagram) calls).1.hasHandles (!t) = true)
    (hwd : SocketSignal.writeDisabled ∈ ((Lib.run socketStep (create datagram) calls).1.ep t).signals)
    (hclear : SocketSignal.writeDisabled ∉
      (((Lib.run socketStep (create datagram) calls).1.setDisposition s d dp).2.ep t).signals) :
    ((Lib.run socketStep (create datagram) calls).1.ep !t).data.size = 0 :=
  ((socketInv_create datagram).run calls).reenable_empty ht ht' hwd rfl hclear

theorem socketRun_reenable_empty_disableThenEnable :
    let calls : List (SocketCall ℕ) := [⟨false, .setDisposition .writeDisabled .none⟩]
    (Lib.run socketStep (create false) calls).1.hasHandles false = true ∧
      (Lib.run socketStep (create false) calls).1.hasHandles (!false) = true ∧
      SocketSignal.writeDisabled ∈ ((Lib.run socketStep (create false) calls).1.ep false).signals ∧
      SocketSignal.writeDisabled ∉
        (((Lib.run socketStep (create false) calls).1.setDisposition false .writeEnabled .none).2.ep false).signals ∧
      ((Lib.run socketStep (create false) calls).1.ep !false).data.size = 0 :=
  ⟨by decide, by decide, by decide, by decide,
    socketRun_reenable_empty false _ false false .writeEnabled .none (by decide) (by decide) (by decide)
      (by decide)⟩

end Reenable

/-! ### A lost wakeup in datagram mode -/

section LostWakeup

variable {s : Bool} {len : ℕ} {copyTo : ℕ → ZxStatus} {status : ZxStatus} {out : List α}

/-- From a state of the invariant in datagram mode, a `Read` on a full endpoint
whose first copy fails drops the first packet, so that the chain has room, but
reports no byte read, so that a peer that was not `WRITABLE` stays so. -/
theorem SocketInv.read_dgram_copy_fail (hp : p.SocketInv) (hd : p.datagram = true)
    (hfull : (p.ep s).data.isFull = true) (hw : SocketSignal.writable ∉ (p.ep !s).signals) (hlen0 : 0 < len)
    (hlen : len % 2 ^ 32 = len) (hfail : copyTo 0 ≠ .ok)
    (h : p.read s .consume len copyTo = (status, out, p')) :
    status = copyTo 0 ∧ out = [] ∧ (p'.ep s).data.isFull = false ∧ SocketSignal.writable ∉ (p'.ep !s).signals := by
  have hc : (p.ep s).data.DgramInv (MBufChain.packetsOf (p.ep s).data.buffers) := by
    simpa [MBufChain.ChainInv, hd] using hp.chain s
  have hsize : (p.ep s).data.size = kSizeMax := by
    have := hc.size_le
    simp only [MBufChain.isFull, decide_eq_true_eq] at hfull
    omega
  -- the chain holds a first packet, of at least one byte
  obtain ⟨pk, ps, hps⟩ : ∃ pk ps, MBufChain.packetsOf (p.ep s).data.buffers = pk :: ps := by
    rcases hps : MBufChain.packetsOf (p.ep s).data.buffers with _ | ⟨pk, ps⟩
    · have := hc.size_eq
      simp [hps, hsize, kSizeMax, kPayloadSize, kHeaderSize] at this
    · exact ⟨pk, ps, rfl⟩
  rw [hps] at hc
  obtain ⟨head, body, rest, hbufs, -, -, hpk, hpos, -⟩ := hc.packets.cons_inv
  have hsize0 : (p.ep s).data.size ≠ 0 := by simp [hsize, kSizeMax, kPayloadSize, kHeaderSize]
  unfold SocketPair.read at h
  dsimp only at h
  rw [if_neg (by omega), if_neg (by simpa [MBufChain.isEmpty] using hsize0)] at h
  rcases hr : (p.ep s).data.read len p.datagram copyTo with ⟨status₀, out₀, c'⟩
  rw [hr] at h
  dsimp only at h
  simp only [Prod.mk.injEq] at h
  obtain ⟨rfl, rfl, rfl⟩ := h
  rw [hd] at hr
  have hfail' : ((p.ep s).data.read len true copyTo).1 = copyTo 0 ∧ ((p.ep s).data.read len true copyTo).2.1 = [] :=
    MBufChain.read_of_copy_fail hsize0 (by simp [hbufs])
      (by rw [MBufChain.readLen_true (by rw [hbufs, List.cons_append])]; omega) hfail
  rw [hr] at hfail'
  obtain ⟨rfl, rfl⟩ := hfail'
  have hc' := (hc.read hr).2.2.1 hlen0
  have hlt : c'.size < kSizeMax := by
    rw [hc'.size_eq, ← hsize, hc.size_eq]
    simp only [List.flatten_cons, List.length_append]
    omega
  rw [ite_setEp, setEp_peerOpen]
  refine ⟨rfl, rfl, by simp [MBufChain.isFull, hlt], ?_⟩
  split <;> simpa using hw

theorem write_full_not_writable {src : ℕ → α} {copyFrom : ℕ → ZxStatus} {allocOk : Bool} {n : ℕ}
    (hs : p.hasHandles s = true) (h : p.write s src len copyFrom allocOk = (status, n, p')) (hn : 0 < n)
    (hfull : (p'.ep !s).data.isFull = true) : SocketSignal.writable ∉ (p'.ep s).signals := by
  unfold SocketPair.write at h
  split_ifs at h
  any_goals (cases h; omega)
  unfold SocketPair.writeSelfLocked at h
  dsimp only at h
  by_cases hf : (p.ep !s).data.isFull = true
  · rw [if_pos hf] at h
    cases h
    omega
  rw [if_neg hf] at h
  rcases hwr : (if p.datagram then (p.ep !s).data.writeDatagram src len copyFrom allocOk
      else (p.ep !s).data.writeStream src len copyFrom allocOk) with ⟨status₀, st₀, c'⟩
  rw [hwr] at h
  simp only [Prod.mk.injEq] at h
  obtain ⟨rfl, rfl, rfl⟩ := h
  simp at hfull
  simp [peerOpen, hs, hfull]

/-- Over every run of a datagram socket from `Create`: on an endpoint whose
chain is full and whose peer is not `WRITABLE`, a `Read` whose first copy to the
user fails returns that copy's error and no byte, and drops the first packet, so that the
chain has room; yet the peer is still not `WRITABLE`, since `Read` raises
`WRITABLE` only for a read that reports bytes.  A writer waiting for
`WRITABLE` is not woken although it could write. -/
theorem socketRun_dgram_writable_lost (calls : List (SocketCall α)) (s : Bool) (len : ℕ) (copyTo : ℕ → ZxStatus)
    (hfull : ((Lib.run socketStep (create true) calls).1.ep s).data.isFull = true)
    (hw : SocketSignal.writable ∉ ((Lib.run socketStep (create true) calls).1.ep !s).signals)
    (hlen0 : 0 < len) (hlen : len % 2 ^ 32 = len) (hfail : copyTo 0 ≠ .ok) :
    ((Lib.run socketStep (create true) calls).1.read s .consume len copyTo).1 = copyTo 0 ∧
      ((Lib.run socketStep (create true) calls).1.read s .consume len copyTo).2.1 = [] ∧
      (((Lib.run socketStep (create true) calls).1.read s .consume len copyTo).2.2.ep s).data.isFull = false ∧
      SocketSignal.writable ∉
        (((Lib.run socketStep (create true) calls).1.read s .consume len copyTo).2.2.ep !s).signals := by
  exact ((socketInv_create true).run calls).read_dgram_copy_fail (socketRun_datagram true calls) hfull hw
    hlen0 hlen hfail rfl

/-- The run of one datagram write of `kSizeMax` bytes from the endpoint `false`:
the chain of `true` is full, both endpoints keep their handles, and `false` has
neither `WRITABLE` nor `WRITE_DISABLED`.  The facts are reached by rewriting,
since evaluating the write would build the whole chain. -/
theorem fillDgram_state (calls : List (SocketCall ℕ))
    (hcalls : calls = [⟨false, .write (fun _ ↦ 0) kSizeMax (fun _ ↦ .ok) true⟩]) :
    ((Lib.run socketStep (create true) calls).1.ep true).data.isFull = true ∧
      (Lib.run socketStep (create true) calls).1.hasHandles = (fun _ ↦ true) ∧
      SocketSignal.writable ∉ ((Lib.run socketStep (create true) calls).1.ep false).signals ∧
      SocketSignal.writeDisabled ∉ ((Lib.run socketStep (create true) calls).1.ep false).signals := by
  subst hcalls
  -- the one write fills the chain of the endpoint `true`
  obtain ⟨c', hc'⟩ : ∃ c', (MBufChain.empty : MBufChain ℕ).writeDatagram (fun _ ↦ 0) kSizeMax
      (fun _ ↦ .ok) true = (.ok, kSizeMax, c') :=
    MBufChain.writeDatagram_eq_ok (fun _ ↦ rfl) (by decide) (by decide)
  have hwr : (if (create true : SocketPair ℕ).datagram then
      ((create true : SocketPair ℕ).ep true).data.writeDatagram (fun _ ↦ 0) kSizeMax (fun _ ↦ .ok) true
      else ((create true : SocketPair ℕ).ep true).data.writeStream (fun _ ↦ 0) kSizeMax (fun _ ↦ .ok) true) =
      (.ok, kSizeMax, c') := by
    simp only [create, if_true]
    exact hc'
  have hsize : c'.size = kSizeMax := by
    simpa [create, MBufChain.empty] using (MBufChain.ChainInv.write (MBufChain.chainInv_empty true) hwr).2
  have hwrite : (create true : SocketPair ℕ).write false (fun _ ↦ 0) kSizeMax (fun _ ↦ .ok) true =
      (create true).writeSelfLocked true (fun _ ↦ 0) kSizeMax (fun _ ↦ .ok) true :=
    write_of_checks (by decide) (by decide) (by decide) (by decide)
  obtain ⟨-, hn, hdata⟩ := writeSelfLocked_of_room (by decide) hwr
  have hrun : (Lib.run socketStep (create true)
      [(⟨false, .write (fun _ ↦ 0) kSizeMax (fun _ ↦ .ok) true⟩ : SocketCall ℕ)]).1 =
      ((create true : SocketPair ℕ).write false (fun _ ↦ 0) kSizeMax (fun _ ↦ .ok) true).2.2 := by
    simp only [Lib.run_cons_fst, Lib.run_nil]
    unfold SocketPair.socketStep
    rw [if_neg (by decide)]
  have hres : (create true : SocketPair ℕ).write false (fun _ ↦ 0) kSizeMax (fun _ ↦ .ok) true =
      (((create true : SocketPair ℕ).write false (fun _ ↦ 0) kSizeMax (fun _ ↦ .ok) true).1,
        ((create true : SocketPair ℕ).write false (fun _ ↦ 0) kSizeMax (fun _ ↦ .ok) true).2.1,
        ((create true : SocketPair ℕ).write false (fun _ ↦ 0) kSizeMax (fun _ ↦ .ok) true).2.2) := by
    rw [Prod.mk.eta]
  have hfull : ((Lib.run socketStep (create true)
      [(⟨false, .write (fun _ ↦ 0) kSizeMax (fun _ ↦ .ok) true⟩ : SocketCall ℕ)]).1.ep true).data.isFull = true := by
    rw [hrun, hwrite, hdata]
    simp [MBufChain.isFull, hsize]
  have hn' : 0 < ((create true : SocketPair ℕ).write false (fun _ ↦ 0) kSizeMax (fun _ ↦ .ok) true).2.1 := by
    rw [hwrite, hn]
    decide
  have hfull' : (((create true : SocketPair ℕ).write false (fun _ ↦ 0) kSizeMax
      (fun _ ↦ .ok) true).2.2.ep !false).data.isFull = true := by
    rw [Bool.not_false, ← hrun]
    exact hfull
  obtain ⟨hh, hsub⟩ := write_signals hres
  have hwd : SocketSignal.writeDisabled ∉
      (((create true : SocketPair ℕ).write false (fun _ ↦ 0) kSizeMax (fun _ ↦ .ok) true).2.2.ep false).signals :=
    Finset.notMem_mono hsub (by simp [create])
  refine ⟨hfull, ?_, ?_, ?_⟩
  · rw [hrun, hh]
    rfl
  · rw [hrun]
    exact write_full_not_writable rfl hres hn' hfull'
  · rw [hrun]
    exact hwd

theorem socketRun_dgram_writable_lost_fillThenFault :
    let calls : List (SocketCall ℕ) := [⟨false, .write (fun _ ↦ 0) kSizeMax (fun _ ↦ .ok) true⟩]
    ((Lib.run socketStep (create true) calls).1.ep true).data.isFull = true ∧
      SocketSignal.writable ∉ ((Lib.run socketStep (create true) calls).1.ep !true).signals ∧
      ((Lib.run socketStep (create true) calls).1.read true .consume 1 (fun _ ↦ .errInvalidArgs)).1 =
        .errInvalidArgs ∧
      ((Lib.run socketStep (create true) calls).1.read true .consume 1 (fun _ ↦ .errInvalidArgs)).2.1 = [] ∧
      (((Lib.run socketStep (create true) calls).1.read true .consume 1
        (fun _ ↦ .errInvalidArgs)).2.2.ep true).data.isFull = false ∧
      SocketSignal.writable ∉ (((Lib.run socketStep (create true) calls).1.read true .consume 1
        (fun _ ↦ .errInvalidArgs)).2.2.ep !true).signals := by
  intro calls
  obtain ⟨hfull, -, hw, -⟩ := fillDgram_state calls rfl
  have hw' : SocketSignal.writable ∉ ((Lib.run socketStep (create true) calls).1.ep !true).signals := by
    rw [Bool.not_true]
    exact hw
  exact ⟨hfull, hw', socketRun_dgram_writable_lost calls true 1 (fun _ ↦ .errInvalidArgs) hfull hw' (by decide)
    (by decide) (by decide)⟩

end LostWakeup

/-! ### A spurious `WRITABLE` -/

section SpuriousWritable

variable {s : Bool}

/-- From a state of the invariant with both endpoints open and the writes of
`s` enabled, `SetDisposition(WRITE_ENABLED, NONE)` on `s` passes both checks
of `IsDispositionStateValid`, asserts `WRITABLE` on `s`, whatever its peer's
chain holds, and leaves `WRITE_DISABLED` off and the handles as they were. -/
theorem SocketInv.enable_writable (hp : p.SocketInv) (hs : p.hasHandles s = true)
    (hs' : p.hasHandles (!s) = true) (hwd : SocketSignal.writeDisabled ∉ (p.ep s).signals) :
    (p.setDisposition s .writeEnabled .none).1 = .ok ∧
      SocketSignal.writable ∈ ((p.setDisposition s .writeEnabled .none).2.ep s).signals ∧
      SocketSignal.writeDisabled ∉ ((p.setDisposition s .writeEnabled .none).2.ep s).signals ∧
      (p.setDisposition s .writeEnabled .none).2.hasHandles = p.hasHandles := by
  have hpwd : SocketSignal.peerWriteDisabled ∉ (p.ep !s).signals :=
    fun h ↦ hwd ((hp.peerWriteDisabled s hs hs').mpr h)
  rcases h : p.setDisposition s .writeEnabled .none with ⟨status, q⟩
  unfold SocketPair.setDisposition at h
  dsimp only at h
  rw [if_neg (by simp), if_neg (by simp [SocketDispatcher.isDispositionStateValid]),
    if_pos (by simp [peerOpen, hs']),
    if_neg (by simp [SocketDispatcher.isDispositionStateValid, hpwd])] at h
  simp only [Prod.mk.injEq] at h
  obtain ⟨rfl, rfl⟩ := h
  simp

/-- Over every run of a socket, in either mode: while both endpoints are open
and the writes of `s` are enabled but its peer's chain is full,
`SetDisposition(WRITE_ENABLED, NONE)` on `s` returns `ZX_OK` and asserts
`WRITABLE` on `s`, yet a `Write` from `s` of any length then returns
`ZX_ERR_SHOULD_WAIT`: `ExtendMasksFromDisposition` sets `WRITABLE` without
looking at the peer's chain, and only a `Write` that fills it or a `Read` clears
or sets it again. -/
theorem socketRun_enable_spurious_writable (datagram : Bool) (calls : List (SocketCall α)) (s : Bool)
    (src : ℕ → α) (len : ℕ) (copyFrom : ℕ → ZxStatus) (allocOk : Bool)
    (hs : (Lib.run socketStep (create datagram) calls).1.hasHandles s = true)
    (hs' : (Lib.run socketStep (create datagram) calls).1.hasHandles (!s) = true)
    (hwd : SocketSignal.writeDisabled ∉ ((Lib.run socketStep (create datagram) calls).1.ep s).signals)
    (hfull : ((Lib.run socketStep (create datagram) calls).1.ep !s).data.isFull = true)
    (h0 : len ≠ 0) (hlen : len % 2 ^ 32 = len) :
    ((Lib.run socketStep (create datagram) calls).1.setDisposition s .writeEnabled .none).1 = .ok ∧
      SocketSignal.writable ∈
        (((Lib.run socketStep (create datagram) calls).1.setDisposition s .writeEnabled .none).2.ep s).signals ∧
      ((Lib.run socketStep (create datagram) calls).1.setDisposition s .writeEnabled .none).2.write s src len
          copyFrom allocOk =
        (.errShouldWait, 0, ((Lib.run socketStep (create datagram) calls).1.setDisposition s .writeEnabled .none).2) := by
  obtain ⟨hok, hw, hwd', hh⟩ := ((socketInv_create datagram).run calls).enable_writable hs hs' hwd
  rcases h : (Lib.run socketStep (create datagram) calls).1.setDisposition s .writeEnabled .none with ⟨status, q⟩
  rw [h] at hok hw hwd' hh
  obtain ⟨-, hdata⟩ := setDisposition_data h
  have hpo : q.peerOpen s = true := by
    rw [peerOpen, hh]
    exact hs'
  have hqfull : (q.ep !s).data.isFull = true := by
    rw [hdata]
    exact hfull
  refine ⟨hok, hw, ?_⟩
  rw [write_of_checks hpo hwd' h0 hlen, writeSelfLocked_of_full hqfull]

theorem socketRun_enable_spurious_writable_fillThenEnable :
    let calls : List (SocketCall ℕ) := [⟨false, .write (fun _ ↦ 0) kSizeMax (fun _ ↦ .ok) true⟩]
    (Lib.run socketStep (create true) calls).1.hasHandles false = true ∧
      (Lib.run socketStep (create true) calls).1.hasHandles (!false) = true ∧
      SocketSignal.writeDisabled ∉ ((Lib.run socketStep (create true) calls).1.ep false).signals ∧
      ((Lib.run socketStep (create true) calls).1.ep !false).data.isFull = true ∧
      ((Lib.run socketStep (create true) calls).1.setDisposition false .writeEnabled .none).1 = .ok ∧
      SocketSignal.writable ∈
        (((Lib.run socketStep (create true) calls).1.setDisposition false .writeEnabled .none).2.ep false).signals ∧
      ((Lib.run socketStep (create true) calls).1.setDisposition false .writeEnabled .none).2.write false
          (fun _ ↦ 0) 1 (fun _ ↦ .ok) true =
        (.errShouldWait, 0, ((Lib.run socketStep (create true) calls).1.setDisposition false .writeEnabled .none).2) := by
  intro calls
  obtain ⟨hfull, hh, -, hwd⟩ := fillDgram_state calls rfl
  have hs : (Lib.run socketStep (create true) calls).1.hasHandles false = true := by rw [hh]
  have hs' : (Lib.run socketStep (create true) calls).1.hasHandles (!false) = true := by rw [hh]
  have hfull' : ((Lib.run socketStep (create true) calls).1.ep !false).data.isFull = true := by
    rw [Bool.not_false]
    exact hfull
  exact ⟨hs, hs', hwd, hfull', socketRun_enable_spurious_writable true calls false (fun _ ↦ 0) 1 (fun _ ↦ .ok) true
    hs hs' hwd hfull' (by decide) (by decide)⟩

end SpuriousWritable

end SocketPair

end Zircon.Object
