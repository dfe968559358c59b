import Zircon.Object.MBufStream

/-!
# Datagram mode: a queue of packets

In datagram mode a chain holds whole packets, each a head buffer whose
`pkt_len_` is the packet's length followed by body buffers whose `pkt_len_` is
zero, with the read cursor at zero.  `Packets bufs ps` says that the buffers
`bufs` hold the packets `ps` so, and `DgramInv` adds the cursor and `size_`.

`WriteDatagram` appends one whole packet or leaves the chain as it was
(`DgramInv.writeDatagram`).  A `Read` of at least one byte removes the first
packet whole and delivers a prefix of its first `len` bytes, all of them when no
copy fails (`DgramInv.read`).  Over any run the chain so passes packets through
as a FIFO (`DgramInv.dgramRun`).
-/

namespace Zircon.Object

namespace MBufChain

variable {α : Type*}

/-- The buffers `bufs` hold the packets `ps`, each as a head buffer carrying the
packet's length, nonzero, then body buffers with `pkt_len_` zero. -/
inductive Packets : List (MBuf α) → List (List α) → Prop
  | nil : Packets [] []
  | cons {head : MBuf α} {body rest : List (MBuf α)} {ps : List (List α)}
      (hbody : ∀ b ∈ body, b.pktLen = 0)
      (hlen : head.pktLen = (head.data ++ body.flatMap MBuf.data).length)
      (hpos : 0 < head.pktLen) (hrest : Packets rest ps) :
      Packets (head :: body ++ rest) ((head.data ++ body.flatMap MBuf.data) :: ps)

/-- What the calls keep of a chain in datagram mode, holding the packets `ps`. -/
structure DgramInv (c : MBufChain α) (ps : List (List α)) : Prop where
  packets : Packets c.buffers ps
  cursor_eq : c.readCursorOff = 0
  size_eq : c.size = ps.flatten.length
  size_le : c.size ≤ kSizeMax

theorem dgramInv_empty : (empty : MBufChain α).DgramInv [] :=
  ⟨.nil, rfl, rfl, Nat.zero_le _⟩

namespace Packets

variable {bufs bufs' : List (MBuf α)} {ps ps' : List (List α)}

theorem flatMap_data (h : Packets bufs ps) : bufs.flatMap MBuf.data = ps.flatten := by
  induction h with
  | nil => rfl
  | cons _ _ _ _ ih => simp [ih]

theorem front_pktLen (h : Packets bufs ps) : ∀ b ∈ bufs.head?, b.pktLen ≠ 0 := by
  cases h with
  | nil => simp
  | cons _ _ hpos _ =>
    intro b hb
    cases hb
    exact hpos.ne'

theorem append (h : Packets bufs ps) (h' : Packets bufs' ps') : Packets (bufs ++ bufs') (ps ++ ps') := by
  induction h with
  | nil => exact h'
  | cons hbody hlen hpos _ ih =>
    rw [List.append_assoc]
    exact cons hbody hlen hpos ih

theorem single {head : MBuf α} {body : List (MBuf α)} (hbody : ∀ b ∈ body, b.pktLen = 0)
    (hlen : head.pktLen = (head.data ++ body.flatMap MBuf.data).length) (hpos : 0 < head.pktLen) :
    Packets (head :: body) [head.data ++ body.flatMap MBuf.data] := by
  simpa using cons hbody hlen hpos nil

end Packets

/-! ### Writes -/

section Write

variable {src : ℕ → α} {len : ℕ} {copyFrom : ℕ → ZxStatus}

theorem fillDatagram_eq_some {n pos : ℕ} {bufs : List (MBuf α)}
    (h : fillDatagram src copyFrom len n pos = some bufs) :
    bufs.length = n ∧ (∀ b ∈ bufs, b.pktLen = 0) ∧
      bufs.flatMap MBuf.data = userBytes src pos (min (n * kPayloadSize) (len - pos)) := by
  induction n generalizing pos bufs with
  | zero =>
    cases h
    simp [userBytes]
  | succ n ih =>
    rw [fillDatagram] at h
    split_ifs at h with hok
    obtain ⟨bufs', hrest, rfl⟩ := Option.map_eq_some_iff.mp h
    obtain ⟨hlen, hpkt, hdata⟩ := ih hrest
    refine ⟨by simp [hlen], ?_, ?_⟩
    · intro b hb
      rcases List.mem_cons.mp hb with rfl | hb
      · rfl
      · exact hpkt b hb
    · have hsum : min kPayloadSize (len - pos) + min (n * kPayloadSize) (len - (pos + min kPayloadSize (len - pos))) =
          min ((n + 1) * kPayloadSize) (len - pos) := by
        rw [Nat.succ_mul]
        omega
      rw [List.flatMap_cons, hdata, ← userBytes_add, hsum]

theorem fillDatagram_isSome (hcopy : ∀ p, copyFrom p = .ok) (n pos : ℕ) :
    (fillDatagram src copyFrom len n pos).isSome := by
  induction n generalizing pos with
  | zero => rfl
  | succ n ih =>
    rw [fillDatagram, if_pos (hcopy pos)]
    simpa using ih _

/-- `WriteDatagram` appends the whole datagram as one packet and reports all
its bytes written, or fails, reports nothing written and leaves the chain as it
was. -/
theorem DgramInv.writeDatagram {c c' : MBufChain α} {ps : List (List α)} {allocOk : Bool}
    {status : ZxStatus} {written : ℕ} (hc : c.DgramInv ps)
    (h : c.writeDatagram src len copyFrom allocOk = (status, written, c')) :
    (status = .ok ∧ 0 < len ∧ written = len ∧ c'.DgramInv (ps ++ [userBytes src 0 len])) ∨
      (status ≠ .ok ∧ written = 0 ∧ c' = c) := by
  unfold MBufChain.writeDatagram at h
  split_ifs at h with h0 hmax hroom halloc
  -- the four checks before the copies leave the chain as it was
  · cases h
    exact .inr ⟨by decide, rfl, rfl⟩
  · cases h
    exact .inr ⟨by decide, rfl, rfl⟩
  · cases h
    exact .inr ⟨by decide, rfl, rfl⟩
  · cases h
    exact .inr ⟨by decide, rfl, rfl⟩
  rcases hf : fillDatagram src copyFrom len (numBuffersForPayload len) 0 with _ | bufs <;>
    rw [hf] at h
  · cases h
    exact .inr ⟨by decide, rfl, rfl⟩
  cases h
  obtain ⟨hlen, hpkt, hdata⟩ := fillDatagram_eq_some hf
  have hcover := le_numBuffersForPayload_mul (Nat.pos_of_ne_zero h0)
  rw [Nat.sub_zero, min_eq_right hcover] at hdata
  obtain ⟨b, body, rfl⟩ : ∃ b body, bufs = b :: body := by
    cases bufs with
    | nil =>
      rw [List.length_nil, numBuffersForPayload] at hlen
      exact absurd hlen (Nat.lt_add_right _ Nat.zero_lt_one).ne
    | cons b body => exact ⟨b, body, rfl⟩
  have hpacket : Packets (setPktLen len (b :: body)) [userBytes src 0 len] := by
    rw [List.flatMap_cons] at hdata
    rw [← hdata]
    refine Packets.single (fun b' hb' ↦ hpkt b' (List.mem_cons_of_mem b hb')) ?_ (Nat.pos_of_ne_zero h0)
    simp [hdata]
  refine .inl ⟨rfl, Nat.pos_of_ne_zero h0, rfl, ⟨hc.packets.append hpacket, hc.cursor_eq, ?_, ?_⟩⟩
  · simp [hc.size_eq, Nat.add_comm]
  · show c.size + len ≤ kSizeMax
    omega

theorem writeDatagram_eq_ok (hcopy : ∀ p, copyFrom p = .ok) {c : MBufChain α} (h0 : 0 < len)
    (hroom : len + c.size ≤ kSizeMax) : ∃ c', c.writeDatagram src len copyFrom true = (.ok, len, c') := by
  have hsome : (fillDatagram src copyFrom len (numBuffersForPayload len) 0).isSome :=
    fillDatagram_isSome hcopy _ _
  obtain ⟨bufs, hbufs⟩ := Option.isSome_iff_exists.mp hsome
  unfold MBufChain.writeDatagram
  rw [if_neg h0.ne', if_neg (by omega), if_neg (by omega), if_neg (by simp), hbufs]
  exact ⟨_, rfl⟩

end Write

/-! ### Reads -/

namespace Packets

variable {bufs : List (MBuf α)} {p : List α} {ps : List (List α)}

theorem cons_inv (h : Packets bufs (p :: ps)) :
    ∃ head body rest, bufs = head :: body ++ rest ∧ p = head.data ++ body.flatMap MBuf.data ∧
      (∀ b ∈ body, b.pktLen = 0) ∧ head.pktLen = p.length ∧ 0 < head.pktLen ∧ Packets rest ps := by
  cases h with
  | cons hbody hlen hpos hrest => exact ⟨_, _, _, rfl, rfl, hbody, hlen, hpos, hrest⟩

end Packets

theorem drainBody_append {bs rest : List (MBuf α)} (hbs : ∀ b ∈ bs, b.pktLen = 0)
    (hrest : ∀ b ∈ rest.head?, b.pktLen ≠ 0) (size : ℕ) :
    drainBody (bs ++ rest) 0 size = (rest, 0, size - (bs.flatMap MBuf.data).length) := by
  induction bs generalizing size with
  | nil =>
    cases rest with
    | nil => rfl
    | cons b rest => simp [drainBody, hrest b rfl]
  | cons b bs ih =>
    rw [List.cons_append, drainBody, if_pos (hbs b List.mem_cons_self),
      ih (fun b' hb' ↦ hbs b' (List.mem_cons_of_mem b hb'))]
    simp [Nat.sub_sub]

theorem readLen_true {c : MBufChain α} {buf : MBuf α} {bufs : List (MBuf α)} (hb : c.buffers = buf :: bufs)
    (len : ℕ) : c.readLen len true = min len buf.pktLen := by
  simp only [readLen, hb, true_and]
  split_ifs <;> omega

namespace ReadState

section Dgram

variable {L : ℕ} {copyTo : ℕ → ZxStatus} {p : List α} {pool rest : List (MBuf α)} {s : ReadState α}

/-- What the loop of a datagram `Read` keeps while it reads at most `L` bytes of
the packet `p`, in front of the buffers `rest`: the packet's buffers left are a
suffix `bs` of `pool`, the cursor is at zero, the bytes copied out are a prefix
of `p` that `pos` counts, `size_` counts the bytes of the buffers left, and
while no copy has failed the bytes copied out and those of `bs` make up `p`,
unless `L` bytes have been copied. -/
structure DReadInv (L : ℕ) (p : List α) (pool rest : List (MBuf α)) (s : ReadState α) : Prop where
  buffers : ∃ bs, bs <:+ pool ∧ s.buffers = bs ++ rest ∧
    (s.status = .ok → s.out ++ bs.flatMap MBuf.data = p ∨ s.pos = L)
  readOff_eq : s.readOff = 0
  out_prefix : s.out <+: p
  pos_eq : s.pos = s.out.length
  pos_le : s.pos ≤ L
  size_eq : s.size = (s.buffers.flatMap MBuf.data).length

theorem DReadInv.repool {pool' bs : List (MBuf α)} (h : DReadInv L p pool rest s)
    (hb : s.buffers = bs ++ rest) (hsuf : bs <:+ pool') : DReadInv L p pool' rest s := by
  obtain ⟨bs₀, -, hb₀, hok⟩ := h.buffers
  obtain rfl : bs₀ = bs := List.append_cancel_right (hb₀.symm.trans hb)
  exact ⟨⟨bs₀, hsuf, hb₀, hok⟩, h.readOff_eq, h.out_prefix, h.pos_eq, h.pos_le, h.size_eq⟩

theorem DReadInv.step (h : DReadInv L p pool rest s) (hL : L ≤ p.length)
    (hg : s.pos < L ∧ s.buffers ≠ [] ∧ s.status = .ok) :
    DReadInv L p pool rest (readStep L true copyTo s) := by
  obtain ⟨bs, hsuf, hb, hok⟩ := h.buffers
  have hpos := h.pos_eq
  have happ : s.out ++ bs.flatMap MBuf.data = p := by
    rcases hok hg.2.2 with happ | hend
    · exact happ
    · exact absurd hend (by omega)
  -- the packet still has a buffer, since fewer than `L` of its bytes are out
  obtain ⟨b, bs', rfl⟩ : ∃ b bs', bs = b :: bs' := by
    cases bs with
    | nil =>
      rw [List.flatMap_nil, List.append_nil] at happ
      rw [← happ] at hL
      omega
    | cons b bs' => exact ⟨b, bs', rfl⟩
  have hbuf : s.buffers = b :: (bs' ++ rest) := hb
  have hk₁ : s.consumed L copyTo b ≤ b.data.length - s.readOff := consumed_le_left
  have hk₂ : s.consumed L copyTo b ≤ L - s.pos := consumed_le_right
  have hoff := h.readOff_eq
  have hsize := h.size_eq
  rw [hb, List.flatMap_append, List.flatMap_cons] at hsize
  rw [readStep_pop hbuf (.inr rfl)]
  refine ⟨⟨bs', (List.suffix_cons b bs').trans hsuf, rfl, fun hcopy ↦ ?_⟩, rfl, ?_, ?_, ?_, ?_⟩
  · dsimp only
    rw [consumed_of_ok hcopy, hoff, Nat.sub_zero, List.drop_zero]
    by_cases hwhole : b.data.length ≤ L - s.pos
    · left
      rw [min_eq_left hwhole, List.take_length, ← happ, List.flatMap_cons, List.append_assoc]
    · right
      omega
  · rw [← happ, List.flatMap_cons, hoff, List.drop_zero]
    exact List.prefix_self_append_iff.mpr ((List.take_prefix _ _).trans (List.prefix_append _ _))
  · rw [hoff, List.drop_zero]
    simp only [List.length_append, List.length_take]
    omega
  · dsimp only
    omega
  · rw [hoff]
    simp only [if_true, List.flatMap_append, List.length_append] at hsize ⊢
    omega

/-- The run lemma: the whole loop keeps `DReadInv`. -/
theorem DReadInv.readLoop (passes : ℕ) (h : DReadInv L p pool rest s) (hL : L ≤ p.length) :
    DReadInv L p pool rest (readLoop L true copyTo passes s) := by
  induction passes generalizing s with
  | zero => exact h
  | succ passes ih =>
    rw [MBufChain.readLoop]
    split_ifs with hg
    · exact ih (h.step hL hg)
    · exact h

end Dgram

end ReadState

/-- A `Read` in datagram mode of at least one byte removes the first packet
whole, whether or not a copy fails, and delivers a prefix of its first `len`
bytes, all of them when no copy fails; a `Read` of no bytes changes nothing and
succeeds. -/
theorem DgramInv.read {c c' : MBufChain α} {p : List α} {ps : List (List α)} {len : ℕ}
    {copyTo : ℕ → ZxStatus} {status : ZxStatus} {out : List α} (hc : c.DgramInv (p :: ps))
    (h : c.read len true copyTo = (status, out, c')) :
    out <+: p.take len ∧ (status = .ok → out = p.take len) ∧
      (0 < len → c'.DgramInv ps) ∧ (len = 0 → c' = c ∧ status = .ok) := by
  obtain ⟨head, body, rest, hbufs, hp, hbody, hlen, hpos, hrest⟩ := hc.packets.cons_inv
  have hcons : c.buffers = head :: (body ++ rest) := by rw [hbufs, List.cons_append]
  have hsize : c.size ≠ 0 := by
    have := hc.size_eq
    simp only [List.flatten_cons, List.length_append] at this
    omega
  unfold MBufChain.read at h
  rw [if_neg hsize, readLen_true hcons, hlen, hc.cursor_eq] at h
  simp only [if_true] at h
  have hfront : ∀ b ∈ c.buffers.head?, b.pktLen ≠ 0 := hc.packets.front_pktLen
  rcases Nat.eq_zero_or_pos len with rfl | hlen0
  -- a read of no bytes stops at once, before the head of the packet
  · rw [ReadState.readLoop_of_not_guard (by simp)] at h
    have hdrain : drainBody ([] ++ c.buffers) 0 c.size = _ := drainBody_append (by simp) hfront c.size
    simp only [List.nil_append, List.flatMap_nil, List.length_nil, Nat.sub_zero] at hdrain
    rw [hdrain] at h
    simp only [Prod.mk.injEq] at h
    obtain ⟨rfl, rfl, rfl⟩ := h
    refine ⟨List.nil_prefix, fun _ ↦ rfl, fun h0 ↦ absurd h0 (Nat.lt_irrefl 0), fun _ ↦ ⟨?_, rfl⟩⟩
    rw [← hc.cursor_eq]
  set L := min len p.length
  have hLp : L ≤ p.length := min_le_right _ _
  have hg0 : (⟨c.buffers, 0, 0, c.size, .ok, []⟩ : ReadState α).pos < L ∧ c.buffers ≠ [] ∧ ZxStatus.ok = .ok :=
    ⟨by simp only [L]; omega, by simp [hcons], rfl⟩
  rw [readLoop, if_pos hg0] at h
  set s₁ := readStep L true copyTo ⟨c.buffers, 0, 0, c.size, .ok, []⟩
  have hs₁ : s₁.buffers = body ++ rest ∧ s₁.readOff = 0 := by
    simp only [s₁]
    rw [ReadState.readStep_pop hcons (.inr rfl)]
    exact ⟨rfl, rfl⟩
  have hinv₀ : ReadState.DReadInv L p (head :: body) rest ⟨c.buffers, 0, 0, c.size, .ok, []⟩ :=
    ⟨⟨head :: body, List.suffix_refl _, hbufs, fun _ ↦ .inl (by simp [hp])⟩, rfl, List.nil_prefix, rfl,
      Nat.zero_le _, by rw [hc.size_eq, ← hc.packets.flatMap_data]⟩
  have hinv₁ : ReadState.DReadInv L p body rest s₁ :=
    (hinv₀.step hLp hg0).repool hs₁.1 (List.suffix_refl _)
  set s := readLoop L true copyTo c.buffers.length s₁
  have hinv : ReadState.DReadInv L p body rest s := hinv₁.readLoop _ hLp
  have hdone : ¬(s.pos < L ∧ s.buffers ≠ [] ∧ s.status = .ok) :=
    ReadState.readLoop_done (by rw [hs₁.1, hcons]; simp) (by rw [hs₁.2]; exact Nat.zero_le _)
  obtain ⟨bs, hsuf, hb, hok⟩ := hinv.buffers
  have hdrain := drainBody_append (fun b hb' ↦ hbody b (hsuf.subset hb')) hrest.front_pktLen s.size
  rw [hb, hinv.readOff_eq, hdrain] at h
  simp only [Prod.mk.injEq] at h
  obtain ⟨rfl, rfl, rfl⟩ := h
  have hpos := hinv.pos_eq
  have hposL := hinv.pos_le
  have hstop : s.status = .ok → s.pos = L := by
    intro hst
    by_contra hne
    have hnil : s.buffers = [] := by
      by_contra hne'
      exact hdone ⟨by omega, hne', hst⟩
    rw [hb] at hnil
    obtain ⟨rfl, -⟩ := List.append_eq_nil_iff.mp hnil
    rcases hok hst with happ | hend
    · rw [List.flatMap_nil, List.append_nil] at happ
      rw [happ] at hpos
      omega
    · exact hne hend
  have htake : s.out = p.take s.out.length := List.prefix_iff_eq_take.mp hinv.out_prefix
  refine ⟨?_, fun hst ↦ ?_, fun _ ↦ ?_, fun h0 ↦ absurd h0 hlen0.ne'⟩
  · rw [htake]
    exact List.take_prefix_take_left (by simp only [L] at hposL; omega)
  · rw [htake, ← hpos, hstop hst]
    exact List.take_eq_take_min.symm
  · have hsize := hinv.size_eq
    rw [hb, List.flatMap_append, List.length_append, hrest.flatMap_data] at hsize
    have htotal := hc.size_eq
    have hle := hc.size_le
    simp only [List.flatten_cons, List.length_append] at htotal
    exact ⟨hrest, rfl, by dsimp only; omega, by dsimp only; omega⟩

/-! ### Runs of datagram calls -/

/-- The packets held by the buffers of a datagram chain: each head buffer with
the body buffers after it. -/
def packetsOf : List (MBuf α) → List (List α)
  | [] => []
  | head :: bufs =>
    (head.data ++ (bufs.takeWhile fun b ↦ b.pktLen == 0).flatMap MBuf.data) ::
      packetsOf (bufs.dropWhile fun b ↦ b.pktLen == 0)
termination_by bufs => bufs.length
decreasing_by
  simp only [List.length_cons]
  exact Nat.lt_succ_of_le (List.length_dropWhile_le _ _)

theorem Packets.packetsOf_eq {bufs : List (MBuf α)} {ps : List (List α)} (h : Packets bufs ps) :
    packetsOf bufs = ps := by
  induction h with
  | nil => rw [packetsOf]
  | @cons head body rest ps hbody _ _ hrest ih =>
    have hall : ∀ b ∈ body, (b.pktLen == 0) = true := by simpa using hbody
    have hstop : (rest.takeWhile fun b ↦ b.pktLen == 0) = [] ∧ (rest.dropWhile fun b ↦ b.pktLen == 0) = rest := by
      cases rest with
      | nil => exact ⟨rfl, rfl⟩
      | cons b rest' =>
        have hb : b.pktLen ≠ 0 := hrest.front_pktLen b rfl
        simp [hb]
    rw [List.cons_append, packetsOf, List.takeWhile_append_of_pos hall, List.dropWhile_append_of_pos hall,
      hstop.1, hstop.2, List.append_nil, ih]

/-- A call on the chain of a datagram socket: `WriteDatagram`, or `Read` or
`Peek` with `datagram` true. -/
inductive DgramCall (α : Type*) where
  | writeDatagram (src : ℕ → α) (len : ℕ) (copyFrom : ℕ → ZxStatus) (allocOk : Bool)
  | read (len : ℕ) (copyTo : ℕ → ZxStatus)
  | peek (len : ℕ) (copyTo : ℕ → ZxStatus)

/-- One call on a datagram chain: the chain after it, and what it returns. -/
def dgramStep (c : MBufChain α) : DgramCall α → MBufChain α × ChainReturn α
  | .writeDatagram src len copyFrom allocOk =>
    let r := c.writeDatagram src len copyFrom allocOk
    (r.2.2, .written r.1 r.2.1)
  | .read len copyTo =>
    let r := c.read len true copyTo
    (r.2.2, .read r.1 r.2.1)
  | .peek len copyTo =>
    let r := c.peek len true copyTo
    (c, .read r.1 r.2)

/-- The packet a call adds: a write's, when it reports bytes written. -/
def DgramCall.accepted : DgramCall α → ChainReturn α → List (List α)
  | .writeDatagram src _ _ _, .written _ written => if written = 0 then [] else [userBytes src 0 written]
  | _, _ => []

/-- How the packets `d` that a call takes off relate to what it returns: a read
takes nothing and returns nothing with `ZX_OK`, or, when `len` is at least one,
takes exactly one packet and returns a prefix of its first `len` bytes, all of
them when its status is `ZX_OK`; the other calls take none. -/
def DgramCall.Took : DgramCall α → ChainReturn α → List (List α) → Prop
  | .read len _, .read status out, d =>
    (d = [] ∧ out = [] ∧ status = .ok) ∨
      ∃ p, d = [p] ∧ 0 < len ∧ out <+: p.take len ∧ (status = .ok → out = p.take len)
  | _, _, d => d = []

theorem DgramInv.dgramStep {c : MBufChain α} (hc : c.DgramInv (packetsOf c.buffers)) (call : DgramCall α) :
    (c.dgramStep call).1.DgramInv (packetsOf (c.dgramStep call).1.buffers) ∧
      ∃ d, call.Took (c.dgramStep call).2 d ∧
        d ++ packetsOf (c.dgramStep call).1.buffers = packetsOf c.buffers ++ call.accepted (c.dgramStep call).2 := by
  cases call with
  | writeDatagram src len copyFrom allocOk =>
    rcases hw : c.writeDatagram src len copyFrom allocOk with ⟨status, written, c'⟩
    simp only [MBufChain.dgramStep, hw, DgramCall.Took, DgramCall.accepted, exists_eq_left, List.nil_append]
    rcases hc.writeDatagram hw with ⟨-, h0, rfl, hc'⟩ | ⟨-, rfl, rfl⟩
    · rw [hc'.packets.packetsOf_eq, if_neg h0.ne']
      exact ⟨hc', rfl⟩
    · exact ⟨hc, by simp⟩
  | read len copyTo =>
    rcases hr : c.read len true copyTo with ⟨status, out, c'⟩
    simp only [MBufChain.dgramStep, hr, DgramCall.Took, DgramCall.accepted, List.append_nil]
    rcases hps : packetsOf c.buffers with _ | ⟨p, ps⟩ <;> rw [hps] at hc
    · have hz : c.size = 0 := by simpa using hc.size_eq
      rw [MBufChain.read, if_pos hz] at hr
      cases hr
      exact ⟨by rwa [hps], [], .inl ⟨rfl, rfl, rfl⟩, by simp [hps]⟩
    obtain ⟨hpre, hok, hpos, hzero⟩ := hc.read hr
    rcases Nat.eq_zero_or_pos len with rfl | hlen
    · obtain ⟨rfl, hstatus⟩ := hzero rfl
      have hout : out = [] := by simpa using hpre
      exact ⟨by rwa [hps], [], .inl ⟨rfl, hout, hstatus⟩, by simp [hps]⟩
    · have hc' := hpos hlen
      exact ⟨by rwa [hc'.packets.packetsOf_eq], [p], .inr ⟨p, rfl, hlen, hpre, hok⟩,
        by simp [hc'.packets.packetsOf_eq]⟩
  | peek len copyTo =>
    simp only [MBufChain.dgramStep, DgramCall.Took, DgramCall.accepted, exists_eq_left, List.nil_append,
      List.append_nil]
    exact ⟨hc, trivial⟩

/-- Over any run of `WriteDatagram`, `Read` and `Peek` calls from a chain that
keeps `DgramInv`, it keeps `DgramInv`, and the calls take packets off the front
so that the packets taken, then those left, are the packets there at the start,
then the datagrams written: each read takes at most one packet and returns a
prefix of its first `len` bytes, all of them when it succeeds. -/
theorem DgramInv.dgramRun {c : MBufChain α} (hc : c.DgramInv (packetsOf c.buffers)) (calls : List (DgramCall α)) :
    (Lib.run MBufChain.dgramStep c calls).1.DgramInv (packetsOf (Lib.run MBufChain.dgramStep c calls).1.buffers) ∧
      ∃ ds : List (List (List α)),
        List.Forall₂ (fun i d ↦ DgramCall.Took i.1 i.2 d) (calls.zip (Lib.run MBufChain.dgramStep c calls).2) ds ∧
        ds.flatten ++ packetsOf (Lib.run MBufChain.dgramStep c calls).1.buffers =
          packetsOf c.buffers ++ Lib.items DgramCall.accepted calls (Lib.run MBufChain.dgramStep c calls).2 :=
  ⟨Lib.run_invariant (fun c : MBufChain α ↦ c.DgramInv (packetsOf c.buffers))
      (fun _ call h ↦ (h.dgramStep call).1) hc calls,
    Lib.run_fifo_obs (fun c : MBufChain α ↦ c.DgramInv (packetsOf c.buffers)) (fun c ↦ packetsOf c.buffers)
      DgramCall.accepted DgramCall.Took (fun _ call h ↦ (h.dgramStep call).1)
      (fun _ call h ↦ (h.dgramStep call).2) hc calls⟩

theorem DgramInv.dgramRun_writeThenRead :
    (empty : MBufChain ℕ).DgramInv (packetsOf (empty : MBufChain ℕ).buffers) ∧
      let calls : List (DgramCall ℕ) := [.writeDatagram id 3 (fun _ ↦ .ok) true, .read 2 (fun _ ↦ .ok)]
      (Lib.run MBufChain.dgramStep empty calls).1.DgramInv (packetsOf (Lib.run MBufChain.dgramStep empty calls).1.buffers) ∧
        ∃ ds : List (List (List ℕ)),
          List.Forall₂ (fun i d ↦ DgramCall.Took i.1 i.2 d) (calls.zip (Lib.run MBufChain.dgramStep empty calls).2) ds ∧
          ds.flatten ++ packetsOf (Lib.run MBufChain.dgramStep empty calls).1.buffers =
            packetsOf (empty : MBufChain ℕ).buffers ++
              Lib.items DgramCall.accepted calls (Lib.run MBufChain.dgramStep empty calls).2 :=
  have hc : (empty : MBufChain ℕ).DgramInv (packetsOf (empty : MBufChain ℕ).buffers) := by
    rw [show packetsOf (empty : MBufChain ℕ).buffers = [] by rw [empty, packetsOf]]
    exact dgramInv_empty
  ⟨hc, DgramInv.dgramRun hc _⟩

/-- Every chain the calls reach from an empty one keeps `DgramInv`. -/
theorem DgramInv.reachable {c : MBufChain α}
    (h : ∃ calls : List (DgramCall α), (Lib.run MBufChain.dgramStep empty calls).1 = c) :
    c.DgramInv (packetsOf c.buffers) := by
  obtain ⟨calls, rfl⟩ := h
  have hempty : (empty : MBufChain α).DgramInv (packetsOf (empty : MBufChain α).buffers) := by
    rw [show packetsOf (empty : MBufChain α).buffers = [] by rw [empty, packetsOf]]
    exact dgramInv_empty
  exact Lib.run_invariant (fun c : MBufChain α ↦ c.DgramInv (packetsOf c.buffers))
    (fun _ call h ↦ (h.dgramStep call).1) hempty calls

/-- `MBufChain` as a bounded queue.  In stream mode, from an empty chain,
`size_` counts the unread bytes, at most `kSizeMax`, and the bytes every `Read`
returns (its `*actual` bytes, whether its copies all succeed or not), then
those unread, are the first `*written` bytes of each write.  In datagram mode,
in every chain the calls reach from an empty one, `size_` is the length of the
queued packets, at most `kSizeMax`; `WriteDatagram` appends its whole datagram
as a packet, or writes nothing and leaves the chain as it was; and a `Read` of
at least one byte removes the oldest packet whole and returns a prefix of its
first `len` bytes, all of them on `ZX_OK`.  `Peek` leaves the chain as it is. -/
theorem chainRun_refines_queue (calls : List (StreamCall α)) :
    ((Lib.run streamStep empty calls).1.size = (Lib.run streamStep empty calls).1.content.length ∧
      (Lib.run streamStep empty calls).1.size ≤ kSizeMax ∧
      Lib.items StreamCall.delivered calls (Lib.run streamStep empty calls).2 ++
          (Lib.run streamStep empty calls).1.content =
        Lib.items StreamCall.accepted calls (Lib.run streamStep empty calls).2) ∧
    (∀ c : MBufChain α, (∃ dcalls : List (DgramCall α), (Lib.run dgramStep empty dcalls).1 = c) →
      c.size = (packetsOf c.buffers).flatten.length ∧ c.size ≤ kSizeMax ∧
      (∀ (src : ℕ → α) len copyFrom allocOk,
        (c.writeDatagram src len copyFrom allocOk).2.1 = len ∧
            packetsOf (c.writeDatagram src len copyFrom allocOk).2.2.buffers =
              packetsOf c.buffers ++ [userBytes src 0 len] ∨
          (c.writeDatagram src len copyFrom allocOk).2.1 = 0 ∧ (c.writeDatagram src len copyFrom allocOk).2.2 = c) ∧
      ∀ p ps len copyTo, packetsOf c.buffers = p :: ps → 0 < len →
        packetsOf (c.read len true copyTo).2.2.buffers = ps ∧ (c.read len true copyTo).2.1 <+: p.take len ∧
          ((c.read len true copyTo).1 = .ok → (c.read len true copyTo).2.1 = p.take len)) ∧
    ∀ (c : MBufChain α) len copyTo, (c.streamStep (.peek len copyTo)).1 = c ∧ (c.dgramStep (.peek len copyTo)).1 = c := by
  obtain ⟨hsinv, hsfifo⟩ := StreamInv.streamRun streamInv_empty calls
  refine ⟨⟨hsinv.size_eq, hsinv.size_le, ?_⟩, fun c hc ↦ ?_, fun _ _ _ ↦ ⟨rfl, rfl⟩⟩
  · rwa [show (empty : MBufChain α).content = [] from rfl, List.nil_append] at hsfifo
  have hd := DgramInv.reachable hc
  refine ⟨hd.size_eq, hd.size_le, fun src len copyFrom allocOk ↦ ?_, fun p ps len copyTo hps hlen ↦ ?_⟩
  · -- a write that fails before its copies, or in one, changes nothing
    rcases hw : c.writeDatagram src len copyFrom allocOk with ⟨status, written, c'⟩
    rcases hd.writeDatagram hw with ⟨-, -, rfl, hc'⟩ | ⟨-, rfl, rfl⟩
    · exact .inl ⟨rfl, hc'.packets.packetsOf_eq⟩
    · exact .inr ⟨rfl, rfl⟩
  · rw [hps] at hd
    rcases hr : c.read len true copyTo with ⟨status, out, c'⟩
    obtain ⟨hpre, hok, hpos, -⟩ := hd.read hr
    exact ⟨(hpos hlen).packets.packetsOf_eq, hpre, hok⟩

end MBufChain

end Zircon.Object
