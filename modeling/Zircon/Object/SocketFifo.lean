import Mathlib
import Zircon.Object.SocketInv

/-!
# The data path of a socket

Each endpoint's chain is the queue of one direction: its peer's writes add to
it and its own reads take from it.  Every other call leaves it alone (the frame
lemmas `write_data`, `read_data`, ...), so the socket moves the chain of an
endpoint only through `MBufChain` calls, and the chain-level FIFO facts carry
over to any interleaving of calls on the two endpoints: in stream mode the bytes
an endpoint's reads return, then those left for it, are the bytes its peer's
writes added (`streamRun_fifo`); in datagram mode the same holds of whole
packets, each read taking at most one and returning a prefix of it
(`dgramRun_fifo`).
-/

namespace Zircon.Object

namespace SocketPair

variable {α : Type*} {p p' : SocketPair α} {t : Bool} {status : ZxStatus}

/-! ### Stream sockets -/

/-- The bytes a call adds to the chain of the endpoint `u`: the first `n` bytes
of a write on its peer that reports `n` bytes added. -/
def SocketCall.accepted (u : Bool) : SocketCall α → SocketReturn α → List α
  | ⟨t, .write src _ _ _⟩, .written _ n => if t = !u then MBufChain.userBytes src 0 n else []
  | _, _ => []

/-- The bytes a call takes off the chain of the endpoint `u`: those a read on
`u` copies out. -/
def SocketCall.delivered (u : Bool) : SocketCall α → SocketReturn α → List α
  | ⟨t, .read .consume _ _⟩, .read _ out => if t = u then out else []
  | _, _ => []

theorem SocketInv.streamStep (hp : p.SocketInv) (hd : p.datagram = false) (c : SocketCall α) (u : Bool) :
    c.delivered u (p.socketStep c).2 ++ ((p.socketStep c).1.ep u).data.content =
      (p.ep u).data.content ++ c.accepted u (p.socketStep c).2 := by
  have hc : (p.ep u).data.StreamInv := by simpa [MBufChain.ChainInv, hd] using hp.chain u
  unfold SocketPair.socketStep
  split_ifs with hs
  · simp [SocketCall.delivered, SocketCall.accepted]
  obtain ⟨t, op⟩ := c
  -- the call is on `u`, whose reads take from its chain, or on its peer, whose
  obtain rfl | rfl : t = u ∨ t = !u := by cases t <;> cases u <;> simp
  · cases op with
    | write src len copyFrom allocOk =>
      rcases hw : p.write t src len copyFrom allocOk with ⟨status, n, p'⟩
      simp [hw, SocketCall.delivered, SocketCall.accepted, (write_data hw).2.1]
    | read type len copyTo =>
      rcases hr : p.read t type len copyTo with ⟨status, out, p'⟩
      simp only [hr]
      rcases (read_data hr).2.2 with ⟨rfl, hdata⟩ | ⟨rfl, rfl⟩ | ⟨rfl, hread⟩
      · cases type <;> simp [SocketCall.delivered, SocketCall.accepted, hdata]
      · simp [SocketCall.delivered, SocketCall.accepted]
      · rw [hd] at hread
        obtain ⟨-, -, happ, -⟩ := hc.read hread
        simpa [SocketCall.delivered, SocketCall.accepted] using happ
    | setDisposition d dp =>
      rcases h : p.setDisposition t d dp with ⟨status, p'⟩
      simp [h, SocketCall.delivered, SocketCall.accepted, (setDisposition_data h).2 t]
    | setReadThreshold value =>
      rcases h : p.setReadThreshold t value with ⟨status, p'⟩
      simp [h, SocketCall.delivered, SocketCall.accepted, (setReadThreshold_data h).2 t]
    | setWriteThreshold value =>
      rcases h : p.setWriteThreshold t value with ⟨status, p'⟩
      simp [h, SocketCall.delivered, SocketCall.accepted, (setWriteThreshold_data h).2 t]
    | close => simp [SocketCall.delivered, SocketCall.accepted, (onZeroHandles_data t).2 t]
  · cases op with
    | write src len copyFrom allocOk =>
      rcases hw : p.write (!u) src len copyFrom allocOk with ⟨status, n, p'⟩
      simp only [hw]
      rcases (write_data hw).2.2 with ⟨rfl, hdata⟩ | hwrite
      · simp_all [SocketCall.delivered, SocketCall.accepted, MBufChain.userBytes]
      · simp only [Bool.not_not, hd, Bool.false_eq_true, if_false] at hwrite
        obtain ⟨-, -, hcontent⟩ := hc.writeStream hwrite
        simpa [SocketCall.delivered, SocketCall.accepted] using hcontent
    | read type len copyTo =>
      rcases hr : p.read (!u) type len copyTo with ⟨status, out, p'⟩
      have hdata := (read_data hr).2.1
      simp only [Bool.not_not] at hdata
      cases type <;> simp [hr, SocketCall.delivered, SocketCall.accepted, hdata]
    | setDisposition d dp =>
      rcases h : p.setDisposition (!u) d dp with ⟨status, p'⟩
      simp [h, SocketCall.delivered, SocketCall.accepted, (setDisposition_data h).2 u]
    | setReadThreshold value =>
      rcases h : p.setReadThreshold (!u) value with ⟨status, p'⟩
      simp [h, SocketCall.delivered, SocketCall.accepted, (setReadThreshold_data h).2 u]
    | setWriteThreshold value =>
      rcases h : p.setWriteThreshold (!u) value with ⟨status, p'⟩
      simp [h, SocketCall.delivered, SocketCall.accepted, (setWriteThreshold_data h).2 u]
    | close => simp [SocketCall.delivered, SocketCall.accepted, (onZeroHandles_data (!u)).2 u]

/-- Over any run of calls on the two endpoints of a stream socket, from
`Create` on, and for either endpoint `u`: the bytes `u`'s reads returned, then
the bytes left in `u`'s chain, are the bytes its peer's writes added, in call
order.  Whatever copies and allocations fail, no byte written to `u` is lost,
duplicated or reordered, and no read returns a byte that was not written. -/
theorem streamRun_fifo (calls : List (SocketCall α)) (u : Bool) :
    Lib.items (SocketCall.delivered u) calls (Lib.run socketStep (create false) calls).2 ++
        ((Lib.run socketStep (create false) calls).1.ep u).data.content =
      Lib.items (SocketCall.accepted u) calls (Lib.run socketStep (create false) calls).2 := by
  have h := Lib.run_fifo (fun p : SocketPair α ↦ p.SocketInv ∧ p.datagram = false)
    (fun p ↦ (p.ep u).data.content) (SocketCall.accepted u) (SocketCall.delivered u)
    (fun _ c h ↦ ⟨h.1.socketStep c, by rw [socketStep_datagram]; exact h.2⟩)
    (fun _ c h ↦ h.1.streamStep h.2 c u) ⟨socketInv_create false, rfl⟩ calls
  simpa [create, MBufChain.content, MBufChain.empty] using h

/-! ### Datagram sockets -/

/-- The packet a call adds to the chain of the endpoint `u`: that of a write on
its peer that reports bytes added. -/
def SocketCall.acceptedPackets (u : Bool) : SocketCall α → SocketReturn α → List (List α)
  | ⟨t, .write src _ _ _⟩, .written _ n => if t = !u ∧ n ≠ 0 then [MBufChain.userBytes src 0 n] else []
  | _, _ => []

/-- How the packets `d` that a call takes off the chain of the endpoint `u`
relate to what it returns: a read on `u` takes nothing and returns nothing, or
takes one packet and returns a prefix of its first `len` bytes, all of them when
its status is `ZX_OK`; the other calls take nothing. -/
def SocketCall.Took (u : Bool) : SocketCall α → SocketReturn α → List (List α) → Prop
  | ⟨t, .read .consume len _⟩, .read status out, d =>
    if t = u then
      (d = [] ∧ out = []) ∨ ∃ pk, d = [pk] ∧ out <+: pk.take len ∧ (status = .ok → out = pk.take len)
    else d = []
  | _, _, d => d = []

theorem SocketInv.dgramStep (hp : p.SocketInv) (hd : p.datagram = true) (c : SocketCall α) (u : Bool) :
    ∃ d, c.Took u (p.socketStep c).2 d ∧
      d ++ MBufChain.packetsOf ((p.socketStep c).1.ep u).data.buffers =
        MBufChain.packetsOf (p.ep u).data.buffers ++ c.acceptedPackets u (p.socketStep c).2 := by
  have hc : (p.ep u).data.DgramInv (MBufChain.packetsOf (p.ep u).data.buffers) := by
    simpa [MBufChain.ChainInv, hd] using hp.chain u
  unfold SocketPair.socketStep
  split_ifs with hs
  · exact ⟨[], by simp [SocketCall.Took, SocketCall.acceptedPackets]⟩
  obtain ⟨t, op⟩ := c
  obtain rfl | rfl : t = u ∨ t = !u := by cases t <;> cases u <;> simp
  · cases op with
    | write src len copyFrom allocOk =>
      rcases hw : p.write t src len copyFrom allocOk with ⟨status, n, p'⟩
      exact ⟨[], by simp [hw, SocketCall.Took, SocketCall.acceptedPackets, (write_data hw).2.1]⟩
    | read type len copyTo =>
      rcases hr : p.read t type len copyTo with ⟨status, out, p'⟩
      simp only [hr]
      rcases (read_data hr).2.2 with ⟨rfl, hdata⟩ | ⟨rfl, rfl⟩ | ⟨rfl, hread⟩
      · refine ⟨[], ?_, by simp [SocketCall.acceptedPackets, hdata]⟩
        cases type <;> simp [SocketCall.Took]
      · exact ⟨[], by simp [SocketCall.Took, SocketCall.acceptedPackets]⟩
      -- the chain's own read, as a call of the chain
      · rw [hd] at hread
        have hstep : (p.ep t).data.dgramStep (.read len copyTo) = ((p'.ep t).data, .read status out) := by
          simp [MBufChain.dgramStep, hread]
        obtain ⟨d, htook, hd'⟩ := (hc.dgramStep (.read len copyTo)).2
        rw [hstep] at htook hd'
        refine ⟨d, ?_, by simpa [SocketCall.acceptedPackets, MBufChain.DgramCall.accepted] using hd'⟩
        simp only [SocketCall.Took, if_true]
        rcases htook with ⟨rfl, rfl, -⟩ | ⟨pk, rfl, -, hpre, hok⟩
        · exact .inl ⟨rfl, rfl⟩
        · exact .inr ⟨pk, rfl, hpre, hok⟩
    | setDisposition d dp =>
      rcases h : p.setDisposition t d dp with ⟨status, p'⟩
      exact ⟨[], by simp [h, SocketCall.Took, SocketCall.acceptedPackets, (setDisposition_data h).2 t]⟩
    | setReadThreshold value =>
      rcases h : p.setReadThreshold t value with ⟨status, p'⟩
      exact ⟨[], by simp [h, SocketCall.Took, SocketCall.acceptedPackets, (setReadThreshold_data h).2 t]⟩
    | setWriteThreshold value =>
      rcases h : p.setWriteThreshold t value with ⟨status, p'⟩
      exact ⟨[], by simp [h, SocketCall.Took, SocketCall.acceptedPackets, (setWriteThreshold_data h).2 t]⟩
    | close =>
      exact ⟨[], by simp [SocketCall.Took, SocketCall.acceptedPackets, (onZeroHandles_data t).2 t]⟩
  · cases op with
    | write src len copyFrom allocOk =>
      rcases hw : p.write (!u) src len copyFrom allocOk with ⟨status, n, p'⟩
      simp only [hw]
      refine ⟨[], by simp [SocketCall.Took], ?_⟩
      rcases (write_data hw).2.2 with ⟨rfl, hdata⟩ | hwrite
      · simp_all [SocketCall.acceptedPackets]
      · simp only [Bool.not_not, hd, if_true] at hwrite
        have hstep : (p.ep u).data.dgramStep (.writeDatagram src len copyFrom allocOk) =
            ((p'.ep u).data, .written status n) := by
          simp [MBufChain.dgramStep, hwrite]
        obtain ⟨d, htook, hd'⟩ := (hc.dgramStep (.writeDatagram src len copyFrom allocOk)).2
        rw [hstep] at htook hd'
        simp only [MBufChain.DgramCall.Took] at htook
        subst htook
        by_cases hn : n = 0 <;> simpa [SocketCall.acceptedPackets, MBufChain.DgramCall.accepted, hn] using hd'
    | read type len copyTo =>
      rcases hr : p.read (!u) type len copyTo with ⟨status, out, p'⟩
      have hdata := (read_data hr).2.1
      simp only [Bool.not_not] at hdata
      simp only [hr]
      refine ⟨[], ?_, by simp [SocketCall.acceptedPackets, hdata]⟩
      cases type <;> simp [SocketCall.Took]
    | setDisposition d dp =>
      rcases h : p.setDisposition (!u) d dp with ⟨status, p'⟩
      exact ⟨[], by simp [h, SocketCall.Took, SocketCall.acceptedPackets, (setDisposition_data h).2 u]⟩
    | setReadThreshold value =>
      rcases h : p.setReadThreshold (!u) value with ⟨status, p'⟩
      exact ⟨[], by simp [h, SocketCall.Took, SocketCall.acceptedPackets, (setReadThreshold_data h).2 u]⟩
    | setWriteThreshold value =>
      rcases h : p.setWriteThreshold (!u) value with ⟨status, p'⟩
      exact ⟨[], by simp [h, SocketCall.Took, SocketCall.acceptedPackets, (setWriteThreshold_data h).2 u]⟩
    | close =>
      exact ⟨[], by simp [SocketCall.Took, SocketCall.acceptedPackets, (onZeroHandles_data (!u)).2 u]⟩

/-- Over any run of calls on the two endpoints of a datagram socket, from
`Create` on, and for either endpoint `u`: the calls take packets off the front
of `u`'s chain so that the packets taken, then those left, are the datagrams
`u`'s peer wrote, in call order; each read on `u` takes at most one packet and
returns a prefix of its first `len` bytes, all of them when it succeeds. -/
theorem dgramRun_fifo (calls : List (SocketCall α)) (u : Bool) :
    ∃ ds : List (List (List α)),
      List.Forall₂ (fun i d ↦ SocketCall.Took u i.1 i.2 d) (calls.zip (Lib.run socketStep (create true) calls).2) ds ∧
      ds.flatten ++ MBufChain.packetsOf ((Lib.run socketStep (create true) calls).1.ep u).data.buffers =
        Lib.items (SocketCall.acceptedPackets u) calls (Lib.run socketStep (create true) calls).2 := by
  have h := Lib.run_fifo_obs (fun p : SocketPair α ↦ p.SocketInv ∧ p.datagram = true)
    (fun p ↦ MBufChain.packetsOf (p.ep u).data.buffers) (SocketCall.acceptedPackets u) (SocketCall.Took u)
    (fun _ c h ↦ ⟨h.1.socketStep c, by rw [socketStep_datagram]; exact h.2⟩)
    (fun _ c h ↦ h.1.dgramStep h.2 c u) ⟨socketInv_create true, rfl⟩ calls
  simpa [create, MBufChain.empty, MBufChain.packetsOf] using h

end SocketPair

end Zircon.Object
