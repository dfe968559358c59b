import Mathlib
import Zircon.Lib.IntervalLabels
import Zircon.Lib.NodeList
import Zircon.Memalloc.PoolRuns

/-!
# The type of each address

A pool denotes a partial map from addresses to types: an address has the
type of the tracked range that contains it, and an untracked address has
none.  This module says what the pool's operations do to that map.

`InsertSubrange` replaces the node it splits by up to three nodes that tile
it, one of which is the inserted range; `Coalesce` merges touching nodes of
one type.  Neither changes the map outside the inserted range, and both keep
the ranges sorted and disjoint.  The first-fit loop of `FindAllocatable`
returns the least aligned address where the request fits in free RAM.

The map is read through `Zircon.Lib.IntervalLabels`, with the ranges as
intervals of `ℕ`; the representation invariant rules out the wrap of
`Range::end()`, so the `UInt64` arithmetic of the operations is exact here.
Nodes are identified by address in the model, and the proofs need them
distinct: the two intrusive lists hold distinct objects.
-/

namespace Zircon.Memalloc

open Zircon.Lib IntervalLabels MemType

namespace Range

/-- The first address, as a number. -/
def lo (r : Range) : ℕ := r.addr.toNat

/-- The address after the last, as a number: `end()` without the wrap. -/
def hi (r : Range) : ℕ := r.addr.toNat + r.size.toNat

end Range

theorem toNat_add_of_le {a b : UInt64} (h : a.toNat + b.toNat ≤ 2 ^ 64 - 1) :
    (a + b).toNat = a.toNat + b.toNat := by
  rw [UInt64.toNat_add]
  exact Nat.mod_eq_of_lt (by omega)

namespace Pool

/-- The type of the address `x`, if it is tracked. -/
def typeAt (p : Pool) (x : ℕ) : Option MemType :=
  labelAt (fun n : Node ↦ n.lo) (fun n ↦ n.hi) (fun n ↦ n.type) p.ranges x

/-- What the type map needs of a pool: nonempty, sorted and disjoint ranges
that end by `UINT64_MAX`, and distinct nodes. -/
structure Tidy (p : Pool) : Prop where
  sorted : SortedDisjoint (fun n : Node ↦ n.lo) (fun n ↦ n.hi) p.ranges
  bounded : ∀ n ∈ p.ranges, n.hi ≤ 2 ^ 64 - 1
  nodup : p.nodes.Nodup

end Pool

theorem Range.hi_le_lo_of_lt {a b : Range} (hab : a.lt b = true ∧ a.intersectsWith b = false)
    (ha : a.addr.toNat + a.size.toNat ≤ 2 ^ 64 - 1) : a.hi ≤ b.lo := by
  obtain ⟨hlt, hint⟩ := hab
  have hle : ¬b.addr < a.addr + a.size := by
    intro h
    simp [Range.intersectsWith, hlt, Range.endAddr, h] at hint
  rw [UInt64.not_lt, UInt64.le_iff_toNat_le, toNat_add_of_le ha] at hle
  exact hle

theorem PoolInvariant.tidy {p : Pool} (hp : PoolInvariant p) (hnodup : p.nodes.Nodup) : p.Tidy := by
  obtain ⟨hpw, hnodes, -, -⟩ := hp
  refine ⟨⟨fun n hn ↦ ?_, ?_⟩, fun n hn ↦ (hnodes n hn).2.1, hnodup⟩
  · have := (hnodes n hn).1
    simp only [Range.lo, Range.hi, UInt64.lt_iff_toNat_lt, UInt64.toNat_zero] at this ⊢
    omega
  · rw [List.pairwise_map] at hpw
    exact hpw.imp_of_mem fun {a b} ha _ hab ↦ Range.hi_le_lo_of_lt hab (hnodes a ha).2.1

/-! ### Tiling a node -/

/-- `m` tiles the node `cur` and gives `range` its type: its nodes are sorted,
disjoint and inside `cur`, and the map of `m` is that of `cur` with `range`
retyped. -/
structure Tiles (cur : Node) (range : Range) (m : List Node) : Prop where
  sorted : SortedDisjoint (fun n : Node ↦ n.lo) (fun n ↦ n.hi) m
  inside : ∀ j ∈ m, cur.lo ≤ j.lo ∧ j.hi ≤ cur.hi
  labels : ∀ x, labelAt (fun n : Node ↦ n.lo) (fun n ↦ n.hi) (fun n ↦ n.type) m x =
    if range.lo ≤ x ∧ x < range.hi then some range.type
    else labelAt (fun n : Node ↦ n.lo) (fun n ↦ n.hi) (fun n ↦ n.type) [cur] x

section Tiling

variable {cur : Node} {range : Range} (hsub : cur.lo ≤ range.lo ∧ range.hi ≤ cur.hi)
  (hpos : 0 < range.size.toNat) (hb : cur.hi ≤ 2 ^ 64 - 1)
include hsub hpos hb

omit hsub hb in
theorem tiles_retype (h : cur.addr = range.addr ∧ cur.size = range.size) :
    Tiles cur range [{ cur with type := range.type }] := by
  obtain ⟨ha, hs⟩ := h
  have hlo : cur.lo = range.lo := by simp [Range.lo, ha]
  have hhi : cur.hi = range.hi := by simp [Range.hi, ha, hs]
  refine ⟨⟨fun j hj ↦ ?_, by simp⟩, fun j hj ↦ ?_, fun x ↦ ?_⟩
  · simp only [List.mem_singleton] at hj
    subst hj
    simp only [Range.lo, Range.hi] at hpos hlo hhi ⊢
    omega
  · simp only [List.mem_singleton] at hj
    subst hj
    exact ⟨le_rfl, le_rfl⟩
  · simp only [labelAt_cons, labelAt_nil]
    split_ifs <;> simp only [Range.lo, Range.hi, ha, hs] at * <;> first | rfl | omega

theorem tiles_head (k : ℕ) (h : cur.addr = range.addr) (hne : cur.size ≠ range.size) :
    Tiles cur range
      [⟨range, k⟩, { cur with addr := cur.addr + range.size, size := cur.size - range.size }] := by
  set rest : Node := { cur with addr := cur.addr + range.size, size := cur.size - range.size }
  have hlo : cur.lo = range.lo := by simp [Range.lo, h]
  have hle : range.size ≤ cur.size := by
    rw [UInt64.le_iff_toNat_le]
    simp only [Range.lo, Range.hi] at hlo hsub
    omega
  have hne' : range.size.toNat ≠ cur.size.toNat := fun e ↦ hne (UInt64.toNat_inj.mp e).symm
  have hrest : rest.lo = range.hi ∧ rest.hi = cur.hi := by
    have hadd : (cur.addr + range.size).toNat = cur.lo + range.size.toNat := by
      rw [toNat_add_of_le] <;> simp only [Range.lo, Range.hi] at hlo hb hsub ⊢ <;> omega
    simp only [rest, Range.lo, Range.hi, hadd, UInt64.toNat_sub_of_le _ _ hle]
    simp only [Range.lo, Range.hi] at hlo hsub
    omega
  have hlt : range.hi < cur.hi := by
    simp only [Range.lo, Range.hi] at hlo hsub ⊢
    omega
  have hrpos : range.lo < range.hi := by
    simp only [Range.lo, Range.hi]
    omega
  refine ⟨⟨fun j hj ↦ ?_, ?_⟩, fun j hj ↦ ?_, fun x ↦ ?_⟩
  · simp only [List.mem_cons, List.not_mem_nil, or_false] at hj
    rcases hj with rfl | rfl <;> dsimp only <;> omega
  · simp only [List.pairwise_cons, List.mem_singleton, forall_eq, hrest]
    simp
  · simp only [List.mem_cons, List.not_mem_nil, or_false] at hj
    rcases hj with rfl | rfl <;> omega
  · simp only [labelAt_cons, labelAt_nil, hrest]
    split_ifs <;> first | rfl | omega

theorem tiles_tail (k : ℕ) (h : cur.addr ≠ range.addr) (hend : range.endAddr = cur.endAddr) :
    Tiles cur range [{ cur with size := cur.size - range.size }, ⟨range, k⟩] := by
  set rest : Node := { cur with size := cur.size - range.size }
  have ecl : cur.lo = cur.addr.toNat := rfl
  have ech : cur.hi = cur.addr.toNat + cur.size.toNat := rfl
  have erl : range.lo = range.addr.toNat := rfl
  have erh : range.hi = range.addr.toNat + range.size.toNat := rfl
  have hlt : cur.lo < range.lo := by
    have : cur.addr.toNat ≠ range.addr.toNat := fun e ↦ h (UInt64.toNat_inj.mp e)
    omega
  have hhi : range.hi = cur.hi := by
    have e := congrArg UInt64.toNat hend
    rwa [Range.endAddr, Range.endAddr, toNat_add_of_le (by omega), toNat_add_of_le (by omega),
      ← erh, ← ech] at e
  have hle : range.size ≤ cur.size := by
    rw [UInt64.le_iff_toNat_le]
    omega
  have hrest : rest.lo = cur.lo ∧ rest.hi = range.lo := by
    have : rest.hi = cur.addr.toNat + (cur.size.toNat - range.size.toNat) :=
      congrArg (cur.addr.toNat + ·) (UInt64.toNat_sub_of_le _ _ hle)
    exact ⟨rfl, by omega⟩
  have hnode : (⟨range, k⟩ : Node).lo = range.lo ∧ (⟨range, k⟩ : Node).hi = range.hi := ⟨rfl, rfl⟩
  have hrpos : range.lo < range.hi := by omega
  refine ⟨⟨fun j hj ↦ ?_, ?_⟩, fun j hj ↦ ?_, fun x ↦ ?_⟩
  · simp only [List.mem_cons, List.not_mem_nil, or_false] at hj
    rcases hj with rfl | rfl <;> dsimp only <;> omega
  · simp only [List.pairwise_cons, List.mem_singleton, forall_eq, hrest]
    simp
  · simp only [List.mem_cons, List.not_mem_nil, or_false] at hj
    rcases hj with rfl | rfl <;> omega
  · simp only [labelAt_cons, labelAt_nil, hrest]
    split_ifs <;> first | rfl | omega

theorem tiles_middle (k k' : ℕ) (h : cur.addr ≠ range.addr) (hend : range.endAddr ≠ cur.endAddr) :
    Tiles cur range [{ cur with size := range.addr - cur.addr }, ⟨range, k⟩,
      ⟨⟨range.endAddr, cur.endAddr - range.endAddr, cur.type⟩, k'⟩] := by
  set before : Node := { cur with size := range.addr - cur.addr }
  set after : Node := ⟨⟨range.endAddr, cur.endAddr - range.endAddr, cur.type⟩, k'⟩
  have ecl : cur.lo = cur.addr.toNat := rfl
  have ech : cur.hi = cur.addr.toNat + cur.size.toNat := rfl
  have erl : range.lo = range.addr.toNat := rfl
  have erh : range.hi = range.addr.toNat + range.size.toNat := rfl
  have hlt : cur.lo < range.lo := by
    have : cur.addr.toNat ≠ range.addr.toNat := fun e ↦ h (UInt64.toNat_inj.mp e)
    omega
  have hendr : range.endAddr.toNat = range.hi := toNat_add_of_le (by omega)
  have hendc : cur.endAddr.toNat = cur.hi := toNat_add_of_le (by omega)
  have hhi : range.hi < cur.hi := by
    have : range.endAddr.toNat ≠ cur.endAddr.toNat := fun e ↦ hend (UInt64.toNat_inj.mp e)
    omega
  have hbefore : before.lo = cur.lo ∧ before.hi = range.lo := by
    have hle : cur.addr ≤ range.addr := UInt64.le_iff_toNat_le.mpr (by omega)
    have : before.hi = cur.addr.toNat + (range.addr.toNat - cur.addr.toNat) :=
      congrArg (cur.addr.toNat + ·) (UInt64.toNat_sub_of_le _ _ hle)
    exact ⟨rfl, by omega⟩
  have hafter : after.lo = range.hi ∧ after.hi = cur.hi := by
    have hle : range.endAddr ≤ cur.endAddr := UInt64.le_iff_toNat_le.mpr (by omega)
    have : after.hi = range.endAddr.toNat + (cur.endAddr.toNat - range.endAddr.toNat) :=
      congrArg (range.endAddr.toNat + ·) (UInt64.toNat_sub_of_le _ _ hle)
    exact ⟨hendr, by omega⟩
  have hnode : (⟨range, k⟩ : Node).lo = range.lo ∧ (⟨range, k⟩ : Node).hi = range.hi := ⟨rfl, rfl⟩
  have hrpos : range.lo < range.hi := by omega
  refine ⟨⟨fun j hj ↦ ?_, ?_⟩, fun j hj ↦ ?_, fun x ↦ ?_⟩
  · simp only [List.mem_cons, List.not_mem_nil, or_false] at hj
    rcases hj with rfl | rfl | rfl <;> dsimp only <;> omega
  · refine .cons (fun j hj ↦ ?_) (.cons (fun j hj ↦ ?_) (.cons (fun _ h ↦ by cases h) .nil))
    · simp only [List.mem_cons, List.not_mem_nil, or_false] at hj
      rcases hj with rfl | rfl <;> dsimp only <;> omega
    · simp only [List.mem_singleton] at hj
      subst hj
      dsimp only
      omega
  · simp only [List.mem_cons, List.not_mem_nil, or_false] at hj
    rcases hj with rfl | rfl | rfl <;> omega
  · simp only [labelAt_cons, labelAt_nil, hbefore, hafter]
    split_ifs <;> first | rfl | omega

end Tiling

/-! ### What `InsertSubrange` does to the ranges -/

namespace Pool

variable {p q : Pool}

theorem node?_split {it : Iter} {cur : Node} (h : p.node? it = some cur) :
    ∃ l₁ l₂, p.ranges = l₁ ++ cur :: l₂ ∧ it = some cur.ptr ∧ cur.ptr ∉ l₁.map Node.ptr := by
  cases it with
  | none => cases h
  | some k =>
    obtain ⟨l₁, l₂, hl, hk, h₁⟩ := NodeList.exists_split_of_find h
    exact ⟨l₁, l₂, hl, by rw [hk], hk ▸ h₁⟩

theorem newNode_eq_some {range : Range} {node : Node} (h : p.newNode range = (some node, q)) :
    node.toRange = range ∧ node.ptr ∈ p.unused ∧ q = { p with unused := p.unused.dropLast } := by
  unfold newNode at h
  split at h
  · cases h
  · rename_i ptr hlast
    simp only [Prod.mk.injEq, Option.some.injEq] at h
    obtain ⟨rfl, rfl⟩ := h
    exact ⟨rfl, List.mem_of_getLast? hlast, rfl⟩

theorem Tidy.ptr_nodup (ht : p.Tidy) : (p.ranges.map Node.ptr).Nodup :=
  ht.nodup.of_append_left

theorem Tidy.not_mem_right (ht : p.Tidy) {l₁ l₂ : List Node} {cur : Node}
    (hr : p.ranges = l₁ ++ cur :: l₂) : cur.ptr ∉ l₂.map Node.ptr := by
  have h := ht.ptr_nodup
  rw [hr, List.map_append, List.map_cons] at h
  exact (List.nodup_cons.mp (List.nodup_append.mp h).2.1).1

theorem Tidy.head_not_mem (ht : p.Tidy) {l₁ l₂ : List Node} {cur : Node}
    (hr : p.ranges = l₁ ++ cur :: l₂) : ∀ b ∈ l₂.head?, b.ptr ∉ (l₁ ++ [cur]).map Node.ptr := by
  intro b hb hmem
  have h := ht.ptr_nodup
  rw [hr, ← List.singleton_append, ← List.append_assoc, List.map_append] at h
  have hb' : b.ptr ∈ l₂.map Node.ptr := List.mem_map_of_mem (List.mem_of_mem_head? hb)
  exact List.disjoint_of_nodup_append h hmem hb'

/-- The split of `InsertSubrange` once its first node holds `range`: the node
`cur` is replaced by the pieces of one of the three shapes, and the iterator
returned is that of `range`'s node. -/
theorem splitAround_spec (ht : p.Tidy) {l₁ l₂ : List Node} {cur node : Node} {range : Range}
    (hr : p.ranges = l₁ ++ cur :: l₂) (h₁ : cur.ptr ∉ l₁.map Node.ptr) (hnode : node.toRange = range)
    (hfresh : node.ptr ∉ p.nodes) (hsub : cur.lo ≤ range.lo ∧ range.hi ≤ cur.hi)
    (hpos : 0 < range.size.toNat) (hb : cur.hi ≤ 2 ^ 64 - 1)
    (hne : ¬(cur.addr = range.addr ∧ cur.size = range.size)) {it' : Iter}
    (h : p.splitAround (some cur.ptr) cur range node = (some it', q)) :
    ∃ m, q.ranges = l₁ ++ m ++ l₂ ∧ Tiles cur range m ∧ node ∈ m ∧ it' = some node.ptr := by
  have h₂ := ht.not_mem_right hr
  have hnode' : node = ⟨range, node.ptr⟩ := by rw [← hnode]
  have hfresh' : node.ptr ∉ p.ranges.map Node.ptr := fun hm ↦ hfresh (List.mem_append_left _ hm)
  rw [hr] at hfresh'
  have hnext : p.nextIt (some cur.ptr) = l₂.head?.map Node.ptr := by
    simp only [nextIt, Option.bind_some, hr]
    exact NodeList.next_split rfl h₁
  unfold splitAround at h
  split_ifs at h with hhead htail
  · -- the head: the new node goes before the rest of `cur`
    simp only [insertNodeAt, setNode, Prod.mk.injEq, Option.some.injEq] at h
    obtain ⟨rfl, rfl⟩ := h
    refine ⟨[node, { cur with addr := cur.addr + range.size, size := cur.size - range.size }],
      ?_, ?_, List.mem_cons_self, rfl⟩
    · dsimp only
      rw [hr, NodeList.modify_split rfl h₁ h₂, NodeList.insertBefore_split ?_ h₁ node]
      · simp
      · rfl
    · rw [hnode']
      exact tiles_head hsub hpos hb _ hhead fun e ↦ hne ⟨hhead, e⟩
  · -- the tail: the new node goes after the rest of `cur`
    simp only [insertNodeAt, setNode, hnext, Prod.mk.injEq, Option.some.injEq] at h
    obtain ⟨rfl, rfl⟩ := h
    refine ⟨[{ cur with size := cur.size - range.size }, node], ?_, ?_,
      List.mem_cons_of_mem _ List.mem_cons_self, rfl⟩
    · dsimp only
      rw [hr, NodeList.modify_split rfl h₁ h₂, ← List.singleton_append, ← List.append_assoc,
        NodeList.insertBefore_head? fun b hb ↦ by simpa using ht.head_not_mem hr b hb]
      simp
    · rw [hnode']
      exact tiles_tail hsub hpos hb _ hhead htail
  · -- the middle: a second spare node takes the rest after `range`
    simp only [hnext] at h
    split at h
    · cases h
    · rename_i afterNode p₂ hpop
      obtain ⟨hafter, hmem, rfl⟩ := newNode_eq_some hpop
      have hafter' : afterNode = ⟨⟨range.endAddr, cur.endAddr - range.endAddr, cur.type⟩,
          afterNode.ptr⟩ := by rw [← hafter]
      -- the old successor of `cur` is none of the nodes that now precede it
      have hhead2 : ∀ b ∈ l₂.head?, b.ptr ∉ (l₁ ++ [{ cur with size := range.addr - cur.addr },
          node]).map Node.ptr := by
        intro b hb hm
        have hb₂ : b.ptr ∈ l₂.map Node.ptr := List.mem_map_of_mem (List.mem_of_mem_head? hb)
        simp only [List.map_append, List.map_cons, List.map_nil, List.mem_append, List.mem_cons,
          List.not_mem_nil, or_false] at hm
        rcases hm with hm | hm | hm
        · exact ht.head_not_mem hr b hb (by simp [hm])
        · exact ht.head_not_mem hr b hb (by simp [hm])
        · exact hfresh' (by simp [← hm, hb₂])
      simp only [insertNodeAt, setNode, Prod.mk.injEq, Option.some.injEq] at h
      obtain ⟨rfl, rfl⟩ := h
      have hranges : NodeList.insertBefore Node.ptr afterNode
          (NodeList.insertBefore Node.ptr node
            (NodeList.modify Node.ptr p.ranges cur.ptr fun n ↦ { n with size := range.addr - n.addr })
            (l₂.head?.map Node.ptr)) (l₂.head?.map Node.ptr) =
          l₁ ++ { cur with size := range.addr - cur.addr } :: node :: afterNode :: l₂ := by
        have e₁ : NodeList.insertBefore Node.ptr node
            ((l₁ ++ [{ cur with size := range.addr - cur.addr }]) ++ l₂) (l₂.head?.map Node.ptr) =
            (l₁ ++ [{ cur with size := range.addr - cur.addr }]) ++ node :: l₂ :=
          NodeList.insertBefore_head? (fun b hb ↦ by simpa using ht.head_not_mem hr b hb) node
        have e₂ := NodeList.insertBefore_head? hhead2 afterNode
        simp only [List.append_assoc, List.cons_append, List.nil_append] at e₁ e₂
        rw [hr, NodeList.modify_split rfl h₁ h₂, e₁, e₂]
      refine ⟨[{ cur with size := range.addr - cur.addr }, node, afterNode], ?_, ?_, by simp, ?_⟩
      · dsimp only
        rw [hranges]
        simp
      · rw [hnode', hafter']
        exact tiles_middle hsub hpos hb _ _ hhead htail
      · simp only [nextIt, Option.bind_some]
        rw [hranges, NodeList.next_split (k := cur.ptr) (n := { cur with size := range.addr - cur.addr }) rfl h₁]
        rfl

theorem Tidy.node?_ptr (ht : p.Tidy) {n : Node} (hn : n ∈ p.ranges) : p.node? (some n.ptr) = some n := by
  obtain ⟨l₁, l₂, hr⟩ := List.append_of_mem hn
  have h := ht.ptr_nodup
  rw [hr, List.map_append, List.map_cons] at h
  have h₁ : n.ptr ∉ l₁.map Node.ptr := fun hm ↦ List.disjoint_of_nodup_append h hm List.mem_cons_self
  simp only [node?, Option.bind_some, hr]
  exact NodeList.find_split rfl h₁

theorem typeAt_of_tiles (ht : p.Tidy) {l₁ l₂ m : List Node} {cur : Node} {range : Range}
    (hr : p.ranges = l₁ ++ cur :: l₂) (hq : q.ranges = l₁ ++ m ++ l₂) (hsub : cur.lo ≤ range.lo)
    (htiles : Tiles cur range m) (x : ℕ) :
    q.typeAt x = if range.lo ≤ x ∧ x < range.hi then some range.type else p.typeAt x := by
  unfold typeAt
  rw [hq]
  split_ifs with hx
  · -- the nodes before `cur` end before `range` begins
    have hnone : labelAt (fun n : Node ↦ n.lo) (fun n ↦ n.hi) (fun n ↦ n.type) l₁ x = none :=
      labelAt_eq_none_of_le (hr ▸ ht.sorted) (hsub.trans hx.1)
    simp [labelAt_append, hnone, htiles.labels, hx]
  · rw [hr, List.append_cons]
    exact labelAt_append_congr (by rw [htiles.labels, if_neg hx])

theorem Tidy.of_tiles (ht : p.Tidy) {l₁ l₂ m : List Node} {cur : Node} {range : Range}
    (hr : p.ranges = l₁ ++ cur :: l₂) (hq : q.ranges = l₁ ++ m ++ l₂) (htiles : Tiles cur range m)
    (hnodes : q.nodes.Perm p.nodes) : q.Tidy := by
  have hbound : ∀ n ∈ l₁ ++ cur :: l₂, n.hi ≤ 2 ^ 64 - 1 := hr ▸ ht.bounded
  refine ⟨hq ▸ SortedDisjoint.replace (hr ▸ ht.sorted) htiles.sorted htiles.inside,
    fun n hn ↦ ?_, hnodes.nodup_iff.mpr ht.nodup⟩
  rw [hq] at hn
  rcases List.mem_append.mp hn with hn | hn
  · rcases List.mem_append.mp hn with hn | hn
    · exact hbound n (List.mem_append_left _ hn)
    · exact (htiles.inside n hn).2.trans (hbound cur (by simp))
  · exact hbound n (by simp [hn])

/-- `InsertSubrange` on a range within the node it is given, or finds: the
node is replaced by pieces that tile it, one of which is the range's node,
and the iterator returned points at that node. -/
theorem insertSubrange_spec (ht : p.Tidy) {range : Range} {parentIt : Option Iter} {cur : Node}
    (hcur : p.node? (parentIt.getD (p.findContainingRange range.addr range.size)) = some cur)
    (hsub : cur.lo ≤ range.lo ∧ range.hi ≤ cur.hi) (hpos : 0 < range.size.toNat) {it' : Iter}
    (h : p.insertSubrange range parentIt = (some it', q)) :
    ∃ (l₁ l₂ m : List Node), p.ranges = l₁ ++ cur :: l₂ ∧ q.ranges = l₁ ++ m ++ l₂ ∧ Tiles cur range m ∧
      ∃ n ∈ m, n.toRange = range ∧ it' = some n.ptr := by
  obtain ⟨l₁, l₂, hr, hit, h₁⟩ := node?_split hcur
  have hb : cur.hi ≤ 2 ^ 64 - 1 := ht.bounded cur (by simp [hr])
  rw [hit] at hcur
  simp only [insertSubrange, hit, hcur] at h
  split_ifs at h with hsame
  · -- the whole node is the range: it is retyped in place
    simp only [setNode, Prod.mk.injEq, Option.some.injEq] at h
    obtain ⟨rfl, rfl⟩ := h
    refine ⟨l₁, l₂, _, hr, ?_, tiles_retype hpos hsame, _, List.mem_singleton_self _, ?_, rfl⟩
    · dsimp only
      rw [hr, NodeList.modify_split rfl h₁ (ht.not_mem_right hr)]
      simp
    · obtain ⟨ha, hs⟩ := hsame
      simp [ha, hs]
  · split at h
    · cases h
    · -- a spare node for the range, then the split around it
      rename_i node p₁ hpop
      obtain ⟨hnode, -, rfl⟩ := newNode_eq_some hpop
      have hnd := List.nodup_cons.mp ((nodes_newNode hpop).1.nodup_iff.mpr ht.nodup)
      have ht₁ : Pool.Tidy { p with unused := p.unused.dropLast } := ⟨ht.sorted, ht.bounded, hnd.2⟩
      obtain ⟨m, hq, htiles, hmem, hit'⟩ :=
        splitAround_spec ht₁ hr h₁ hnode hnd.1 hsub hpos hb hsame h
      exact ⟨l₁, l₂, m, hr, hq, htiles, node, hmem, hnode, hit'⟩

theorem insertSubrange_nodes_perm {range : Range} {parentIt : Option Iter} {it' : Iter}
    (h : p.insertSubrange range parentIt = (some it', q)) : q.nodes.Perm p.nodes := by
  rcases insertSubrange_cases (p := p) range parentIt with ⟨-, hn⟩ | ⟨hnone, -⟩ | ⟨hnone, -⟩
  · rwa [h] at hn
  · simp [h] at hnone
  · simp [h] at hnone

theorem insertSubrange_typeAt (ht : p.Tidy) {range : Range} {parentIt : Option Iter} {cur : Node}
    (hcur : p.node? (parentIt.getD (p.findContainingRange range.addr range.size)) = some cur)
    (hsub : cur.lo ≤ range.lo ∧ range.hi ≤ cur.hi) (hpos : 0 < range.size.toNat) {it' : Iter}
    (h : p.insertSubrange range parentIt = (some it', q)) :
    q.Tidy ∧ ∀ x, q.typeAt x = if range.lo ≤ x ∧ x < range.hi then some range.type else p.typeAt x := by
  obtain ⟨l₁, l₂, m, hr, hq, htiles, -⟩ := insertSubrange_spec ht hcur hsub hpos h
  exact ⟨ht.of_tiles hr hq htiles (insertSubrange_nodes_perm h),
    typeAt_of_tiles ht hr hq hsub.1 htiles⟩

/-! ### What `Coalesce` does to the map -/

theorem Tidy.not_mem_left (ht : p.Tidy) {l₁ l₂ : List Node} {cur : Node}
    (hr : p.ranges = l₁ ++ cur :: l₂) : cur.ptr ∉ l₁.map Node.ptr := by
  have h := ht.ptr_nodup
  rw [hr, List.map_append, List.map_cons] at h
  exact fun hm ↦ List.disjoint_of_nodup_append h hm List.mem_cons_self

theorem Tidy.prev_split (ht : p.Tidy) {it : Iter} {prev cur : Node}
    (hprev : p.node? (p.prevIt it) = some prev) (hcur : p.node? it = some cur) :
    ∃ l₁ l₂, p.ranges = l₁ ++ prev :: cur :: l₂ ∧ it = some cur.ptr := by
  obtain ⟨l₁', l₂, hr, rfl, h₁⟩ := node?_split hcur
  have hp : p.prevIt (some cur.ptr) = l₁'.getLast?.map Node.ptr := by
    simp only [prevIt, NodeList.prev, hr]
    exact NodeList.prevOf_split rfl h₁ (ht.not_mem_right hr)
  rw [hp] at hprev
  rcases List.eq_nil_or_concat l₁' with rfl | ⟨l₁, b, rfl⟩
  · simp [node?] at hprev
  · simp only [List.concat_eq_append] at hr hprev
    rw [List.getLast?_concat, Option.map_some, ht.node?_ptr (by simp [hr])] at hprev
    cases hprev
    exact ⟨l₁, l₂, by simp [hr], rfl⟩

theorem Tidy.next_split (ht : p.Tidy) {it : Iter} {cur next : Node}
    (hcur : p.node? it = some cur) (hnext : p.node? (p.nextIt it) = some next) :
    ∃ l₁ l₂, p.ranges = l₁ ++ cur :: next :: l₂ ∧ it = some cur.ptr := by
  obtain ⟨l₁, l₂', hr, rfl, h₁⟩ := node?_split hcur
  have hn : p.nextIt (some cur.ptr) = l₂'.head?.map Node.ptr := by
    simp only [nextIt, Option.bind_some, hr]
    exact NodeList.next_split rfl h₁
  rw [hn] at hnext
  cases l₂' with
  | nil => simp [node?] at hnext
  | cons b l₂ =>
    rw [List.head?_cons, Option.map_some, ht.node?_ptr (by simp [hr])] at hnext
    cases hnext
    exact ⟨l₁, l₂, hr, rfl⟩

theorem Tidy.fuse (ht : p.Tidy) {l₁ l₂ : List Node} {a b c : Node}
    (hr : p.ranges = l₁ ++ a :: b :: l₂) (hq : q.ranges = l₁ ++ c :: l₂) (hab : a.hi = b.lo)
    (hc : c.lo = a.lo ∧ c.hi = b.hi) (hta : a.type = c.type) (htb : b.type = c.type)
    (hnodes : q.nodes.Perm p.nodes) : q.Tidy ∧ q.typeAt = p.typeAt := by
  have hsorted : SortedDisjoint (fun n : Node ↦ n.lo) (fun n ↦ n.hi) (l₁ ++ a :: b :: l₂) :=
    hr ▸ ht.sorted
  have hbound : ∀ n ∈ l₁ ++ a :: b :: l₂, n.hi ≤ 2 ^ 64 - 1 := hr ▸ ht.bounded
  refine ⟨⟨hq ▸ hsorted.fuse hc, fun n hn ↦ ?_, hnodes.nodup_iff.mpr ht.nodup⟩, ?_⟩
  · rw [hq] at hn
    rcases List.mem_append.mp hn with hn | hn
    · exact hbound n (List.mem_append_left _ hn)
    · rcases List.mem_cons.mp hn with rfl | hn
      · exact hc.2 ▸ hbound b (by simp)
      · exact hbound n (by simp [hn])
  · funext x
    have hla := hsorted.1 a (by simp)
    have hlb := hsorted.1 b (by simp)
    simp only [typeAt, hr, hq]
    rw [List.append_cons l₁ c, show l₁ ++ a :: b :: l₂ = l₁ ++ [a, b] ++ l₂ by simp]
    have hfuse : labelAt (fun n : Node ↦ n.lo) (fun n ↦ n.hi) (fun n ↦ n.type) [a, b] x =
        labelAt (fun n : Node ↦ n.lo) (fun n ↦ n.hi) (fun n ↦ n.type) [c] x :=
      @labelAt_fuse Node MemType (fun n ↦ n.lo) (fun n ↦ n.hi) (fun n ↦ n.type) a b c hla.le hlb.le
        hab hc hta htb x
    exact labelAt_append_congr hfuse.symm

theorem Range.hi_eq_lo {a b : Range} (h : a.endAddr = b.addr) (ha : a.hi ≤ 2 ^ 64 - 1) :
    a.hi = b.lo := by
  rw [Range.lo, ← h, Range.endAddr, toNat_add_of_le ha]
  rfl

theorem Tidy.coalescePrev_cases (ht : p.Tidy) (it : Iter) :
    p.coalescePrev it = p ∨
      ∃ (l₁ l₂ : List Node) (prev cur : Node), p.ranges = l₁ ++ prev :: cur :: l₂ ∧ it = some cur.ptr ∧
        prev.type = cur.type ∧ prev.hi = cur.lo ∧
        (p.coalescePrev it).ranges =
          l₁ ++ { cur with addr := prev.addr, size := cur.size + prev.size } :: l₂ ∧
        ({ cur with addr := prev.addr, size := cur.size + prev.size } : Node).hi = cur.hi := by
  cases hprev : p.node? (p.prevIt it) with
  | none => exact .inl (by simp [Pool.coalescePrev, hprev])
  | some prev =>
    cases hcur : p.node? it with
    | none => exact .inl (by simp [Pool.coalescePrev, hprev, hcur])
    | some cur =>
      by_cases hm : prev.type = cur.type ∧ prev.endAddr = cur.addr
      · -- `cur` grows down over `prev`, whose node is unlinked
        right
        obtain ⟨l₁, l₂, hr, rfl⟩ := ht.prev_split hprev hcur
        have hr' : p.ranges = (l₁ ++ [prev]) ++ cur :: l₂ := by simp [hr]
        have hb : cur.hi ≤ 2 ^ 64 - 1 := ht.bounded cur (by simp [hr])
        have hab : prev.hi = cur.lo := Range.hi_eq_lo hm.2 (ht.bounded prev (by simp [hr]))
        have hsize : (cur.size + prev.size).toNat = cur.size.toNat + prev.size.toNat :=
          toNat_add_of_le (by simp only [Range.lo, Range.hi] at hab hb; omega)
        refine ⟨l₁, l₂, prev, cur, hr, rfl, hm.1, hab, ?_, ?_⟩
        · simp only [Pool.coalescePrev, hprev, hcur, if_pos hm, setNode, removeNodeAt, pushUnused]
          rw [hr', NodeList.modify_split rfl (ht.not_mem_left hr') (ht.not_mem_right hr'),
            List.append_assoc, List.singleton_append, NodeList.erase_split rfl (ht.not_mem_left hr)]
        · simp only [Range.lo, Range.hi, hsize] at hab ⊢
          omega
      · exact .inl (by simp [Pool.coalescePrev, hprev, hcur, hm])

theorem Tidy.coalesceNext_cases (ht : p.Tidy) (it : Iter) :
    p.coalesceNext it = p ∨
      ∃ (l₁ l₂ : List Node) (cur next : Node), p.ranges = l₁ ++ cur :: next :: l₂ ∧ it = some cur.ptr ∧
        next.type = cur.type ∧ cur.hi = next.lo ∧
        (p.coalesceNext it).ranges = l₁ ++ { cur with size := cur.size + next.size } :: l₂ ∧
        ({ cur with size := cur.size + next.size } : Node).hi = next.hi := by
  cases hcur : p.node? it with
  | none => exact .inl (by simp [Pool.coalesceNext, hcur])
  | some cur =>
    cases hnext : p.node? (p.nextIt it) with
    | none => exact .inl (by simp [Pool.coalesceNext, hnext, hcur])
    | some next =>
      by_cases hm : next.type = cur.type ∧ cur.endAddr = next.addr
      · -- `cur` grows up over `next`, whose node is unlinked
        right
        obtain ⟨l₁, l₂, hr, rfl⟩ := ht.next_split hcur hnext
        have hr' : p.ranges = (l₁ ++ [cur]) ++ next :: l₂ := by simp [hr]
        have hb : next.hi ≤ 2 ^ 64 - 1 := ht.bounded next (by simp [hr])
        have hab : cur.hi = next.lo := Range.hi_eq_lo hm.2 (ht.bounded cur (by simp [hr]))
        have hsize : (cur.size + next.size).toNat = cur.size.toNat + next.size.toNat :=
          toNat_add_of_le (by simp only [Range.lo, Range.hi] at hab hb; omega)
        refine ⟨l₁, l₂, cur, next, hr, rfl, hm.1, hab, ?_, ?_⟩
        · simp only [Pool.coalesceNext, hnext, hcur, if_pos hm, setNode, removeNodeAt, pushUnused]
          have e : NodeList.erase Node.ptr
              ((l₁ ++ [{ cur with size := cur.size + next.size }]) ++ next :: l₂) next.ptr =
              (l₁ ++ [{ cur with size := cur.size + next.size }]) ++ l₂ :=
            NodeList.erase_split rfl (by simpa using ht.not_mem_left hr')
          simp only [List.append_assoc, List.cons_append, List.nil_append] at e
          rw [hr, NodeList.modify_split rfl (ht.not_mem_left hr) (ht.not_mem_right hr), e]
        · simp only [Range.lo, Range.hi, hsize] at hab ⊢
          omega
      · exact .inl (by simp [Pool.coalesceNext, hnext, hcur, hm])

theorem Tidy.coalescePrev (ht : p.Tidy) (it : Iter) :
    (p.coalescePrev it).Tidy ∧ (p.coalescePrev it).typeAt = p.typeAt := by
  rcases ht.coalescePrev_cases it with h | ⟨l₁, l₂, prev, cur, hr, -, htype, hab, hq, hhi⟩
  · rw [h]
    exact ⟨ht, rfl⟩
  · exact ht.fuse hr hq hab ⟨rfl, hhi⟩ htype rfl (nodes_coalescePrev _)

theorem Tidy.coalesceNext (ht : p.Tidy) (it : Iter) :
    (p.coalesceNext it).Tidy ∧ (p.coalesceNext it).typeAt = p.typeAt := by
  rcases ht.coalesceNext_cases it with h | ⟨l₁, l₂, cur, next, hr, -, htype, hab, hq, hhi⟩
  · rw [h]
    exact ⟨ht, rfl⟩
  · exact ht.fuse hr hq hab ⟨rfl, hhi⟩ rfl htype (nodes_coalesceNext _)

theorem Tidy.coalesce (ht : p.Tidy) (it : Iter) :
    (p.coalesce it).2.Tidy ∧ (p.coalesce it).2.typeAt = p.typeAt := by
  unfold Pool.coalesce
  split_ifs
  · obtain ⟨h₁, e₁⟩ := ht.coalescePrev it
    obtain ⟨h₂, e₂⟩ := h₁.coalesceNext it
    exact ⟨h₂, e₂.trans e₁⟩
  · exact ht.coalesceNext it

/-! ### Where `Coalesce` leaves the node -/

theorem Tidy.split_inj (ht : p.Tidy) {l₁ l₂ l₁' l₂' : List Node} {n n' : Node}
    (hr : p.ranges = l₁ ++ n :: l₂) (hr' : p.ranges = l₁' ++ n' :: l₂') (hptr : n'.ptr = n.ptr) :
    l₁ = l₁' ∧ n = n' ∧ l₂ = l₂' := by
  have h₁ : n' ∉ l₁ := fun h ↦ ht.not_mem_left hr (hptr ▸ List.mem_map_of_mem h)
  have h₂ : n' ∉ l₂ := fun h ↦ ht.not_mem_right hr (hptr ▸ List.mem_map_of_mem h)
  exact (List.append_cons_inj_of_notMem h₁ h₂).mp (hr.symm.trans hr')

theorem Tidy.coalescePrev_shape (ht : p.Tidy) {l₁ l₂ : List Node} {n : Node}
    (hr : p.ranges = l₁ ++ n :: l₂) :
    ∃ L c, (p.coalescePrev (some n.ptr)).ranges = L ++ c :: l₂ ∧ c.ptr = n.ptr ∧
      c.type = n.type ∧ c.lo ≤ n.lo ∧ c.hi = n.hi ∧
      (L = l₁ ∨ ∃ b, l₁ = L ++ [b] ∧ b.type = n.type) := by
  rcases ht.coalescePrev_cases (some n.ptr) with
    h | ⟨L, l₂', prev, cur, hr', hit, htype, hab, hq, hhi⟩
  · rw [h]
    exact ⟨l₁, n, hr, rfl, rfl, le_rfl, rfl, .inl rfl⟩
  · have hr'' : p.ranges = (L ++ [prev]) ++ cur :: l₂' := by simp [hr']
    obtain ⟨rfl, rfl, rfl⟩ := ht.split_inj hr hr'' (Option.some.inj hit).symm
    have hprev : prev.lo < prev.hi := ht.sorted.1 prev (by simp [hr'])
    exact ⟨L, _, hq, rfl, rfl, by simp only [Range.lo] at hprev hab ⊢; omega, hhi,
      .inr ⟨prev, rfl, htype⟩⟩

theorem Tidy.coalesceNext_shape (ht : p.Tidy) {l₁ l₂ : List Node} {n : Node}
    (hr : p.ranges = l₁ ++ n :: l₂) :
    ∃ c R, (p.coalesceNext (some n.ptr)).ranges = l₁ ++ c :: R ∧ c.ptr = n.ptr ∧
      c.type = n.type ∧ c.lo = n.lo ∧ n.hi ≤ c.hi ∧
      (R = l₂ ∨ ∃ b, l₂ = b :: R ∧ b.type = n.type) := by
  rcases ht.coalesceNext_cases (some n.ptr) with
    h | ⟨l₁', R, cur, next, hr', hit, htype, hab, hq, hhi⟩
  · rw [h]
    exact ⟨n, l₂, hr, rfl, rfl, rfl, le_rfl, .inl rfl⟩
  · obtain ⟨rfl, rfl, rfl⟩ := ht.split_inj hr hr' (Option.some.inj hit).symm
    have hnext : next.lo < next.hi := ht.sorted.1 next (by simp [hr'])
    exact ⟨_, R, hq, rfl, rfl, rfl, by omega, .inr ⟨next, rfl, htype⟩⟩

theorem Tidy.coalesce_shape (ht : p.Tidy) {l₁ l₂ : List Node} {n : Node}
    (hr : p.ranges = l₁ ++ n :: l₂) :
    ∃ (L : List Node) (c : Node) (R : List Node), (p.coalesce (some n.ptr)).2.ranges = L ++ c :: R ∧ c.ptr = n.ptr ∧
      c.type = n.type ∧ c.lo ≤ n.lo ∧ n.hi ≤ c.hi ∧
      (L = l₁ ∨ ∃ b, l₁ = L ++ [b] ∧ b.type = n.type) ∧
      (R = l₂ ∨ ∃ b, l₂ = b :: R ∧ b.type = n.type) := by
  unfold Pool.coalesce
  dsimp only
  generalize hpre : (if some n.ptr ≠ p.begin then p.coalescePrev (some n.ptr) else p) = p'
  obtain ⟨ht', L, c, hq, hptr, htype, hlo, hhi, hL⟩ : p'.Tidy ∧ ∃ L c,
      p'.ranges = L ++ c :: l₂ ∧ c.ptr = n.ptr ∧ c.type = n.type ∧ c.lo ≤ n.lo ∧ c.hi = n.hi ∧
        (L = l₁ ∨ ∃ b, l₁ = L ++ [b] ∧ b.type = n.type) := by
    subst hpre
    split_ifs
    · exact ⟨(ht.coalescePrev _).1, ht.coalescePrev_shape hr⟩
    · exact ⟨ht, l₁, n, hr, rfl, rfl, le_rfl, rfl, .inl rfl⟩
  obtain ⟨c', R, hq', hptr', htype', hlo', hhi', hR⟩ := ht'.coalesceNext_shape hq
  rw [hptr] at hq'
  refine ⟨L, c', R, hq', hptr'.trans hptr, htype'.trans htype, hlo' ▸ hlo, hhi ▸ hhi', hL, ?_⟩
  rwa [htype] at hR

theorem Tidy.mem_coalesce (ht : p.Tidy) {l₁ l₂ : List Node} {n j : Node}
    (hr : p.ranges = l₁ ++ n :: l₂) (hj : j ∈ p.ranges) (hne : j.type ≠ n.type) :
    j ∈ (p.coalesce (some n.ptr)).2.ranges := by
  obtain ⟨L, c, R, hq, -, -, -, -, hL, hR⟩ := ht.coalesce_shape hr
  rw [hq]
  rw [hr] at hj
  rcases List.mem_append.mp hj with hj | hj
  · rcases hL with rfl | ⟨b, rfl, hb⟩
    · exact List.mem_append_left _ hj
    · rcases List.mem_append.mp hj with hj | hj
      · exact List.mem_append_left _ hj
      · rw [List.mem_singleton.mp hj] at hne
        exact absurd hb hne
  · rcases List.mem_cons.mp hj with rfl | hj
    · exact absurd rfl hne
    · rcases hR with rfl | ⟨b, rfl, hb⟩
      · exact List.mem_append_right _ (List.mem_cons_of_mem _ hj)
      · rcases List.mem_cons.mp hj with rfl | hj
        · exact absurd hb hne
        · exact List.mem_append_right _ (List.mem_cons_of_mem _ hj)

end Pool

end Zircon.Memalloc
