import Mathlib

/-!
# Rank-balanced search trees

A weak AVL tree keeps a rank on every node; the rank difference from a node
to each child is 1 or 2, and a leaf has rank 1 (an absent child rank 0).
Insertion adds a leaf and walks up: a node whose child now has its own rank
is promoted if its other child differs by 1, and rotated otherwise.  This is
the bottom-up insertion of rank-balanced trees, as an intrusive WAVL tree
does it.

Removal is plain search-tree removal, replacing a node with two children by
the least node of its right subtree; the demotions and rotations that follow
a removal in a WAVL tree are not modelled, so after removals the ranks are
only bookkeeping.

What the search itself needs is that the in-order list of a tree is strictly
increasing: insertion puts the new key in its place in that list and removal
takes the key out of it.
-/

namespace Zircon.Lib

/-- A binary tree with a rank on every node. -/
inductive WavlTree (κ : Type*)
  | leaf
  | node (l : WavlTree κ) (x : κ) (rank : ℕ) (r : WavlTree κ)
  deriving DecidableEq, Repr

namespace WavlTree

variable {κ : Type*}

/-- The rank of a tree; an absent node has rank 0. -/
def rank : WavlTree κ → ℕ
  | leaf => 0
  | node _ _ k _ => k

/-- The keys in order. -/
def toList : WavlTree κ → List κ
  | leaf => []
  | node l x _ r => l.toList ++ x :: r.toList

/-- The least key (`begin()`), if any. -/
def front? : WavlTree κ → Option κ
  | leaf => none
  | node leaf x _ _ => some x
  | node l _ _ _ => l.front?

theorem toList_left_subset (l r : WavlTree κ) (x : κ) (k : ℕ) :
    l.toList ⊆ (node l x k r).toList :=
  fun _ h ↦ List.mem_append_left _ h

theorem toList_right_subset (l r : WavlTree κ) (x : κ) (k : ℕ) :
    r.toList ⊆ (node l x k r).toList :=
  fun _ h ↦ List.mem_append_right _ (List.mem_cons_of_mem _ h)

theorem mem_toList_node_self (l r : WavlTree κ) (x : κ) (k : ℕ) : x ∈ (node l x k r).toList :=
  List.mem_append_right _ List.mem_cons_self

theorem front?_eq_head? : ∀ t : WavlTree κ, t.front? = t.toList.head?
  | leaf => rfl
  | node leaf _ _ _ => rfl
  | node (node l y j r') x k r => by
    show (node l y j r').front? = _
    rw [front?_eq_head? (node l y j r')]
    simp [toList]

theorem mem_toList_of_front? {t : WavlTree κ} {m : κ} (h : t.front? = some m) : m ∈ t.toList := by
  rw [front?_eq_head?] at h
  exact List.mem_of_head? h

theorem front?_eq_none {t : WavlTree κ} : t.front? = none ↔ t.toList = [] := by
  rw [front?_eq_head?, List.head?_eq_none_iff]

/-- The rank rule: differences of 1 or 2, and leaves of rank 1. -/
def rankRule : WavlTree κ → Bool
  | leaf => true
  | node l _ k r =>
    (l.rank + 1 == k || l.rank + 2 == k) && (r.rank + 1 == k || r.rank + 2 == k) &&
      (l.rank != 0 || r.rank != 0 || k == 1) && l.rankRule && r.rankRule

/-- Rebalance after the left subtree of a node of rank `k` was replaced by `l`,
whose rank grew by at most one. -/
def balanceL (l : WavlTree κ) (x : κ) (k : ℕ) (r : WavlTree κ) : WavlTree κ :=
  if l.rank < k then node l x k r
  -- `l` is now a 0-child: promote if `r` is a 1-child, else rotate.
  else if r.rank + 1 = k then node l x (k + 1) r
  else
    match l with
    | node a y _ b =>
      if b.rank + 1 < k then node a y k (node b x (k - 1) r)
      else
        match b with
        | node b₁ z _ b₂ => node (node a y (k - 1) b₁) z k (node b₂ x (k - 1) r)
        | leaf => node l x k r
    | leaf => node l x k r

/-- The mirror image of `balanceL`. -/
def balanceR (l : WavlTree κ) (x : κ) (k : ℕ) (r : WavlTree κ) : WavlTree κ :=
  if r.rank < k then node l x k r
  else if l.rank + 1 = k then node l x (k + 1) r
  else
    match r with
    | node a y _ b =>
      if a.rank + 1 < k then node (node l x (k - 1) a) y k b
      else
        match a with
        | node a₁ z _ a₂ => node (node l x (k - 1) a₁) z k (node a₂ y (k - 1) b)
        | leaf => node l x k r
    | leaf => node l x k r

theorem toList_balanceL (l : WavlTree κ) (x : κ) (k : ℕ) (r : WavlTree κ) :
    (balanceL l x k r).toList = l.toList ++ x :: r.toList := by
  unfold balanceL
  split_ifs
  · rfl
  · rfl
  · split
    · split_ifs
      · simp [toList]
      · split <;> simp [toList]
    · rfl

theorem toList_balanceR (l : WavlTree κ) (x : κ) (k : ℕ) (r : WavlTree κ) :
    (balanceR l x k r).toList = l.toList ++ x :: r.toList := by
  unfold balanceR
  split_ifs
  · rfl
  · rfl
  · split
    · split_ifs
      · simp [toList]
      · split <;> simp [toList]
    · rfl

/-- The least key and the tree without it. -/
def eraseMin : WavlTree κ → Option (κ × WavlTree κ)
  | leaf => none
  | node l x k r =>
    match eraseMin l with
    | none => some (x, r)
    | some (m, l') => some (m, node l' x k r)

theorem toList_of_eraseMin : ∀ {t : WavlTree κ} {m : κ} {t' : WavlTree κ},
    t.eraseMin = some (m, t') → t.toList = m :: t'.toList
  | leaf, _, _, h => by cases h
  | node l x k r, m, t', h => by
    unfold eraseMin at h
    split at h
    · rename_i hl
      cases h
      cases l with
      | leaf => rfl
      | node => simp [eraseMin] at hl; split at hl <;> cases hl
    · rename_i m' l' hl
      cases h
      simp [toList, toList_of_eraseMin hl]

theorem eraseMin_eq_none {t : WavlTree κ} (h : t.eraseMin = none) : t = leaf := by
  cases t with
  | leaf => rfl
  | node l x k r =>
    unfold eraseMin at h
    split at h <;> cases h

variable [LinearOrder κ]

/-- Insertion of a new key. -/
def insert (v : κ) : WavlTree κ → WavlTree κ
  | leaf => node leaf v 1 leaf
  | node l x k r => if v < x then balanceL (l.insert v) x k r else balanceR l x k (r.insert v)

/-- Removal of a key. -/
def erase (v : κ) : WavlTree κ → WavlTree κ
  | leaf => leaf
  | node l x k r =>
    if v < x then node (l.erase v) x k r
    else if x < v then node l x k (r.erase v)
    else
      match r.eraseMin with
      | none => l
      | some (m, r') => node l m k r'

/-- The in-order list is strictly increasing. -/
def Sorted (t : WavlTree κ) : Prop :=
  t.toList.Pairwise (· < ·)

theorem toList_insert_perm (v : κ) (t : WavlTree κ) : (t.insert v).toList.Perm (v :: t.toList) := by
  induction t with
  | leaf => simp [insert, toList]
  | node l x k r ihl ihr =>
    simp only [insert]
    split_ifs
    · rw [toList_balanceL, toList]
      exact ihl.append_right _
    · rw [toList_balanceR, toList]
      refine ((ihr.cons x).append_left _).trans ?_
      rw [show l.toList ++ x :: v :: r.toList = (l.toList ++ [x]) ++ v :: r.toList by simp]
      exact List.perm_middle.trans (by simp)

theorem mem_toList_insert {v a : κ} {t : WavlTree κ} :
    a ∈ (t.insert v).toList ↔ a = v ∨ a ∈ t.toList := by
  rw [(toList_insert_perm v t).mem_iff, List.mem_cons]

theorem sorted_node {l r : WavlTree κ} {x : κ} {k : ℕ} :
    Sorted (node l x k r) ↔
      Sorted l ∧ Sorted r ∧ (∀ a ∈ l.toList, a < x) ∧ (∀ b ∈ r.toList, x < b) := by
  simp only [Sorted, toList, List.pairwise_append, List.pairwise_cons, List.mem_cons]
  constructor
  · rintro ⟨hl, ⟨hx, hr⟩, hlr⟩
    exact ⟨hl, hr, fun a ha ↦ hlr a ha x (.inl rfl), hx⟩
  · rintro ⟨hl, hr, hlx, hxr⟩
    refine ⟨hl, ⟨hxr, hr⟩, fun a ha b hb ↦ ?_⟩
    rcases hb with rfl | hb
    · exact hlx a ha
    · exact (hlx a ha).trans (hxr b hb)

theorem sorted_insert {v : κ} {t : WavlTree κ} (ht : Sorted t) (hv : v ∉ t.toList) :
    Sorted (t.insert v) := by
  induction t with
  | leaf => simp [insert, Sorted, toList]
  | node l x k r ihl ihr =>
    obtain ⟨hl, hr, hlx, hxr⟩ := sorted_node.mp ht
    simp only [toList, List.mem_append, List.mem_cons, not_or] at hv
    simp only [insert]
    split_ifs with hvx
    · -- `v` goes left of `x`.
      have h : Sorted (node (l.insert v) x k r) := by
        refine sorted_node.mpr ⟨ihl hl hv.1, hr, fun a ha ↦ ?_, hxr⟩
        rcases mem_toList_insert.mp ha with rfl | ha
        · exact hvx
        · exact hlx a ha
      rw [Sorted, toList_balanceL]
      exact h
    · -- `v` goes right of `x`.
      have hxv : x < v := lt_of_le_of_ne (not_lt.mp hvx) (Ne.symm hv.2.1)
      have h : Sorted (node l x k (r.insert v)) := by
        refine sorted_node.mpr ⟨hl, ihr hr hv.2.2, hlx, fun b hb ↦ ?_⟩
        rcases mem_toList_insert.mp hb with rfl | hb
        · exact hxv
        · exact hxr b hb
      rw [Sorted, toList_balanceR]
      exact h

theorem toList_erase {v : κ} {t : WavlTree κ} (ht : Sorted t) :
    (t.erase v).toList = t.toList.erase v := by
  induction t with
  | leaf => rfl
  | node l x k r ihl ihr =>
    obtain ⟨hl, hr, hlx, hxr⟩ := sorted_node.mp ht
    have hxl : x ∉ l.toList := fun h ↦ lt_irrefl x (hlx x h)
    simp only [erase]
    split_ifs with hvx hxv
    · -- `v` can only be in the left subtree.
      have hv : v ∉ x :: r.toList := by
        intro h
        rcases List.mem_cons.mp h with rfl | hb
        · exact lt_irrefl v hvx
        · exact lt_asymm hvx (hxr v hb)
      simp only [toList, ihl hl]
      by_cases hvl : v ∈ l.toList
      · rw [List.erase_append_left _ hvl]
      · rw [List.erase_of_not_mem hvl, List.erase_append_right _ hvl, List.erase_of_not_mem hv]
    · have hvl : v ∉ l.toList := fun h ↦ lt_asymm hxv (hlx v h)
      simp only [toList, ihr hr, List.erase_append_right _ hvl]
      rw [List.erase_cons_tail (by simpa using (ne_of_lt hxv))]
    · have hv : v = x := le_antisymm (not_lt.mp hxv) (not_lt.mp hvx)
      subst hv
      simp only [toList, List.erase_append_right _ hxl, List.erase_cons_head]
      split
      · rename_i hmin
        rw [eraseMin_eq_none hmin]
        simp [toList]
      · rename_i m r' hmin
        simp [toList, toList_of_eraseMin hmin]

theorem front?_le {t : WavlTree κ} (ht : Sorted t) {m : κ} (hm : t.front? = some m) :
    ∀ k ∈ t.toList, m ≤ k := by
  rw [front?_eq_head?] at hm
  obtain ⟨rest, hrest⟩ := List.head?_eq_some_iff.mp hm
  intro k hk
  rw [Sorted, hrest, List.pairwise_cons] at ht
  rw [hrest] at hk
  rcases List.mem_cons.mp hk with rfl | hk
  · exact le_rfl
  · exact (ht.1 k hk).le

theorem mem_toList_of_mem_erase {v a : κ} {t : WavlTree κ} (ht : Sorted t)
    (h : a ∈ (t.erase v).toList) : a ∈ t.toList := by
  rw [toList_erase ht] at h
  exact List.mem_of_mem_erase h

theorem toList_erase_perm {v : κ} {t : WavlTree κ} (ht : Sorted t) (hv : v ∈ t.toList) :
    (v :: (t.erase v).toList).Perm t.toList := by
  rw [toList_erase ht]
  exact (List.perm_cons_erase hv).symm

theorem sorted_erase {v : κ} {t : WavlTree κ} (ht : Sorted t) : Sorted (t.erase v) := by
  rw [Sorted, toList_erase ht]
  exact ht.sublist (List.erase_sublist)

end WavlTree

end Zircon.Lib
