import Mathlib

/-!
# Intrusive lists addressed by node identity

An intrusive doubly-linked list links nodes that live elsewhere, and its
iterators are node addresses: an iterator keeps pointing at its node when
other nodes are inserted or removed around it.  A list of nodes together with
a key function, the node's address, models it; an iterator is `some k` for
the node with key `k`, or `none` for `end()`.

The operations are those of the container (`insert`, `erase`, `push_back`)
and of its iterators (`std::next`, `std::prev`), and in-place updates of one
node.  The lemmas say what each does to the keys of the list, which is what
bookkeeping of nodes across lists needs.
-/

namespace Zircon.Lib.NodeList

variable {α κ : Type*} [DecidableEq κ] (key : α → κ)

/-- The node with key `k`. -/
def find (l : List α) (k : κ) : Option α :=
  l.find? fun a ↦ key a = k

/-- `std::next`: the node after the node `k`, or the end. -/
def next : List α → κ → Option κ
  | [], _ => none
  | a :: l, k => if key a = k then l.head?.map key else next l k

/-- The node before the node `k`, if it is not the first. -/
def prevOf : List α → κ → Option κ
  | a :: b :: l, k => if key b = k then some (key a) else prevOf (b :: l) k
  | _, _ => none

/-- `std::prev`: the node before an iterator; before the end is the last node. -/
def prev (l : List α) : Option κ → Option κ
  | none => l.getLast?.map key
  | some k => prevOf key l k

/-- An update of the node `k` in place. -/
def modify (l : List α) (k : κ) (f : α → α) : List α :=
  l.map fun a ↦ if key a = k then f a else a

/-- `insert(it, x)`: `x` goes before the node `it`, or last for the end.  An
iterator to no node of the list also inserts last. -/
def insertBefore (x : α) : List α → Option κ → List α
  | l, none => l ++ [x]
  | [], some _ => [x]
  | a :: l, some k => if key a = k then x :: a :: l else a :: insertBefore x l (some k)

/-- `erase(it)`: unlink the node `k`. -/
def erase (l : List α) (k : κ) : List α :=
  l.eraseP fun a ↦ key a = k

/-- The nodes from the node `k` on, or none for the end. -/
def dropUntil (l : List α) : Option κ → List α
  | none => []
  | some k => l.dropWhile fun a ↦ key a ≠ k

variable {key}

theorem map_modify {l : List α} {k : κ} {f : α → α} (hf : ∀ a, key (f a) = key a) :
    (modify key l k f).map key = l.map key := by
  induction l with
  | nil => rfl
  | cons a l ih =>
    simp only [modify, List.map_cons] at ih ⊢
    split_ifs <;> simp [hf, ih]

theorem perm_insertBefore (x : α) (l : List α) (it : Option κ) :
    ((insertBefore key x l it).map key).Perm (key x :: l.map key) := by
  induction l with
  | nil => cases it <;> simp [insertBefore]
  | cons a l ih =>
    cases it with
    | none =>
      simp only [insertBefore, List.map_append, List.map_cons, List.map_nil]
      exact List.perm_append_singleton _ _
    | some k =>
      simp only [insertBefore]
      split_ifs
      · rfl
      · simp only [List.map_cons]
        exact (ih.cons (key a)).trans (List.Perm.swap _ _ _)

theorem perm_erase {l : List α} {k : κ} (hk : k ∈ l.map key) :
    ((l.map key).erase k).Perm ((erase key l k).map key) := by
  induction l with
  | nil => simp at hk
  | cons a l ih =>
    simp only [erase, List.eraseP_cons, List.map_cons] at ih ⊢
    by_cases ha : key a = k
    · simp [ha]
    · have hk' : k ∈ l.map key := by
        simp only [List.map_cons, List.mem_cons] at hk
        exact hk.resolve_left (Ne.symm ha)
      simp only [ha, decide_false, cond_false, List.map_cons]
      rw [List.erase_cons_tail (by simpa using ha)]
      exact (ih hk').cons _

/-! ### The operations at a node of known position

A node `n` with key `k` splits the list as `l₁ ++ n :: l₂`; when no node of
`l₁` has key `k`, each operation at `k` acts at that position. -/

section Split

variable {l₁ l₂ : List α} {n : α} {k : κ}

theorem find_split (hn : key n = k) (h₁ : k ∉ l₁.map key) : find key (l₁ ++ n :: l₂) k = some n := by
  induction l₁ with
  | nil => simp [find, hn]
  | cons a l₁ ih =>
    simp only [List.map_cons, List.mem_cons, not_or] at h₁
    have ha : key a ≠ k := Ne.symm h₁.1
    simpa [find, ha] using ih h₁.2

theorem modify_split (hn : key n = k) (h₁ : k ∉ l₁.map key) (h₂ : k ∉ l₂.map key) (f : α → α) :
    modify key (l₁ ++ n :: l₂) k f = l₁ ++ f n :: l₂ := by
  have hkeep : ∀ l : List α, k ∉ l.map key → (l.map fun a ↦ if key a = k then f a else a) = l := by
    intro l hl
    induction l with
    | nil => rfl
    | cons a l ih =>
      simp only [List.map_cons, List.mem_cons, not_or] at hl
      simp [Ne.symm hl.1, ih hl.2]
  simp only [modify, List.map_append, List.map_cons, hn, if_true, hkeep l₁ h₁, hkeep l₂ h₂]

theorem insertBefore_split (hn : key n = k) (h₁ : k ∉ l₁.map key) (x : α) :
    insertBefore key x (l₁ ++ n :: l₂) (some k) = l₁ ++ x :: n :: l₂ := by
  induction l₁ with
  | nil => simp [insertBefore, hn]
  | cons a l₁ ih =>
    simp only [List.map_cons, List.mem_cons, not_or] at h₁
    simp only [List.cons_append, insertBefore]
    rw [if_neg (Ne.symm h₁.1), ih h₁.2]

theorem next_split (hn : key n = k) (h₁ : k ∉ l₁.map key) :
    next key (l₁ ++ n :: l₂) k = l₂.head?.map key := by
  induction l₁ with
  | nil => simp [next, hn]
  | cons a l₁ ih =>
    simp only [List.map_cons, List.mem_cons, not_or] at h₁
    simp only [List.cons_append, next]
    rw [if_neg (Ne.symm h₁.1), ih h₁.2]

theorem prevOf_split (hn : key n = k) (h₁ : k ∉ l₁.map key) (h₂ : k ∉ l₂.map key) :
    prevOf key (l₁ ++ n :: l₂) k = l₁.getLast?.map key := by
  induction l₁ with
  | nil =>
    suffices ∀ m : α, prevOf key (m :: l₂) k = none from this n
    induction l₂ with
    | nil => exact fun _ ↦ rfl
    | cons b l₂ ih =>
      simp only [List.map_cons, List.mem_cons, not_or] at h₂
      intro m
      rw [prevOf, if_neg (Ne.symm h₂.1)]
      exact ih h₂.2 b
  | cons a l₁ ih =>
    simp only [List.map_cons, List.mem_cons, not_or] at h₁
    cases l₁ with
    | nil => simp [prevOf, hn]
    | cons b l₁ =>
      simp only [List.map_cons, List.mem_cons, not_or] at h₁
      simp only [List.cons_append, prevOf]
      rw [if_neg (Ne.symm h₁.2.1)]
      simpa [List.getLast?_cons] using ih (by simpa using h₁.2)

theorem erase_split (hn : key n = k) (h₁ : k ∉ l₁.map key) :
    erase key (l₁ ++ n :: l₂) k = l₁ ++ l₂ := by
  induction l₁ with
  | nil => simp [erase, hn]
  | cons a l₁ ih =>
    simp only [List.map_cons, List.mem_cons, not_or] at h₁
    simp only [erase, List.cons_append, List.eraseP_cons] at ih ⊢
    simp [Ne.symm h₁.1, ih h₁.2]

theorem insertBefore_head? {l₁ l₂ : List α} (h : ∀ b ∈ l₂.head?, key b ∉ l₁.map key) (x : α) :
    insertBefore key x (l₁ ++ l₂) (l₂.head?.map key) = l₁ ++ x :: l₂ := by
  cases l₂ with
  | nil => simp [insertBefore]
  | cons b l₂ => exact insertBefore_split rfl (h b rfl) x

theorem exists_split_of_find {l : List α} (h : find key l k = some n) :
    ∃ l₁ l₂, l = l₁ ++ n :: l₂ ∧ key n = k ∧ k ∉ l₁.map key := by
  induction l with
  | nil => cases h
  | cons a l ih =>
    simp only [find, List.find?_cons] at h
    by_cases ha : key a = k
    · simp only [ha, decide_true, Option.some.injEq] at h
      subst h
      exact ⟨[], l, rfl, ha, by simp⟩
    · simp only [ha, decide_false] at h
      obtain ⟨l₁, l₂, rfl, hn, h₁⟩ := ih h
      exact ⟨a :: l₁, l₂, rfl, hn, by simp [h₁, Ne.symm ha]⟩

end Split

end Zircon.Lib.NodeList
