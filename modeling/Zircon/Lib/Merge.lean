import Mathlib.Data.List.Perm.Basic

/-!
# Draining a source of least elements

A stateful source `next : σ → Option (α × σ)` gives one element per call and
signals its end with `none`, leaving its state as it was.  Suppose it always
gives an element no greater than every element it still holds, and ends only
once it holds none.  Then as many calls as it holds elements give them all,
sorted (`drain_spec`), and every later call gives nothing (`pulls_spec`).

A k-way merge is such a source: each call takes the head off one of several
sorted lists, and `perm_flatten_set` says that this keeps the elements of all
the lists.
-/

namespace Zircon.Lib

section Source

variable {α σ : Type} (next : σ → Option (α × σ))

/-- The elements of `n` calls, up to the first that gives none. -/
def drain : ℕ → σ → List α
  | 0, _ => []
  | n + 1, s =>
    match next s with
    | none => []
    | some (a, s') => a :: drain n s'

/-- `n` calls: what each gave, and the state after them.  A call that gives
nothing leaves the state as it was. -/
def pulls : ℕ → σ → List (Option α) × σ
  | 0, s => ([], s)
  | n + 1, s =>
    match next s with
    | none => ((none :: (pulls n s).1), (pulls n s).2)
    | some (a, s') => ((some a :: (pulls n s').1), (pulls n s').2)

variable {next}

theorem pulls_of_eq_none {s : σ} (hs : next s = none) (m : ℕ) :
    pulls next m s = (List.replicate m none, s) := by
  induction m with
  | zero => rfl
  | succ m ih => simp only [pulls, hs, ih, List.replicate_succ]

theorem pulls_invariant (P : σ → Prop) (hP : ∀ {s a s'}, next s = some (a, s') → P s → P s')
    {s : σ} (hs : P s) (n : ℕ) : P (pulls next n s).2 := by
  induction n generalizing s with
  | zero => exact hs
  | succ n ih =>
    cases hnext : next s with
    | none =>
      simp only [pulls, hnext]
      exact ih hs
    | some p =>
      simp only [pulls, hnext]
      exact ih (hP hnext hs)

variable (next) (elems : σ → List α) (inv : σ → Prop) (le : α → α → Prop)

/-- What a source of least elements promises from a state where `inv` holds:
`inv` is kept, the source ends exactly when it holds nothing, and each call
takes out one element that is `le` every element left. -/
structure LeastSource : Prop where
  inv_next : ∀ {s a s'}, inv s → next s = some (a, s') → inv s'
  eq_none_iff : ∀ {s}, inv s → (next s = none ↔ elems s = [])
  perm_next : ∀ {s a s'}, inv s → next s = some (a, s') → (elems s).Perm (a :: elems s')
  le_next : ∀ {s a s'}, inv s → next s = some (a, s') → ∀ x ∈ elems s', le a x

variable {next elems inv le}

theorem LeastSource.next_eq_some (h : LeastSource next elems inv le) {s : σ} (hs : inv s)
    {n : ℕ} (hn : (elems s).length = n + 1) :
    ∃ a s', next s = some (a, s') ∧ (elems s').length = n := by
  cases hnext : next s with
  | none =>
    rw [(h.eq_none_iff hs).mp hnext, List.length_nil] at hn
    exact absurd hn (Nat.succ_ne_zero n).symm
  | some p =>
    obtain ⟨a, s'⟩ := p
    have hlen := (h.perm_next hs hnext).length_eq
    rw [hn, List.length_cons] at hlen
    exact ⟨a, s', rfl, (Nat.succ.inj hlen).symm⟩

/-- As many calls as a source of least elements holds give them all, each `le`
those after it. -/
theorem drain_spec (h : LeastSource next elems inv le) {s : σ} (hs : inv s) :
    (drain next (elems s).length s).Perm (elems s) ∧
      (drain next (elems s).length s).Pairwise le := by
  generalize hn : (elems s).length = n
  induction n generalizing s with
  | zero =>
    rw [List.length_eq_zero_iff.mp hn]
    exact ⟨List.Perm.refl _, List.Pairwise.nil⟩
  | succ n ih =>
    obtain ⟨a, s', hnext, hlen⟩ := h.next_eq_some hs hn
    obtain ⟨hperm, hsorted⟩ := ih (h.inv_next hs hnext) hlen
    simp only [drain, hnext]
    refine ⟨(hperm.cons a).trans (h.perm_next hs hnext).symm, List.pairwise_cons.mpr ⟨?_, hsorted⟩⟩
    exact fun x hx ↦ h.le_next hs hnext x (hperm.subset hx)

/-- The calls of a source of least elements: its elements, then nothing
forever. -/
theorem pulls_spec (h : LeastSource next elems inv le) {s : σ} (hs : inv s) (m : ℕ) :
    (pulls next ((elems s).length + m) s).1 =
      (drain next (elems s).length s).map some ++ List.replicate m none := by
  generalize hn : (elems s).length = n
  induction n generalizing s with
  | zero =>
    have hnone := (h.eq_none_iff hs).mpr (List.length_eq_zero_iff.mp hn)
    rw [Nat.zero_add, pulls_of_eq_none hnone]
    rfl
  | succ n ih =>
    obtain ⟨a, s', hnext, hlen⟩ := h.next_eq_some hs hn
    rw [Nat.add_right_comm]
    simp only [pulls, drain, hnext, ih (h.inv_next hs hnext) hlen, List.map_cons, List.cons_append]

end Source

/-! ### Several lists -/

theorem perm_flatten_set {α : Type} {l : List (List α)} {i : ℕ} {a : α} {rest : List α}
    (h : l[i]? = some (a :: rest)) : l.flatten.Perm (a :: (l.set i rest).flatten) := by
  obtain ⟨hi, hget⟩ := List.getElem?_eq_some_iff.mp h
  have hl : l = l.take i ++ (a :: rest) :: l.drop (i + 1) := by
    conv_lhs => rw [← List.take_append_drop i l, List.drop_eq_getElem_cons hi, hget]
  have hset : l.set i rest = l.take i ++ rest :: l.drop (i + 1) := by
    rw [List.set_eq_take_append_cons_drop, if_pos hi]
  rw [hset]
  conv_lhs => rw [hl]
  simp only [List.flatten_append, List.flatten_cons, List.cons_append]
  exact List.perm_middle

end Zircon.Lib
