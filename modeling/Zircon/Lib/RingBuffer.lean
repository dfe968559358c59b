import Mathlib.Data.List.DropRight

/-!
# Rings of cells over a memory

A ring of `size` cells lives in the first `size` positions of a memory
`mem : ℕ → α`.  `ringRead mem size start n` reads `n` cells from `start` on,
wrapping at the end, and `ringWrite mem size start t` writes the list `t` the
same way.  A ring that is always written at its write position and read from
there holds the last `size` values written: `ringRead_ringWrite_rtake` is the
step of that statement, with Mathlib's `List.rtake` for "the last `n` values".

`writeAt` is the plain copy of a list to a position.  A circular write is two
such copies, the part up to the end of the ring and the part wrapped to its
start (`ringWrite_eq_writeAt_writeAt`), and one copy when it fits
(`ringWrite_eq_writeAt`).

A ring shared by a writer and a reader keeps the cells the reader has not read
apart from those the writer fills: a write that starts after the end of a read
and stops before its start comes round again leaves the read alone
(`ringRead_ringWrite_of_le`), and reading back the cells just written gives the
values written (`ringRead_ringWrite_self`).  Positions may be counted modulo
any multiple of the ring's size, as wrapping counters are
(`ringRead_mod_of_dvd`).
-/

namespace Zircon.Lib

variable {α : Type*}

section Rtake

variable {xs ys : List α} {n : ℕ}

theorem length_rtake : (xs.rtake n).length = min n xs.length := by
  unfold List.rtake
  rw [List.length_drop]
  omega

theorem rtake_append_of_le_length (h : n ≤ ys.length) : (xs ++ ys).rtake n = ys.rtake n := by
  unfold List.rtake
  rw [List.drop_append, List.drop_eq_nil_of_le (by simp only [List.length_append]; omega),
    List.nil_append, List.length_append]
  congr 1
  omega

theorem rtake_of_length_le (h : xs.length ≤ n) : xs.rtake n = xs := by
  unfold List.rtake
  rw [Nat.sub_eq_zero_of_le h, List.drop_zero]

theorem rtake_append_rtake : (xs.rtake n ++ ys).rtake n = (xs ++ ys).rtake n := by
  by_cases h : n ≤ xs.length
  · -- `xs` is its dropped front followed by its last `n` values
    have hsplit : xs = xs.take (xs.length - n) ++ xs.rtake n := (List.take_append_drop _ _).symm
    have hlen : n ≤ (xs.rtake n ++ ys).length := by
      rw [List.length_append, length_rtake]
      omega
    conv_rhs => rw [hsplit, List.append_assoc, rtake_append_of_le_length hlen]
  · have hx : xs.rtake n = xs := rtake_of_length_le (by omega)
    rw [hx]

theorem rtake_rtake {m : ℕ} (h : m ≤ n) : (xs.rtake n).rtake m = xs.rtake m := by
  unfold List.rtake
  rw [List.length_drop, List.drop_drop]
  congr 1
  omega

theorem rtake_append_length :
    (xs ++ ys).rtake xs.length = xs.drop (ys.rtake xs.length).length ++ ys.rtake xs.length := by
  rw [length_rtake]
  unfold List.rtake
  rw [List.length_append, Nat.add_sub_cancel_left, List.drop_append]
  by_cases h : ys.length ≤ xs.length
  · rw [Nat.min_eq_right h, Nat.sub_eq_zero_of_le h, List.drop_zero]
  · rw [Nat.min_eq_left (by omega), List.drop_eq_nil_of_le (by omega), List.drop_length]

end Rtake

section Write

variable {mem : ℕ → α} {dst q : ℕ} {xs : List α}

/-- The list `xs` copied to the positions from `dst` on; the other positions
keep their values. -/
def writeAt (mem : ℕ → α) (dst : ℕ) (xs : List α) (q : ℕ) : α :=
  if dst ≤ q then xs[q - dst]?.getD (mem q) else mem q

theorem writeAt_of_lt (h : q < dst) : writeAt mem dst xs q = mem q := by
  rw [writeAt, if_neg (by omega)]

theorem writeAt_of_le (h : dst ≤ q) : writeAt mem dst xs q = xs[q - dst]?.getD (mem q) := by
  rw [writeAt, if_pos h]

@[simp] theorem writeAt_nil : writeAt mem dst ([] : List α) = mem := by
  funext q
  by_cases h : dst ≤ q
  · rw [writeAt_of_le h, List.getElem?_nil, Option.getD_none]
  · rw [writeAt_of_lt (by omega)]

end Write

section Ring

variable {mem : ℕ → α} {size start n m i q : ℕ} {t : List α}

/-- `n` cells of the ring of `size` cells from `start` on, wrapping at the end. -/
def ringRead (mem : ℕ → α) (size start n : ℕ) : List α :=
  List.ofFn fun i : Fin n ↦ mem ((start + i) % size)

@[simp] theorem length_ringRead : (ringRead mem size start n).length = n := List.length_ofFn

@[simp] theorem getElem_ringRead (h : i < (ringRead mem size start n).length) :
    (ringRead mem size start n)[i] = mem ((start + i) % size) :=
  List.getElem_ofFn h

theorem ringRead_mod : ringRead mem size (start % size) n = ringRead mem size start n := by
  apply List.ext_getElem (by simp)
  intro i _ _
  rw [getElem_ringRead, getElem_ringRead, Nat.mod_add_mod]

theorem ringRead_succ :
    ringRead mem size start (n + 1) = mem (start % size) :: ringRead mem size ((start + 1) % size) n := by
  apply List.ext_getElem (by simp)
  intro i _ _
  cases i with
  | zero => rw [getElem_ringRead, List.getElem_cons_zero, Nat.add_zero]
  | succ j =>
    rw [getElem_ringRead, List.getElem_cons_succ, getElem_ringRead, Nat.mod_add_mod,
      Nat.add_right_comm, Nat.add_assoc]

theorem rtake_ringRead (h : m ≤ n) :
    (ringRead mem size start n).rtake m = ringRead mem size (start + (n - m)) m := by
  unfold List.rtake
  apply List.ext_getElem (by simp only [List.length_drop, length_ringRead]; omega)
  intro i _ _
  rw [List.getElem_drop, getElem_ringRead, getElem_ringRead, length_ringRead, Nat.add_assoc]

/-- The ring of `size` cells with `t` written from `start` on, wrapping at the
end; positions past the ring keep their values. -/
def ringWrite (mem : ℕ → α) (size start : ℕ) (t : List α) (q : ℕ) : α :=
  if q < size then t[(q + size - start) % size]?.getD (mem q) else mem q

theorem ringWrite_of_le (h : size ≤ q) : ringWrite mem size start t q = mem q := by
  rw [ringWrite, if_neg (by omega)]

theorem ringWrite_of_start_le (hq : q < size) (h : start ≤ q) :
    ringWrite mem size start t q = t[q - start]?.getD (mem q) := by
  have hoff : (q + size - start) % size = q - start := by
    rw [show q + size - start = q - start + size by omega, Nat.add_mod_right,
      Nat.mod_eq_of_lt (by omega)]
  rw [ringWrite, if_pos hq, hoff]

theorem ringWrite_of_lt_start (hq : q < start) (hstart : start ≤ size) :
    ringWrite mem size start t q = t[q + size - start]?.getD (mem q) := by
  rw [ringWrite, if_pos (by omega), Nat.mod_eq_of_lt (by omega)]

theorem ringWrite_eq_writeAt_writeAt (hstart : start ≤ size) (ht : t.length ≤ size) :
    ringWrite mem size start t =
      writeAt (writeAt mem start (t.take (size - start))) 0 (t.drop (size - start)) := by
  funext q
  rw [writeAt_of_le (Nat.zero_le q), Nat.sub_zero, List.getElem?_drop]
  by_cases hq : q < start
  · -- the wrapped part
    rw [ringWrite_of_lt_start hq hstart, writeAt_of_lt hq, show q + size - start = size - start + q by omega]
  have hnone : t[size - start + q]? = none := List.getElem?_eq_none (by omega)
  rw [hnone, Option.getD_none, writeAt_of_le (by omega), List.getElem?_take]
  by_cases hsize : q < size
  · -- the part up to the end
    rw [ringWrite_of_start_le hsize (by omega), if_pos (by omega)]
  · -- past the ring
    rw [ringWrite_of_le (by omega), if_neg (by omega), Option.getD_none]

theorem ringWrite_eq_writeAt (hfit : start + t.length ≤ size) :
    ringWrite mem size start t = writeAt mem start t := by
  rw [ringWrite_eq_writeAt_writeAt (by omega) (by omega), List.drop_eq_nil_of_le (by omega),
    writeAt_nil, List.take_of_length_le (by omega)]

theorem ringRead_ringWrite (hstart : start < size) (ht : t.length ≤ size) :
    ringRead (ringWrite mem size start t) size (start + t.length) size =
      (ringRead mem size start size).drop t.length ++ t := by
  apply List.ext_getElem (by simp only [length_ringRead, List.length_append, List.length_drop]; omega)
  intro i hi _
  rw [length_ringRead] at hi
  rw [getElem_ringRead, List.getElem_append]
  set q := (start + t.length + i) % size with hq
  have hqlt : q < size := Nat.mod_lt _ (by omega)
  have hoff : (q + size - start) % size = (t.length + i) % size := by
    rw [Nat.add_sub_assoc hstart.le, hq, Nat.mod_add_mod,
      show start + t.length + i + (size - start) = t.length + i + size by omega, Nat.add_mod_right]
  rw [ringWrite, if_pos hqlt, hoff]
  by_cases hwrap : t.length + i < size
  · -- a cell that the write did not reach
    rw [Nat.mod_eq_of_lt hwrap, List.getElem?_eq_none (by omega), Option.getD_none,
      dif_pos (by simp only [List.length_drop, length_ringRead]; omega), List.getElem_drop,
      getElem_ringRead, hq, Nat.add_assoc]
  · -- a cell written after the wrap
    rw [Nat.mod_eq_sub_mod (by omega), Nat.mod_eq_of_lt (by omega),
      List.getElem?_eq_getElem (by omega), Option.getD_some,
      dif_neg (by simp only [List.length_drop, length_ringRead]; omega)]
    congr 1
    simp only [List.length_drop, length_ringRead]
    omega

/-- Writing the last `size` values of `s` at the write position keeps the ring,
read from its new write position, equal to the last `size` values of the old
contents followed by `s`. -/
theorem ringRead_ringWrite_rtake (s : List α) (hstart : start < size) :
    ringRead (ringWrite mem size start (s.rtake size)) size (start + (s.rtake size).length) size =
      (ringRead mem size start size ++ s).rtake size := by
  have hlen : (s.rtake size).length ≤ size := by
    rw [length_rtake]
    exact Nat.min_le_left _ _
  have hsplit := @rtake_append_length _ (ringRead mem size start size) s
  rw [length_ringRead] at hsplit
  rw [ringRead_ringWrite hstart hlen, hsplit]

theorem ringRead_add :
    ringRead mem size start (n + m) = ringRead mem size start n ++ ringRead mem size (start + n) m := by
  apply List.ext_getElem (by simp)
  intro i h₁ _
  rw [getElem_ringRead, List.getElem_append]
  split_ifs with hi
  · rw [getElem_ringRead]
  · rw [getElem_ringRead]
    simp only [length_ringRead, not_lt] at hi ⊢
    rw [Nat.add_assoc, Nat.add_sub_cancel' hi]

theorem ringRead_mod_of_dvd {k : ℕ} (h : size ∣ k) :
    ringRead mem size (start % k) n = ringRead mem size start n := by
  apply List.ext_getElem (by simp)
  intro i _ _
  rw [getElem_ringRead, getElem_ringRead, Nat.add_mod, Nat.mod_mod_of_dvd _ h, ← Nat.add_mod]

theorem ringRead_congr {mem' : ℕ → α}
    (h : ∀ i < n, mem ((start + i) % size) = mem' ((start + i) % size)) :
    ringRead mem size start n = ringRead mem' size start n := by
  apply List.ext_getElem (by simp)
  intro i hi _
  rw [getElem_ringRead, getElem_ringRead]
  exact h i (by simpa using hi)

theorem ringRead_eq_ofFn (hfit : start % size + n ≤ size) :
    ringRead mem size start n = List.ofFn fun i : Fin n ↦ mem (start % size + i) := by
  apply List.ext_getElem (by simp)
  intro i hi _
  rw [getElem_ringRead, List.getElem_ofFn, Nat.add_mod, Nat.mod_eq_of_lt (a := i) (by simp at hi; omega),
    Nat.mod_eq_of_lt (by simp at hi; omega)]

@[simp] theorem ringWrite_nil : ringWrite mem size start ([] : List α) = mem := by
  funext q
  unfold ringWrite
  split_ifs <;> simp

theorem ringWrite_add_mod {s j : ℕ} (hj : j < size) :
    ringWrite mem size (s % size) t ((s + j) % size) = t[j]?.getD (mem ((s + j) % size)) := by
  have hsize : 0 < size := by omega
  have hr : s % size < size := Nat.mod_lt _ hsize
  have hq : (s + j) % size = (s % size + j) % size := by rw [Nat.add_mod, Nat.mod_eq_of_lt hj]
  have hoff : ((s + j) % size + size - s % size) % size = j := by
    rw [hq]
    by_cases hwrap : s % size + j < size
    · rw [Nat.mod_eq_of_lt hwrap, show s % size + j + size - s % size = j + size by omega,
        Nat.add_mod_right, Nat.mod_eq_of_lt hj]
    · have hq' : (s % size + j) % size = s % size + j - size := by
        rw [Nat.mod_eq_sub_mod (by omega), Nat.mod_eq_of_lt (by omega)]
      rw [hq', show s % size + j - size + size - s % size = j by omega, Nat.mod_eq_of_lt hj]
  rw [ringWrite, if_pos (Nat.mod_lt _ hsize), hoff]

theorem ringRead_ringWrite_self {s : ℕ} (ht : t.length ≤ size) :
    ringRead (ringWrite mem size (s % size) t) size s t.length = t := by
  apply List.ext_getElem (by simp)
  intro i hi _
  rw [length_ringRead] at hi
  rw [getElem_ringRead, ringWrite_add_mod (by omega), List.getElem?_eq_getElem hi, Option.getD_some]

theorem ringRead_ringWrite_of_le {k : ℕ} (hfit : n + k + t.length ≤ size) :
    ringRead (ringWrite mem size ((start + n + k) % size) t) size start n = ringRead mem size start n := by
  apply ringRead_congr
  intro i hi
  have hcell : (start + i) % size = (start + n + k + (size - (n + k) + i)) % size := by
    rw [show start + n + k + (size - (n + k) + i) = start + i + size by omega, Nat.add_mod_right]
  rw [hcell, ringWrite_add_mod (by omega), List.getElem?_eq_none (by omega), Option.getD_none]

/-- Writing `t` right after the first `k` cells from `start` appends it to them. -/
theorem ringRead_ringWrite_append {k : ℕ} (hfit : k + t.length ≤ size) :
    ringRead (ringWrite mem size ((start + k) % size) t) size start (k + t.length) =
      ringRead mem size start k ++ t := by
  have hkeep : ringRead (ringWrite mem size ((start + k + 0) % size) t) size start k = ringRead mem size start k :=
    ringRead_ringWrite_of_le (by omega)
  rw [Nat.add_zero] at hkeep
  rw [ringRead_add, hkeep, ringRead_ringWrite_self (by omega)]

end Ring

end Zircon.Lib
