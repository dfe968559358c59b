import Mathlib.Data.Nat.Digits.Defs

/-!
# Digits read most significant first, and the words of a line

A parser reads a number's digits from the most significant one on, taking
each in as `acc * b + d`.  A printer writes the digits Mathlib's
`Nat.digits b n` lists from the least significant one on, so it writes them
reversed; `foldl_mul_add_reverse` says that reading back what was written
gives `Nat.ofDigits`, and so the number.

`splitRuns p` cuts a list into its maximal runs of elements outside `p`: the
words of a line whose separators are the elements in `p`.  A line made of
words, each followed by a separator, splits back into those words
(`splitRuns_flatMap`).
-/

namespace Zircon.Lib

theorem foldl_mul_add_reverse (b a : ℕ) (ds : List ℕ) :
    ds.reverse.foldl (fun acc d ↦ acc * b + d) a = a * b ^ ds.length + Nat.ofDigits b ds := by
  induction ds generalizing a with
  | nil => simp
  | cons d ds ih =>
    rw [List.reverse_cons, List.foldl_append, ih, List.foldl_cons, List.foldl_nil,
      Nat.ofDigits_cons, List.length_cons, Nat.pow_succ]
    ring

section Words

variable {α : Type*} (p : α → Bool)

/-- The maximal runs of elements outside `p`, in order; `cur` is the run being
read, reversed. -/
def splitRuns (cur : List α) : List α → List (List α)
  | [] => if cur.isEmpty then [] else [cur.reverse]
  | c :: cs =>
    if p c then
      if cur.isEmpty then splitRuns [] cs else cur.reverse :: splitRuns [] cs
    else splitRuns (c :: cur) cs

variable {p}

theorem isEmpty_of_ne_nil_or {cur : List α} (hne : cur ≠ [] ∨ ([] : List α) ≠ []) :
    cur.isEmpty = false := by
  rcases hne with h | h
  · exact List.isEmpty_eq_false_iff.mpr h
  · exact absurd rfl h

/-- A run ended by a separator. -/
theorem splitRuns_append_sep {cur w rest : List α} {s : α} (hw : ∀ c ∈ w, p c = false)
    (hs : p s = true) (hne : cur ≠ [] ∨ w ≠ []) :
    splitRuns p cur (w ++ s :: rest) = (cur.reverse ++ w) :: splitRuns p [] rest := by
  induction w generalizing cur with
  | nil =>
    rw [List.nil_append, splitRuns, if_pos hs, isEmpty_of_ne_nil_or hne, List.append_nil]
    rfl
  | cons c w ih =>
    rw [List.cons_append, splitRuns, if_neg (by rw [hw c List.mem_cons_self]; decide),
      ih (fun x hx ↦ hw x (List.mem_cons_of_mem c hx)) (Or.inl (List.cons_ne_nil c cur)),
      List.reverse_cons, List.append_assoc, List.singleton_append]

/-- A last run, with no separator after it. -/
theorem splitRuns_of_forall {cur w : List α} (hw : ∀ c ∈ w, p c = false)
    (hne : cur ≠ [] ∨ w ≠ []) :
    splitRuns p cur w = [cur.reverse ++ w] := by
  induction w generalizing cur with
  | nil =>
    rw [splitRuns, isEmpty_of_ne_nil_or hne, List.append_nil]
    rfl
  | cons c w ih =>
    rw [splitRuns, if_neg (by rw [hw c List.mem_cons_self]; decide),
      ih (fun x hx ↦ hw x (List.mem_cons_of_mem c hx)) (Or.inl (List.cons_ne_nil c cur)),
      List.reverse_cons, List.append_assoc, List.singleton_append]

/-- No run holds a separator. -/
theorem not_mem_of_mem_splitRuns {l : List α} :
    ∀ {cur : List α}, (∀ c ∈ cur, p c = false) → ∀ w ∈ splitRuns p cur l, ∀ c ∈ w, p c = false := by
  induction l with
  | nil =>
    intro cur hcur w hw c hc
    rw [splitRuns] at hw
    split_ifs at hw
    · exact absurd hw List.not_mem_nil
    · rw [List.mem_singleton] at hw
      subst hw
      exact hcur c (List.mem_reverse.mp hc)
  | cons x xs ih =>
    intro cur hcur w hw
    rw [splitRuns] at hw
    split_ifs at hw with hx
    · exact ih (fun _ h ↦ absurd h List.not_mem_nil) w hw
    · rcases List.mem_cons.mp hw with rfl | hw
      · exact fun c hc ↦ hcur c (List.mem_reverse.mp hc)
      · exact ih (fun _ h ↦ absurd h List.not_mem_nil) w hw
    · refine ih (fun c hc ↦ ?_) w hw
      rcases List.mem_cons.mp hc with rfl | hc
      · simpa using hx
      · exact hcur c hc

/-- Words each followed by a separator split back into the words. -/
theorem splitRuns_flatMap {ws : List (List α)} {s : α} (hs : p s = true)
    (hw : ∀ w ∈ ws, w ≠ [] ∧ ∀ c ∈ w, p c = false) :
    splitRuns p [] (ws.flatMap (· ++ [s])) = ws := by
  induction ws with
  | nil => rfl
  | cons w ws ih =>
    obtain ⟨hne, hsep⟩ := hw w List.mem_cons_self
    rw [List.flatMap_cons, List.append_assoc, List.singleton_append,
      splitRuns_append_sep hsep hs (Or.inr hne), List.reverse_nil, List.nil_append,
      ih (fun x hx ↦ hw x (List.mem_cons_of_mem w hx))]

end Words

end Zircon.Lib
