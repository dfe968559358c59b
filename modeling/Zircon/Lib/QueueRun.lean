import Mathlib

/-!
# Runs of a machine that passes items through a queue

A machine with state `σ` answers each call `i : ι` with a return `r : ρ`,
`step s i = (s', r)`, and `run step s is` makes the calls `is` in order from `s`,
collecting the returns.

Read the state as a queue, `content s`, and a call as accepting the items
`accepted i r` at the back and delivering the items `delivered i r` from the
front.  The machine is a FIFO when every call satisfies
`delivered i r ++ content s' = content s ++ accepted i r`.  Over a whole run the
same equation holds of the items of all its calls, each list concatenated in
call order (`run_fifo`): nothing accepted is lost, duplicated or reordered, and
nothing is delivered that was not accepted.  A call may assume an invariant
that every call keeps.

A call that takes items off the queue without returning them all is read
through a relation `obs i r d` between the call, its return and the items `d`
it took: the run then takes, call by call, items related to the returns, and
those items with what is left are what was there with what was accepted
(`run_fifo_obs`).
-/

namespace Zircon.Lib

variable {σ ι ρ α : Type*}

/-- The calls `is` made in order from the state `s`: the state after the last,
and the return of each. -/
def run (step : σ → ι → σ × ρ) (s : σ) : List ι → σ × List ρ
  | [] => (s, [])
  | i :: is =>
    let r := run step (step s i).1 is
    (r.1, (step s i).2 :: r.2)

/-- The items `f i r` of each call `i` of a run, with its return `r`, in call
order. -/
def items (f : ι → ρ → List α) (is : List ι) (rs : List ρ) : List α :=
  (List.zipWith f is rs).flatten

section Run

variable {step : σ → ι → σ × ρ} {f : ι → ρ → List α} {s : σ} {i : ι} {is : List ι}

@[simp] theorem run_nil : run step s [] = (s, []) := rfl

@[simp] theorem run_cons_fst : (run step s (i :: is)).1 = (run step (step s i).1 is).1 := rfl

@[simp] theorem run_cons_snd :
    (run step s (i :: is)).2 = (step s i).2 :: (run step (step s i).1 is).2 := rfl

@[simp] theorem items_nil_left (rs : List ρ) : items f [] rs = [] := rfl

@[simp] theorem items_cons_cons (r : ρ) (rs : List ρ) :
    items f (i :: is) (r :: rs) = f i r ++ items f is rs := rfl

theorem run_invariant (inv : σ → Prop) (hstep : ∀ s i, inv s → inv (step s i).1) (hs : inv s) :
    ∀ is, inv (run step s is).1 := by
  intro is
  induction is generalizing s with
  | nil => exact hs
  | cons i is ih => exact ih (hstep s i hs)

end Run

section Fifo

variable {step : σ → ι → σ × ρ} (inv : σ → Prop) (content : σ → List α)
  (accepted delivered : ι → ρ → List α)

/-- A run of FIFO calls is a FIFO: the items delivered by all its calls, then
what is left, are what was there, then the items accepted by all its calls. -/
theorem run_fifo (hinv : ∀ s i, inv s → inv (step s i).1)
    (hstep : ∀ s i, inv s → delivered i (step s i).2 ++ content (step s i).1 = content s ++ accepted i (step s i).2)
    {s : σ} (hs : inv s) (is : List ι) :
    items delivered is (run step s is).2 ++ content (run step s is).1 =
      content s ++ items accepted is (run step s is).2 := by
  induction is generalizing s with
  | nil => simp [items]
  | cons i is ih =>
    have hrest := ih (hinv s i hs)
    simp only [run_cons_fst, run_cons_snd, items_cons_cons, List.append_assoc]
    rw [hrest, ← List.append_assoc, hstep s i hs, List.append_assoc]

/-- A run of calls that each take some items `d` off the front, related to
their return by `obs`, and accept `accepted` at the back: the items taken by
each call, related to its return, then what is left, are what was there, then
the items accepted by all the calls. -/
theorem run_fifo_obs (obs : ι → ρ → List α → Prop) (hinv : ∀ s i, inv s → inv (step s i).1)
    (hstep : ∀ s i, inv s → ∃ d, obs i (step s i).2 d ∧
      d ++ content (step s i).1 = content s ++ accepted i (step s i).2)
    {s : σ} (hs : inv s) (is : List ι) :
    ∃ ds : List (List α), List.Forall₂ (fun i d ↦ obs i.1 i.2 d) (is.zip (run step s is).2) ds ∧
      ds.flatten ++ content (run step s is).1 = content s ++ items accepted is (run step s is).2 := by
  induction is generalizing s with
  | nil => exact ⟨[], .nil, by simp [items]⟩
  | cons i is ih =>
    obtain ⟨d, hobs, hd⟩ := hstep s i hs
    obtain ⟨ds, hall, hds⟩ := ih (hinv s i hs)
    refine ⟨d :: ds, .cons hobs hall, ?_⟩
    simp only [run_cons_fst, run_cons_snd, items_cons_cons, List.flatten_cons, List.append_assoc]
    rw [hds, ← List.append_assoc, hd, List.append_assoc]

end Fifo

end Zircon.Lib
