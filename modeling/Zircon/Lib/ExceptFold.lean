import Mathlib

/-!
# Loops in the `Except` monad

A loop that stops at the first failing element is `List.foldlM` over
`Except ε`.  Two rules cover what the proofs about such loops need: an
invariant kept by every successful step holds of a successful loop's result,
and a loop cannot succeed if some element fails at every state the invariant
allows.
-/

namespace Zircon.Lib

universe u

variable {α β ε : Type*} {f : β → α → Except ε β}

@[simp] theorem ok_bind {γ δ : Type u} (c : γ) (g : γ → Except ε δ) :
    (Except.ok c >>= g) = g c := rfl

@[simp] theorem error_bind {γ δ : Type u} (e : ε) (g : γ → Except ε δ) :
    (Except.error e >>= g) = .error e := rfl

theorem bind_eq_ok {γ δ : Type u} {x : Except ε γ} {g : γ → Except ε δ} {d : δ} :
    x >>= g = .ok d ↔ ∃ c, x = .ok c ∧ g c = .ok d := by
  cases x <;> simp [bind, Except.bind]

theorem bind_eq_error {γ δ : Type u} {x : Except ε γ} {g : γ → Except ε δ} {e : ε} :
    x >>= g = .error e ↔ x = .error e ∨ ∃ c, x = .ok c ∧ g c = .error e := by
  cases x <;> simp [bind, Except.bind]

theorem pure_eq_ok {γ : Type*} {c d : γ} : (pure c : Except ε γ) = .ok d ↔ c = d := by
  simp [pure, Except.pure]

theorem foldlM_ok_cons {a : α} {l : List α} {init r : β} :
    (a :: l).foldlM f init = .ok r ↔ ∃ b, f init a = .ok b ∧ l.foldlM f b = .ok r := by
  rw [List.foldlM_cons, bind_eq_ok]

theorem foldlM_invariant (P : β → Prop) {l : List α}
    (hstep : ∀ b, P b → ∀ a ∈ l, ∀ b', f b a = .ok b' → P b') :
    ∀ {init r : β}, P init → l.foldlM f init = .ok r → P r := by
  induction l with
  | nil =>
    intro init r hinit h
    cases h
    exact hinit
  | cons a l ih =>
    intro init r hinit h
    obtain ⟨b, hb, hrest⟩ := foldlM_ok_cons.mp h
    have hPb : P b := hstep init hinit a List.mem_cons_self b hb
    exact ih (fun b' hb' a' ha' ↦ hstep b' hb' a' (List.mem_cons_of_mem a ha')) hPb hrest

theorem foldlM_ne_ok_of_mem (P : β → Prop) {l : List α}
    (hstep : ∀ b, P b → ∀ a ∈ l, ∀ b', f b a = .ok b' → P b') {a₀ : α} (ha₀ : a₀ ∈ l)
    (hfail : ∀ b, P b → ∀ b', f b a₀ ≠ .ok b') :
    ∀ {init : β}, P init → ∀ r, l.foldlM f init ≠ .ok r := by
  induction l with
  | nil => cases ha₀
  | cons a l ih =>
    intro init hinit r h
    obtain ⟨b, hb, hrest⟩ := foldlM_ok_cons.mp h
    rcases List.mem_cons.mp ha₀ with rfl | hmem
    · exact hfail init hinit b hb
    · have hPb : P b := hstep init hinit a List.mem_cons_self b hb
      exact ih (fun b' hb' a' ha' ↦ hstep b' hb' a' (List.mem_cons_of_mem a ha')) hmem hPb r hrest

end Zircon.Lib
