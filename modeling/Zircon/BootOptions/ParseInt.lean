import Zircon.Lib.Text

/-!
# `BootOptions::ParseInt`, and the `%#x` it reads back

`ParseInt` takes an optional sign, then tries three readings in turn: hex after
a `0x` it trims, octal from a leading `0` it keeps, and decimal.  Each reads
digits into an `int64_t` with the wrapping `mul_overflow` and `add_overflow`,
and multiplies by the sign at the end.  The model keeps that `int64_t` as its
64 bits, a `UInt64`: every caller casts it to an unsigned type, which keeps the
low bits.  With a `rest` pointer a reading stops at the first character that is
not a digit and leaves the rest there; without one such a character fails the
reading.

The options print their integers with `printf`'s `%#x`: `0` alone, and
otherwise `0x` and lowercase hex digits.  `parseInt_printHex_append` reads that
back, the zero through the octal reading: a number of 64 bits comes back as it
was, and a larger one cut to 64 bits.
-/

namespace Zircon.Boot

open Zircon.Lib

/-- The value of `c` as a digit of `base`: `'0'` to `'9'` below the base, and
`'a'` to `'f'` in base 16 only. -/
def digitValue (base : ℕ) (c : Char) : Option ℕ :=
  if '0' ≤ c ∧ c ≤ '9' then
    if c.toNat - '0'.toNat < base then some (c.toNat - '0'.toNat) else none
  else if 'a' ≤ c ∧ c ≤ 'f' then
    if base = 16 then some (c.toNat - 'a'.toNat + 10) else none
  else none

/-- The digit loop of `from_chars`: each digit is taken in with the wrapping
arithmetic of `int64_t`.  At another character the loop leaves it to `rest`
when there is one, and fails otherwise. -/
def digitsLoop (base : ℕ) (withRest : Bool) : UInt64 → List Char → Option (UInt64 × List Char)
  | acc, [] => some (acc, [])
  | acc, c :: cs =>
    match digitValue base c with
    | some d => digitsLoop base withRest (acc * UInt64.ofNat base + UInt64.ofNat d) cs
    | none => if withRest then some (acc, c :: cs) else none

/-- The lambda `from_chars(prefix, base, value, trim)` of `ParseInt`: its value,
already multiplied by `neg`, and what it leaves for `rest`. -/
def fromChars (neg : UInt64) (withRest : Bool) (pfx : List Char) (base : ℕ) (value : List Char)
    (trim : Bool) : Option (UInt64 × List Char) :=
  if value.take pfx.length = pfx then
    let value := if trim then value.drop pfx.length else value
    if value.isEmpty then none
    else (digitsLoop base withRest 0 value).map fun r ↦ (r.1 * neg, r.2)
  else none

/-- The readings `ParseInt` tries in turn, the first that succeeds giving the
result: hex after a `0x` it trims, octal from a leading `0` it keeps, decimal. -/
def readings (neg : UInt64) (withRest : Bool) (value : List Char) : Option (UInt64 × List Char) :=
  (fromChars neg withRest ['0', 'x'] 16 value true).or
    ((fromChars neg withRest ['0'] 8 value false).or (fromChars neg withRest [] 10 value false))

/-- `BootOptions::ParseInt(value, rest)`: the 64 bits of the `int64_t` it
returns, and what it leaves in `*rest` when `withRest`. -/
def parseInt (value : List Char) (withRest : Bool) : Option (UInt64 × List Char) :=
  if value.take 1 = ['-'] then readings ((0 : UInt64) - 1) withRest (value.drop 1)
  else if value.take 1 = ['+'] then readings 1 withRest (value.drop 1)
  else readings 1 withRest value

/-- What `printf`'s `%#x` writes for `n`: `0` alone, and otherwise `0x` and the
lowercase hex digits. -/
def printHex (n : ℕ) : List Char :=
  if n = 0 then ['0'] else '0' :: 'x' :: (Nat.digits 16 n).reverse.map Nat.digitChar

/-! ### The digit loop -/

section Loop

variable {base : ℕ} {withRest : Bool} {acc : UInt64}

theorem digitValue_digitChar_hex : ∀ d : Fin 16, digitValue 16 (Nat.digitChar d) = some d := by
  decide

theorem digitValue_comma : digitValue base ',' = none := by
  rw [digitValue, if_neg (by decide), if_neg (by decide)]

/-- With a rest, the loop stops at a character that is no digit. -/
theorem digitsLoop_stop {c : Char} {cs : List Char} (hc : digitValue base c = none) :
    digitsLoop base true acc (c :: cs) = some (acc, c :: cs) := by
  rw [digitsLoop, hc]
  rfl

/-- The loop reads hex digits written by `Nat.digitChar` one after the other. -/
theorem digitsLoop_hex_append {ds : List ℕ} (hds : ∀ d ∈ ds, d < 16) (tail : List Char) :
    digitsLoop 16 withRest acc (ds.map Nat.digitChar ++ tail) =
      digitsLoop 16 withRest (ds.foldl (fun a d ↦ a * 16 + UInt64.ofNat d) acc) tail := by
  induction ds generalizing acc with
  | nil => rfl
  | cons d ds ih =>
    have hd : digitValue 16 (Nat.digitChar d) = some d :=
      digitValue_digitChar_hex ⟨d, hds d List.mem_cons_self⟩
    rw [List.map_cons, List.cons_append, digitsLoop, hd]
    exact ih fun x hx ↦ hds x (List.mem_cons_of_mem d hx)

theorem foldl_ofNat (b x : ℕ) (ds : List ℕ) :
    ds.foldl (fun a d ↦ a * UInt64.ofNat b + UInt64.ofNat d) (UInt64.ofNat x) =
      UInt64.ofNat (ds.foldl (fun a d ↦ a * b + d) x) := by
  induction ds generalizing x with
  | nil => rfl
  | cons d ds ih =>
    rw [List.foldl_cons, List.foldl_cons, ← ih, UInt64.ofNat_add, UInt64.ofNat_mul]

end Loop

/-! ### The readings -/

section Readings

variable {neg : UInt64} {withRest : Bool} {pfx value : List Char} {base : ℕ}

theorem fromChars_of_take_ne (h : value.take pfx.length ≠ pfx) (trim : Bool) :
    fromChars neg withRest pfx base value trim = none := by
  rw [fromChars, if_neg h]

theorem fromChars_trim (h : value.take pfx.length = pfx) (hne : value.drop pfx.length ≠ []) :
    fromChars neg withRest pfx base value true =
      (digitsLoop base withRest 0 (value.drop pfx.length)).map fun r ↦ (r.1 * neg, r.2) := by
  rw [fromChars, if_pos h]
  dsimp only
  rw [if_pos rfl, if_neg (by rw [List.isEmpty_iff]; exact hne)]

theorem fromChars_keep (h : value.take pfx.length = pfx) (hne : value ≠ []) :
    fromChars neg withRest pfx base value false =
      (digitsLoop base withRest 0 value).map fun r ↦ (r.1 * neg, r.2) := by
  rw [fromChars, if_pos h]
  dsimp only
  rw [if_neg Bool.false_ne_true, if_neg (by rw [List.isEmpty_iff]; exact hne)]

theorem parseInt_unsigned (hminus : value.take 1 ≠ ['-']) (hplus : value.take 1 ≠ ['+']) :
    parseInt value withRest = readings 1 withRest value := by
  rw [parseInt, if_neg hminus, if_neg hplus]

end Readings

/-! ### Reading `%#x` back -/

section Print

variable {n : ℕ} {withRest : Bool} {tail : List Char}

theorem printHex_zero : printHex 0 = ['0'] := rfl

theorem printHex_of_ne_zero (hn : n ≠ 0) :
    printHex n = '0' :: 'x' :: (Nat.digits 16 n).reverse.map Nat.digitChar := if_neg hn

/-- The hex digits of `%#x`, read in base 16, give the number back. -/
theorem digitsLoop_printHex
    (htail : ∀ acc, digitsLoop 16 withRest acc tail = some (acc, tail)) :
    digitsLoop 16 withRest 0 ((Nat.digits 16 n).reverse.map Nat.digitChar ++ tail) =
      some (UInt64.ofNat n, tail) := by
  have hds : ∀ d ∈ (Nat.digits 16 n).reverse, d < 16 := fun d hd ↦
    Nat.digits_lt_base (by norm_num) (List.mem_reverse.mp hd)
  have hfold : (Nat.digits 16 n).reverse.foldl (fun a d ↦ a * 16 + UInt64.ofNat d) 0 =
      UInt64.ofNat n := by
    have h := foldl_ofNat 16 0 (Nat.digits 16 n).reverse
    rw [foldl_mul_add_reverse, Nat.ofDigits_digits, Nat.zero_mul, Nat.zero_add] at h
    exact h
  rw [digitsLoop_hex_append hds, hfold, htail]

theorem parseInt_printHex_append (hx : tail.take 1 ≠ ['x'])
    (h16 : ∀ acc, digitsLoop 16 withRest acc tail = some (acc, tail))
    (h8 : ∀ acc, digitsLoop 8 withRest acc tail = some (acc, tail)) :
    parseInt (printHex n ++ tail) withRest = some (UInt64.ofNat n, tail) := by
  by_cases hzero : n = 0
  · -- `0` is no hex number: the octal reading takes it
    subst hzero
    have hhex : ('0' :: tail).take (['0', 'x'] : List Char).length ≠ ['0', 'x'] := by
      intro h
      rw [List.length_cons, List.length_singleton, List.take_succ_cons] at h
      exact hx (List.cons.inj h).2
    have hoct : fromChars 1 withRest ['0'] 8 ('0' :: tail) false = some (0, tail) := by
      rw [fromChars_keep rfl (List.cons_ne_nil _ _), digitsLoop]
      change Option.map _ (digitsLoop 8 withRest 0 tail) = _
      rw [h8]
      rfl
    rw [printHex_zero, List.singleton_append, parseInt_unsigned (by simp) (by simp), readings,
      fromChars_of_take_ne hhex, Option.none_or, hoct]
    rfl
  · -- the hex reading, after the `0x` it trims
    have hne : (Nat.digits 16 n).reverse.map Nat.digitChar ≠ [] := by
      rw [ne_eq, List.map_eq_nil_iff, List.reverse_eq_nil_iff]
      exact Nat.digits_ne_nil_iff_ne_zero.mpr hzero
    rw [printHex_of_ne_zero hzero, List.cons_append, List.cons_append,
      parseInt_unsigned (by simp) (by simp), readings, fromChars_trim rfl (by
        rw [List.length_cons, List.length_singleton, List.drop_succ_cons, List.drop_succ_cons,
          List.drop_zero]
        exact fun h ↦ hne (List.append_eq_nil_iff.mp h).1),
      List.length_cons, List.length_singleton, List.drop_succ_cons, List.drop_succ_cons,
      List.drop_zero, digitsLoop_printHex h16, Option.map_some, UInt64.mul_one]
    rfl

theorem parseInt_printHex :
    parseInt (printHex n) withRest = some (UInt64.ofNat n, []) := by
  have h := @parseInt_printHex_append n withRest [] (by decide) (fun _ ↦ rfl) (fun _ ↦ rfl)
  rw [List.append_nil] at h
  exact h

theorem parseInt_printHex_comma (t : List Char) :
    parseInt (printHex n ++ ',' :: t) true = some (UInt64.ofNat n, ',' :: t) :=
  parseInt_printHex_append (by rw [List.take_succ_cons, List.take_zero]; decide)
    (fun _ ↦ digitsLoop_stop digitValue_comma)
    (fun _ ↦ digitsLoop_stop digitValue_comma)

end Print

end Zircon.Boot
