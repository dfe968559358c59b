import Mathlib.Data.List.Nodup
import Zircon.BootOptions.ParseInt
import Zircon.Lib.RingBuffer

/-!
# The values of boot options: `Parse` and `PrintValue` for each type

Each type a boot option may have has a `BootOptions::Parse` overload, which
reads the text after the option's `=` into the member and returns whether it
could, and a `PrintValue` overload, which writes the member for `Show`.  A
`Kind` names such a type and `Kind.Value` is the type itself:

* integers print as `%#x` and parse with `ParseInt`, cast to the member's width;
* a `bool` is false for `false`, `0` and `off`, and true for any other text;
* a `SmallString` is 160 characters whose last is always NUL; `Parse` copies
  the text into it, cut short, and writes a NUL after it;
* a `RedactedHex` takes a text of hex digits only and otherwise keeps what it
  had, reporting success either way; it prints only its length;
* an `optional<RamReservation>` is empty for an empty text and otherwise a size
  and an optional `,` and address;
* an enumeration parses and prints the names of its cases;
* the serial console is `uart::all::Config<>`, whose source is not in this tree:
  its `Match` is a parameter of its kind, and a configuration stands as the text
  it prints.

`Kind.Same` is the equality the options are compared by: a `SmallString` as the
NUL-terminated string it holds and a `RedactedHex` as its first `len`
characters.  `Kind.parse_print` reads back what `print` wrote.
-/

namespace Zircon.Boot

open Zircon.Lib

/-- The characters `WordView` separates words by. -/
def isSpace (c : Char) : Bool := c ∈ [' ', '\n', '\r', '\t', '\x00']

/-! ### `SmallString` -/

/-- The size of a `SmallString`. -/
def kSmallStringSize : ℕ := 160

/-- `SmallString`, a `std::array<char, 160>`: the characters at its positions.
Its last character is NUL whatever was written to it. -/
structure SmallString where
  chars : ℕ → Char
  back_nul : chars (kSmallStringSize - 1) = '\x00'

namespace SmallString

/-- The string `%s` prints: the characters up to the first NUL. -/
def cstr (s : SmallString) : List Char :=
  ((List.range kSmallStringSize).map s.chars).takeWhile (· != '\x00')

/-- `Parse` of a `SmallString`: the text copied in, as much as fits, and a NUL
after what was copied, at the last position at the latest. -/
def parse (s : SmallString) (value : List Char) : SmallString where
  chars := Function.update (writeAt s.chars 0 (value.take kSmallStringSize))
    (min (value.take kSmallStringSize).length (kSmallStringSize - 1)) '\x00'
  back_nul := by
    by_cases h : (value.take kSmallStringSize).length < kSmallStringSize - 1
    · -- the text ends early: the last position keeps its NUL
      rw [Function.update_of_ne (by omega), writeAt_of_le (Nat.zero_le _),
        List.getElem?_eq_none (by omega), Option.getD_none]
      exact s.back_nul
    · rw [Nat.min_eq_right (by omega), Function.update_self]

end SmallString

/-! ### `RedactedHex` -/

/-- `isxdigit`. -/
def isxdigit (c : Char) : Bool :=
  ('0' ≤ c && c ≤ '9') || ('a' ≤ c && c ≤ 'f') || ('A' ≤ c && c ≤ 'F')

/-- `RedactedHex`: up to 160 hex digits and their number. -/
structure RedactedHex where
  hex : ℕ → Char
  len : ℕ

namespace RedactedHex

/-- The digits held, `string_view(hex.data(), len)`. -/
def view (r : RedactedHex) : List Char := (List.range r.len).map r.hex

/-- `Parse` of a `RedactedHex`: a text of hex digits is copied in, as much as
fits; any other text leaves the value as it was.  Both report success. -/
def parse (r : RedactedHex) (value : List Char) : RedactedHex :=
  if value.all isxdigit then
    ⟨writeAt r.hex 0 (value.take kSmallStringSize), (value.take kSmallStringSize).length⟩
  else r

/-- `PrintValue` of a `RedactedHex`: only the number of digits. -/
def print (r : RedactedHex) : List Char :=
  if r.len > 0 then "<redacted.".toList ++ (Nat.repr r.len).toList ++ ".hex.chars>".toList
  else []

end RedactedHex

/-! ### `RamReservation` -/

/-- `RamReservation`. -/
structure RamReservation where
  paddr : Option UInt64
  size : UInt64
  deriving DecidableEq, Repr

/-- `Parse` of an `optional<RamReservation>`: empty for an empty text, and
otherwise a size, then nothing or a `,` and an address. -/
def parseRamReservation (value : List Char) : Option (Option RamReservation) :=
  if value.isEmpty then some none
  else
    match parseInt value true with
    | none => none
    | some (size, rest) =>
      if rest.isEmpty then some (some ⟨none, size⟩)
      else if rest.take 1 ≠ [','] then none
      else
        match parseInt (rest.drop 1) false with
        | none => none
        | some (paddr, _) => some (some ⟨some paddr, size⟩)

/-- `PrintValue` of an `optional<RamReservation>`. -/
def printRamReservation : Option RamReservation → List Char
  | none => []
  | some ⟨none, size⟩ => printHex size.toNat
  | some ⟨some paddr, size⟩ => printHex size.toNat ++ ',' :: printHex paddr.toNat

/-! ### Kinds -/

/-- The types of boot options. -/
inductive Kind where
  | bool
  | uint8
  | uint32
  | uint64
  | smallString
  | redactedHex
  | ramReservation
  /-- An enumeration, by the names of its cases. -/
  | enum (names : List (List Char))
  /-- The serial console, by the `Match` of its configurations. -/
  | uart (matchConfig : List Char → Option (List Char))

namespace Kind

/-- The type of a kind's values. -/
@[reducible] def Value : Kind → Type
  | bool => Bool
  | uint8 => UInt8
  | uint32 => UInt32
  | uint64 => UInt64
  | smallString => SmallString
  | redactedHex => RedactedHex
  | ramReservation => Option RamReservation
  | enum names => Fin names.length
  | uart _ => List Char

/-- `BootOptions::Parse(value, member)`: the member after it, from the member
before it, or `none` where `Parse` returns false. -/
def parse : (k : Kind) → List Char → k.Value → Option k.Value
  | bool, value, _ =>
    some (value != "false".toList && value != "0".toList && value != "off".toList)
  | uint8, value, _ => (parseInt value false).map fun r ↦ r.1.toUInt8
  | uint32, value, _ => (parseInt value false).map fun r ↦ r.1.toUInt32
  | uint64, value, _ => (parseInt value false).map fun r ↦ r.1
  | smallString, value, s => some (SmallString.parse s value)
  | redactedHex, value, r => some (RedactedHex.parse r value)
  | ramReservation, value, _ => parseRamReservation value
  | enum names, value, _ => names.findFinIdx? (· == value)
  | uart matchConfig, value, _ => matchConfig value

/-- `BootOptions::PrintValue(value)`. -/
def print : (k : Kind) → k.Value → List Char
  | bool, b => if b then "true".toList else "false".toList
  | uint8, v => printHex v.toNat
  | uint32, v => printHex v.toNat
  | uint64, v => printHex v.toNat
  | smallString, s => SmallString.cstr s
  | redactedHex, r => RedactedHex.print r
  | ramReservation, r => printRamReservation r
  | enum names, i => names.get i
  | uart _, text => text

/-- Equality of option values: a `SmallString` as the string it holds and a
`RedactedHex` as its digits. -/
def Same : (k : Kind) → k.Value → k.Value → Prop
  | smallString, a, b => SmallString.cstr a = SmallString.cstr b
  | redactedHex, a, b => RedactedHex.view a = RedactedHex.view b
  | _, a, b => a = b

/-- The serial console. -/
def IsUart : Kind → Prop
  | uart _ => True
  | _ => False

/-- What the round trip asks of a value: a `SmallString` and the text of a
serial configuration hold no separator, and a `RedactedHex` is empty. -/
def Printable : (k : Kind) → k.Value → Prop
  | smallString, s => ∀ c ∈ SmallString.cstr s, isSpace c = false
  | redactedHex, r => RedactedHex.len r = 0
  | uart _, text => ∀ c ∈ text, isSpace c = false
  | _, _ => True

/-- What the round trip asks of a kind: the names of an enumeration differ and
hold no separator. -/
def WellFormed : Kind → Prop
  | enum names => names.Nodup ∧ ∀ n ∈ names, ∀ c ∈ n, isSpace c = false
  | _ => True

instance decidableWellFormed : (k : Kind) → Decidable k.WellFormed
  | bool => isTrue trivial
  | uint8 => isTrue trivial
  | uint32 => isTrue trivial
  | uint64 => isTrue trivial
  | smallString => isTrue trivial
  | redactedHex => isTrue trivial
  | ramReservation => isTrue trivial
  -- the checks of each name run over its characters, never over all of `Char`
  | enum names => @instDecidableAnd _ _ (List.nodupDecidable names)
    (@List.decidableBAll _ _ (fun n ↦ @List.decidableBAll _ _ (fun c ↦ instDecidableEqBool (isSpace c) false) n) names)
  | uart _ => isTrue trivial

end Kind

/-! ### Reading back what `PrintValue` wrote -/

section RoundTrip

theorem printHex_noSpace (n : ℕ) : ∀ c ∈ printHex n, isSpace c = false := by
  have hdigit : ∀ d : Fin 16, isSpace (Nat.digitChar d) = false := by decide
  intro c hc
  by_cases hn : n = 0
  · rw [hn, printHex_zero, List.mem_singleton] at hc
    rw [hc]
    decide
  rw [printHex_of_ne_zero hn] at hc
  rcases List.mem_cons.mp hc with rfl | hc
  · decide
  rcases List.mem_cons.mp hc with rfl | hc
  · decide
  obtain ⟨d, hd, rfl⟩ := List.mem_map.mp hc
  exact hdigit ⟨d, Nat.digits_lt_base (by norm_num) (List.mem_reverse.mp hd)⟩

theorem SmallString.length_cstr_lt (s : SmallString) : s.cstr.length < kSmallStringSize := by
  have hpre := List.takeWhile_prefix (· != '\x00') (l := (List.range kSmallStringSize).map s.chars)
  have hle : s.cstr.length ≤ kSmallStringSize := by
    have := hpre.length_le
    rw [List.length_map, List.length_range] at this
    exact this
  rcases Nat.lt_or_eq_of_le hle with hlt | heq
  · exact hlt
  have hall := List.takeWhile_eq_self_iff.mp
    (hpre.eq_of_length (by rw [List.length_map, List.length_range]; exact heq))
  have hlast := hall (s.chars (kSmallStringSize - 1))
    (List.mem_map.mpr ⟨kSmallStringSize - 1, List.mem_range.mpr (by decide), rfl⟩)
  rw [s.back_nul] at hlast
  exact absurd hlast (by decide)

theorem SmallString.cstr_parse_take (s : SmallString) {value : List Char}
    (hnul : ∀ c ∈ value, c ≠ '\x00') :
    (s.parse value).cstr = value.take (kSmallStringSize - 1) := by
  set u := value.take (kSmallStringSize - 1) with hu
  have hlen : u.length < kSmallStringSize := by
    rw [hu, List.length_take]
    exact lt_of_le_of_lt (Nat.min_le_left _ _) (by decide)
  have hpos : min (value.take kSmallStringSize).length (kSmallStringSize - 1) = u.length := by
    simp only [hu, List.length_take]
    omega
  have hchars : ∀ i, (s.parse value).chars i =
      if i = u.length then '\x00' else writeAt s.chars 0 (value.take kSmallStringSize) i := by
    intro i
    rw [SmallString.parse]
    dsimp only
    rw [hpos, Function.update_apply]
  -- the array reads the text, then a NUL
  have hsplit : (List.range kSmallStringSize).map (s.parse value).chars =
      u ++ '\x00' :: (List.range (kSmallStringSize - u.length - 1)).map
        fun j ↦ (s.parse value).chars (u.length + 1 + j) := by
    have hrange : kSmallStringSize = u.length + ((kSmallStringSize - u.length - 1) + 1) := by
      omega
    conv_lhs => rw [hrange]
    rw [List.range_add, List.map_append, List.range_succ_eq_map, List.map_cons, List.map_cons,
      List.map_map, List.map_map]
    congr 1
    · apply List.ext_getElem (by simp)
      intro i hi _
      have hi' : i < u.length := by simpa using hi
      rw [List.getElem_map, List.getElem_range, hchars, if_neg (by omega),
        writeAt_of_le (Nat.zero_le _), Nat.sub_zero, List.getElem?_eq_getElem (by simp [hu] at hi' ⊢; omega),
        Option.getD_some]
      simp [hu, List.getElem_take]
    · rw [Nat.add_zero, hchars, if_pos rfl]
      congr 1
      apply List.map_congr_left
      intro j _
      simp only [Function.comp_apply, Nat.succ_eq_add_one]
      congr 1
      omega
  rw [SmallString.cstr, hsplit,
    List.takeWhile_append_of_pos (fun c hc ↦ by simpa using hnul c (List.mem_of_mem_take hc)),
    List.takeWhile_cons_of_neg (by decide), List.append_nil]

theorem SmallString.cstr_parse (s : SmallString) {value : List Char}
    (hlen : value.length < kSmallStringSize) (hnul : ∀ c ∈ value, c ≠ '\x00') :
    (s.parse value).cstr = value := by
  rw [s.cstr_parse_take hnul, List.take_of_length_le (by omega)]

theorem parse_print_bool (b cur : Bool) : Kind.bool.parse (Kind.bool.print b) cur = some b := by
  cases b <;> rfl

theorem parse_print_uint8 (v cur : UInt8) : Kind.uint8.parse (Kind.uint8.print v) cur = some v := by
  change (parseInt (printHex v.toNat) false).map _ = _
  rw [parseInt_printHex, Option.map_some]
  congr 1
  have h64 : v.toNat % 2 ^ 64 = v.toNat := Nat.mod_eq_of_lt (by have := v.toNat_lt; omega)
  apply UInt8.toNat_inj.mp
  rw [UInt64.toNat_toUInt8, UInt64.toNat_ofNat', h64, Nat.mod_eq_of_lt v.toNat_lt]

theorem parse_print_uint32 (v cur : UInt32) : Kind.uint32.parse (Kind.uint32.print v) cur = some v := by
  change (parseInt (printHex v.toNat) false).map _ = _
  rw [parseInt_printHex, Option.map_some]
  congr 1
  have h64 : v.toNat % 2 ^ 64 = v.toNat := Nat.mod_eq_of_lt (by have := v.toNat_lt; omega)
  apply UInt32.toNat_inj.mp
  rw [UInt64.toNat_toUInt32, UInt64.toNat_ofNat', h64, Nat.mod_eq_of_lt v.toNat_lt]

theorem parse_print_uint64 (v cur : UInt64) : Kind.uint64.parse (Kind.uint64.print v) cur = some v := by
  change (parseInt (printHex v.toNat) false).map _ = _
  rw [parseInt_printHex, Option.map_some, UInt64.ofNat_toNat]

theorem parse_print_ramReservation (r cur : Option RamReservation) :
    Kind.ramReservation.parse (Kind.ramReservation.print r) cur = some r := by
  change parseRamReservation (printRamReservation r) = some r
  rcases r with _ | ⟨_ | paddr, size⟩
  · rfl
  · -- a size alone
    have hne : printHex size.toNat ≠ [] := by unfold printHex; split_ifs <;> simp
    rw [printRamReservation, parseRamReservation, if_neg (by simpa using hne), parseInt_printHex,
      UInt64.ofNat_toNat]
    rfl
  · -- a size, a comma and an address
    rw [printRamReservation, parseRamReservation, if_neg (by simp), parseInt_printHex_comma]
    dsimp only
    rw [if_neg (by simp), if_neg (by simp), List.drop_succ_cons, List.drop_zero, parseInt_printHex,
      UInt64.ofNat_toNat, UInt64.ofNat_toNat]

theorem parse_print_enum {names : List (List Char)} (hnodup : names.Nodup) (i cur : Fin names.length) :
    (Kind.enum names).parse ((Kind.enum names).print i) cur = some i := by
  change names.findFinIdx? (· == names.get i) = some i
  rw [List.findFinIdx?_eq_some_iff]
  refine ⟨beq_self_eq_true _, fun j hji hj ↦ ?_⟩
  have heq : names[j.val] = names[i.val] := by simpa using hj
  exact absurd (Fin.ext ((List.Nodup.getElem_inj_iff hnodup).mp heq)) (Fin.ne_of_lt hji)

theorem Kind.parse_print (k : Kind) (hk : k.WellFormed) (hu : ¬ k.IsUart) (v cur : k.Value)
    (hv : k.Printable v) : ∃ v', k.parse (k.print v) cur = some v' ∧ k.Same v' v := by
  cases k with
  | bool => exact ⟨v, parse_print_bool v cur, rfl⟩
  | uint8 => exact ⟨v, parse_print_uint8 v cur, rfl⟩
  | uint32 => exact ⟨v, parse_print_uint32 v cur, rfl⟩
  | uint64 => exact ⟨v, parse_print_uint64 v cur, rfl⟩
  | smallString =>
    refine ⟨SmallString.parse cur (SmallString.cstr v), rfl, ?_⟩
    apply SmallString.cstr_parse cur (SmallString.length_cstr_lt v)
    intro c hc hnul
    have := List.mem_takeWhile_imp hc
    rw [hnul] at this
    exact absurd this (by decide)
  | redactedHex =>
    have hprint : RedactedHex.print v = [] := by
      rw [RedactedHex.print, if_neg (by change ¬ 0 < RedactedHex.len v; rw [show RedactedHex.len v = 0 from hv]; omega)]
    refine ⟨RedactedHex.parse cur [], by rw [← hprint]; rfl, ?_⟩
    change RedactedHex.view (RedactedHex.parse cur []) = RedactedHex.view v
    rw [RedactedHex.parse, if_pos List.all_nil, RedactedHex.view, RedactedHex.view, show RedactedHex.len v = 0 from hv]
    rfl
  | ramReservation => exact ⟨v, parse_print_ramReservation v cur, rfl⟩
  | enum names => exact ⟨v, parse_print_enum hk.1 v cur, rfl⟩
  | uart _ => exact absurd trivial hu

theorem Kind.print_noSpace (k : Kind) (hk : k.WellFormed) (v : k.Value) (hv : k.Printable v) :
    ∀ c ∈ k.print v, isSpace c = false := by
  cases k with
  | bool => cases v <;> simp [Kind.print, isSpace]
  | uint8 => exact printHex_noSpace _
  | uint32 => exact printHex_noSpace _
  | uint64 => exact printHex_noSpace _
  | smallString => exact hv
  | redactedHex =>
    intro c hc
    change c ∈ RedactedHex.print v at hc
    rw [RedactedHex.print, if_neg (by change ¬ 0 < RedactedHex.len v; rw [show RedactedHex.len v = 0 from hv]; omega)] at hc
    exact absurd hc List.not_mem_nil
  | ramReservation =>
    intro c hc
    rcases v with _ | ⟨_ | paddr, size⟩
    · exact absurd hc List.not_mem_nil
    · exact printHex_noSpace _ c hc
    · rcases List.mem_append.mp hc with hc | hc
      · exact printHex_noSpace _ c hc
      rcases List.mem_cons.mp hc with rfl | hc
      · decide
      · exact printHex_noSpace _ c hc
  | enum names => exact hk.2 _ (List.get_mem names v)
  | uart _ => exact hv

end RoundTrip

/-! ### Reading a value over another -/

theorem RedactedHex.view_parse_of_all {r : RedactedHex} {value : List Char} (h : value.all isxdigit = true) :
    (r.parse value).view = value.take kSmallStringSize := by
  rw [RedactedHex.parse, if_pos h, RedactedHex.view]
  apply List.ext_getElem (by simp)
  intro i hi _
  simp only [List.length_map, List.length_range] at hi
  rw [List.getElem_map, List.getElem_range]
  dsimp only
  rw [writeAt_of_le (Nat.zero_le _), Nat.sub_zero, List.getElem?_eq_getElem hi, Option.getD_some]

theorem RedactedHex.parse_of_not_all {r : RedactedHex} {value : List Char} (h : ¬value.all isxdigit = true) :
    r.parse value = r := by
  rw [RedactedHex.parse, if_neg h]

theorem RedactedHex.view_foldl_parse (values : List (List Char)) (r : RedactedHex) :
    (values.foldl RedactedHex.parse r).view =
      ((values.filter (·.all isxdigit)).getLast?.map (·.take kSmallStringSize)).getD r.view := by
  induction values using List.reverseRecOn with
  | nil => rfl
  | append_singleton vs v ih =>
    rw [List.foldl_append, List.foldl_cons, List.foldl_nil, List.filter_append]
    by_cases hv : v.all isxdigit = true
    · rw [view_parse_of_all hv, List.filter_singleton, hv, cond_true, List.getLast?_append_of_ne_nil _ (by simp)]
      rfl
    · rw [parse_of_not_all hv, ih, List.filter_singleton, Bool.eq_false_iff.mpr hv, cond_false, List.append_nil]

theorem Kind.same_parse_of_ne_redactedHex (k : Kind) (hk : k ≠ .redactedHex) {value : List Char}
    (hnul : ∀ c ∈ value, c ≠ '\x00') (d cur cur' : k.Value) :
    k.Same ((k.parse value cur).getD d) ((k.parse value cur').getD d) := by
  cases k with
  | smallString =>
    show SmallString.cstr (SmallString.parse cur value) = SmallString.cstr (SmallString.parse cur' value)
    rw [cur.cstr_parse_take hnul, cur'.cstr_parse_take hnul]
  | redactedHex => exact absurd rfl hk
  | bool => rfl
  | uint8 => rfl
  | uint32 => rfl
  | uint64 => rfl
  | ramReservation => rfl
  | enum names => rfl
  | uart matchConfig => rfl

end Zircon.Boot
