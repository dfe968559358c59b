import Mathlib
import Zircon.BootOptions.Values

/-!
# `BootOptions::SetMany` and `Show`

The options are a table of `DEFINE_OPTION(name, type, member, init, ...)`
entries; a `BootOptions` holds a member of each option's kind.  `SetMany` walks
the words of a command line as `WordView` yields them, the maximal runs of
characters other than space, newline, return, tab and NUL, and hands each to
`ParseWord`.  `ParseWord` cuts the word at its first `=` into a key and a value,
looks the key up among the option names, and sets that option's member to the
value `Parse` reads, or to the option's default where `Parse` fails; a word
whose key names no option changes nothing.  `Show(defaults = false)` writes one
line `name=value` for each option, in the table's order.

`setMany_showAll` is the round trip: from the defaults, `SetMany` of what `Show`
printed gives back every option but the serial console, provided the names
differ and hold no `=` or separator, each `SmallString` holds no separator and
each `RedactedHex` is empty.  The run is one update per line
(`setMany_lines`), each line's key naming its own option.

`setMany_redactedHex_earlier` is a command line on which the result for an
option is not determined by the option's last occurrence: `Parse` of a
`RedactedHex` accepts a text that is not hex, returning true, and keeps the
digits of an earlier occurrence.
-/

namespace Zircon.Boot

open Zircon.Lib

/-- One `DEFINE_OPTION(name, type, member, init, ...)`. -/
structure OptionDecl where
  name : List Char
  kind : Kind
  init : kind.Value

/-- The members of a `BootOptions` for the options of `table`. -/
structure BootOptions (table : List OptionDecl) where
  member : (i : Fin table.length) → table[i].kind.Value

/-- What the round trip asks of the table: the names differ and hold no `=` and
no separator, and each kind is well formed. -/
structure TableWellFormed (table : List OptionDecl) : Prop where
  names_nodup : (table.map (·.name)).Nodup
  name_noEq : ∀ d ∈ table, '=' ∉ d.name
  name_noSpace : ∀ d ∈ table, ∀ c ∈ d.name, isSpace c = false
  kinds : ∀ d ∈ table, d.kind.WellFormed

namespace BootOptions

variable {table : List OptionDecl}

/-- Every member at its default, `kDefaultValue`. -/
def defaults (table : List OptionDecl) : BootOptions table := ⟨fun i ↦ table[i].init⟩

/-- `FindOption(name)`: the option of that name.  The source searches the names
sorted; with names that differ both find the one option of the name. -/
def findOption (table : List OptionDecl) (name : List Char) : Option (Fin table.length) :=
  table.findFinIdx? (·.name == name)

/-- The key and the value of a word: before and after its first `=`, or the
whole word and an empty value. -/
def splitWord (word : List Char) : List Char × List Char :=
  match word.span (· != '=') with
  | (key, []) => (key, [])
  | (key, _ :: value) => (key, value)

/-- `ParseWord(word)`: a known key's member takes the value `Parse` reads, or
its default where `Parse` fails; an unknown key changes nothing. -/
def parseWord (o : BootOptions table) (word : List Char) : BootOptions table :=
  match findOption table (splitWord word).1 with
  | none => o
  | some i =>
    ⟨Function.update o.member i
      ((table[i].kind.parse (splitWord word).2 (o.member i)).getD table[i].init)⟩

/-- The words `WordView` yields. -/
def words (line : List Char) : List (List Char) := splitRuns isSpace [] line

/-- `SetMany(cmdline)`. -/
def setMany (o : BootOptions table) (cmdline : List Char) : BootOptions table :=
  (words cmdline).foldl parseWord o

/-- The line `Show` writes for an option, before its newline. -/
def showLine (o : BootOptions table) (i : Fin table.length) : List Char :=
  table[i].name ++ '=' :: table[i].kind.print (o.member i)

/-- `Show(defaults = false)`: one line for each option, in the table's order. -/
def showAll (o : BootOptions table) : List Char :=
  (List.finRange table.length).flatMap fun i ↦ o.showLine i ++ ['\n']

/-! ### One line -/

theorem splitWord_of_not_mem {key value : List Char} (h : '=' ∉ key) :
    splitWord (key ++ '=' :: value) = (key, value) := by
  have hkey : ∀ c ∈ key, (c != '=') = true := fun c hc ↦ by
    rw [bne_iff_ne]
    rintro rfl
    exact h hc
  rw [splitWord, List.span_eq_takeWhile_dropWhile, List.takeWhile_append_of_pos hkey,
    List.takeWhile_cons_of_neg (by decide), List.append_nil, List.dropWhile_append_of_pos hkey,
    List.dropWhile_cons_of_neg (by decide)]

theorem findOption_name (hnodup : (table.map (·.name)).Nodup) (i : Fin table.length) :
    findOption table table[i].name = some i := by
  rw [findOption, List.findFinIdx?_eq_some_iff]
  refine ⟨beq_self_eq_true _, fun j hji hj ↦ ?_⟩
  have hj' : j.val < (table.map (·.name)).length := by simp
  have hi' : i.val < (table.map (·.name)).length := by simp
  have hname : (table.map (·.name))[j.val] = (table.map (·.name))[i.val] := by
    simpa using hj
  rw [List.Nodup.getElem_inj_iff hnodup] at hname
  exact absurd (Fin.ext hname) (Fin.ne_of_lt hji)

theorem parseWord_of_findOption {key value : List Char} {i : Fin table.length}
    (hkey : '=' ∉ key) (hi : findOption table key = some i) (o : BootOptions table) :
    o.parseWord (key ++ '=' :: value) =
      ⟨Function.update o.member i
        ((table[i].kind.parse value (o.member i)).getD table[i].init)⟩ := by
  rw [parseWord, splitWord_of_not_mem hkey]
  dsimp only
  rw [hi]

theorem parseWord_showLine (hwf : TableWellFormed table) (o o' : BootOptions table)
    (i : Fin table.length) :
    o'.parseWord (o.showLine i) =
      ⟨Function.update o'.member i
        ((table[i].kind.parse (table[i].kind.print (o.member i)) (o'.member i)).getD
          table[i].init)⟩ :=
  parseWord_of_findOption (hwf.name_noEq _ (List.getElem_mem _))
    (findOption_name hwf.names_nodup i) o'

/-! ### Whole runs -/

theorem setMany_append_sep {w rest : List Char} {s : Char} (hw : w ≠ [])
    (hsep : ∀ c ∈ w, isSpace c = false) (hs : isSpace s = true) (o : BootOptions table) :
    o.setMany (w ++ s :: rest) = (o.parseWord w).setMany rest := by
  rw [setMany, words, splitRuns_append_sep hsep hs (Or.inr hw), List.reverse_nil,
    List.nil_append, List.foldl_cons]
  rfl

theorem setMany_word {w : List Char} (hw : w ≠ []) (hsep : ∀ c ∈ w, isSpace c = false)
    (o : BootOptions table) :
    o.setMany w = o.parseWord w := by
  rw [setMany, words, splitRuns_of_forall hsep (Or.inr hw), List.reverse_nil, List.nil_append]
  rfl

/-- The value a line `Show` wrote gives its option, from the member before it. -/
def lineValue (o : BootOptions table) (i : Fin table.length) (cur : table[i].kind.Value) :
    table[i].kind.Value :=
  (table[i].kind.parse (table[i].kind.print (o.member i)) cur).getD table[i].init

/-- The lines of distinct options each update their own member once: the
induction is on the list of options, the state before each line carrying the
members of the options still to come unchanged. -/
theorem setMany_lines (hwf : TableWellFormed table) (o o' : BootOptions table)
    (is : List (Fin table.length)) (hnd : is.Nodup) :
    (is.map o.showLine).foldl parseWord o' =
      ⟨fun j ↦ if j ∈ is then o.lineValue j (o'.member j) else o'.member j⟩ := by
  induction is generalizing o' with
  | nil => rfl
  | cons i is ih =>
    obtain ⟨hi, hnd⟩ := List.nodup_cons.mp hnd
    rw [List.map_cons, List.foldl_cons, parseWord_showLine hwf, ih _ hnd]
    congr 1
    funext j
    by_cases hj : j = i
    · -- the option of this line: no later line names it
      subst hj
      dsimp only
      rw [if_neg hi, if_pos List.mem_cons_self, Function.update_self]
      rfl
    · dsimp only
      rw [Function.update_of_ne hj]
      simp only [List.mem_cons, hj, false_or]

theorem words_showAll (hwf : TableWellFormed table) (o : BootOptions table)
    (ho : ∀ i : Fin table.length, table[i].kind.Printable (o.member i)) :
    words o.showAll = (List.finRange table.length).map o.showLine := by
  have hlines : o.showAll = ((List.finRange table.length).map o.showLine).flatMap (· ++ ['\n']) := by
    rw [showAll, List.flatMap_map]
  rw [words, hlines]
  apply splitRuns_flatMap (by decide)
  intro w hw
  obtain ⟨i, -, rfl⟩ := List.mem_map.mp hw
  refine ⟨by simp [showLine], fun c hc ↦ ?_⟩
  rcases List.mem_append.mp hc with hc | hc
  · exact hwf.name_noSpace _ (List.getElem_mem _) c hc
  rcases List.mem_cons.mp hc with rfl | hc
  · decide
  · exact Kind.print_noSpace _ (hwf.kinds _ (List.getElem_mem _)) _ (ho i) c hc

/-- Boot options round-trip through their printed form: from the defaults,
`SetMany` of what `Show` printed gives back every option but the serial
console. -/
theorem setMany_showAll (hwf : TableWellFormed table) (o : BootOptions table)
    (ho : ∀ i : Fin table.length, table[i].kind.Printable (o.member i)) (i : Fin table.length)
    (hi : ¬ table[i].kind.IsUart) :
    table[i].kind.Same (((defaults table).setMany o.showAll).member i) (o.member i) := by
  rw [setMany, words_showAll hwf o ho, setMany_lines hwf o _ _ (List.nodup_finRange _)]
  dsimp only
  rw [if_pos (List.mem_finRange i), lineValue]
  obtain ⟨v, hv, hsame⟩ := Kind.parse_print table[i].kind (hwf.kinds _ (List.getElem_mem _)) hi (o.member i)
    ((defaults table).member i) (ho i)
  rw [hv, Option.getD_some]
  exact hsame

/-! ### Any command line -/

/-- The values of the words of `ws` that name the option `i`, in order. -/
def occurrences (table : List OptionDecl) (i : Fin table.length) (ws : List (List Char)) : List (List Char) :=
  ws.filterMap fun w ↦ if findOption table (splitWord w).1 = some i then some (splitWord w).2 else none

/-- The member an occurrence's value gives the option `i`, from the member before
it, as `ParseWord` sets it. -/
def setValue (i : Fin table.length) (cur : table[i].kind.Value) (value : List Char) : table[i].kind.Value :=
  (table[i].kind.parse value cur).getD table[i].init

theorem parseWord_member (o : BootOptions table) (w : List Char) (i : Fin table.length) :
    (o.parseWord w).member i =
      if findOption table (splitWord w).1 = some i then setValue i (o.member i) (splitWord w).2
      else o.member i := by
  unfold parseWord
  rcases h : findOption table (splitWord w).1 with _ | j
  · rfl
  · dsimp only
    by_cases hj : j = i
    · subst hj
      rw [if_pos rfl, Function.update_self]
      rfl
    · rw [if_neg (by simpa using hj), Function.update_of_ne (Ne.symm hj)]

theorem setMany_member (o : BootOptions table) (cmdline : List Char) (i : Fin table.length) :
    (o.setMany cmdline).member i =
      (occurrences table i (words cmdline)).foldl (setValue i) (o.member i) := by
  rw [setMany]
  generalize words cmdline = ws
  induction ws generalizing o with
  | nil => rfl
  | cons w ws ih =>
    rw [List.foldl_cons, ih, parseWord_member]
    simp only [occurrences, List.filterMap_cons]
    split_ifs <;> rfl

theorem mem_splitWord_snd {w : List Char} {c : Char} (h : c ∈ (splitWord w).2) : c ∈ w := by
  unfold splitWord at h
  have hspan := List.span_eq_takeWhile_dropWhile (p := (· != '=')) (l := w)
  split at h
  · exact absurd h List.not_mem_nil
  · rename_i key x rest hs
    rw [hspan] at hs
    have hdrop : x :: rest = w.dropWhile (· != '=') := (Prod.mk.inj hs).2.symm
    exact (List.dropWhile_suffix _).subset (hdrop ▸ List.mem_cons_of_mem x h)

theorem occurrences_words_noNul {i : Fin table.length} {cmdline value : List Char}
    (h : value ∈ occurrences table i (words cmdline)) : ∀ c ∈ value, c ≠ '\x00' := by
  obtain ⟨w, hw, hv⟩ := List.mem_filterMap.mp h
  split_ifs at hv
  cases hv
  intro c hc hnul
  have hsep := not_mem_of_mem_splitRuns (fun _ h ↦ absurd h List.not_mem_nil) w hw c (mem_splitWord_snd hc)
  rw [hnul] at hsep
  exact absurd hsep (by decide)

/-- From any state and on any command line, an option of any kind but
`RedactedHex` that some word names ends with what `Parse` makes of the value
of the last such word, or its default where that fails. -/
theorem setMany_last (o : BootOptions table) (cmdline : List Char) (i : Fin table.length)
    (hk : table[i].kind ≠ .redactedHex) {vs : List (List Char)} {v : List Char}
    (hocc : occurrences table i (words cmdline) = vs ++ [v]) :
    table[i].kind.Same ((o.setMany cmdline).member i) (setValue i (o.member i) v) := by
  have hnul := occurrences_words_noNul (hocc ▸ List.mem_append_right vs (List.mem_singleton_self v))
  rw [setMany_member, hocc, List.foldl_append, List.foldl_cons, List.foldl_nil]
  exact Kind.same_parse_of_ne_redactedHex _ hk hnul _ _ _

end BootOptions

end Zircon.Boot
