import Mathlib.Data.List.Basic

/-!
# Comparing a node path with a path

`NodePath::CompareWith` classifies the path of a node, the names of its nodes
from the root (named `""`), against a path given as text.  The text is split
into words at `/` by `StringList<'/'>`; a path through an alias is compared in
two stages, the alias's absolute expansion (the `ResolvedPath`'s prefix, `stem`
here) and then the rest of the path after the alias (its `suffix`).

A path string is classified by the prefix order on the lists of words
(`compareWith_resolved` with an empty suffix).  So is an alias followed by at
most one word.  An alias followed by two or more words is not: the node the
alias names is reported as their parent (`compareWith_aliasTarget`).
-/

namespace Zircon.Devicetree

variable {C : Type*} [DecidableEq C]

/-! ### `StringList` -/

section StringList

variable (sep : C)

/-- `std::string_view::find_first_of` with one character. -/
def findFirstOf (s : List C) : Option ℕ :=
  s.findIdx? (· == sep)

/-- `StringList<Separator>::iterator`: the text from the current word on, and the
length of that word; `none` is `npos`, a word that runs to the end of the text. -/
structure StringListIterator (C : Type*) where
  rest : List C
  len : Option ℕ

namespace StringListIterator

/-- The iterator past the last word, `iterator{}`. -/
def «end» : StringListIterator C := ⟨[], none⟩

/-- `operator==` compares the word lengths and the lengths of the rest. -/
def beq (a b : StringListIterator C) : Bool :=
  a.len == b.len && a.rest.length == b.rest.length

/-- `operator*`: the current word, `rest_.substr(0, len_)`. -/
def deref (it : StringListIterator C) : List C :=
  match it.len with
  | none => it.rest
  | some k => it.rest.take k

/-- `operator++`: on past the separator to the next word, or to the end after the
last word, also when a separator ends the text. -/
def next (it : StringListIterator C) : StringListIterator C :=
  match it.len with
  | none => «end»
  | some k =>
    if k = it.rest.length - 1 then «end»
    else
      let rest := it.rest.drop (k + 1)
      ⟨rest, if rest.isEmpty then some 0 else findFirstOf sep rest⟩

end StringListIterator

open StringListIterator

/-- `StringList::begin`. -/
def StringList.begin (data : List C) : StringListIterator C :=
  ⟨data, findFirstOf sep data⟩

/-- The words of a path: the pieces between separators, without the empty word
after a separator that ends the text. -/
def pathTokens (data : List C) : List (List C) :=
  let parts := data.splitOn sep
  if parts.getLast? = some [] then parts.dropLast else parts

/-- An iterator reads the words `ts`: it reaches the end exactly when none are
left, and each step reads the next word. -/
inductive Reads : StringListIterator C → List (List C) → Prop
  | stop {it : StringListIterator C} : it.beq «end» = true → Reads it []
  | word {it : StringListIterator C} {ts : List (List C)} :
      it.beq «end» = false → Reads (it.next sep) ts → Reads it (it.deref :: ts)

variable {sep}

theorem findFirstOf_eq_none_iff {s : List C} : findFirstOf sep s = none ↔ sep ∉ s := by
  simp only [findFirstOf, List.findIdx?_eq_none_iff, beq_eq_false_iff_ne]
  exact ⟨fun h hm ↦ h sep hm rfl, fun h x hx hxs ↦ h (hxs ▸ hx)⟩

theorem findFirstOf_eq_some {s : List C} {k : ℕ} (h : findFirstOf sep s = some k) :
    k < s.length ∧ s = s.take k ++ sep :: s.drop (k + 1) ∧ sep ∉ s.take k := by
  obtain ⟨hk, hsep, hbefore⟩ := List.findIdx?_eq_some_iff_getElem.1 h
  refine ⟨hk, ?_, fun hmem ↦ ?_⟩
  · conv_lhs => rw [← List.take_append_drop k s]
    rw [List.drop_eq_getElem_cons hk, show s[k] = sep by simpa using hsep]
  · obtain ⟨j, hj, hjeq⟩ := List.getElem_of_mem hmem
    have hjk : j < k := by
      rw [List.length_take] at hj
      omega
    exact hbefore j hjk (by simpa [List.getElem_take] using hjeq)

theorem pathTokens_nil : pathTokens sep [] = [] := by
  simp [pathTokens]

theorem pathTokens_of_not_mem {s : List C} (hs : s ≠ []) (h : sep ∉ s) : pathTokens sep s = [s] := by
  simp [pathTokens, List.splitOn_eq_singleton h, hs]

theorem pathTokens_append_sep (a b : List C) :
    pathTokens sep (a ++ sep :: b) = a.splitOn sep ++ pathTokens sep b := by
  have hne := List.splitOn_ne_nil sep b
  simp only [pathTokens, List.splitOn_append_cons_self, List.getLast?_append_of_ne_nil _ hne]
  split_ifs
  · exact List.dropLast_append_of_ne_nil hne
  · rfl

theorem pathTokens_eq_nil_iff {s : List C} : pathTokens sep s = [] ↔ s = [] := by
  constructor
  · intro h
    by_contra hs
    cases hf : findFirstOf sep s with
    | none => simp [pathTokens_of_not_mem hs (findFirstOf_eq_none_iff.1 hf)] at h
    | some k =>
      obtain ⟨-, hsplit, -⟩ := findFirstOf_eq_some hf
      rw [hsplit, pathTokens_append_sep] at h
      simp at h
  · rintro rfl
    exact pathTokens_nil

omit [DecidableEq C] in
theorem beq_end_of_len {it : StringListIterator C} (h : it.beq «end» = true) : it.len = none := by
  simp only [beq, «end», Bool.and_eq_true, beq_iff_eq] at h
  exact h.1

theorem reads_begin (sep : C) (data : List C) : Reads sep (StringList.begin sep data) (pathTokens sep data) := by
  induction hn : data.length using Nat.strongRecOn generalizing data with
  | ind n ih =>
  cases hf : findFirstOf sep data with
  | none =>
    by_cases hd : data = []
    · subst hd
      exact .stop rfl
    · have hderef : (StringList.begin sep data).deref = data := by simp [StringList.begin, deref, hf]
      have hlen : data.length ≠ 0 := by simpa using hd
      have h : Reads sep (StringList.begin sep data) [(StringList.begin sep data).deref] :=
        .word (by simp [StringList.begin, hf, beq, «end», hlen])
          (.stop (by simp [StringList.begin, next, hf, beq, «end»]))
      rwa [hderef, ← pathTokens_of_not_mem hd (findFirstOf_eq_none_iff.1 hf)] at h
  | some k =>
    obtain ⟨hk, hsplit, hword⟩ := findFirstOf_eq_some hf
    have htok : pathTokens sep data = data.take k :: pathTokens sep (data.drop (k + 1)) := by
      conv_lhs => rw [hsplit]
      rw [pathTokens_append_sep, List.splitOn_eq_singleton hword, List.singleton_append]
    have hderef : (StringList.begin sep data).deref = data.take k := by
      simp [StringList.begin, deref, hf]
    rw [htok, ← hderef]
    refine .word (by simp [StringList.begin, hf, beq, «end»]) ?_
    by_cases hlast : k = data.length - 1
    · -- a separator ends the text: no word follows it
      have hrest : data.drop (k + 1) = [] := List.drop_eq_nil_of_le (by omega)
      rw [hrest, pathTokens_nil]
      exact .stop (by simp [StringList.begin, next, hf, hlast, beq, «end»])
    · have hrest : (data.drop (k + 1)).isEmpty = false := by
        simp
        omega
      have hnext : (StringList.begin sep data).next sep = StringList.begin sep (data.drop (k + 1)) := by
        simp only [StringList.begin, next, hf, hlast, if_false, hrest]
        rfl
      rw [hnext]
      exact ih _ (by rw [← hn, List.length_drop]; omega) _ rfl

theorem Reads.beq_end {it : StringListIterator C} {ts : List (List C)} (h : Reads sep it ts) :
    it.beq «end» = ts.isEmpty := by
  cases h with
  | stop h => simpa using h
  | word h _ => simp [h]

theorem Reads.tail {it : StringListIterator C} {t : List C} {ts : List (List C)}
    (h : Reads sep it (t :: ts)) : Reads sep (it.next sep) ts := by
  cases h with
  | word _ h => exact h

theorem next_of_beq_end {it : StringListIterator C} (h : it.beq «end» = true) :
    (it.next sep).beq «end» = true := by
  simp [next, beq_end_of_len h, beq, «end»]

end StringList

/-! ### The comparison -/

/-- `NodePath::Comparison`. -/
inductive Comparison
  | equal
  | parent
  | indirectAncestor
  | child
  | indirectDescendent
  | mismatch
  deriving DecidableEq, Repr

/-- The classification of the node path `n` against the words `t` of a path by
the prefix order on lists. -/
def classify (n t : List (List C)) : Comparison :=
  if n = t then .equal
  else if n <+: t then if t.length = n.length + 1 then .parent else .indirectAncestor
  else if t <+: n then if n.length = t.length + 1 then .child else .indirectDescendent
  else .mismatch

section Classify

variable {n t : List (List C)}

theorem classify_append (c : List (List C)) : classify (c ++ n) (c ++ t) = classify n t := by
  simp [classify, Nat.add_assoc]

theorem classify_nil_left (ht : t ≠ []) : classify [] t = if t.length = 1 then .parent else .indirectAncestor := by
  simp [classify, Ne.symm ht]

theorem classify_of_head?_ne (hn : n ≠ []) (ht : t ≠ []) (hh : n.head? ≠ t.head?) : classify n t = .mismatch := by
  obtain ⟨a, n, rfl⟩ := List.exists_cons_of_ne_nil hn
  obtain ⟨b, t, rfl⟩ := List.exists_cons_of_ne_nil ht
  have hab : a ≠ b := by simpa using hh
  simp [classify, hab, Ne.symm hab]

end Classify

/-- `CompareStringRanges`: walk the node names and the words together up to the
first pair that differs, or the end of either. -/
def compareStringRanges (sep : C) :
    List (List C) → StringListIterator C → List (List C) × StringListIterator C
  | [], b => ([], b)
  | a :: as, b =>
    if b.beq .«end» then (a :: as, b)
    else if a ≠ b.deref then (a :: as, b)
    else compareStringRanges sep as (b.next sep)

/-- The walk stops after a common part `c`, where the node path or the words run
out or their next entries differ, and the iterator reads the words left. -/
theorem compareStringRanges_spec {sep : C} {b : StringListIterator C} {ts : List (List C)} (hb : Reads sep b ts)
    (ns : List (List C)) :
    ∃ c ns' ts' b', ns = c ++ ns' ∧ ts = c ++ ts' ∧ compareStringRanges sep ns b = (ns', b') ∧
      Reads sep b' ts' ∧ (ns' = [] ∨ ts' = [] ∨ ns'.head? ≠ ts'.head?) := by
  induction ns generalizing b ts with
  | nil => exact ⟨[], [], ts, b, rfl, rfl, rfl, hb, .inl rfl⟩
  | cons a as ih =>
    cases hb with
    | stop h => exact ⟨[], a :: as, [], b, rfl, rfl, by simp [compareStringRanges, h], .stop h, .inr (.inl rfl)⟩
    | @word _ ts hend hnext =>
      by_cases ha : a = b.deref
      · -- the words agree: one step further
        obtain ⟨c, ns', ts', b', rfl, rfl, hcmp, hb', hstop⟩ := ih hnext
        refine ⟨a :: c, ns', ts', b', rfl, by rw [ha]; rfl, ?_, hb', hstop⟩
        simp [compareStringRanges, hend, ha, hcmp]
      · exact ⟨[], a :: as, b.deref :: ts, b, rfl, rfl, by simp [compareStringRanges, hend, ha],
          .word hend hnext, .inr (.inr (by simpa using ha))⟩

/-- `ResolvedPath`: an absolute path, the expansion of an alias when the path
named one (its `prefix`), and the rest of the path after the alias. -/
structure ResolvedPath where
  stem : List Char
  suffix : List Char

open StringListIterator in
/-- `NodePath::CompareWith(const ResolvedPath&)`. -/
def compareWith (nodes : List (List Char)) (path : ResolvedPath) : Comparison :=
  match compareStringRanges '/' nodes (StringList.begin '/' path.stem) with
  | (thisPrefixIt, pathPrefixIt) =>
    -- a mismatch in the prefix
    if thisPrefixIt ≠ [] ∧ pathPrefixIt.beq «end» = false then .mismatch
    -- the node path ended inside the prefix
    else if thisPrefixIt = [] ∧ pathPrefixIt.beq «end» = false then
      if (pathPrefixIt.next '/').beq «end» = true ∧ path.suffix.isEmpty then .parent else .indirectAncestor
    else
      match compareStringRanges '/' thisPrefixIt (StringList.begin '/' path.suffix) with
      | (thisSuffixIt, pathSuffixIt) =>
        if thisSuffixIt ≠ [] ∧ pathSuffixIt.beq «end» = false then .mismatch
        -- the node path ended inside the suffix: the source tests the prefix iterator here
        else if thisSuffixIt = [] ∧ pathSuffixIt.beq «end» = false then
          if (pathPrefixIt.next '/').beq «end» = true then .parent else .indirectAncestor
        else if thisSuffixIt ≠ [] ∧ pathSuffixIt.beq «end» = true then
          if thisSuffixIt.tail = [] then .child else .indirectDescendent
        else .equal

/-- `NodePath::CompareWith(std::string_view)`, whose `ZX_ASSERT` takes an empty or
absolute path; `none` is the assertion failing. -/
def compareWithPath (nodes : List (List Char)) (path : List Char) : Option Comparison :=
  if path = [] ∨ path.head? = some '/' then some (compareWith nodes ⟨path, []⟩) else none

open StringListIterator

/-- `CompareWith` once the words of the alias's expansion are used up: the
node words left are classified against the word after the alias, if any. -/
theorem compareWith_of_prefix_end {nodes ns' : List (List Char)} {p s : List Char}
    {itP : StringListIterator Char} (hcmp : compareStringRanges '/' nodes (StringList.begin '/' p) = (ns', itP))
    (hend : itP.beq «end» = true) (hs : (pathTokens '/' s).length ≤ 1) :
    compareWith nodes ⟨p, s⟩ = classify ns' (pathTokens '/' s) := by
  obtain ⟨c₂, ns'', ts'', itS, rfl, hts, hcmp₂, hS, hstop₂⟩ :=
    compareStringRanges_spec (reads_begin '/' s) ns'
  rw [hts, classify_append]
  simp only [compareWith, hcmp, hend, hcmp₂, hS.beq_end, next_of_beq_end hend]
  by_cases hns : ns'' = [] <;> by_cases hts' : ts'' = []
  · simp [hns, hts', classify]
  · -- the node path ends inside the suffix, one word before its end
    have hlen : ts''.length = 1 := by
      have h := congrArg List.length hts
      rw [List.length_append] at h
      have : ts''.length ≠ 0 := by simpa using hts'
      omega
    simp [hns, hts', classify_nil_left hts', hlen]
  · obtain ⟨a, ns, rfl⟩ := List.exists_cons_of_ne_nil hns
    simp [hts', classify]
    -- the two sides decide emptiness by different instances
    by_cases h : ns = [] <;> simp [h]
  · have hh := (hstop₂.resolve_left hns).resolve_left hts'
    simp [hns, hts', classify_of_head?_ne hns hts' hh]

/-- `CompareWith` while words of the alias's expansion are left: the node path
ends inside the expansion, or parts from it. -/
theorem compareWith_of_prefix_word {nodes ns' : List (List Char)} {p s t : List Char} {tp : List (List Char)}
    {itP : StringListIterator Char} (hcmp : compareStringRanges '/' nodes (StringList.begin '/' p) = (ns', itP))
    (hP : Reads '/' itP (t :: tp)) (hstop : ns' = [] ∨ t :: tp = [] ∨ ns'.head? ≠ (t :: tp).head?) :
    compareWith nodes ⟨p, s⟩ = classify ns' (t :: tp ++ pathTokens '/' s) := by
  simp only [compareWith, hcmp, hP.beq_end]
  by_cases hns : ns' = []
  · -- the node path ends inside the prefix
    subst hns
    have hsuf : s.isEmpty = (pathTokens '/' s).isEmpty := by
      rw [Bool.eq_iff_iff, List.isEmpty_iff, List.isEmpty_iff, pathTokens_eq_nil_iff]
    rw [classify_nil_left (by simp), hP.tail.beq_end, hsuf]
    by_cases h₁ : tp = [] <;> by_cases h₂ : pathTokens '/' s = [] <;> simp [h₁, h₂]
  · have hh := (hstop.resolve_left hns).resolve_left (List.cons_ne_nil t tp)
    rw [classify_of_head?_ne hns (by simp) (by simpa using hh)]
    simp [hns]

/-- The comparison through an alias followed by at most one word classifies the
node path against the words of the alias's expansion and of that word. -/
theorem compareWith_resolved (nodes : List (List Char)) (p s : List Char)
    (hs : (pathTokens '/' s).length ≤ 1) :
    compareWith nodes ⟨p, s⟩ = classify nodes (pathTokens '/' p ++ pathTokens '/' s) := by
  obtain ⟨c, ns', tp', itP, rfl, htp, hcmp, hP, hstop⟩ :=
    compareStringRanges_spec (reads_begin '/' p) nodes
  rw [htp, List.append_assoc, classify_append]
  cases tp' with
  | nil =>
    rw [List.nil_append]
    exact compareWith_of_prefix_end hcmp (by rw [hP.beq_end]; rfl) hs
  | cons t tp => exact compareWith_of_prefix_word hcmp hP hstop

theorem compareWith_resolved_oneWord :
    (pathTokens '/' ['B']).length ≤ 1 ∧
      compareWith [[], ['A']] ⟨['/', 'A'], ['B']⟩ =
        classify [[], ['A']] (pathTokens '/' ['/', 'A'] ++ pathTokens '/' ['B']) :=
  ⟨by decide, compareWith_resolved _ _ _ (by decide)⟩

theorem compareWith_aliasFollowedByTwoWords :
    compareWith [[], ['A']] ⟨['/', 'A'], ['B', '/', 'C']⟩ = .parent ∧
      compareWithPath [[], ['A']] ['/', 'A', '/', 'B', '/', 'C'] = some .indirectAncestor ∧
      classify [[], ['A']] (pathTokens '/' ['/', 'A', '/', 'B', '/', 'C']) = .indirectAncestor := by
  decide

end Zircon.Devicetree
