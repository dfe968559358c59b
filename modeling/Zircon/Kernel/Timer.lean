import Mathlib

/-!
# Timer queues and slack coalescing

A CPU's `TimerQueue` (kernel/timer.cc) keeps its monotonic and its boot
timers in two lists ordered by `scheduled_time_`.  `Timer::Set` inserts a
timer with the window `[earliest, latest]` of its `Deadline`, and
`InsertIntoTimerList` may move the timer inside that window onto the time of a
neighbour, recording the move in `slack_`.  `TickInternal` fires the timers
that are due from the front, and `TransitionTimerList` moves every timer of a
list into another, inserting each one with the zero-width window of its
current time.

The `zx_time_*` helpers of `zircon/time.h` saturate at `ZX_TIME_INFINITE_PAST`
and `ZX_TIME_INFINITE`.  A timer carries, as a ghost field, the deadline of the
`Set` that queued it.  Callbacks, the platform timer and the cancel and active
flags used while a callback runs are not modelled: a tick removes the due
timers and reports them.

A queue built by `Set` alone keeps its lists sorted, and each timer's
scheduled time lies in its window with `slack_` the distance from `when`.  A
transition keeps the order and the windows but sets `slack_` to 0, so a timer
that was coalesced before it no longer satisfies the slack relation.
-/

namespace Zircon.Kernel

/-- `ZX_TIME_INFINITE`. -/
def zxTimeInfinite : ℤ := 2 ^ 63 - 1

/-- `ZX_TIME_INFINITE_PAST`. -/
def zxTimeInfinitePast : ℤ := -2 ^ 63

/-- The saturation of the `zx_time_*` arithmetic. -/
def saturate (x : ℤ) : ℤ :=
  max zxTimeInfinitePast (min zxTimeInfinite x)

/-- `zx_time_add_duration`. -/
def zxTimeAddDuration (t d : ℤ) : ℤ := saturate (t + d)

/-- `zx_time_sub_duration`. -/
def zxTimeSubDuration (t d : ℤ) : ℤ := saturate (t - d)

/-- `zx_time_sub_time`. -/
def zxTimeSubTime (t₁ t₂ : ℤ) : ℤ := saturate (t₁ - t₂)

/-- `slack_mode`. -/
inductive SlackMode
  | center
  | early
  | late
  deriving DecidableEq, Repr

/-- `TimerSlack`. -/
structure TimerSlack where
  amount : ℤ
  mode : SlackMode
  deriving DecidableEq, Repr

/-- `Deadline`. -/
structure Deadline where
  when : ℤ
  slack : TimerSlack
  deriving DecidableEq, Repr

namespace Deadline

/-- `Deadline::earliest`. -/
def earliest (d : Deadline) : ℤ :=
  match d.slack.mode with
  | .center => zxTimeSubDuration d.when d.slack.amount
  | .late => d.when
  | .early => zxTimeSubDuration d.when d.slack.amount

/-- `Deadline::latest`. -/
def latest (d : Deadline) : ℤ :=
  match d.slack.mode with
  | .center => zxTimeAddDuration d.when d.slack.amount
  | .late => zxTimeAddDuration d.when d.slack.amount
  | .early => d.when

/-- What `Timer::Set` asserts of a deadline, with `when` a `zx_time_t` and the
slack amount a `zx_duration_t`. -/
def Valid (d : Deadline) : Prop :=
  0 ≤ d.slack.amount ∧ d.slack.amount ≤ zxTimeInfinite ∧ zxTimeInfinitePast ≤ d.when ∧
    d.when ≤ zxTimeInfinite

end Deadline

/-- The clock a timer is set on. -/
inductive Clock
  | monotonic
  | boot
  deriving DecidableEq, Repr

/-- `Timer`, with the deadline of the `Set` that queued it. -/
structure Timer where
  id : ℕ
  clockId : Clock
  scheduledTime : ℤ
  slack : ℤ
  deadline : Deadline
  deriving DecidableEq, Repr

/-- The timer coalesced onto time `s`: `slack_ = s - scheduled_time_`. -/
def Timer.coalesce (timer : Timer) (s : ℤ) : Timer :=
  { timer with scheduledTime := s, slack := zxTimeSubTime s timer.scheduledTime }

/-- The loop of `TimerQueue::InsertIntoTimerList` from the entry at the head of
the list on. -/
def insertIntoTimerList (timer : Timer) (earliestDeadline latestDeadline : ℤ) :
    List Timer → List Timer
  | [] =>
    -- walked off the end: no overlap
    [{ timer with slack := 0 }]
  | entry :: rest =>
    if entry.scheduledTime > latestDeadline then { timer with slack := 0 } :: entry :: rest
    else if entry.scheduledTime ≥ timer.scheduledTime then
      -- coalesce late onto `entry`
      entry :: timer.coalesce entry.scheduledTime :: rest
    else if entry.scheduledTime < earliestDeadline then
      entry :: insertIntoTimerList timer earliestDeadline latestDeadline rest
    else
      -- `entry` overlaps; the next entry may be a better fit
      let skip : Bool := match rest with
        | next :: _ =>
          next.scheduledTime ≤ timer.scheduledTime ||
            (next.scheduledTime < latestDeadline &&
              zxTimeSubTime next.scheduledTime timer.scheduledTime <
                zxTimeSubTime timer.scheduledTime entry.scheduledTime)
        | [] => false
      if skip then entry :: insertIntoTimerList timer earliestDeadline latestDeadline rest
      else entry :: timer.coalesce entry.scheduledTime :: rest

/-- The two timer lists of a CPU's `TimerQueue`. -/
structure TimerQueue where
  monotonicTimerList : List Timer
  bootTimerList : List Timer
  deriving DecidableEq, Repr

namespace TimerQueue

/-- The list of a clock. -/
def list (q : TimerQueue) : Clock → List Timer
  | .monotonic => q.monotonicTimerList
  | .boot => q.bootTimerList

/-- Replace the list of a clock. -/
def setList (q : TimerQueue) : Clock → List Timer → TimerQueue
  | .monotonic, l => { q with monotonicTimerList := l }
  | .boot, l => { q with bootTimerList := l }

/-- Whether a timer is on either list (`InContainer()`). -/
def contains (q : TimerQueue) (id : ℕ) : Bool :=
  (q.monotonicTimerList ++ q.bootTimerList).any (·.id = id)

/-- `Timer::Set` on this CPU's queue; setting a timer that is already queued
panics, and leaves the queue as it was here. -/
def set (q : TimerQueue) (timer : Timer) (deadline : Deadline) : TimerQueue :=
  if q.contains timer.id then q
  else
    let timer := { timer with scheduledTime := deadline.when, deadline := deadline }
    q.setList timer.clockId
      (insertIntoTimerList timer deadline.earliest deadline.latest (q.list timer.clockId))

/-- `Timer::Cancel`: unlink the timer from whichever list holds it. -/
def cancel (q : TimerQueue) (id : ℕ) : TimerQueue :=
  ⟨q.monotonicTimerList.filter (·.id ≠ id), q.bootTimerList.filter (·.id ≠ id)⟩

end TimerQueue

/-- The loop of `TimerQueue::TickInternal`: the timers it fires, in order, and
the list it leaves. -/
def tickInternal (now : ℤ) : List Timer → List Timer × List Timer
  | [] => ([], [])
  | timer :: rest =>
    if now < timer.scheduledTime then ([], timer :: rest)
    else
      let r := tickInternal now rest
      (timer :: r.1, r.2)

/-- `TimerQueue::TransitionTimerList`: insert the timers of `src`, front first,
into `dst` with the window of their scheduled time. -/
def transitionTimerList (src dst : List Timer) : List Timer :=
  src.foldl (fun dst timer ↦
    insertIntoTimerList timer timer.scheduledTime timer.scheduledTime dst) dst

/-! ### Sorted lists and windows -/

/-- A timer list ordered by `scheduled_time_`. -/
def SortedBySchedule (l : List Timer) : Prop :=
  l.Pairwise fun a b ↦ a.scheduledTime ≤ b.scheduledTime

instance (l : List Timer) : Decidable (SortedBySchedule l) :=
  inferInstanceAs (Decidable (List.Pairwise _ l))

/-- A queued timer lies in the window of its deadline, and its slack is how far
it was moved from `when`. -/
def Timer.InWindow (t : Timer) : Prop :=
  t.deadline.earliest ≤ t.scheduledTime ∧ t.scheduledTime ≤ t.deadline.latest ∧
    t.slack = t.scheduledTime - t.deadline.when

instance (t : Timer) : Decidable t.InWindow :=
  inferInstanceAs (Decidable (_ ∧ _ ∧ _))

/-- Every list of a queue is sorted, and each of its timers lies in its window. -/
def ListInvariant (l : List Timer) : Prop :=
  SortedBySchedule l ∧ ∀ t ∈ l, t.InWindow

instance (l : List Timer) : Decidable (ListInvariant l) :=
  inferInstanceAs (Decidable (_ ∧ _))

/-- A queued timer once `TransitionTimerList` may have moved it: in the window of
its deadline, with `slack_` its distance from `when`, or 0 after the move. -/
def Timer.InWindowOrMoved (t : Timer) : Prop :=
  t.deadline.earliest ≤ t.scheduledTime ∧ t.scheduledTime ≤ t.deadline.latest ∧
    (t.slack = t.scheduledTime - t.deadline.when ∨ t.slack = 0)

instance (t : Timer) : Decidable t.InWindowOrMoved :=
  inferInstanceAs (Decidable (_ ∧ _ ∧ _))

/-- A list sorted by `scheduled_time_` whose timers each satisfy `P`. -/
def ListInv (P : Timer → Prop) (l : List Timer) : Prop :=
  SortedBySchedule l ∧ ∀ t ∈ l, P t

instance (P : Timer → Prop) [DecidablePred P] (l : List Timer) : Decidable (ListInv P l) :=
  inferInstanceAs (Decidable (_ ∧ _))

theorem Timer.InWindow.inWindowOrMoved {t : Timer} (h : t.InWindow) : t.InWindowOrMoved :=
  ⟨h.1, h.2.1, .inl h.2.2⟩

/-! ### The saturating arithmetic -/

theorem saturate_of_mem {x : ℤ} (hlo : zxTimeInfinitePast ≤ x) (hhi : x ≤ zxTimeInfinite) :
    saturate x = x := by
  unfold saturate
  rw [min_eq_right hhi, max_eq_right hlo]

theorem saturate_le_of_le {x y : ℤ} (hxy : x ≤ y) (hlo : zxTimeInfinitePast ≤ y) :
    saturate x ≤ y := by
  unfold saturate
  exact max_le hlo ((min_le_right _ _).trans hxy)

theorem le_saturate_of_le {x y : ℤ} (hxy : y ≤ x) (hhi : y ≤ zxTimeInfinite) :
    y ≤ saturate x :=
  (le_min hhi hxy).trans (le_max_right _ _)

namespace Deadline

variable {d : Deadline}

theorem earliest_le_when (hd : d.Valid) : d.earliest ≤ d.when := by
  obtain ⟨hpos, -, hlo, -⟩ := hd
  unfold earliest zxTimeSubDuration
  cases d.slack.mode
  · exact saturate_le_of_le (by omega) hlo
  · exact saturate_le_of_le (by omega) hlo
  · exact le_rfl

theorem when_le_latest (hd : d.Valid) : d.when ≤ d.latest := by
  obtain ⟨hpos, -, -, hhi⟩ := hd
  unfold latest zxTimeAddDuration
  cases d.slack.mode
  · exact le_saturate_of_le (by omega) hhi
  · exact le_rfl
  · exact le_saturate_of_le (by omega) hhi

theorem latest_le (hd : d.Valid) : d.latest ≤ d.when + d.slack.amount := by
  rcases d with ⟨when, ⟨amount, mode⟩⟩
  obtain ⟨hpos, -, hlo, -⟩ := hd
  dsimp only at hpos hlo ⊢
  cases mode <;> simp only [latest, zxTimeAddDuration, saturate] <;> omega

theorem le_earliest (hd : d.Valid) : d.when - d.slack.amount ≤ d.earliest := by
  rcases d with ⟨when, ⟨amount, mode⟩⟩
  obtain ⟨hpos, -, -, hhi⟩ := hd
  dsimp only at hpos hhi ⊢
  cases mode <;> simp only [earliest, zxTimeSubDuration, saturate] <;> omega

theorem window_sub_when (hd : d.Valid) {s : ℤ} (hs : d.earliest ≤ s ∧ s ≤ d.latest) :
    -d.slack.amount ≤ s - d.when ∧ s - d.when ≤ d.slack.amount := by
  have hlate := latest_le hd
  have hearly := le_earliest hd
  omega

end Deadline

/-! ### Inserting into a sorted list -/

@[simp]
theorem Timer.coalesce_self (timer : Timer) :
    timer.coalesce timer.scheduledTime = { timer with slack := 0 } := by
  simp [Timer.coalesce, zxTimeSubTime, saturate, zxTimeInfinite, zxTimeInfinitePast]

theorem sortedBySchedule_insert {pre post : List Timer} {c : Timer}
    (h : SortedBySchedule (pre ++ post)) (hpre : ∀ x ∈ pre, x.scheduledTime ≤ c.scheduledTime)
    (hpost : ∀ x ∈ post, c.scheduledTime ≤ x.scheduledTime) :
    SortedBySchedule (pre ++ c :: post) := by
  unfold SortedBySchedule at h ⊢
  rw [List.pairwise_append] at h ⊢
  obtain ⟨hp, hq, hpq⟩ := h
  refine ⟨hp, List.pairwise_cons.mpr ⟨hpost, hq⟩, ?_⟩
  intro a ha b hb
  rcases List.mem_cons.mp hb with rfl | hb
  · exact hpre a ha
  · exact hpq a ha b hb

/-- `InsertIntoTimerList` puts the timer, moved to some time `s` of its window,
between the entries up to `s` and those from `s` on. -/
theorem insertIntoTimerList_spec {timer : Timer} {earliest latest : ℤ}
    (he : earliest ≤ timer.scheduledTime) (hl : timer.scheduledTime ≤ latest) :
    ∀ l, SortedBySchedule l → ∃ pre post s, l = pre ++ post ∧
      insertIntoTimerList timer earliest latest l = pre ++ timer.coalesce s :: post ∧
      earliest ≤ s ∧ s ≤ latest ∧ (∀ x ∈ pre, x.scheduledTime ≤ s) ∧
      (∀ x ∈ post, s ≤ x.scheduledTime) ∧
      (timer.scheduledTime ≤ s ∨ ∃ x ∈ l, x.scheduledTime = s) := by
  intro l
  induction l with
  | nil =>
      intro _
      refine ⟨[], [], timer.scheduledTime, rfl, ?_, he, hl, by simp, by simp, .inl le_rfl⟩
      simp [insertIntoTimerList]
  | cons entry rest ih =>
      intro hsorted
      have hentry : ∀ x ∈ rest, entry.scheduledTime ≤ x.scheduledTime :=
        (List.pairwise_cons.mp hsorted).1
      have hrest : SortedBySchedule rest := (List.pairwise_cons.mp hsorted).2
      -- the entries passed over lie below the place the timer goes
      have hskip : entry.scheduledTime < timer.scheduledTime →
          ∃ pre post s, entry :: rest = pre ++ post ∧
            entry :: insertIntoTimerList timer earliest latest rest =
              pre ++ timer.coalesce s :: post ∧
            earliest ≤ s ∧ s ≤ latest ∧ (∀ x ∈ pre, x.scheduledTime ≤ s) ∧
            (∀ x ∈ post, s ≤ x.scheduledTime) ∧
            (timer.scheduledTime ≤ s ∨ ∃ x ∈ entry :: rest, x.scheduledTime = s) := by
        intro hlt
        obtain ⟨pre, post, s, rfl, hins, hes, hsl, hpre, hpost, hwhere⟩ := ih hrest
        have hentry_s : entry.scheduledTime ≤ s := by
          rcases hwhere with hts | ⟨x, hx, rfl⟩
          · exact hlt.le.trans hts
          · exact hentry x hx
        refine ⟨entry :: pre, post, s, rfl, by rw [hins]; rfl, hes, hsl, ?_, hpost, ?_⟩
        · intro x hx
          rcases List.mem_cons.mp hx with rfl | hx
          · exact hentry_s
          · exact hpre x hx
        · rcases hwhere with hts | ⟨x, hx, hxs⟩
          · exact .inl hts
          · exact .inr ⟨x, List.mem_cons_of_mem _ hx, hxs⟩
      unfold insertIntoTimerList
      dsimp only
      split_ifs with hlate hge hearly
      · -- in front of an entry past the window
        refine ⟨[], entry :: rest, timer.scheduledTime, rfl, by simp, he, hl, by simp, ?_,
          .inl le_rfl⟩
        intro x hx
        rcases List.mem_cons.mp hx with rfl | hx
        · omega
        · have := hentry x hx
          omega
      · -- coalesced late onto `entry`
        refine ⟨[entry], rest, entry.scheduledTime, rfl, rfl, by omega, by omega, by simp,
          hentry, .inl (by omega)⟩
      · exact hskip (by omega)
      · exact hskip (by omega)
      · -- coalesced early onto `entry`
        refine ⟨[entry], rest, entry.scheduledTime, rfl, rfl, by omega, by omega, by simp,
          hentry, .inr ⟨entry, List.mem_cons_self .., rfl⟩⟩

theorem sortedBySchedule_of_sublist {l l' : List Timer} (h : SortedBySchedule l) (hs : l'.Sublist l) :
    SortedBySchedule l' :=
  List.Pairwise.sublist hs h

theorem listInv_of_sublist {P : Timer → Prop} {l l' : List Timer} (h : ListInv P l) (hs : l'.Sublist l) :
    ListInv P l' :=
  ⟨sortedBySchedule_of_sublist h.1 hs, fun t ht ↦ h.2 t (hs.subset ht)⟩

theorem inWindow_coalesce {timer : Timer} {d : Deadline} (hd : d.Valid) {s : ℤ}
    (hs : d.earliest ≤ s ∧ s ≤ d.latest) :
    ({ timer with scheduledTime := d.when, deadline := d } : Timer).coalesce s |>.InWindow := by
  obtain ⟨hlo, hhi⟩ := d.window_sub_when hd hs
  have hamount : d.slack.amount ≤ zxTimeInfinite := hd.2.1
  refine ⟨hs.1, hs.2, ?_⟩
  show saturate (s - d.when) = s - d.when
  apply saturate_of_mem
  · unfold zxTimeInfinite at hamount
    unfold zxTimeInfinitePast
    omega
  · omega

namespace TimerQueue

@[simp]
theorem list_setList (q : TimerQueue) (c c' : Clock) (l : List Timer) :
    (q.setList c l).list c' = if c' = c then l else q.list c' := by
  cases c <;> cases c' <;> rfl

theorem set_listInv {P : Timer → Prop}
    (hP : ∀ (timer : Timer) (d : Deadline) s, d.Valid → d.earliest ≤ s → s ≤ d.latest →
      P (({ timer with scheduledTime := d.when, deadline := d } : Timer).coalesce s))
    {q : TimerQueue} (hq : ∀ c, ListInv P (q.list c)) (timer : Timer)
    {d : Deadline} (hd : d.Valid) : ∀ c, ListInv P ((q.set timer d).list c) := by
  intro c
  unfold set
  split_ifs with hin
  · exact hq c
  · set t : Timer := { timer with scheduledTime := d.when, deadline := d } with ht
    obtain ⟨pre, post, s, hsplit, hins, hes, hsl, hpre, hpost, -⟩ :=
      insertIntoTimerList_spec (show d.earliest ≤ t.scheduledTime from Deadline.earliest_le_when hd)
        (Deadline.when_le_latest hd) (q.list t.clockId) (hq t.clockId).1
    rw [list_setList]
    split_ifs with hc
    · subst hc
      rw [hins]
      have hold := hq t.clockId
      rw [hsplit] at hold
      refine ⟨sortedBySchedule_insert hold.1 hpre hpost, ?_⟩
      intro x hx
      rcases List.mem_append.mp hx with hx | hx
      · exact hold.2 x (List.mem_append_left _ hx)
      rcases List.mem_cons.mp hx with rfl | hx
      · exact hP timer d s hd hes hsl
      · exact hold.2 x (List.mem_append_right _ hx)
    · exact hq c

theorem cancel_listInv {P : Timer → Prop} {q : TimerQueue} (hq : ∀ c, ListInv P (q.list c)) (id : ℕ) :
    ∀ c, ListInv P ((q.cancel id).list c) := by
  intro c
  cases c
  · exact listInv_of_sublist (hq .monotonic) List.filter_sublist
  · exact listInv_of_sublist (hq .boot) List.filter_sublist

end TimerQueue

theorem tickInternal_split (now : ℤ) :
    ∀ l : List Timer, (tickInternal now l).1 ++ (tickInternal now l).2 = l ∧
      (∀ x ∈ (tickInternal now l).1, x.scheduledTime ≤ now) ∧
      ∀ x ∈ (tickInternal now l).2.head?, now < x.scheduledTime
  | [] => by simp [tickInternal]
  | timer :: rest => by
    obtain ⟨happ, hdue, hfront⟩ := tickInternal_split now rest
    unfold tickInternal
    split_ifs with hlt
    · exact ⟨rfl, by simp, by simpa using hlt⟩
    · refine ⟨by rw [List.cons_append, happ], ?_, hfront⟩
      intro x hx
      rcases List.mem_cons.mp hx with rfl | hx
      · omega
      · exact hdue x hx

theorem tickInternal_due {P : Timer → Prop} (now : ℤ) {l : List Timer} (hl : ListInv P l) :
    (tickInternal now l).1 ++ (tickInternal now l).2 = l ∧
      (∀ x ∈ (tickInternal now l).1, x.scheduledTime ≤ now) ∧
      (∀ x ∈ (tickInternal now l).2, now < x.scheduledTime) ∧
      ListInv P (tickInternal now l).2 := by
  obtain ⟨happ, hdue, hfront⟩ := tickInternal_split now l
  have hsub : (tickInternal now l).2.Sublist l := by
    nth_rewrite 2 [← happ]
    exact List.sublist_append_right _ _
  have hrest := listInv_of_sublist hl hsub
  refine ⟨happ, hdue, ?_, hrest⟩
  cases hr : (tickInternal now l).2 with
  | nil => simp
  | cons front tail =>
      rw [hr] at hfront hrest
      have hnow : now < front.scheduledTime := hfront front rfl
      intro x hx
      rcases List.mem_cons.mp hx with rfl | hx
      · exact hnow
      · exact lt_of_lt_of_le hnow ((List.pairwise_cons.mp hrest.1).1 x hx)

/-- `TransitionTimerList` keeps the destination sorted and adds the source's
timers to it with their scheduled times, but with `slack_ = 0`. -/
theorem transitionTimerList_spec :
    ∀ (src dst : List Timer), SortedBySchedule dst →
      SortedBySchedule (transitionTimerList src dst) ∧
        (transitionTimerList src dst).Perm (dst ++ src.map fun t ↦ { t with slack := 0 })
  | [], dst, h => by simp [transitionTimerList, h]
  | t :: rest, dst, h => by
    obtain ⟨pre, post, s, rfl, hins, hes, hsl, hpre, hpost, -⟩ :=
      insertIntoTimerList_spec (le_refl t.scheduledTime) le_rfl dst h
    have hs : s = t.scheduledTime := le_antisymm hsl hes
    subst hs
    rw [Timer.coalesce_self] at hins
    have hsorted := sortedBySchedule_insert h (c := { t with slack := 0 }) hpre hpost
    obtain ⟨hsorted', hperm⟩ := transitionTimerList_spec rest _ hsorted
    have hstep : transitionTimerList (t :: rest) (pre ++ post) =
        transitionTimerList rest (pre ++ { t with slack := 0 } :: post) := by
      simp only [transitionTimerList, List.foldl_cons, hins]
    rw [hstep]
    refine ⟨hsorted', hperm.trans ?_⟩
    rw [List.map_cons]
    exact (List.perm_middle.append_right _).trans List.perm_middle.symm

theorem tickInternal_fst_eq_filter {P : Timer → Prop} {now : ℤ} {l : List Timer} (hl : ListInv P l) :
    (tickInternal now l).1 = l.filter fun t ↦ t.scheduledTime ≤ now := by
  obtain ⟨happ, hdue, hlater, -⟩ := tickInternal_due now hl
  nth_rewrite 2 [← happ]
  rw [List.filter_append, List.filter_eq_self.mpr (by simpa using hdue),
    List.filter_eq_nil_iff.mpr (by simpa using hlater), List.append_nil]

/-- `TransitionTimerList` from a list whose timers may have moved into another
keeps the destination sorted and every timer in its window, with `slack_` its
distance from `when` or 0. -/
theorem transitionTimerList_listInv {src dst : List Timer} (hsrc : ListInv Timer.InWindowOrMoved src)
    (hdst : ListInv Timer.InWindowOrMoved dst) :
    ListInv Timer.InWindowOrMoved (transitionTimerList src dst) := by
  obtain ⟨hsorted, hperm⟩ := transitionTimerList_spec src dst hdst.1
  refine ⟨hsorted, fun t ht ↦ ?_⟩
  rcases List.mem_append.mp (hperm.subset ht) with ht | ht
  · exact hdst.2 t ht
  · obtain ⟨t', ht', rfl⟩ := List.mem_map.mp ht
    obtain ⟨hlo, hhi, -⟩ := hsrc.2 t' ht'
    exact ⟨hlo, hhi, .inr rfl⟩

/-! ### Runs of one CPU's queue -/

/-- A call on a CPU's timer queue. -/
inductive TimerEvent
  | set (timer : Timer) (deadline : Deadline)
  | cancel (id : ℕ)
  | tick (now bootNow : ℤ)
  | transitionOffCpu (source : TimerQueue)
  deriving DecidableEq, Repr

namespace TimerQueue

/-- One call, with the timers a tick fires dropped. -/
def step (q : TimerQueue) : TimerEvent → TimerQueue
  | .set timer deadline => q.set timer deadline
  | .cancel id => q.cancel id
  | .tick now bootNow =>
    ⟨(tickInternal now q.monotonicTimerList).2, (tickInternal bootNow q.bootTimerList).2⟩
  | .transitionOffCpu source =>
    ⟨transitionTimerList source.monotonicTimerList q.monotonicTimerList,
      transitionTimerList source.bootTimerList q.bootTimerList⟩

/-- A call that sets, cancels or ticks, with a valid deadline. -/
def LocalEvent : TimerEvent → Prop
  | .set _ deadline => deadline.Valid
  | .cancel _ => True
  | .tick _ _ => True
  | .transitionOffCpu _ => False

/-- A call that sets with a valid deadline, cancels, ticks, or moves in the
timers of a queue whose lists are sorted with every timer in its window. -/
def AdmissibleEvent : TimerEvent → Prop
  | .set _ deadline => deadline.Valid
  | .cancel _ => True
  | .tick _ _ => True
  | .transitionOffCpu source => ∀ c, ListInv Timer.InWindowOrMoved (source.list c)

theorem tick_listInv {P : Timer → Prop} {q : TimerQueue} (hq : ∀ c, ListInv P (q.list c)) (now bootNow : ℤ) :
    ∀ c, ListInv P ((q.step (.tick now bootNow)).list c)
  | .monotonic => (tickInternal_due now (hq .monotonic)).2.2.2
  | .boot => (tickInternal_due bootNow (hq .boot)).2.2.2

theorem listInvariant_step {q : TimerQueue} (hq : ∀ c, ListInvariant (q.list c)) {e : TimerEvent}
    (he : LocalEvent e) : ∀ c, ListInvariant ((q.step e).list c) := by
  cases e with
  | set timer deadline => exact set_listInv (fun _ _ _ hd hes hsl ↦ inWindow_coalesce hd ⟨hes, hsl⟩) hq timer he
  | cancel id => exact cancel_listInv hq id
  | tick now bootNow => exact tick_listInv hq now bootNow
  | transitionOffCpu source => exact he.elim

theorem listInv_step {q : TimerQueue} (hq : ∀ c, ListInv Timer.InWindowOrMoved (q.list c)) {e : TimerEvent}
    (he : AdmissibleEvent e) : ∀ c, ListInv Timer.InWindowOrMoved ((q.step e).list c) := by
  cases e with
  | set timer deadline =>
    exact set_listInv (fun _ _ _ hd hes hsl ↦ (inWindow_coalesce hd ⟨hes, hsl⟩).inWindowOrMoved) hq timer he
  | cancel id => exact cancel_listInv hq id
  | tick now bootNow => exact tick_listInv hq now bootNow
  | transitionOffCpu source =>
    intro c
    cases c
    · exact transitionTimerList_listInv (he .monotonic) (hq .monotonic)
    · exact transitionTimerList_listInv (he .boot) (hq .boot)

theorem foldl_step_of {inv : TimerQueue → Prop} {ok : TimerEvent → Prop}
    (hstep : ∀ q e, inv q → ok e → inv (q.step e)) :
    ∀ (events : List TimerEvent) (q : TimerQueue), inv q → (∀ e ∈ events, ok e) → inv (events.foldl step q)
  | [], _, hq, _ => hq
  | e :: rest, q, hq, he =>
    foldl_step_of hstep rest (q.step e) (hstep q e hq (he e List.mem_cons_self))
      fun e' he' ↦ he e' (List.mem_cons_of_mem _ he')

end TimerQueue

/-- A timer on the monotonic clock, before its first `Set`. -/
def unsetTimer (id : ℕ) : Timer :=
  ⟨id, .monotonic, 0, 0, ⟨0, ⟨0, .center⟩⟩⟩

/-- Timer 0 set for 12 without slack, then timer 1 for 10 with 5 of late slack,
which coalesces it onto timer 0. -/
def coalescedPair : TimerQueue :=
  ((⟨[], []⟩ : TimerQueue).set (unsetTimer 0) ⟨12, ⟨0, .center⟩⟩).set (unsetTimer 1)
    ⟨10, ⟨5, .late⟩⟩

/-- The two sets of `coalescedPair` on one CPU, then the move of that queue to
another. -/
def coalesceThenMove : List TimerEvent :=
  [.set (unsetTimer 0) ⟨12, ⟨0, .center⟩⟩, .set (unsetTimer 1) ⟨10, ⟨5, .late⟩⟩,
    .transitionOffCpu coalescedPair]

end Zircon.Kernel
