import Mathlib
import Zircon.Lib.WavlTree
import Zircon.Sched.Runs

/-!
# Bandwidth accounting of the run queue

The run queue keeps two running sums beside its trees: the firm utilization
of the ready and actively blocked threads, and the flexible weight of the
ready ones.  Threads move between `current_`, the ready tree and the actively
blocked tree along several paths, and each path must add and subtract exactly
once.  `Accounted` is the invariant: the sums are the sums over the trees, no
thread is in two places, the actively blocked threads are blocked threads with
firm capacity, and every tree node still carries the key of its thread.

`Queue` counts a thread before it inserts it, since its expiry check reads
the sums; `AccountedWith pending` is the invariant with the threads of
`pending` counted but not yet in a tree.  Each operation gets a lemma that
says how it moves threads, and the invariant of whole runs follows by
induction over the calls.
-/

namespace Zircon.Sched

open Zircon.Lib WavlTree

/-! ### Trees of thread keys -/

section Keys

variable {t : WavlTree Key} {key : ℕ → Key}

/-- Every node of the tree carries the key `key` gives its thread. -/
def KeysBy (t : WavlTree Key) (key : ℕ → Key) : Prop :=
  ∀ k ∈ t.toList, k = key k.addr

theorem KeysBy.key_mem (h : KeysBy t key) {a : ℕ} (ha : a ∈ t.toList.map Key.addr) :
    key a ∈ t.toList := by
  obtain ⟨k, hk, rfl⟩ := List.mem_map.mp ha
  rw [← h k hk]
  exact hk

theorem KeysBy.insert (h : KeysBy t key) {a : ℕ} (ha : (key a).addr = a) :
    KeysBy (t.insert (key a)) key := by
  intro k hk
  rcases mem_toList_insert.mp hk with rfl | hk
  · rw [ha]
  · exact h k hk

theorem KeysBy.erase (h : KeysBy t key) (ht : t.Sorted) (k : Key) : KeysBy (t.erase k) key := by
  intro k' hk'
  exact h k' (mem_toList_of_mem_erase ht hk')

theorem sorted_insert_key (ht : t.Sorted) {a : ℕ} (ha : a ∉ t.toList.map Key.addr)
    (hkey : (key a).addr = a) : (t.insert (key a)).Sorted := by
  refine sorted_insert ht fun hk ↦ ha ?_
  rw [← hkey]
  exact List.mem_map_of_mem hk

theorem addrs_insert_perm (t : WavlTree Key) (k : Key) :
    ((t.insert k).toList.map Key.addr).Perm (k.addr :: t.toList.map Key.addr) := by
  simpa using (toList_insert_perm k t).map Key.addr

theorem addrs_erase_perm (ht : t.Sorted) {k : Key} (hk : k ∈ t.toList) :
    ((t.erase k).toList.map Key.addr).Perm ((t.toList.map Key.addr).erase k.addr) := by
  have hp := ((toList_erase_perm ht hk).map Key.addr).erase k.addr
  rw [List.map_cons, List.erase_cons_head] at hp
  exact hp

theorem Key.time_le_time {k k' : Key} (h : k ≤ k') : k.time ≤ k'.time :=
  Prod.Lex.monotone_fst_ofLex h

end Keys

/-! ### Threads with the same bandwidth -/

/-- Two states of one thread with the same bandwidth parameters. -/
structure Thread.SameBandwidth (t t' : Thread) : Prop where
  period : t'.period = t.period
  firmCapacity : t'.firmCapacity = t.firmCapacity
  flexibleWeight : t'.flexibleWeight = t.flexibleWeight

namespace Thread.SameBandwidth

variable {t t' : Thread}

theorem refl (t : Thread) : t.SameBandwidth t := ⟨rfl, rfl, rfl⟩

theorem firmUtilization (h : t.SameBandwidth t') : t'.firmUtilization = t.firmUtilization := by
  simp only [Thread.firmUtilization, h.period, h.firmCapacity]

theorem reactivate (t : Thread) (now : ℤ) : t.SameBandwidth (t.reactivate now) := ⟨rfl, rfl, rfl⟩

theorem setState (t : Thread) (s : ThreadState) : t.SameBandwidth (t.setState s) := ⟨rfl, rfl, rfl⟩

end Thread.SameBandwidth

namespace RunQueue

variable {rq : RunQueue} {a : ℕ} {p : List ℕ}

/-! ### Sums over threads -/

/-- The sum of a quantity over some threads. -/
def sumOf (rq : RunQueue) (f : Thread → ℤ) (l : List ℕ) : ℤ :=
  (l.map fun a ↦ f (rq.threads a)).sum

section Sums

variable {f : Thread → ℤ} {l l' : List ℕ}

@[simp] theorem sumOf_nil : rq.sumOf f [] = 0 := rfl

@[simp] theorem sumOf_cons : rq.sumOf f (a :: l) = f (rq.threads a) + rq.sumOf f l := by
  simp [sumOf]

@[simp] theorem sumOf_append : rq.sumOf f (l ++ l') = rq.sumOf f l + rq.sumOf f l' := by
  simp [sumOf]

theorem sumOf_perm (h : l.Perm l') : rq.sumOf f l = rq.sumOf f l' :=
  (h.map _).sum_eq

theorem sumOf_erase (h : a ∈ l) : rq.sumOf f l = f (rq.threads a) + rq.sumOf f (l.erase a) := by
  rw [sumOf_perm (List.perm_cons_erase h), sumOf_cons]

theorem sumOf_congr {rq' : RunQueue} (h : ∀ b ∈ l, f (rq'.threads b) = f (rq.threads b)) :
    rq'.sumOf f l = rq.sumOf f l := by
  simp only [sumOf]
  rw [List.map_congr_left h]

end Sums

/-! ### Fields of the operations -/

section Fields

variable {f : Thread → Thread} {now : ℤ}

@[simp] theorem setThread_current : (rq.setThread a f).current = rq.current := rfl
@[simp] theorem dequeue_current : (rq.dequeue a).current = rq.current := rfl
theorem accountQueued_ready : (rq.accountQueued a).ready = rq.ready := by
  unfold accountQueued
  split_ifs <;> rfl

theorem accountQueued_activelyBlocked : (rq.accountQueued a).activelyBlocked =
    if rq.inActivelyBlockedTree a then (rq.dequeueActivelyBlocked a).activelyBlocked
    else rq.activelyBlocked := by
  unfold accountQueued
  split_ifs <;> rfl

theorem accountQueued_current : (rq.accountQueued a).current = rq.current := by
  unfold accountQueued
  split_ifs <;> rfl

theorem queue_eq : rq.queue a now =
    let rq' :=
      if (rq.accountQueued a).isExpired ((rq.accountQueued a).threads a) now then
        (rq.accountQueued a).setThread a (·.reactivate now)
      else rq.accountQueued a
    { rq' with ready := rq'.ready.insert (rq'.readyKey a) }.setThread a (·.setState .ready) :=
  rfl

theorem queue_activelyBlocked :
    (rq.queue a now).activelyBlocked = (rq.accountQueued a).activelyBlocked := by
  rw [queue_eq]
  dsimp only
  split_ifs <;> rfl

theorem queue_current : (rq.queue a now).current = rq.current := by
  rw [queue_eq]
  dsimp only
  split_ifs <;> exact accountQueued_current

theorem readyThreads_queue_perm : (rq.queue a now).readyThreads.Perm (a :: rq.readyThreads) := by
  have hready : ∀ rq' : RunQueue, rq'.ready = rq.ready →
      ({ rq' with ready := rq'.ready.insert (rq'.readyKey a) }.setThread a
        (·.setState .ready)).readyThreads.Perm (a :: rq.readyThreads) := by
    intro rq' h
    show ((rq'.ready.insert (rq'.readyKey a)).toList.map Key.addr).Perm
      (a :: rq.ready.toList.map Key.addr)
    rw [← h]
    exact addrs_insert_perm _ _
  rw [queue_eq]
  dsimp only
  split_ifs
  · exact hready _ accountQueued_ready
  · exact hready _ accountQueued_ready

theorem selectNextThread_snd : (rq.selectNextThread now).2 =
    let rq' := (rq.dropExpiredBlocked now rq.activelyBlocked.toList.length).refreshCurrent now
    let r := rq'.requeueEnded now (rq'.ready.toList.length + 1) (rq'.findNextEligibleThread now)
    (r.2.switchTo now r.1).2 :=
  rfl

end Fields

/-! ### The invariant -/

/-- The accounting of the two trees, with the threads of `pending` counted in
the sums ahead of their insertion into the ready tree. -/
structure AccountedWith (rq : RunQueue) (pending : List ℕ) : Prop where
  readySorted : rq.ready.Sorted
  blockedSorted : rq.activelyBlocked.Sorted
  readyKeys : KeysBy rq.ready rq.readyKey
  blockedKeys : KeysBy rq.activelyBlocked rq.blockedKey
  nodup : (rq.readyThreads ++ rq.blockedThreads ++ pending).Nodup
  blocked : ∀ a ∈ rq.blockedThreads,
    (rq.threads a).state = .blocked ∧ 0 < (rq.threads a).firmCapacity
  firm : rq.readyAndActivelyBlockedFirmUtilization =
    rq.sumOf Thread.firmUtilization (rq.readyThreads ++ rq.blockedThreads ++ pending)
  flexible : rq.readyFlexibleDemand = rq.sumOf Thread.flexibleWeight (rq.readyThreads ++ pending)

/-- The invariant of the run queue: the trees are accounted for, and
`current_` is in neither tree. -/
structure Accounted (rq : RunQueue) : Prop where
  trees : rq.AccountedWith []
  current : ∀ c ∈ rq.current, c ∉ rq.readyThreads ++ rq.blockedThreads

namespace AccountedWith

theorem not_mem_of_pending (h : rq.AccountedWith p) (ha : a ∈ p) :
    a ∉ rq.readyThreads ++ rq.blockedThreads :=
  fun hmem ↦ List.disjoint_of_nodup_append h.nodup hmem ha

theorem not_mem_blocked (h : rq.AccountedWith p) (ha : a ∈ rq.readyThreads) :
    a ∉ rq.blockedThreads :=
  fun hb ↦ List.disjoint_of_nodup_append (List.Nodup.of_append_left h.nodup) ha hb

theorem readyKey_mem (h : rq.AccountedWith p) (ha : a ∈ rq.readyThreads) :
    rq.readyKey a ∈ rq.ready.toList :=
  h.readyKeys.key_mem ha

theorem blockedKey_mem (h : rq.AccountedWith p) (ha : a ∈ rq.blockedThreads) :
    rq.blockedKey a ∈ rq.activelyBlocked.toList :=
  h.blockedKeys.key_mem ha

theorem withThreads (h : rq.AccountedWith p) {threads : ℕ → Thread}
    (hbw : ∀ b ∈ rq.readyThreads ++ rq.blockedThreads ++ p,
      (rq.threads b).SameBandwidth (threads b))
    (hstart : ∀ b ∈ rq.readyThreads ++ rq.blockedThreads, (threads b).start = (rq.threads b).start)
    (hstate : ∀ b ∈ rq.blockedThreads, (threads b).state = (rq.threads b).state) :
    { rq with threads }.AccountedWith p := by
  have hready : ∀ k ∈ rq.ready.toList, k.addr ∈ rq.readyThreads ++ rq.blockedThreads :=
    fun k hk ↦ List.mem_append_left _ (List.mem_map_of_mem hk)
  have hblocked : ∀ b ∈ rq.blockedThreads, b ∈ rq.readyThreads ++ rq.blockedThreads :=
    fun b hb ↦ List.mem_append_right _ hb
  have htracked : ∀ b ∈ rq.readyThreads ++ rq.blockedThreads,
      b ∈ rq.readyThreads ++ rq.blockedThreads ++ p :=
    fun b hb ↦ List.mem_append_left _ hb
  refine ⟨h.readySorted, h.blockedSorted, fun k hk ↦ ?_, fun k hk ↦ ?_, h.nodup, fun b hb ↦ ?_,
    ?_, ?_⟩
  · show k = toLex ((threads k.addr).start, k.addr)
    rw [hstart _ (hready k hk)]
    exact h.readyKeys k hk
  · have hb := hblocked _ (List.mem_map_of_mem hk)
    show k = toLex ((threads k.addr).start + (threads k.addr).period, k.addr)
    rw [hstart _ hb, (hbw _ (htracked _ hb)).period]
    exact h.blockedKeys k hk
  · show (threads b).state = _ ∧ 0 < (threads b).firmCapacity
    rw [hstate b hb, (hbw b (htracked _ (hblocked b hb))).firmCapacity]
    exact h.blocked b hb
  · rw [h.firm]
    exact (sumOf_congr fun b hb ↦ (hbw b hb).firmUtilization).symm
  · rw [h.flexible]
    refine (sumOf_congr fun b hb ↦ (hbw b ?_).flexibleWeight).symm
    rcases List.mem_append.mp hb with hb | hb
    · exact htracked _ (List.mem_append_left _ hb)
    · exact List.mem_append_right _ hb

theorem setThread (h : rq.AccountedWith p) (f : Thread → Thread)
    (hbw : a ∈ rq.readyThreads ++ rq.blockedThreads ++ p →
      (rq.threads a).SameBandwidth (f (rq.threads a)))
    (hstart : a ∈ rq.readyThreads ++ rq.blockedThreads →
      (f (rq.threads a)).start = (rq.threads a).start)
    (hstate : a ∈ rq.blockedThreads → (f (rq.threads a)).state = (rq.threads a).state) :
    (rq.setThread a f).AccountedWith p := by
  apply h.withThreads
  · intro b hb
    rw [Function.update_apply]
    split_ifs with hba
    · subst hba
      exact hbw hb
    · exact .refl _
  · intro b hb
    rw [Function.update_apply]
    split_ifs with hba
    · subst hba
      exact hstart hb
    · rfl
  · intro b hb
    rw [Function.update_apply]
    split_ifs with hba
    · subst hba
      exact hstate hb
    · rfl

theorem setThread_of_not_mem (h : rq.AccountedWith p) (ha : a ∉ rq.readyThreads ++ rq.blockedThreads)
    (f : Thread → Thread) (hbw : a ∈ p → (rq.threads a).SameBandwidth (f (rq.threads a))) :
    (rq.setThread a f).AccountedWith p := by
  refine h.setThread f (fun hmem ↦ hbw ?_) (fun hmem ↦ absurd hmem ha)
    (fun hmem ↦ absurd (List.mem_append_right _ hmem) ha)
  rcases List.mem_append.mp hmem with hmem | hmem
  · exact absurd hmem ha
  · exact hmem

theorem setState (h : rq.AccountedWith p) (ha : a ∉ rq.blockedThreads) (s : ThreadState) :
    (rq.setThread a (·.setState s)).AccountedWith p :=
  h.setThread _ (fun _ ↦ .setState _ s) (fun _ ↦ rfl) (fun hmem ↦ absurd hmem ha)

theorem readyThreads_dequeue_perm (h : rq.AccountedWith p) (ha : a ∈ rq.readyThreads) :
    (rq.dequeue a).readyThreads.Perm (rq.readyThreads.erase a) :=
  addrs_erase_perm h.readySorted (h.readyKey_mem ha)

theorem blockedThreads_dequeueActivelyBlocked_perm (h : rq.AccountedWith p)
    (ha : a ∈ rq.blockedThreads) :
    (rq.dequeueActivelyBlocked a).blockedThreads.Perm (rq.blockedThreads.erase a) :=
  addrs_erase_perm h.blockedSorted (h.blockedKey_mem ha)

theorem dequeue (h : rq.AccountedWith []) (ha : a ∈ rq.readyThreads) :
    (rq.dequeue a).AccountedWith [] := by
  have hperm := h.readyThreads_dequeue_perm ha
  have htracked : ((rq.dequeue a).readyThreads ++ rq.blockedThreads ++ []).Perm
      (rq.readyThreads.erase a ++ rq.blockedThreads) := by
    rw [List.append_nil]
    exact hperm.append_right _
  refine ⟨sorted_erase h.readySorted, h.blockedSorted, h.readyKeys.erase h.readySorted _,
    h.blockedKeys, ?_, h.blocked, ?_, ?_⟩
  · refine htracked.nodup_iff.mpr (List.Nodup.sublist ?_ h.nodup)
    rw [List.append_nil]
    exact (List.erase_sublist).append_right _
  · show rq.readyAndActivelyBlockedFirmUtilization - (rq.threads a).firmUtilization =
      rq.sumOf Thread.firmUtilization ((rq.dequeue a).readyThreads ++ rq.blockedThreads ++ [])
    rw [sumOf_perm htracked, h.firm, List.append_nil, sumOf_append, sumOf_append,
      sumOf_erase (f := Thread.firmUtilization) ha]
    ring
  · show rq.readyFlexibleDemand - (rq.threads a).flexibleWeight =
      rq.sumOf Thread.flexibleWeight ((rq.dequeue a).readyThreads ++ [])
    rw [List.append_nil, sumOf_perm hperm, h.flexible, List.append_nil,
      sumOf_erase (f := Thread.flexibleWeight) ha]
    ring

theorem dequeueActivelyBlocked (h : rq.AccountedWith []) (ha : a ∈ rq.blockedThreads) :
    (rq.dequeueActivelyBlocked a).AccountedWith [] := by
  have hperm := h.blockedThreads_dequeueActivelyBlocked_perm ha
  have htracked : (rq.readyThreads ++ (rq.dequeueActivelyBlocked a).blockedThreads ++ []).Perm
      (rq.readyThreads ++ rq.blockedThreads.erase a) := by
    rw [List.append_nil]
    exact hperm.append_left _
  refine ⟨h.readySorted, sorted_erase h.blockedSorted, h.readyKeys,
    h.blockedKeys.erase h.blockedSorted _, ?_, fun b hb ↦ ?_, ?_, h.flexible⟩
  · refine htracked.nodup_iff.mpr (List.Nodup.sublist ?_ h.nodup)
    rw [List.append_nil]
    exact (List.erase_sublist).append_left _
  · exact h.blocked b (List.mem_of_mem_erase (hperm.subset hb))
  · show rq.readyAndActivelyBlockedFirmUtilization - (rq.threads a).firmUtilization =
      rq.sumOf Thread.firmUtilization
        (rq.readyThreads ++ (rq.dequeueActivelyBlocked a).blockedThreads ++ [])
    rw [sumOf_perm htracked, h.firm, List.append_nil, sumOf_append, sumOf_append,
      sumOf_erase (f := Thread.firmUtilization) ha]
    ring

theorem count (h : rq.AccountedWith []) (ha : a ∉ rq.readyThreads ++ rq.blockedThreads) :
    { rq with
      readyAndActivelyBlockedFirmUtilization :=
        rq.readyAndActivelyBlockedFirmUtilization + (rq.threads a).firmUtilization
      readyFlexibleDemand :=
        rq.readyFlexibleDemand + (rq.threads a).flexibleWeight }.AccountedWith [a] := by
  refine ⟨h.readySorted, h.blockedSorted, h.readyKeys, h.blockedKeys, ?_, h.blocked, ?_, ?_⟩
  · show (rq.readyThreads ++ rq.blockedThreads ++ [a]).Nodup
    rw [(List.perm_append_singleton _ _).nodup_iff, List.nodup_cons]
    exact ⟨ha, by simpa using h.nodup⟩
  · show rq.readyAndActivelyBlockedFirmUtilization + (rq.threads a).firmUtilization =
      rq.sumOf Thread.firmUtilization (rq.readyThreads ++ rq.blockedThreads ++ [a])
    rw [h.firm]
    simp only [List.append_nil, sumOf_append, sumOf_cons, sumOf_nil]
    ring
  · show rq.readyFlexibleDemand + (rq.threads a).flexibleWeight =
      rq.sumOf Thread.flexibleWeight (rq.readyThreads ++ [a])
    rw [h.flexible]
    simp only [List.append_nil, sumOf_append, sumOf_cons, sumOf_nil]
    ring

theorem accountQueued (h : rq.AccountedWith []) (ha : a ∉ rq.readyThreads) :
    (rq.accountQueued a).AccountedWith [a] := by
  unfold RunQueue.accountQueued
  split_ifs with hab
  · have hab' : a ∈ rq.blockedThreads := by simpa [inActivelyBlockedTree] using hab
    have hnd : rq.blockedThreads.Nodup := (List.Nodup.of_append_left h.nodup).of_append_right
    refine (h.dequeueActivelyBlocked hab').count fun hmem ↦ ?_
    rcases List.mem_append.mp hmem with hr | hb
    · exact ha hr
    · exact hnd.not_mem_erase ((h.blockedThreads_dequeueActivelyBlocked_perm hab').subset hb)
  · have hab' : a ∉ rq.blockedThreads := by simpa [inActivelyBlockedTree] using hab
    refine h.count fun hmem ↦ ?_
    rcases List.mem_append.mp hmem with hr | hb
    · exact ha hr
    · exact hab' hb

theorem insertReady (h : rq.AccountedWith [a]) :
    { rq with ready := rq.ready.insert (rq.readyKey a) }.AccountedWith [] := by
  have hna := h.not_mem_of_pending (List.mem_singleton_self a)
  have hperm : ({ rq with ready := rq.ready.insert (rq.readyKey a) }.readyThreads).Perm
      (a :: rq.readyThreads) :=
    addrs_insert_perm rq.ready (rq.readyKey a)
  have htracked : ({ rq with ready := rq.ready.insert (rq.readyKey a) }.readyThreads ++
      rq.blockedThreads ++ []).Perm (rq.readyThreads ++ rq.blockedThreads ++ [a]) := by
    rw [List.append_nil]
    exact (hperm.append_right _).trans (List.perm_append_singleton _ _).symm
  refine ⟨sorted_insert_key h.readySorted (fun hr ↦ hna (List.mem_append_left _ hr)) rfl,
    h.blockedSorted, h.readyKeys.insert rfl, h.blockedKeys, htracked.nodup_iff.mpr h.nodup,
    h.blocked, ?_, ?_⟩
  · exact h.firm.trans (sumOf_perm htracked.symm)
  · rw [h.flexible, List.append_nil]
    exact sumOf_perm ((List.perm_append_singleton _ _).trans hperm.symm)

theorem queue (h : rq.AccountedWith []) (ha : a ∉ rq.readyThreads) (now : ℤ) :
    (rq.queue a now).AccountedWith [] := by
  have h1 := h.accountQueued ha
  rw [queue_eq]
  dsimp only
  split_ifs
  · have h2 : ((rq.accountQueued a).setThread a (·.reactivate now)).AccountedWith [a] :=
      h1.setThread_of_not_mem (h1.not_mem_of_pending (List.mem_singleton_self a)) _
        fun _ ↦ .reactivate _ now
    exact h2.insertReady.setState
      (fun hb ↦ h2.not_mem_of_pending (List.mem_singleton_self a) (List.mem_append_right _ hb)) _
  · exact h1.insertReady.setState
      (fun hb ↦ h1.not_mem_of_pending (List.mem_singleton_self a) (List.mem_append_right _ hb)) _

theorem queueActivelyBlocked (h : rq.AccountedWith []) (ha : a ∉ rq.readyThreads ++ rq.blockedThreads)
    (hblocked : (rq.threads a).state = .blocked) : (rq.queueActivelyBlocked a).AccountedWith [] := by
  unfold RunQueue.queueActivelyBlocked
  split_ifs with hfirm
  · have hperm : (rq.activelyBlocked.insert (rq.blockedKey a)).toList.map Key.addr |>.Perm
        (a :: rq.blockedThreads) :=
      addrs_insert_perm rq.activelyBlocked (rq.blockedKey a)
    have htracked : (rq.readyThreads ++
        (rq.activelyBlocked.insert (rq.blockedKey a)).toList.map Key.addr ++ []).Perm
        (a :: (rq.readyThreads ++ rq.blockedThreads)) := by
      rw [List.append_nil]
      exact (hperm.append_left _).trans List.perm_middle
    refine ⟨h.readySorted,
      sorted_insert_key h.blockedSorted (fun hb ↦ ha (List.mem_append_right _ hb)) rfl,
      h.readyKeys, h.blockedKeys.insert rfl, ?_, fun b hb ↦ ?_, ?_, h.flexible⟩
    · show (rq.readyThreads ++
        (rq.activelyBlocked.insert (rq.blockedKey a)).toList.map Key.addr ++ []).Nodup
      rw [htracked.nodup_iff, List.nodup_cons]
      exact ⟨ha, by simpa using h.nodup⟩
    · rcases List.mem_cons.mp (hperm.subset hb) with rfl | hb
      · exact ⟨hblocked, hfirm⟩
      · exact h.blocked b hb
    · show rq.readyAndActivelyBlockedFirmUtilization + (rq.threads a).firmUtilization =
        rq.sumOf Thread.firmUtilization (rq.readyThreads ++
          (rq.activelyBlocked.insert (rq.blockedKey a)).toList.map Key.addr ++ [])
      rw [sumOf_perm htracked, h.firm, sumOf_cons, List.append_nil]
      ring
  · exact h

theorem ready_nodup (h : rq.AccountedWith p) : rq.readyThreads.Nodup :=
  (List.Nodup.of_append_left h.nodup).of_append_left

theorem not_mem_readyThreads_dequeue (h : rq.AccountedWith p) (ha : a ∈ rq.readyThreads) :
    a ∉ (rq.dequeue a).readyThreads :=
  fun hr ↦ h.ready_nodup.not_mem_erase ((h.readyThreads_dequeue_perm ha).subset hr)

theorem withCurrent (h : rq.AccountedWith p) (current : Option ℕ) :
    { rq with current }.AccountedWith p :=
  ⟨h.readySorted, h.blockedSorted, h.readyKeys, h.blockedKeys, h.nodup, h.blocked, h.firm,
    h.flexible⟩

theorem blockedThreads_queue_subset (h : rq.AccountedWith p) {now : ℤ} {b : ℕ}
    (hb : b ∈ (rq.queue a now).blockedThreads) : b ∈ rq.blockedThreads := by
  obtain ⟨k, hk, rfl⟩ := List.mem_map.mp hb
  rw [queue_activelyBlocked, accountQueued_activelyBlocked] at hk
  split_ifs at hk
  · exact List.mem_map_of_mem (mem_toList_of_mem_erase h.blockedSorted hk)
  · exact List.mem_map_of_mem hk

theorem mem_trees_queue (h : rq.AccountedWith p) {now : ℤ} {b : ℕ}
    (hb : b ∈ (rq.queue a now).readyThreads ++ (rq.queue a now).blockedThreads) :
    b = a ∨ b ∈ rq.readyThreads ++ rq.blockedThreads := by
  rcases List.mem_append.mp hb with hr | hb
  · rcases List.mem_cons.mp (readyThreads_queue_perm.subset hr) with rfl | hr
    · exact .inl rfl
    · exact .inr (List.mem_append_left _ hr)
  · exact .inr (List.mem_append_right _ (h.blockedThreads_queue_subset hb))

theorem time_lt_of_front (h : rq.AccountedWith p) {now : ℤ}
    (hfront : ∀ k ∈ rq.activelyBlocked.front?, now < (rq.threads k.addr).finish) :
    ∀ k ∈ rq.activelyBlocked.toList, now < k.time := by
  intro k hk
  cases hf : rq.activelyBlocked.front? with
  | none =>
    rw [front?_eq_none.mp hf] at hk
    cases hk
  | some m =>
    have hmtime : m.time = (rq.threads m.addr).finish :=
      congrArg Key.time (h.blockedKeys m (mem_toList_of_front? hf))
    calc now < m.time := hmtime ▸ hfront m hf
      _ ≤ k.time := Key.time_le_time (front?_le h.blockedSorted hf k hk)

theorem finish_of_time (h : rq.AccountedWith p) {now : ℤ}
    (hab : ∀ k ∈ rq.activelyBlocked.toList, now < k.time) :
    ∀ b ∈ rq.blockedThreads, now < (rq.threads b).finish :=
  fun _ hb ↦ hab _ (h.blockedKey_mem hb)

end AccountedWith

/-! ### Fields of the operations, continued -/

theorem activelyBlocked_queue {now : ℤ} (ha : a ∉ rq.blockedThreads) :
    (rq.queue a now).activelyBlocked = rq.activelyBlocked := by
  have hab : rq.inActivelyBlockedTree a = false := by simpa [inActivelyBlockedTree] using ha
  simp [queue_activelyBlocked, accountQueued_activelyBlocked, hab]

theorem mem_activelyBlocked_queueActivelyBlocked {k : Key}
    (hk : k ∈ (rq.queueActivelyBlocked a).activelyBlocked.toList) :
    k = rq.blockedKey a ∨ k ∈ rq.activelyBlocked.toList := by
  unfold queueActivelyBlocked at hk
  split_ifs at hk
  · exact mem_toList_insert.mp hk
  · exact .inr hk

/-! ### The search for the next eligible thread stays in the ready tree -/

theorem mem_updatePath {path : Option ℕ} {a n : ℕ} (h : n ∈ rq.updatePath path a) :
    n ∈ path ∨ n = a := by
  cases path with
  | none => exact .inr (Option.mem_some_iff.mp h).symm
  | some p =>
    dsimp only [updatePath] at h
    split_ifs at h
    · exact .inr (Option.mem_some_iff.mp h).symm
    · exact .inl h

theorem updateSubtree_eq (subtree left : WavlTree Key) :
    rq.updateSubtree subtree left = left ∨ rq.updateSubtree subtree left = subtree := by
  unfold updateSubtree
  split_ifs
  · exact .inl rfl
  · exact .inr rfl

theorem searchPath_mem (time : ℤ) : ∀ (t : WavlTree Key) (path : Option ℕ) (subtree : WavlTree Key),
    (∀ n ∈ (rq.searchPath time t path subtree).1, n ∈ path ∨ n ∈ t.toList.map Key.addr) ∧
      (rq.searchPath time t path subtree).2.toList ⊆ subtree.toList ++ t.toList
  | .leaf, _, _ => ⟨fun _ hn ↦ .inl hn, fun _ hk ↦ List.mem_append_left _ hk⟩
  | .node l k j r, path, subtree => by
    unfold searchPath
    split_ifs
    · -- the node starts too late: the search goes left
      obtain ⟨hpath, hsub⟩ := searchPath_mem time l path subtree
      refine ⟨fun n hn ↦ (hpath n hn).imp_right
        fun hn ↦ List.map_subset _ (toList_left_subset l r k j) hn, fun k' hk' ↦ ?_⟩
      rcases List.mem_append.mp (hsub hk') with hk' | hk'
      · exact List.mem_append_left _ hk'
      · exact List.mem_append_right _ (toList_left_subset l r k j hk')
    · -- the node is eligible: the search goes right
      obtain ⟨hpath, hsub⟩ :=
        searchPath_mem time r (rq.updatePath path k.addr) (rq.updateSubtree subtree l)
      refine ⟨fun n hn ↦ ?_, fun k' hk' ↦ ?_⟩
      · rcases hpath n hn with hn | hn
        · rcases mem_updatePath hn with hn | rfl
          · exact .inl hn
          · exact .inr (List.mem_map_of_mem (mem_toList_node_self l r k j))
        · exact .inr (List.map_subset _ (toList_right_subset l r k j) hn)
      · rcases List.mem_append.mp (hsub hk') with hk' | hk'
        · rcases rq.updateSubtree_eq subtree l with heq | heq <;> rw [heq] at hk'
          · exact List.mem_append_right _ (toList_left_subset l r k j hk')
          · exact List.mem_append_left _ hk'
        · exact List.mem_append_right _ (toList_right_subset l r k j hk')

theorem descendToFinish_mem (target : ℤ) :
    ∀ (t : WavlTree Key) {n : ℕ}, n ∈ rq.descendToFinish target t → n ∈ t.toList.map Key.addr
  | .leaf, _, hn => nomatch hn
  | .node l k j r, n, hn => by
    unfold descendToFinish at hn
    split_ifs at hn
    · rw [← Option.mem_some_iff.mp hn]
      exact List.mem_map_of_mem (mem_toList_node_self l r k j)
    · exact List.map_subset _ (toList_left_subset l r k j) (descendToFinish_mem target l hn)
    · exact List.map_subset _ (toList_right_subset l r k j) (descendToFinish_mem target r hn)

theorem findNextEligibleThread_mem {time : ℤ} {n : ℕ} (hn : n ∈ rq.findNextEligibleThread time) :
    n ∈ rq.readyThreads := by
  unfold findNextEligibleThread at hn
  split at hn
  · exact nomatch hn
  · split_ifs at hn
    · exact nomatch hn
    split at hn
    · exact nomatch hn
    · rename_i path subtree hsearch
      obtain ⟨hpath, hsub⟩ := rq.searchPath_mem time rq.ready none .leaf
      rw [hsearch] at hpath hsub
      split_ifs at hn
      · rw [← Option.mem_some_iff.mp hn]
        exact (hpath path rfl).resolve_left fun hp ↦ (nomatch hp)
      · obtain ⟨k, hk, rfl⟩ := List.mem_map.mp (rq.descendToFinish_mem _ subtree hn)
        exact List.mem_map_of_mem (by simpa [toList] using hsub hk)

/-! ### The invariant over the operations -/

namespace Accounted

theorem nodup (h : rq.Accounted) :
    (rq.readyThreads ++ rq.blockedThreads ++ rq.current.toList).Nodup := by
  have hnd := h.trees.nodup
  rw [List.append_nil] at hnd
  cases hc : rq.current with
  | none => simpa using hnd
  | some c =>
    rw [Option.toList_some, (List.perm_append_singleton _ _).nodup_iff, List.nodup_cons]
    exact ⟨h.current c hc, hnd⟩

theorem setThread_of_not_mem (h : rq.Accounted) (ha : a ∉ rq.readyThreads ++ rq.blockedThreads)
    (f : Thread → Thread) : (rq.setThread a f).Accounted :=
  ⟨h.trees.setThread_of_not_mem ha f fun hp ↦ (nomatch hp), h.current⟩

theorem queue (h : rq.Accounted) (ha : a ∉ rq.readyThreads) (hc : rq.current ≠ some a) (now : ℤ) :
    (rq.queue a now).Accounted := by
  refine ⟨h.trees.queue ha now, fun c hc' hmem ↦ ?_⟩
  rw [queue_current] at hc'
  rcases h.trees.mem_trees_queue hmem with rfl | hmem
  · exact hc hc'
  · exact h.current c hc' hmem

theorem dequeue (h : rq.Accounted) (ha : a ∈ rq.readyThreads) : (rq.dequeue a).Accounted := by
  refine ⟨h.trees.dequeue ha, fun c hc hmem ↦ h.current c hc ?_⟩
  rcases List.mem_append.mp hmem with hr | hb
  · exact List.mem_append_left _
      (List.mem_of_mem_erase ((h.trees.readyThreads_dequeue_perm ha).subset hr))
  · exact List.mem_append_right _ hb

theorem dequeueActivelyBlocked (h : rq.Accounted) (ha : a ∈ rq.blockedThreads) :
    (rq.dequeueActivelyBlocked a).Accounted := by
  refine ⟨h.trees.dequeueActivelyBlocked ha, fun c hc hmem ↦ h.current c hc ?_⟩
  rcases List.mem_append.mp hmem with hr | hb
  · exact List.mem_append_left _ hr
  · exact List.mem_append_right _
      (List.mem_of_mem_erase ((h.trees.blockedThreads_dequeueActivelyBlocked_perm ha).subset hb))

/-! ### `SelectNextThread` -/

theorem dropExpiredBlocked (h : rq.Accounted) (now : ℤ) (fuel : ℕ) :
    (rq.dropExpiredBlocked now fuel).Accounted := by
  induction fuel generalizing rq with
  | zero => exact h
  | succ fuel ih =>
    unfold RunQueue.dropExpiredBlocked
    split
    · rename_i m hm
      split_ifs
      · exact ih (h.dequeueActivelyBlocked (List.mem_map_of_mem (mem_toList_of_front? hm)))
      · exact h
    · exact h

theorem dropExpiredBlocked_front (h : rq.Accounted) (now : ℤ) (fuel : ℕ)
    (hfuel : rq.activelyBlocked.toList.length ≤ fuel) :
    ∀ k ∈ (rq.dropExpiredBlocked now fuel).activelyBlocked.front?,
      now < ((rq.dropExpiredBlocked now fuel).threads k.addr).finish := by
  induction fuel generalizing rq with
  | zero =>
    intro k hk
    have hnil : rq.activelyBlocked.toList = [] := List.eq_nil_of_length_eq_zero (by omega)
    change k ∈ rq.activelyBlocked.front? at hk
    rw [front?_eq_none.mpr hnil] at hk
    cases hk
  | succ fuel ih =>
    unfold RunQueue.dropExpiredBlocked
    split
    · rename_i m hm
      split_ifs with hfin
      · -- the front thread leaves the tree, which then holds one thread fewer
        have hmem := mem_toList_of_front? hm
        refine ih (h.dequeueActivelyBlocked (List.mem_map_of_mem hmem)) ?_
        have hkey : rq.blockedKey m.addr = m := (h.trees.blockedKeys m hmem).symm
        have hlen := (toList_erase_perm h.trees.blockedSorted hmem).length_eq
        show (rq.activelyBlocked.erase (rq.blockedKey m.addr)).toList.length ≤ fuel
        rw [hkey]
        rw [List.length_cons] at hlen
        omega
      · intro k hk
        rw [hm, Option.mem_some_iff] at hk
        subst hk
        exact not_le.mp hfin
    · rename_i hnone
      intro k hk
      rw [hnone] at hk
      cases hk

theorem refreshCurrent (h : rq.Accounted) (now : ℤ) :
    (rq.refreshCurrent now).Accounted ∧
      ((∀ k ∈ rq.activelyBlocked.toList, now < k.time) →
        ∀ k ∈ (rq.refreshCurrent now).activelyBlocked.toList, now < k.time) := by
  unfold RunQueue.refreshCurrent
  split
  · exact ⟨h, id⟩
  · rename_i c hc
    have hcn := h.current c hc
    dsimp only
    split_ifs with hblocked hactive
    · -- blocked within its period: tracked as actively blocked
      refine ⟨⟨(h.trees.queueActivelyBlocked hcn hblocked).withCurrent none,
        fun _ hc' ↦ (nomatch hc')⟩,
        fun hab k hk ↦ ?_⟩
      rcases mem_activelyBlocked_queueActivelyBlocked hk with rfl | hk
      · simp only [Thread.isActive, Bool.and_eq_true, decide_eq_true_eq] at hactive
        exact hactive.2
      · exact hab k hk
    · exact ⟨⟨h.trees.withCurrent none, fun _ hc' ↦ (nomatch hc')⟩, id⟩
    · exact ⟨h.setThread_of_not_mem hcn _, id⟩
    · exact ⟨h, id⟩

theorem requeueEnded (h : rq.Accounted) (now : ℤ) (fuel : ℕ) {next : Option ℕ}
    (hnext : ∀ n ∈ next, n ∈ rq.readyThreads) :
    (rq.requeueEnded now fuel next).2.Accounted ∧
      (∀ n ∈ (rq.requeueEnded now fuel next).1, n ∈ (rq.requeueEnded now fuel next).2.readyThreads) ∧
      (rq.requeueEnded now fuel next).2.activelyBlocked = rq.activelyBlocked := by
  induction fuel generalizing rq next with
  | zero => exact ⟨h, hnext, rfl⟩
  | succ fuel ih =>
    unfold RunQueue.requeueEnded
    split
    · rename_i n
      dsimp only
      split_ifs
      · -- the thread's period is over: it is requeued and the search starts again
        have hn := hnext n rfl
        have hc : (rq.dequeue n).current ≠ some n :=
          fun hc ↦ h.current n hc (List.mem_append_left _ hn)
        have h2 := (h.dequeue hn).queue (h.trees.not_mem_readyThreads_dequeue hn) hc now
        obtain ⟨h3, hn3, hab3⟩ := ih h2 fun _ hm ↦ findNextEligibleThread_mem hm
        exact ⟨h3, hn3, hab3.trans (activelyBlocked_queue (h.trees.not_mem_blocked hn))⟩
      · exact ⟨h, hnext, rfl⟩
    · exact ⟨h, fun _ hn ↦ (nomatch hn), rfl⟩

theorem switchTo (h : rq.Accounted) (now : ℤ) {next : Option ℕ}
    (hnext : ∀ n ∈ next, n ∈ rq.readyThreads) :
    (rq.switchTo now next).2.Accounted ∧
      (rq.switchTo now next).2.activelyBlocked = rq.activelyBlocked := by
  unfold RunQueue.switchTo
  dsimp only
  split_ifs
  · exact ⟨h, rfl⟩
  · cases next with
    | none =>
      cases hc : rq.current with
      | none => exact ⟨⟨h.trees.withCurrent none, fun _ hc' ↦ (nomatch hc')⟩, rfl⟩
      | some c =>
        -- `current_` goes back to the ready tree
        have hcn := h.current c hc
        dsimp only
        exact ⟨⟨(h.trees.queue (fun hr ↦ hcn (List.mem_append_left _ hr)) now).withCurrent none,
          fun _ hc' ↦ (nomatch hc')⟩, activelyBlocked_queue fun hb ↦ hcn (List.mem_append_right _ hb)⟩
    | some n =>
      have hn := hnext n rfl
      have hnb := h.trees.not_mem_blocked hn
      have hn1 := h.trees.not_mem_readyThreads_dequeue hn
      have h1 : ((rq.dequeue n).setThread n (·.setState .running)).AccountedWith [] :=
        (h.trees.dequeue hn).setState hnb _
      cases hc : rq.current with
      | none =>
        simp only [setThread_current, dequeue_current, hc]
        refine ⟨⟨h1.withCurrent _, fun n' hn' hmem ↦ ?_⟩, rfl⟩
        obtain rfl := Option.mem_some_iff.mp hn'
        rcases List.mem_append.mp hmem with hr | hb
        · exact hn1 hr
        · exact hnb hb
      | some c =>
        have hcn := h.current c hc
        have hc1 : c ∉ ((rq.dequeue n).setThread n (·.setState .running)).readyThreads :=
          fun hr ↦ hcn (List.mem_append_left _
            (List.mem_of_mem_erase ((h.trees.readyThreads_dequeue_perm hn).subset hr)))
        simp only [setThread_current, dequeue_current, hc]
        refine ⟨⟨(h1.queue hc1 now).withCurrent _, fun n' hn' hmem ↦ ?_⟩,
          activelyBlocked_queue fun hb ↦ hcn (List.mem_append_right _ hb)⟩
        obtain rfl := Option.mem_some_iff.mp hn'
        rcases h1.mem_trees_queue hmem with rfl | hmem
        · exact hcn (List.mem_append_left _ hn)
        · rcases List.mem_append.mp hmem with hr | hb
          · exact hn1 hr
          · exact hnb hb

theorem selectNextThread (h : rq.Accounted) (now : ℤ) :
    (rq.selectNextThread now).2.Accounted ∧
      ∀ k ∈ (rq.selectNextThread now).2.activelyBlocked.toList, now < k.time := by
  have h1 := h.dropExpiredBlocked now rq.activelyBlocked.toList.length
  have hab1 := h1.trees.time_lt_of_front (h.dropExpiredBlocked_front now _ le_rfl)
  obtain ⟨h2, hab2⟩ := h1.refreshCurrent now
  obtain ⟨h3, hn3, hab3⟩ := h2.requeueEnded now
    (((rq.dropExpiredBlocked now rq.activelyBlocked.toList.length).refreshCurrent now).ready.toList.length + 1)
    fun _ hn ↦ findNextEligibleThread_mem hn
  obtain ⟨h4, hab4⟩ := h3.switchTo now hn3
  rw [selectNextThread_snd]
  refine ⟨h4, ?_⟩
  rw [hab4, hab3]
  exact hab2 hab1

end Accounted

/-! ### Runs -/

theorem accounted_empty (threads : ℕ → Thread) : (RunQueue.empty threads).Accounted :=
  ⟨⟨List.Pairwise.nil, List.Pairwise.nil, fun _ hk ↦ (nomatch hk), fun _ hk ↦ (nomatch hk),
    List.nodup_nil, fun _ hb ↦ (nomatch hb), rfl, rfl⟩, fun _ hc ↦ (nomatch hc)⟩

theorem isFresh_iff : rq.isFresh a = true ↔
    rq.current ≠ some a ∧ a ∉ rq.readyThreads ∧ a ∉ rq.blockedThreads := by
  simp [isFresh, isQueued, inActivelyBlockedTree, and_assoc]

end RunQueue

open RunQueue

theorem RunQueue.Accounted.apply {s : SchedState} {op : SchedOp} (h : s.rq.Accounted)
    (hop : op.admissible s = true) : (op.apply s).rq.Accounted := by
  cases op with
  | queueNew a bandwidth start now =>
    simp only [SchedOp.admissible, Bool.and_eq_true, isFresh_iff] at hop
    obtain ⟨⟨-, hc, hr, hb⟩, -⟩ := hop
    have h1 := h.setThread_of_not_mem (fun hmem ↦ (List.mem_append.mp hmem).elim hr hb)
      fun _ ↦ Thread.create bandwidth start
    exact h1.queue hr hc now
  | blockCurrent =>
    cases hc : s.rq.current with
    | none => simpa [SchedOp.apply, hc] using h
    | some c =>
      simp only [SchedOp.apply, hc]
      exact h.setThread_of_not_mem (h.current c hc) _
  | queue a now =>
    simp only [SchedOp.admissible, Bool.and_eq_true, Bool.not_eq_true', isQueued,
      decide_eq_false_iff_not, bne_iff_ne, ne_eq, decide_eq_true_eq] at hop
    exact h.queue hop.1.1 hop.1.2 now
  | dequeue a =>
    simp only [SchedOp.admissible, Bool.and_eq_true, isQueued, decide_eq_true_eq] at hop
    exact h.dequeue hop.1
  | tick elapsed =>
    cases hc : s.rq.current with
    | none => simpa [SchedOp.apply, hc] using h
    | some c =>
      simp only [SchedOp.apply, hc]
      exact h.setThread_of_not_mem (h.current c hc) _
  | select now => exact (h.selectNextThread now).1

theorem SchedReachable.accounted {s : SchedState} (hs : SchedReachable s) : s.rq.Accounted := by
  obtain ⟨threads, clock, hrun⟩ := hs
  induction hrun with
  | refl => exact accounted_empty threads
  | tail _ hstep ih =>
    cases hstep with
    | run op hop => exact ih.apply hop

/-- The bandwidth accounting of a run queue: the sums are the sums over the
trees, no thread is in two of the trees and `current_`, the actively blocked
threads are blocked with firm capacity, every node carries its thread's key,
and after `SelectNextThread(now)` the actively blocked threads are in their
periods. -/
def RunQueue.BandwidthAccounting (rq : RunQueue) : Prop :=
  rq.readyAndActivelyBlockedFirmUtilization =
      rq.sumOf Thread.firmUtilization (rq.readyThreads ++ rq.blockedThreads) ∧
    rq.readyFlexibleDemand = rq.sumOf Thread.flexibleWeight rq.readyThreads ∧
    (rq.readyThreads ++ rq.blockedThreads ++ rq.current.toList).Nodup ∧
    (∀ a ∈ rq.blockedThreads, (rq.threads a).state = .blocked ∧ 0 < (rq.threads a).firmCapacity) ∧
    KeysBy rq.ready rq.readyKey ∧ KeysBy rq.activelyBlocked rq.blockedKey ∧
    ∀ now, ∀ a ∈ (rq.selectNextThread now).2.blockedThreads,
      now < ((rq.selectNextThread now).2.threads a).finish

theorem schedReachable_bandwidthAccounting {s : SchedState} (hs : SchedReachable s) :
    s.rq.BandwidthAccounting := by
  have h := hs.accounted
  have hfirm := h.trees.firm
  have hflexible := h.trees.flexible
  rw [List.append_nil] at hfirm hflexible
  refine ⟨hfirm, hflexible, h.nodup, h.trees.blocked, h.trees.readyKeys, h.trees.blockedKeys,
    fun now ↦ ?_⟩
  obtain ⟨h', hab⟩ := h.selectNextThread now
  exact h'.trees.finish_of_time hab

/-- Two threads, one with firm capacity, run, and the firm one blocks. -/
def blockingCalls : List SchedOp :=
  [.queueNew 1 ⟨10, 2, flexibleWeightOne⟩ 0 0, .queueNew 2 ⟨20, 0, flexibleWeightOne⟩ 3 0,
    .select 1, .blockCurrent, .select 2]

/-- The state after `blockingCalls`. -/
def blockingState : SchedState :=
  (SchedState.run ⟨RunQueue.empty noThreads, 0⟩ blockingCalls).get (by decide +kernel)

theorem blockingState_bandwidthAccounting :
    SchedReachable blockingState ∧ blockingState.rq.BandwidthAccounting := by
  have hrun : SchedState.run ⟨RunQueue.empty noThreads, 0⟩ blockingCalls = some blockingState :=
    (Option.some_get _).symm
  have hs := SchedState.reachable_of_run ⟨noThreads, 0, .refl⟩ hrun
  exact ⟨hs, schedReachable_bandwidthAccounting hs⟩

end Zircon.Sched
