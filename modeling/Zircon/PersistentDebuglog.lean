import Mathlib
import Zircon.Lib.RingBuffer

/-!
# The persistent debug log

A model of `PersistentDebugLog` (`lib/persistent-debuglog`).  A region of
memory that survives a warm reboot holds a `LogHeader` (a magic number and the
read pointer `rd_ptr`) followed by a payload of `P` bytes used as a ring.
`Write` copies the last `P` bytes of a string into the ring at `rd_ptr` and
moves it on.  `SetLocation`, run on the next boot, recovers the newest bytes
of the ring into a static buffer of `capacity` bytes, then resets the region
and installs it.

The region is `LogRegion`: the header's fields, and the payload as a byte
function with byte `i` of the payload at `payload i`.  Alignment is not
modelled: the header is packed, so every address meets its alignment and that
check of `SetLocation` never fails.  A `char` is its byte, a `UInt8`.

The ring holds the last `P` bytes written since the log was installed
(`Keeps`, `Keeps.write`, `Keeps.writeAll`).  The next `SetLocation` recovers
the last `min P capacity` of them, sanitised, provided the start of the
recovery, `(rd_ptr + (P - capacity)) % P`, is computed without `uint32`
overflow (`getRecoveredLog_setLocation`).  That holds for every payload of at
most `2^31` bytes (`warmReboot_eq`).  With a larger payload the sum can wrap
and the recovery then starts at the wrong byte.
-/

namespace Zircon.PersistentDebuglog

open Zircon.Lib

/-- `PersistentDebugLog::LogHeader`, packed into eight bytes. -/
structure LogHeader where
  magic : UInt32
  rdPtr : UInt32
  deriving DecidableEq, Repr

namespace LogHeader

/-- `sizeof(LogHeader)`. -/
def size : ℕ := 8

def kMagic : UInt32 :=
  'P'.toNat.toUInt32 <<< 0 ||| 'l'.toNat.toUInt32 <<< 8 ||| 'o'.toNat.toUInt32 <<< 16 |||
    'g'.toNat.toUInt32 <<< 24

def isMagicValid (hdr : LogHeader) : Bool := hdr.magic == kMagic

end LogHeader

/-- The bytes of the log's region: the header, then byte `i` of the payload at
`payload i`. -/
structure LogRegion where
  hdr : LogHeader
  payload : ℕ → UInt8

/-- A `PersistentDebugLog` object: `plog` (whether a region is installed, and
its payload size) and `recovered_persistent_log_` (its capacity, and its bytes
`data[0, size)` as a list). -/
structure PersistentDebugLog where
  installed : Bool
  payloadSize : UInt32
  capacity : UInt32
  recovered : List UInt8

namespace PersistentDebugLog

/-- A new object with a recovery buffer of `capacity` bytes. -/
def init (capacity : UInt32) : PersistentDebugLog := ⟨false, 0, capacity, []⟩

def getRecoveredLog (log : PersistentDebugLog) : List UInt8 := log.recovered

/-- `isprint` of the kernel's libc, `c >= 0x20 && c < 0x7f`, on the byte of a
`char`: a byte from `0x80` on fails it whether `char` is signed or not. -/
def isprint (c : UInt8) : Bool := 0x20 ≤ c && c < 0x7f

/-- The copy loop of `SetLocation`: `todo` bytes of the old ring from `rd` on,
wrapping at `payloadSize`.  Zero bytes are skipped, and every other byte that
is neither printable nor a newline becomes `'?'`. -/
def recoverLoop (src : ℕ → UInt8) (payloadSize : UInt32) :
    ℕ → UInt32 → List UInt8 → List UInt8
  | 0, _, data => data
  | todo + 1, rd, data =>
    let c := src rd.toNat
    let rd := if rd + 1 ≥ payloadSize then 0 else rd + 1
    if c = 0 then recoverLoop src payloadSize todo rd data
    else
      recoverLoop src payloadSize todo rd
        (data ++ [if isprint c || c == '\n'.toUInt8 then c else '?'.toUInt8])

/-- The recovery block of `SetLocation`, run when the magic number is valid
and `rd_ptr` lies in the payload: the whole ring when the buffer can hold it,
and otherwise its newest `capacity` bytes. -/
def recover (src : ℕ → UInt8) (payloadSize capacity rdPtr : UInt32) : List UInt8 :=
  if payloadSize ≤ capacity then recoverLoop src payloadSize payloadSize.toNat rdPtr []
  else recoverLoop src payloadSize capacity.toNat ((rdPtr + (payloadSize - capacity)) % payloadSize) []

/-- `static_cast<uint32_t>(min<size_t>(UINT32_MAX, len - sizeof(LogHeader)))`. -/
def payloadSizeOf (len : ℕ) : UInt32 := UInt32.ofNat (min (2 ^ 32 - 1) (len - LogHeader.size))

/-- `SetLocation(virt, len)` on a region of `len` bytes. -/
def setLocation (log : PersistentDebugLog) (region : LogRegion) (len : ℕ) :
    PersistentDebugLog × LogRegion :=
  if len ≤ LogHeader.size then (log, region)
  -- a second call is ignored
  else if log.installed then (log, region)
  else
    let payloadSize := payloadSizeOf len
    let recovered :=
      if region.hdr.isMagicValid ∧ region.hdr.rdPtr < payloadSize then
        recover region.payload payloadSize log.capacity region.hdr.rdPtr
      else log.recovered
    -- reset the log, then install it
    ({ log with installed := true, payloadSize, recovered },
      { hdr := ⟨LogHeader.kMagic, 0⟩,
        payload := fun i ↦ if i < payloadSize.toNat then 0 else region.payload i })

/-- `str.copy(payload + dst, count, pos)`: at most `count` bytes of `str` from
`pos` on, copied to `dst`. -/
def copyTo (payload : ℕ → UInt8) (dst : ℕ) (str : List UInt8) (count pos : ℕ) : ℕ → UInt8 :=
  writeAt payload dst ((str.drop pos).take count)

/-- The first block of `Write`: how many bytes to copy (`todo`) and from where
in `str` (`offset`), the last `payloadSize` bytes of a longer string. -/
def writeExtent (payloadSize : UInt32) (str : List UInt8) : UInt32 × ℕ :=
  if str.length > payloadSize.toNat then (payloadSize, str.length - payloadSize.toNat)
  else (UInt32.ofNat str.length, 0)

/-- `Write(str)`: the copy splits at the end of the ring when the bytes to
write do not fit in the `space` left before it. -/
def write (log : PersistentDebugLog) (region : LogRegion) (str : List UInt8) : LogRegion :=
  if ¬log.installed then region
  else
    let (todo, offset) := writeExtent log.payloadSize str
    let rdPtr := region.hdr.rdPtr
    let space := log.payloadSize - rdPtr
    if space > todo then
      { hdr := { region.hdr with rdPtr := rdPtr + todo },
        payload := copyTo region.payload rdPtr.toNat str todo.toNat offset }
    else
      { hdr := { region.hdr with rdPtr := todo - space },
        payload := copyTo (copyTo region.payload rdPtr.toNat str space.toNat offset) 0 str
          (todo - space).toNat (offset + space.toNat) }

/-- `Invalidate()`: the magic number of an installed region is cleared. -/
def invalidate (log : PersistentDebugLog) (region : LogRegion) : LogRegion :=
  if log.installed then { region with hdr := { region.hdr with magic := 0 } } else region

/-! ### What a recovered byte shows -/

/-- The form in which the recovered log shows a byte: nothing for a zero
byte, `'?'` for a byte neither printable nor a newline. -/
def shown (c : UInt8) : Option UInt8 :=
  if c = 0 then none else some (if isprint c || c == '\n'.toUInt8 then c else '?'.toUInt8)

/-- The recovered form of a byte stream: zero bytes deleted, the bytes neither
printable nor a newline replaced by `'?'`. -/
def sanitize (bytes : List UInt8) : List UInt8 := bytes.filterMap shown

/-- The log a warm reboot is meant to recover: the last `min P capacity` bytes
of a ring of `P` zero bytes followed by the strings written, sanitised. -/
def recoveredSpec (P capacity : ℕ) (writes : List (List UInt8)) : List UInt8 :=
  sanitize ((List.replicate P 0 ++ writes.flatten).rtake (min P capacity))

/-- The recovered log after a warm reboot: `SetLocation` on a region of `len`
bytes whatever it held, `Write` of each string of `writes`, then
`SetLocation` on the same bytes in a new object whose recovery buffer holds
`capacity` bytes. -/
def warmReboot (len : ℕ) (capacity₀ capacity : UInt32) (prior : LogRegion)
    (writes : List (List UInt8)) : List UInt8 :=
  let installed := setLocation (init capacity₀) prior len
  (setLocation (init capacity) (writes.foldl (write installed.1) installed.2) len).1.getRecoveredLog

/-! ### `Write` -/

section Write

variable {log : PersistentDebugLog} {region : LogRegion} {str : List UInt8}

theorem toNat_payloadSizeOf (len : ℕ) :
    (payloadSizeOf len).toNat = min (2 ^ 32 - 1) (len - LogHeader.size) := by
  rw [payloadSizeOf, UInt32.toNat_ofNat', Nat.mod_eq_of_lt (by omega)]

/-- `Write` copies the last `payloadSize` bytes of `str`. -/
theorem writeExtent_spec (payloadSize : UInt32) (str : List UInt8) :
    (writeExtent payloadSize str).1.toNat = (str.rtake payloadSize.toNat).length ∧
      str.drop (writeExtent payloadSize str).2 = str.rtake payloadSize.toNat := by
  unfold writeExtent List.rtake
  have hP := UInt32.toNat_lt payloadSize
  by_cases hlong : str.length > payloadSize.toNat
  · rw [if_pos hlong]
    dsimp only
    rw [List.length_drop]
    exact ⟨by omega, rfl⟩
  · have hzero : str.length - payloadSize.toNat = 0 := by omega
    rw [if_neg hlong]
    dsimp only
    rw [List.length_drop, UInt32.toNat_ofNat', Nat.mod_eq_of_lt (by omega), hzero]
    exact ⟨by omega, rfl⟩

/-- What `Write` does to an installed region whose read pointer lies in the
payload: the last `P` bytes of `str` are written round the ring from the read
pointer, which moves past them. -/
theorem write_spec (hinst : log.installed = true) (hrd : region.hdr.rdPtr < log.payloadSize) :
    (write log region str).hdr.magic = region.hdr.magic ∧
      (write log region str).hdr.rdPtr.toNat =
        (region.hdr.rdPtr.toNat + (str.rtake log.payloadSize.toNat).length) % log.payloadSize.toNat ∧
      (write log region str).payload =
        ringWrite region.payload log.payloadSize.toNat region.hdr.rdPtr.toNat
          (str.rtake log.payloadSize.toNat) := by
  obtain ⟨htodo, hoffset⟩ := writeExtent_spec log.payloadSize str
  rcases hE : writeExtent log.payloadSize str with ⟨todo, offset⟩
  rw [hE] at htodo hoffset
  dsimp only at htodo hoffset
  have hw : region.hdr.rdPtr.toNat < log.payloadSize.toNat := UInt32.lt_iff_toNat_lt.mp hrd
  have hP := UInt32.toNat_lt log.payloadSize
  have ht : (str.rtake log.payloadSize.toNat).length ≤ log.payloadSize.toNat := by
    rw [length_rtake]
    exact Nat.min_le_left _ _
  have hspace : (log.payloadSize - region.hdr.rdPtr).toNat =
      log.payloadSize.toNat - region.hdr.rdPtr.toNat :=
    UInt32.toNat_sub_of_le _ _ (UInt32.le_of_lt hrd)
  rw [write, if_neg (by simp [hinst]), hE]
  dsimp only
  split_ifs with hfit <;> dsimp only
  · -- the bytes fit before the end of the ring
    rw [gt_iff_lt, UInt32.lt_iff_toNat_lt, hspace, htodo] at hfit
    refine ⟨rfl, ?_, ?_⟩
    · rw [UInt32.toNat_add, htodo, Nat.mod_eq_of_lt (by omega), Nat.mod_eq_of_lt (by omega)]
    · rw [copyTo, hoffset, htodo, List.take_of_length_le le_rfl, ringWrite_eq_writeAt (by omega)]
  · -- the copy wraps round the end of the ring
    have hle : log.payloadSize - region.hdr.rdPtr ≤ todo := UInt32.not_lt.mp hfit
    have hsub : (todo - (log.payloadSize - region.hdr.rdPtr)).toNat =
        (str.rtake log.payloadSize.toNat).length - (log.payloadSize.toNat - region.hdr.rdPtr.toNat) := by
      rw [UInt32.toNat_sub_of_le _ _ hle, htodo, hspace]
    rw [UInt32.le_iff_toNat_le, hspace, htodo] at hle
    -- the part wrapped to the start of the ring is all that is left of the bytes
    have hrest : ((str.rtake log.payloadSize.toNat).drop (log.payloadSize.toNat - region.hdr.rdPtr.toNat)).take
        ((str.rtake log.payloadSize.toNat).length - (log.payloadSize.toNat - region.hdr.rdPtr.toNat)) =
        (str.rtake log.payloadSize.toNat).drop (log.payloadSize.toNat - region.hdr.rdPtr.toNat) :=
      List.take_of_length_le (by rw [List.length_drop])
    refine ⟨rfl, ?_, ?_⟩
    · rw [hsub, Nat.mod_eq_sub_mod (by omega), Nat.mod_eq_of_lt (by omega)]
      omega
    · rw [copyTo, copyTo, hspace, hoffset, hsub, ← List.drop_drop, hoffset, hrest,
        ringWrite_eq_writeAt_writeAt hw.le ht]

end Write

/-! ### The ring keeps the tail of what was written -/

/-- An installed log whose ring, read from the read pointer, is the last `P`
bytes of `history`. -/
structure Keeps (log : PersistentDebugLog) (region : LogRegion) (history : List UInt8) : Prop where
  installed : log.installed = true
  magic : region.hdr.isMagicValid = true
  rdPtr_lt : region.hdr.rdPtr < log.payloadSize
  ring : ringRead region.payload log.payloadSize.toNat region.hdr.rdPtr.toNat log.payloadSize.toNat =
    history.rtake log.payloadSize.toNat

section Keeps

variable {log : PersistentDebugLog} {region : LogRegion} {history : List UInt8}

theorem keeps_write (hk : Keeps log region history) (str : List UInt8) :
    Keeps log (write log region str) (history ++ str) := by
  obtain ⟨hmagic, hrd, hpayload⟩ := @write_spec log region str hk.installed hk.rdPtr_lt
  have hw : region.hdr.rdPtr.toNat < log.payloadSize.toNat := UInt32.lt_iff_toNat_lt.mp hk.rdPtr_lt
  refine ⟨hk.installed, ?_, ?_, ?_⟩
  · rw [LogHeader.isMagicValid, hmagic]
    exact hk.magic
  · rw [UInt32.lt_iff_toNat_lt, hrd]
    exact Nat.mod_lt _ (by omega)
  · rw [hpayload, hrd, ringRead_mod, ringRead_ringWrite_rtake _ hw, hk.ring, rtake_append_rtake]

/-- The run: after any sequence of `Write`s the ring holds the last `P` bytes
of the history followed by all the strings written, and the read pointer
stays in the payload. -/
theorem keeps_writeAll (hk : Keeps log region history) (writes : List (List UInt8)) :
    Keeps log (writes.foldl (write log) region) (history ++ writes.flatten) := by
  induction writes generalizing region history with
  | nil => rwa [List.foldl_nil, List.flatten_nil, List.append_nil]
  | cons str writes ih =>
    rw [List.foldl_cons, List.flatten_cons, ← List.append_assoc]
    exact ih (keeps_write hk str)

end Keeps

/-! ### `SetLocation` -/

section SetLocation

variable {log : PersistentDebugLog} {region : LogRegion} {len : ℕ}

theorem setLocation_eq (hlen : LogHeader.size < len) (hinst : log.installed = false) :
    setLocation log region len =
      ({ log with
          installed := true, payloadSize := payloadSizeOf len,
          recovered :=
            if region.hdr.isMagicValid ∧ region.hdr.rdPtr < payloadSizeOf len then
              recover region.payload (payloadSizeOf len) log.capacity region.hdr.rdPtr
            else log.recovered },
        { hdr := ⟨LogHeader.kMagic, 0⟩,
          payload := fun i ↦ if i < (payloadSizeOf len).toNat then 0 else region.payload i }) := by
  rw [setLocation, if_neg (by omega), if_neg (by simp [hinst])]

theorem keeps_setLocation (hlen : LogHeader.size < len) (hinst : log.installed = false) :
    Keeps (setLocation log region len).1 (setLocation log region len).2
      (List.replicate (payloadSizeOf len).toNat 0) := by
  have hpos : 0 < (payloadSizeOf len).toNat := by
    rw [toNat_payloadSizeOf]
    exact Nat.lt_min.mpr ⟨by omega, by omega⟩
  rw [setLocation_eq hlen hinst]
  refine ⟨rfl, beq_self_eq_true _, UInt32.lt_iff_toNat_lt.mpr hpos, ?_⟩
  dsimp only
  rw [rtake_of_length_le (by rw [List.length_replicate])]
  apply List.ext_getElem (by rw [length_ringRead, List.length_replicate])
  intro i hi _
  rw [length_ringRead] at hi
  rw [getElem_ringRead, List.getElem_replicate, UInt32.toNat_zero, Nat.zero_add,
    Nat.mod_eq_of_lt hi, if_pos hi]

theorem payloadSize_setLocation (hlen : LogHeader.size < len) (hinst : log.installed = false) :
    (setLocation log region len).1.payloadSize = payloadSizeOf len := by
  rw [setLocation_eq hlen hinst]

end SetLocation

/-! ### Recovery -/

section Recover

variable {src : ℕ → UInt8} {payloadSize capacity rd : UInt32}

theorem toNat_next (hrd : rd < payloadSize) :
    (if rd + 1 ≥ payloadSize then 0 else rd + 1) < payloadSize ∧
      (if rd + 1 ≥ payloadSize then 0 else rd + 1).toNat = (rd.toNat + 1) % payloadSize.toNat := by
  have hlt : rd.toNat < payloadSize.toNat := UInt32.lt_iff_toNat_lt.mp hrd
  have hP := UInt32.toNat_lt payloadSize
  have hsucc : (rd + 1).toNat = rd.toNat + 1 := by
    rw [UInt32.toNat_add, UInt32.toNat_one, Nat.mod_eq_of_lt (by omega)]
  split_ifs with hend
  · -- the last byte of the ring: back to its start
    rw [ge_iff_le, UInt32.le_iff_toNat_le, hsucc] at hend
    rw [UInt32.toNat_zero, show rd.toNat + 1 = payloadSize.toNat by omega, Nat.mod_self]
    exact ⟨UInt32.lt_iff_toNat_lt.mpr (by rw [UInt32.toNat_zero]; omega), rfl⟩
  · rw [ge_iff_le, UInt32.le_iff_toNat_le, hsucc] at hend
    rw [UInt32.lt_iff_toNat_lt, hsucc, Nat.mod_eq_of_lt (by omega)]
    exact ⟨by omega, rfl⟩

/-- The recovery loop appends the sanitised bytes of the ring it reads. -/
theorem recoverLoop_eq (n : ℕ) (hrd : rd < payloadSize) (data : List UInt8) :
    recoverLoop src payloadSize n rd data =
      data ++ sanitize (ringRead src payloadSize.toNat rd.toNat n) := by
  induction n generalizing rd data with
  | zero => rw [recoverLoop, ringRead, List.ofFn_zero, sanitize, List.filterMap_nil, List.append_nil]
  | succ n ih =>
    obtain ⟨hnext, hnextNat⟩ := toNat_next hrd
    rw [recoverLoop, ringRead_succ, Nat.mod_eq_of_lt (UInt32.lt_iff_toNat_lt.mp hrd), ← hnextNat,
      sanitize, List.filterMap_cons, shown]
    by_cases hc : src rd.toNat = 0
    · -- a zero byte is skipped
      rw [if_pos hc, if_pos hc, ih hnext, sanitize]
    · rw [if_neg hc, if_neg hc, ih hnext, sanitize, List.append_assoc, List.singleton_append]

theorem recover_of_le (hfits : payloadSize ≤ capacity) (hrd : rd < payloadSize) :
    recover src payloadSize capacity rd =
      sanitize (ringRead src payloadSize.toNat rd.toNat payloadSize.toNat) := by
  rw [recover, if_pos hfits, recoverLoop_eq _ hrd, List.nil_append]

theorem recover_of_lt (hless : capacity < payloadSize) (hrd : rd < payloadSize) :
    recover src payloadSize capacity rd =
      sanitize (ringRead src payloadSize.toNat
        ((rd.toNat + (payloadSize.toNat - capacity.toNat)) % 2 ^ 32) capacity.toNat) := by
  have hpos : 0 < payloadSize.toNat :=
    Nat.lt_of_le_of_lt (Nat.zero_le _) (UInt32.lt_iff_toNat_lt.mp hrd)
  have hstart : ((rd + (payloadSize - capacity)) % payloadSize).toNat =
      (rd.toNat + (payloadSize.toNat - capacity.toNat)) % 2 ^ 32 % payloadSize.toNat := by
    rw [UInt32.toNat_mod, UInt32.toNat_add, UInt32.toNat_sub_of_le _ _ (UInt32.le_of_lt hless)]
  have hlt : (rd + (payloadSize - capacity)) % payloadSize < payloadSize := by
    rw [UInt32.lt_iff_toNat_lt, hstart]
    exact Nat.mod_lt _ hpos
  rw [recover, if_neg (UInt32.not_le.mpr hless), recoverLoop_eq _ hlt, List.nil_append, hstart,
    ringRead_mod]

theorem recover_eq (hrd : rd < payloadSize)
    (hwrap : payloadSize ≤ capacity ∨ rd.toNat + (payloadSize.toNat - capacity.toNat) < 2 ^ 32) :
    recover src payloadSize capacity rd =
      sanitize ((ringRead src payloadSize.toNat rd.toNat payloadSize.toNat).rtake
        (min payloadSize.toNat capacity.toNat)) := by
  by_cases hfits : payloadSize ≤ capacity
  · -- the whole ring
    rw [recover_of_le hfits hrd, Nat.min_eq_left (UInt32.le_iff_toNat_le.mp hfits),
      rtake_of_length_le (by rw [length_ringRead])]
  · -- the newest `capacity` bytes, from `capacity` before the read pointer on
    have hless : capacity < payloadSize := UInt32.not_le.mp hfits
    have hlessNat : capacity.toNat < payloadSize.toNat := UInt32.lt_iff_toNat_lt.mp hless
    rw [recover_of_lt hless hrd, Nat.mod_eq_of_lt (hwrap.resolve_left hfits),
      Nat.min_eq_right hlessNat.le, rtake_ringRead hlessNat.le]

end Recover

/-! ### A warm reboot -/

section WarmReboot

variable {log : PersistentDebugLog} {region : LogRegion} {history : List UInt8} {len : ℕ}

theorem getRecoveredLog_setLocation_eq_recover (hk : Keeps log region history)
    (hlen : LogHeader.size < len) (hP : log.payloadSize = payloadSizeOf len) (capacity : UInt32) :
    (setLocation (init capacity) region len).1.getRecoveredLog =
      recover region.payload log.payloadSize capacity region.hdr.rdPtr := by
  rw [setLocation_eq hlen rfl, getRecoveredLog]
  dsimp only [init]
  rw [← hP, if_pos ⟨hk.magic, hk.rdPtr_lt⟩]

theorem getRecoveredLog_setLocation (hk : Keeps log region history) (hlen : LogHeader.size < len)
    (hP : log.payloadSize = payloadSizeOf len) (capacity : UInt32)
    (hwrap : log.payloadSize ≤ capacity ∨
      region.hdr.rdPtr.toNat + (log.payloadSize.toNat - capacity.toNat) < 2 ^ 32) :
    (setLocation (init capacity) region len).1.getRecoveredLog =
      sanitize (history.rtake (min log.payloadSize.toNat capacity.toNat)) := by
  rw [getRecoveredLog_setLocation_eq_recover hk hlen hP, recover_eq hk.rdPtr_lt hwrap, hk.ring,
    rtake_rtake (Nat.min_le_left _ _)]

/-- For a payload of at most `2^31` bytes, a warm reboot recovers the last
`min P capacity` bytes of `P` zero bytes followed by everything written,
sanitised. -/
theorem warmReboot_eq (hlen : LogHeader.size < len) (hsmall : len ≤ 2 ^ 31 + LogHeader.size)
    (capacity₀ capacity : UInt32) (prior : LogRegion) (writes : List (List UInt8)) :
    warmReboot len capacity₀ capacity prior writes =
      recoveredSpec (payloadSizeOf len).toNat capacity.toNat writes := by
  have hP : (setLocation (init capacity₀) prior len).1.payloadSize = payloadSizeOf len :=
    payloadSize_setLocation hlen rfl
  have hk₀ : Keeps (setLocation (init capacity₀) prior len).1 (setLocation (init capacity₀) prior len).2
      (List.replicate (payloadSizeOf len).toNat 0) :=
    keeps_setLocation hlen rfl
  have hk := keeps_writeAll hk₀ writes
  have hwrap : (writes.foldl (write (setLocation (init capacity₀) prior len).1)
        (setLocation (init capacity₀) prior len).2).hdr.rdPtr.toNat +
      ((setLocation (init capacity₀) prior len).1.payloadSize.toNat - capacity.toNat) < 2 ^ 32 := by
    have hrd := UInt32.lt_iff_toNat_lt.mp hk.rdPtr_lt
    rw [hP, toNat_payloadSizeOf] at hrd ⊢
    omega
  rw [warmReboot, getRecoveredLog_setLocation hk hlen hP capacity (Or.inr hwrap), recoveredSpec, hP]

theorem warmReboot_eq_sixteenBytes :
    LogHeader.size < 24 ∧ 24 ≤ 2 ^ 31 + LogHeader.size ∧
      warmReboot 24 4 8 ⟨⟨LogHeader.kMagic, 3⟩, fun _ ↦ 0x7A⟩ [[0x61, 0x62], [0x63]] =
        recoveredSpec (payloadSizeOf 24).toNat (8 : UInt32).toNat [[0x61, 0x62], [0x63]] :=
  ⟨by decide, by decide, warmReboot_eq (by decide) (by decide) 4 8 _ _⟩

/-- A payload of `2^32 - 1` bytes and a recovery buffer of one byte.  After
`"ab"` is written the read pointer is `2`, and the start of the recovery,
`(2 + (2^32 - 2)) % (2^32 - 1)`, wraps in `uint32` to `0` before the `%`: the
older byte `'a'` is recovered where the newest, `'b'`, is meant. -/
theorem warmReboot_recovers_older_byte (prior : LogRegion) :
    warmReboot (2 ^ 32 + 7) 1 1 prior [[0x61, 0x62]] = [0x61] ∧
      recoveredSpec (payloadSizeOf (2 ^ 32 + 7)).toNat 1 [[0x61, 0x62]] = [0x62] := by
  have hlen : LogHeader.size < 2 ^ 32 + 7 := by decide
  have hP : (payloadSizeOf (2 ^ 32 + 7)).toNat = 2 ^ 32 - 1 := by
    rw [toNat_payloadSizeOf]
    rfl
  have hk₀ : Keeps (setLocation (init 1) prior (2 ^ 32 + 7)).1 (setLocation (init 1) prior (2 ^ 32 + 7)).2
      (List.replicate (payloadSizeOf (2 ^ 32 + 7)).toNat 0) :=
    keeps_setLocation hlen rfl
  have hsize : (setLocation (init 1) prior (2 ^ 32 + 7)).1.payloadSize = payloadSizeOf (2 ^ 32 + 7) :=
    payloadSize_setLocation hlen rfl
  have hzero : (setLocation (init 1) prior (2 ^ 32 + 7)).2.hdr.rdPtr.toNat = 0 := by
    rw [setLocation_eq hlen rfl]
    rfl
  obtain ⟨-, hrd, hpayload⟩ := @write_spec _ _ [0x61, 0x62] hk₀.installed hk₀.rdPtr_lt
  rw [hsize, hzero, hP] at hrd hpayload
  have hrd2 : (write (setLocation (init 1) prior (2 ^ 32 + 7)).1 (setLocation (init 1) prior (2 ^ 32 + 7)).2
      [0x61, 0x62]).hdr.rdPtr.toNat = 2 := by
    rw [hrd]
    rfl
  have ha : (write (setLocation (init 1) prior (2 ^ 32 + 7)).1 (setLocation (init 1) prior (2 ^ 32 + 7)).2
      [0x61, 0x62]).payload 0 = 0x61 := by
    rw [hpayload, ringWrite_of_start_le (by decide) le_rfl]
    rfl
  constructor
  · -- the recovery starts at `(2 + (2^32 - 2)) % 2^32 = 0`
    rw [warmReboot, List.foldl_cons, List.foldl_nil,
      getRecoveredLog_setLocation_eq_recover (keeps_write hk₀ _) hlen hsize,
      recover_of_lt (by rw [hsize]; decide) (keeps_write hk₀ _).rdPtr_lt, hrd2, hsize, hP,
      show (2 + (2 ^ 32 - 1 - UInt32.toNat 1)) % 2 ^ 32 = 0 from rfl, UInt32.toNat_one, ringRead_succ,
      Nat.zero_mod, ha]
    rfl
  · rw [recoveredSpec, hP, show min (2 ^ 32 - 1) 1 = 1 from rfl,
      rtake_append_of_le_length (by decide)]
    decide

end WarmReboot

end PersistentDebugLog

end Zircon.PersistentDebuglog
