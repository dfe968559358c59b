import Zircon.BootOptions.SetMany

/-!
# The boot options of an x86-64 kernel

The table is that of `options.inc`, in its order, followed by `x86.inc`, which
an x86-64 kernel includes there; test-only options are not built into a
kernel.  Each entry keeps the option's name, type and default from its
`DEFINE_OPTION`.  `kernel.serial` is of the uart library's `Config<>`, whose
source is not in this tree: its `Match` and the text its default configuration
prints are parameters of the table.

`setMany_entropyMixin_after_hex` runs `SetMany` on two command lines
whose last occurrence of `kernel.entropy-mixin` is the same, for every such
serial library, and finds different values.
-/

namespace Zircon.Boot

/-- A `SmallString` initialised from a string literal: its characters, then
NUL. -/
def SmallString.ofString (s : List Char) : SmallString where
  chars i := if i < kSmallStringSize - 1 then s.getD i '\x00' else '\x00'
  back_nul := if_neg (Nat.lt_irrefl _)

/-- A `RedactedHex` initialised with `{}`: no digits. -/
def RedactedHex.empty : RedactedHex := ⟨fun _ ↦ '\x00', 0⟩

/-- The names of `OomBehavior`, in the order of its cases. -/
def oomBehaviorNames : List (List Char) :=
  ["reboot", "jobkill"].map String.toList

/-- The names of `PageTableEvictionPolicy`, in the order of its cases. -/
def pageTableEvictionPolicyNames : List (List Char) :=
  ["always", "never", "on_request"].map String.toList

/-- The names of `EntropyTestSource`, in the order of its cases. -/
def entropyTestSourceNames : List (List Char) :=
  ["hw_rng", "jitterentropy"].map String.toList

/-- The names of `SerialDebugSyscalls`, in the order of its cases. -/
def serialDebugSyscallsNames : List (List Char) :=
  ["false", "true", "output-only"].map String.toList

/-- The names of `RootJobBehavior`, in the order of its cases. -/
def rootJobBehaviorNames : List (List Char) :=
  ["halt", "reboot", "bootloader", "recovery", "shutdown"].map String.toList

/-- The names of `WallclockType`, in the order of its cases. -/
def wallclockTypeNames : List (List Char) :=
  ["auto", "tsc", "pit", "hpet"].map String.toList

/-- The names of `ScannerLruAction`, in the order of its cases. -/
def scannerLruActionNames : List (List Char) :=
  ["none", "evict_only", "compress_only", "evict_and_compress"].map String.toList

/-- The names of `CompressionStrategy`, in the order of its cases. -/
def compressionStrategyNames : List (List Char) :=
  ["none", "lz4"].map String.toList

/-- The names of `CompressionStorageStrategy`, in the order of its cases. -/
def compressionStorageStrategyNames : List (List Char) :=
  ["none", "slot"].map String.toList

/-- The names of `CheckFailAction`, in the order of its cases. -/
def checkFailActionNames : List (List Char) :=
  ["oops", "panic"].map String.toList

/-- The names of `CheckerEnable`, in the order of its cases. -/
def checkerEnableNames : List (List Char) :=
  ["true", "false", "auto"].map String.toList

/-- The names of `IntelHwpPolicy`, in the order of its cases. -/
def intelHwpPolicyNames : List (List Char) :=
  ["bios-specified", "performance", "balanced", "power-save", "stable-performance"].map String.toList

/-- The options `options.inc` defines before `kernel.serial`. -/
def optionsBeforeSerial : List OptionDecl := [
  ⟨"aslr.disable".toList, .bool, false⟩,
  ⟨"aslr.entropy_bits".toList, .uint8, (30 : UInt8)⟩,
  ⟨"kernel.cprng-reseed-require.hw-rng".toList, .bool, false⟩,
  ⟨"kernel.cprng-reseed-require.jitterentropy".toList, .bool, false⟩,
  ⟨"kernel.cprng-seed-require.hw-rng".toList, .bool, false⟩,
  ⟨"kernel.cprng-disable.jitterentropy".toList, .bool, false⟩,
  ⟨"kernel.cprng-disable.hw-rng".toList, .bool, false⟩,
  ⟨"kernel.cprng-seed-require.jitterentropy".toList, .bool, false⟩,
  ⟨"kernel.cprng-seed-require.cmdline".toList, .bool, false⟩,
  ⟨"kernel.entropy-mixin".toList, .redactedHex, RedactedHex.empty⟩,
  ⟨"kernel.jitterentropy.bs".toList, .uint32, (64 : UInt32)⟩,
  ⟨"kernel.jitterentropy.bc".toList, .uint32, (512 : UInt32)⟩,
  ⟨"kernel.jitterentropy.ml".toList, .uint32, (32 : UInt32)⟩,
  ⟨"kernel.jitterentropy.ll".toList, .uint32, (1 : UInt32)⟩,
  ⟨"kernel.jitterentropy.raw".toList, .bool, true⟩,
  ⟨"kernel.lockup-detector.critical-section-threshold-ms".toList, .uint64, (3000 : UInt64)⟩,
  ⟨"kernel.lockup-detector.critical-section-fatal-threshold-ms".toList, .uint64, (10000 : UInt64)⟩,
  ⟨"kernel.lockup-detector.heartbeat-period-ms".toList, .uint64, (1000 : UInt64)⟩,
  ⟨"kernel.lockup-detector.heartbeat-age-threshold-ms".toList, .uint64, (3000 : UInt64)⟩,
  ⟨"kernel.lockup-detector.heartbeat-age-fatal-threshold-ms".toList, .uint64, (10000 : UInt64)⟩,
  ⟨"kernel.lockup-detector.diagnostic-query-timeout-ms".toList, .uint64, (100 : UInt64)⟩,
  ⟨"kernel.oom.behavior".toList, .enum oomBehaviorNames, ⟨0, by decide⟩⟩,
  ⟨"kernel.oom.reboot-timeout-ms".toList, .uint32, (50000 : UInt32)⟩,
  ⟨"kernel.mexec-force-high-ramdisk".toList, .bool, false⟩,
  ⟨"kernel.mexec-pci-shutdown".toList, .bool, true⟩,
  ⟨"kernel.oom.enable".toList, .bool, true⟩,
  ⟨"kernel.oom.outofmemory-mb".toList, .uint64, (50 : UInt64)⟩,
  ⟨"kernel.oom.critical-mb".toList, .uint64, (150 : UInt64)⟩,
  ⟨"kernel.oom.warning-mb".toList, .uint64, (300 : UInt64)⟩,
  ⟨"kernel.oom.debounce-mb".toList, .uint64, (1 : UInt64)⟩,
  ⟨"kernel.oom.evict-at-warning".toList, .bool, false⟩,
  ⟨"kernel.oom.evict-continuous".toList, .bool, false⟩,
  ⟨"kernel.oom.eviction-delay-ms".toList, .uint64, (5000 : UInt64)⟩,
  ⟨"kernel.oom.evict-with-min-target".toList, .bool, true⟩,
  ⟨"kernel.oom.eviction-delta-at-oom-mb".toList, .uint64, (10 : UInt64)⟩,
  ⟨"kernel.oom.hysteresis-seconds".toList, .uint64, (10 : UInt64)⟩,
  ⟨"kernel.oom.imminent-oom-delta-mb".toList, .uint64, (10 : UInt64)⟩,
  ⟨"kernel.oom.trigger-on-alloc-failure".toList, .bool, true⟩,
  ⟨"kernel.phys.next".toList, .smallString, SmallString.ofString "physboot".toList⟩,
  ⟨"kernel.phys.verbose".toList, .bool, true⟩,
  ⟨"kernel.phys.backtrace-max".toList, .uint32, (64 : UInt32)⟩,
  ⟨"kernel.phys.print-stack-max".toList, .uint32, (1024 : UInt32)⟩,
  ⟨"kernel.ppb.borrow-on-mru".toList, .bool, false⟩,
  ⟨"kernel.ppb.loan".toList, .bool, false⟩,
  ⟨"kernel.ppb.replace-on-unloan".toList, .bool, false⟩,
  ⟨"kernel.render-dlog-to-crashlog".toList, .bool, false⟩
]

/-- The options after `kernel.serial`: the rest of `options.inc`, then `x86.inc`. -/
def optionsAfterSerial : List OptionDecl := [
  ⟨"kernel.vdso.always_use_next".toList, .bool, false⟩,
  ⟨"vdso.ticks_get_force_syscall".toList, .bool, false⟩,
  ⟨"vdso.clock_get_force_syscall".toList, .bool, false⟩,
  ⟨"kernel.userpager.overtime_wait_seconds".toList, .uint64, (20 : UInt64)⟩,
  ⟨"kernel.userpager.overtime_timeout_seconds".toList, .uint64, (300 : UInt64)⟩,
  ⟨"kernel.userpager.overtime_printout_limit".toList, .uint32, (4 : UInt32)⟩,
  ⟨"kernel.heap-max-size-mb".toList, .uint64, (2048 : UInt64)⟩,
  ⟨"kernel.heap.alloc_fill_threshold".toList, .uint64, (0 : UInt64)⟩,
  ⟨"kernel.bufferchain.reserve-pages".toList, .uint64, (32 : UInt64)⟩,
  ⟨"kernel.bypass-debuglog".toList, .bool, false⟩,
  ⟨"kernel.debug_uart_poll".toList, .bool, false⟩,
  ⟨"kernel.enable-debugging-syscalls".toList, .bool, false⟩,
  ⟨"kernel.enable-serial-syscalls".toList, .enum serialDebugSyscallsNames, ⟨0, by decide⟩⟩,
  ⟨"kernel.entropy-test.src".toList, .enum entropyTestSourceNames, ⟨0, by decide⟩⟩,
  ⟨"kernel.entropy-test.len".toList, .uint64, (1048576 : UInt64)⟩,
  ⟨"kernel.force-watchdog-disabled".toList, .bool, false⟩,
  ⟨"kernel.halt-on-panic".toList, .bool, false⟩,
  ⟨"ktrace.bufsize".toList, .uint32, (32 : UInt32)⟩,
  ⟨"ktrace.grpmask".toList, .uint32, (0 : UInt32)⟩,
  ⟨"kernel.memory-limit-dbg".toList, .bool, true⟩,
  ⟨"kernel.memory-limit-mb".toList, .uint64, (0 : UInt64)⟩,
  ⟨"kernel.page-scanner.enable-eviction".toList, .bool, true⟩,
  ⟨"kernel.page-scanner.page-table-eviction-policy".toList, .enum pageTableEvictionPolicyNames, ⟨0, by decide⟩⟩,
  ⟨"kernel.page-scanner.page-table-eviction-period-ms".toList, .uint32, (10000 : UInt32)⟩,
  ⟨"kernel.page-scanner.min-aging-interval-ms".toList, .uint32, (2000 : UInt32)⟩,
  ⟨"kernel.page-scanner.max-aging-interval-ms".toList, .uint32, (15000 : UInt32)⟩,
  ⟨"kernel.page-scanner.accessed-scan-interval-ms".toList, .uint32, (3000 : UInt32)⟩,
  ⟨"kernel.page-scanner.active-ratio-multiplier".toList, .uint32, (2 : UInt32)⟩,
  ⟨"kernel.page-scanner.start-at-boot".toList, .bool, true⟩,
  ⟨"kernel.page-scanner.zero-page-scans-per-second".toList, .uint64, (20000 : UInt64)⟩,
  ⟨"kernel.page-scanner.lru-action".toList, .enum scannerLruActionNames, ⟨0, by decide⟩⟩,
  ⟨"kernel.compression.random-debug-compress".toList, .bool, false⟩,
  ⟨"kernel.compression.strategy".toList, .enum compressionStrategyNames, ⟨0, by decide⟩⟩,
  ⟨"kernel.compression.storage-strategy".toList, .enum compressionStorageStrategyNames, ⟨0, by decide⟩⟩,
  ⟨"kernel.compression.threshold".toList, .uint32, (70 : UInt32)⟩,
  ⟨"kernel.compression.lz4.acceleration".toList, .uint32, (11 : UInt32)⟩,
  ⟨"kernel.compression.at_memory_pressure".toList, .bool, false⟩,
  ⟨"kernel.compression.reclaim_anonymous".toList, .bool, false⟩,
  ⟨"kernel.compression.reclaim_zero_forks".toList, .bool, false⟩,
  ⟨"kernel.pmm-checker.action".toList, .enum checkFailActionNames, ⟨0, by decide⟩⟩,
  ⟨"kernel.pmm-checker.enable".toList, .enum checkerEnableNames, ⟨1, by decide⟩⟩,
  ⟨"kernel.pmm-checker.fill-size".toList, .uint64, (4096 : UInt64)⟩,
  ⟨"kernel.pmm.alloc-random-should-wait".toList, .bool, false⟩,
  ⟨"kernel.stack.canary-percent-free".toList, .uint64, (0 : UInt64)⟩,
  ⟨"kernel.portobserver.reserve-pages".toList, .uint64, (8 : UInt64)⟩,
  ⟨"kernel.portpacket.reserve-pages".toList, .uint64, (1 : UInt64)⟩,
  ⟨"kernel.root-job.behavior".toList, .enum rootJobBehaviorNames, ⟨1, by decide⟩⟩,
  ⟨"kernel.root-job.notice".toList, .smallString, SmallString.ofString "".toList⟩,
  ⟨"kernel.shell".toList, .bool, false⟩,
  ⟨"kernel.shell.script".toList, .smallString, SmallString.ofString "".toList⟩,
  ⟨"kernel.smp.ht".toList, .bool, true⟩,
  ⟨"kernel.test.ram.reserve".toList, .ramReservation, none⟩,
  ⟨"kernel.port.max-observers".toList, .uint64, (50000 : UInt64)⟩,
  ⟨"kernel.select".toList, .smallString, SmallString.ofString "zircon".toList⟩,
  ⟨"kernel.select.userboot".toList, .smallString, SmallString.ofString "userboot".toList⟩,
  ⟨"kernel.scheduler.prefer-little-cpus".toList, .bool, false⟩,
  ⟨"kernel.scheduler.enable-new-wakeup-accounting".toList, .bool, false⟩,
  ⟨"kernel.ubsan.action".toList, .enum checkFailActionNames, ⟨1, by decide⟩⟩,
  ⟨"kernel.x86.disable_spec_mitigations".toList, .bool, false⟩,
  ⟨"kernel.x86.hwp".toList, .bool, true⟩,
  ⟨"kernel.x86.hwp_policy".toList, .enum intelHwpPolicyNames, ⟨0, by decide⟩⟩,
  ⟨"kernel.x86.md_clear_on_user_return".toList, .bool, true⟩,
  ⟨"kernel.x86.spec_store_bypass_disable".toList, .bool, false⟩,
  ⟨"kernel.x86.turbo".toList, .bool, true⟩,
  ⟨"kernel.x86.enable_pcid".toList, .bool, true⟩,
  ⟨"kernel.smp.maxcpus".toList, .uint32, (32 : UInt32)⟩,
  ⟨"kernel.wallclock".toList, .enum wallclockTypeNames, ⟨0, by decide⟩⟩
]

/-- `kernel.serial`, whose default is the text the library's default
configuration prints. -/
def serialOption (matchConfig : List Char → Option (List Char)) (serialDefault : List Char) :
    OptionDecl :=
  ⟨"kernel.serial".toList, .uart matchConfig, serialDefault⟩

/-- The boot options of an x86-64 kernel. -/
def kernelOptions (matchConfig : List Char → Option (List Char)) (serialDefault : List Char) :
    List OptionDecl :=
  optionsBeforeSerial ++ serialOption matchConfig serialDefault :: optionsAfterSerial

section Kernel

variable {matchConfig : List Char → Option (List Char)} {serialDefault : List Char}

theorem length_kernelOptions : (kernelOptions matchConfig serialDefault).length = 114 := rfl

/-- `kernel.entropy-mixin`, the kernel's one `RedactedHex` option. -/
def entropyMixin : Fin (kernelOptions matchConfig serialDefault).length :=
  ⟨9, by rw [length_kernelOptions]; decide⟩

theorem findOption_entropyMixin :
    BootOptions.findOption (kernelOptions matchConfig serialDefault) "kernel.entropy-mixin".toList =
      some entropyMixin := by
  rfl

/-- What `SetMany` leaves in `kernel.entropy-mixin` is not given by the option's
last occurrence: after hex digits, an occurrence of other text keeps them,
where on its own it leaves the option empty. -/
theorem setMany_entropyMixin_after_hex :
    RedactedHex.view (((BootOptions.defaults (kernelOptions matchConfig serialDefault)).setMany
        "kernel.entropy-mixin=ab kernel.entropy-mixin=zz".toList).member entropyMixin) =
      "ab".toList ∧
    RedactedHex.view (((BootOptions.defaults (kernelOptions matchConfig serialDefault)).setMany
        "kernel.entropy-mixin=zz".toList).member entropyMixin) = [] := by
  have hkey : '=' ∉ "kernel.entropy-mixin".toList := by decide
  have hword : ∀ v : List Char, v.all (isSpace · == false) →
      "kernel.entropy-mixin".toList ++ '=' :: v ≠ [] ∧
        ∀ c ∈ "kernel.entropy-mixin".toList ++ '=' :: v, isSpace c = false := by
    intro v hv
    refine ⟨by simp, fun c hc ↦ ?_⟩
    rcases List.mem_append.mp hc with hc | hc
    · exact (by simp [isSpace] : ∀ c ∈ "kernel.entropy-mixin".toList, isSpace c = false) c hc
    rcases List.mem_cons.mp hc with rfl | hc
    · decide
    · simpa using List.all_eq_true.mp hv c hc
  obtain ⟨hab, hab_sep⟩ := hword "ab".toList (by decide)
  obtain ⟨hzz, hzz_sep⟩ := hword "zz".toList (by decide)
  have hline : "kernel.entropy-mixin=ab kernel.entropy-mixin=zz".toList =
      ("kernel.entropy-mixin".toList ++ '=' :: "ab".toList) ++
        ' ' :: ("kernel.entropy-mixin".toList ++ '=' :: "zz".toList) := by
    decide
  have hlast : "kernel.entropy-mixin=zz".toList =
      "kernel.entropy-mixin".toList ++ '=' :: "zz".toList := by
    decide
  rw [hline, hlast, BootOptions.setMany_append_sep hab hab_sep (by decide),
    BootOptions.setMany_word hzz hzz_sep, BootOptions.setMany_word hzz hzz_sep,
    BootOptions.parseWord_of_findOption hkey findOption_entropyMixin,
    BootOptions.parseWord_of_findOption hkey findOption_entropyMixin,
    BootOptions.parseWord_of_findOption hkey findOption_entropyMixin]
  simp only [Function.update_self]
  exact ⟨rfl, rfl⟩

theorem setMany_entropyMixin_keeps_earlier :
    RedactedHex.view (((BootOptions.defaults (kernelOptions (fun _ ↦ none) [])).setMany
        "kernel.entropy-mixin=ab kernel.entropy-mixin=zz".toList).member entropyMixin) =
      "ab".toList ∧
    RedactedHex.view (((BootOptions.defaults (kernelOptions (fun _ ↦ none) [])).setMany
        "kernel.entropy-mixin=zz".toList).member entropyMixin) = [] :=
  setMany_entropyMixin_after_hex

/-! ### The table is well formed -/

/-- The names of the kernel's options, in the table's order. -/
def kernelOptionNames : List (List Char) :=
  optionsBeforeSerial.map (·.name) ++ "kernel.serial".toList :: optionsAfterSerial.map (·.name)

theorem map_name_kernelOptions : (kernelOptions matchConfig serialDefault).map (·.name) = kernelOptionNames := by
  rw [kernelOptions, List.map_append, List.map_cons]
  rfl

/-- A name read as the digits, in base `0x110000`, of its characters: distinct
codes mean distinct names, and codes compare fast. -/
def nameCode (name : List Char) : ℕ := name.foldl (fun acc c ↦ acc * 0x110000 + c.toNat) 0

theorem kernelOptionNames_check :
    (kernelOptionNames.map nameCode).Nodup ∧
      kernelOptionNames.all (fun name ↦ name.all fun c ↦ c != '=' && !isSpace c) = true := by
  decide +kernel

theorem kinds_optionsBeforeSerial : ∀ d ∈ optionsBeforeSerial, d.kind.WellFormed := by
  decide +kernel

theorem kinds_optionsAfterSerial : ∀ d ∈ optionsAfterSerial, d.kind.WellFormed := by
  decide +kernel

theorem kernelOptions_wellFormed : TableWellFormed (kernelOptions matchConfig serialDefault) := by
  have hname : ∀ d ∈ kernelOptions matchConfig serialDefault,
      d.name.all (fun c ↦ c != '=' && !isSpace c) = true := by
    intro d hd
    have hmem : d.name ∈ kernelOptionNames := by
      rw [← @map_name_kernelOptions matchConfig serialDefault]
      exact List.mem_map_of_mem hd
    exact List.all_eq_true.mp kernelOptionNames_check.2 _ hmem
  refine ⟨by rw [map_name_kernelOptions]; exact List.Nodup.of_map nameCode kernelOptionNames_check.1,
    fun d hd heq ↦ ?_,
    fun d hd c hc ↦ ?_, fun d hd ↦ ?_⟩
  · have := List.all_eq_true.mp (hname d hd) '=' heq
    simp at this
  · have := List.all_eq_true.mp (hname d hd) c hc
    simp only [Bool.and_eq_true, bne_iff_ne, ne_eq, Bool.not_eq_eq_eq_not, Bool.not_true] at this
    exact this.2
  · rcases List.mem_append.mp hd with hd | hd
    · exact kinds_optionsBeforeSerial d hd
    rcases List.mem_cons.mp hd with rfl | hd
    · trivial
    · exact kinds_optionsAfterSerial d hd

/-- The kernel's boot options round-trip through their printed form: from the
defaults, `SetMany` of what `Show` printed gives back every option but the
serial console, for a state whose strings hold no separator and whose
`RedactedHex` is empty.  On any command line and from any state, `SetMany`
sets each option by the values of the words naming it, in order, each from
the member before it, and ignores other words: an option no word names is left
as it was; one of any kind but `RedactedHex` holds what `Parse` makes of its
last occurrence, or its default where that fails; `kernel.entropy-mixin`,
whose `Parse` keeps its digits on a text that is not hex, holds the digits of
its last occurrence of hex digits, or those it held. -/
theorem kernelOptions_setMany_spec :
    (∀ o : BootOptions (kernelOptions matchConfig serialDefault),
      (∀ i : Fin (kernelOptions matchConfig serialDefault).length,
        (kernelOptions matchConfig serialDefault)[i].kind.Printable (o.member i)) →
      ∀ i : Fin (kernelOptions matchConfig serialDefault).length,
        ¬(kernelOptions matchConfig serialDefault)[i].kind.IsUart →
        (kernelOptions matchConfig serialDefault)[i].kind.Same
          (((BootOptions.defaults _).setMany o.showAll).member i) (o.member i)) ∧
    (∀ (o : BootOptions (kernelOptions matchConfig serialDefault)) cmdline
      (i : Fin (kernelOptions matchConfig serialDefault).length), (o.setMany cmdline).member i =
        (BootOptions.occurrences _ i (BootOptions.words cmdline)).foldl (BootOptions.setValue i) (o.member i)) ∧
    (∀ (o : BootOptions (kernelOptions matchConfig serialDefault)) cmdline
      (i : Fin (kernelOptions matchConfig serialDefault).length),
      (kernelOptions matchConfig serialDefault)[i].kind ≠ .redactedHex →
      ∀ vs v, BootOptions.occurrences _ i (BootOptions.words cmdline) = vs ++ [v] →
        (kernelOptions matchConfig serialDefault)[i].kind.Same ((o.setMany cmdline).member i)
          (BootOptions.setValue i (o.member i) v)) ∧
    ∀ (o : BootOptions (kernelOptions matchConfig serialDefault)) cmdline,
      RedactedHex.view ((o.setMany cmdline).member entropyMixin) =
        ((((BootOptions.occurrences (kernelOptions matchConfig serialDefault) entropyMixin
          (BootOptions.words cmdline)).filter
          (·.all isxdigit)).getLast?.map (·.take kSmallStringSize)).getD
          (RedactedHex.view (o.member entropyMixin))) := by
  refine ⟨fun o ho i hi ↦ BootOptions.setMany_showAll kernelOptions_wellFormed o ho i hi,
    BootOptions.setMany_member, fun o cmdline i hk _ _ hocc ↦ BootOptions.setMany_last o cmdline i hk hocc,
    fun o cmdline ↦ ?_⟩
  rw [BootOptions.setMany_member]
  exact RedactedHex.view_foldl_parse _ _

end Kernel

end Zircon.Boot
