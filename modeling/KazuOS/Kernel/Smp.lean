import KazuOS.Kernel.Ports
import KazuOS.Lib.Bytes

/-! The CPUs of the machine. The firmware's table lists them by APIC id, in any order and number.
The kernel numbers them by their place in the list, and takes the first for the one it was booted
on. -/
namespace KazuOS.Kernel

open KazuOS.Lib KazuOS.Task

def apStackSize : Nat := 32768

/-- A little-endian number in physical memory. -/
def readPhys (mem : Nat → UInt8) (addr width : Nat) : Nat :=
  ofLeBytes ((List.range width).map fun i => mem (addr + i))

/-- The id of an enabled local APIC, if the entry at `ptr` is one. -/
def enabledLapic (mem : Nat → UInt8) (ptr : Nat) : Option UInt8 :=
  if mem ptr = 0 ∧ 8 ≤ (mem (ptr + 1)).toNat ∧ readPhys mem (ptr + 4) 4 % 2 ≠ 0 then
    some (mem (ptr + 3))
  else none

/-- The loop over the entries. Each has its length in its second byte. -/
def scanLapicIds (mem : Nat → UInt8) (dataEnd : Nat) : Nat → Nat → List UInt8
  | 0, _ => []
  | fuel + 1, ptr =>
      if ptr + 2 ≤ dataEnd then
        if mem (ptr + 1) = 0 then []
        else (enabledLapic mem ptr).toList ++
          scanLapicIds mem dataEnd fuel (ptr + (mem (ptr + 1)).toNat)
      else []

def madtSize : Nat := 44

/-- Every entry is a byte long at least, so there are not more of them than bytes. -/
def parseCpuLapicIds (mem : Nat → UInt8) (madtPhys : Nat) : List UInt8 :=
  let headerLength := readPhys mem (madtPhys + 4) 4
  scanLapicIds mem (madtPhys + headerLength) headerLength (madtPhys + madtSize)

structure CpuData where
  cpuIndex : Nat
  apicId : UInt8
  isBsp : Bool
  currentTid : Nat
  idle : Bool
  deriving DecidableEq, Repr

structure Cpus where
  cpuCount : Nat
  bspApicId : UInt8
  apicIds : List UInt8
  cpuData : List CpuData
  deriving DecidableEq, Repr

/-- Before the CPUs are looked for. -/
def Cpus.initial : Cpus := ⟨1, 0, [], List.replicate maxCpus ⟨0, 0, false, 0, false⟩⟩

/-- What the walk from the RSDP comes to. -/
inductive Firmware where
  | noRsdp
  | noMadt
  | madt (phys : Nat)
  deriving DecidableEq, Repr

/-- The loop that fills CPU_DATA. An index beyond the array panics. -/
def fillCpuData (bsp : UInt8) : List CpuData → Nat → List UInt8 → Option (List CpuData)
  | data, _, [] => some data
  | data, i, id :: rest =>
      if i < data.length then
        fillCpuData bsp (data.set i ⟨i, id, id = bsp, 0, id ≠ bsp⟩) (i + 1) rest
      else none

def detectCpus (cpus : Cpus) (mem : Nat → UInt8) : Firmware → Option Cpus
  | .noRsdp => some { cpus with cpuCount := 1, bspApicId := 0, apicIds := [0] }
  | .noMadt => some { cpus with apicIds := [0] }
  | .madt phys => do
      let ids := parseCpuLapicIds mem phys
      let bspApicId := ids.head?.getD cpus.bspApicId
      let cpuData ← fillCpuData bspApicId cpus.cpuData 0 ids
      some { cpuCount := max ids.length 1, bspApicId, apicIds := ids, cpuData }

def Cpus.apicIdToCpuIndex (cpus : Cpus) (apicId : UInt8) : Option Nat :=
  cpus.apicIds.findIdx? (· = apicId)

/-- The end of a stack of the array AP_STACKS at `base`. An index beyond the array panics. -/
def apStackTop (base i : Nat) : Option Nat :=
  if i < maxCpus - 1 then some (base + i * apStackSize + apStackSize) else none

def cpuKernelStackTop (base cpuIndex : Nat) : Option Nat :=
  if cpuIndex = 0 ∨ maxCpus ≤ cpuIndex then none else apStackTop base (cpuIndex - 1)

/-- The loop of `start_aps_inner` from index `i` on: the APs that are started, with their stacks.
The index of the stack wraps below zero. -/
def startApsFrom (base : Nat) (bsp : UInt8) : Nat → List UInt8 → Option (List (UInt8 × Nat))
  | _, [] => some []
  | i, id :: rest =>
      if id = bsp then startApsFrom base bsp (i + 1) rest
      else
        let apIndex := (i + 2 ^ 64 - 1) % 2 ^ 64
        if maxCpus - 1 ≤ apIndex then startApsFrom base bsp (i + 1) rest
        else do
          let stackTop ← apStackTop base apIndex
          let started ← startApsFrom base bsp (i + 1) rest
          some ((id, stackTop) :: started)

/-- `boot` is the id of the CPU that runs this. -/
def startAps (base : Nat) (boot : UInt8) (cpus : Cpus) : Option (List (UInt8 × Nat)) :=
  if 1 < cpus.apicIds.length then startApsFrom base boot 0 cpus.apicIds else some []

/-! What each of the loops comes to. -/

theorem scanLapicIds_end (mem : Nat → UInt8) {dataEnd ptr : Nat} (h : dataEnd ≤ ptr) (fuel : Nat) :
    scanLapicIds mem dataEnd fuel ptr = [] := by
  cases fuel with
  | zero => rfl
  | succ fuel => rw [scanLapicIds, if_neg (by omega)]

/-- The length of an entry, if it is not the zero that ends a scan. -/
theorem entry_len_pos {b : UInt8} (h : b ≠ 0) : 0 < b.toNat :=
  Nat.pos_iff_ne_zero.mpr fun hzero => h (UInt8.toNat_inj.mp hzero)

/-- The scan ends at the end of the table, not for want of fuel. -/
theorem scanLapicIds_fuel (mem : Nat → UInt8) (dataEnd : Nat) {fuel fuel' ptr : Nat}
    (h : dataEnd ≤ ptr + fuel) (h' : dataEnd ≤ ptr + fuel') :
    scanLapicIds mem dataEnd fuel ptr = scanLapicIds mem dataEnd fuel' ptr := by
  induction fuel generalizing fuel' ptr with
  | zero => exact (scanLapicIds_end mem h 0).trans (scanLapicIds_end mem h fuel').symm
  | succ fuel ih =>
    cases fuel' with
    | zero => exact (scanLapicIds_end mem h' (fuel + 1)).trans (scanLapicIds_end mem h' 0).symm
    | succ fuel' =>
      rw [scanLapicIds, scanLapicIds]
      by_cases hlen : mem (ptr + 1) = 0
      · rw [if_pos hlen, if_pos hlen]
      · have hpos := entry_len_pos hlen
        have hrest : scanLapicIds mem dataEnd fuel (ptr + (mem (ptr + 1)).toNat) =
            scanLapicIds mem dataEnd fuel' (ptr + (mem (ptr + 1)).toNat) :=
          ih (by omega) (by omega)
        rw [hrest]

theorem parseCpuLapicIds_fuel (mem : Nat → UInt8) (madtPhys more : Nat) :
    scanLapicIds mem (madtPhys + readPhys mem (madtPhys + 4) 4)
      (readPhys mem (madtPhys + 4) 4 + more) (madtPhys + madtSize) =
        parseCpuLapicIds mem madtPhys :=
  scanLapicIds_fuel mem _ (by omega) (by omega)

theorem isSome_fillCpuData (bsp : UInt8) (data : List CpuData) (i : Nat) (ids : List UInt8) :
    (fillCpuData bsp data i ids).isSome ↔ ids = [] ∨ i + ids.length ≤ data.length := by
  induction ids generalizing data i with
  | nil => simp [fillCpuData]
  | cons id rest ih =>
    rw [fillCpuData]
    split
    · rw [ih, List.length_set, List.length_cons]
      simp only [reduceCtorEq, false_or]
      constructor
      · rintro (rfl | h)
        · simpa using by omega
        · omega
      · intro h
        exact .inr (by omega)
    · simp only [Option.isSome_none, Bool.false_eq_true, reduceCtorEq, false_or, List.length_cons,
        false_iff]
      omega

/-- What becomes of one place of the list: the boot CPU is passed over, and so is a place that has
no stack. -/
def startAt (base : Nat) (boot : UInt8) (cpu : UInt8 × Nat) : Option (UInt8 × Nat) :=
  if cpu.1 = boot then none else (cpuKernelStackTop base cpu.2).map (cpu.1, ·)

variable {ids : List UInt8}

theorem startApsFrom_eq (base : Nat) (boot : UInt8) {i : Nat} (hlength : i + ids.length < 2 ^ 64) :
    startApsFrom base boot i ids = some ((ids.zipIdx i).filterMap (startAt base boot)) := by
  induction ids generalizing i with
  | nil => rfl
  | cons id rest ih =>
    rw [List.length_cons] at hlength
    have hrest := ih (i := i + 1) (by omega)
    rw [startApsFrom, List.zipIdx_cons, List.filterMap_cons, startAt]
    dsimp only
    by_cases hboot : id = boot
    · rw [if_pos hboot, if_pos hboot]
      exact hrest
    rw [if_neg hboot, if_neg hboot, cpuKernelStackTop]
    by_cases hplace : i = 0 ∨ maxCpus ≤ i
    · rw [if_pos hplace, if_pos (by unfold maxCpus at *; omega)]
      exact hrest
    · have hindex : (i + 2 ^ 64 - 1) % 2 ^ 64 = i - 1 := by omega
      have htop : apStackTop base (i - 1) = some (base + (i - 1) * apStackSize + apStackSize) :=
        if_pos (by omega)
      rw [if_neg hplace, hindex, if_neg (by omega), htop, hrest]
      rfl

theorem mem_started {base : Nat} {boot : UInt8} {a : UInt8 × Nat} :
    a ∈ ids.zipIdx.filterMap (startAt base boot) ↔
      a.1 ≠ boot ∧ ∃ i, ids[i]? = some a.1 ∧ cpuKernelStackTop base i = some a.2 := by
  rw [List.mem_filterMap]
  constructor
  · rintro ⟨⟨id, i⟩, hcpu, hstart⟩
    unfold startAt at hstart
    split at hstart
    · cases hstart
    · rename_i hother
      obtain ⟨top, htop, rfl⟩ := Option.map_eq_some_iff.mp hstart
      exact ⟨hother, i, List.mem_zipIdx_iff_getElem?.mp hcpu, htop⟩
  · rintro ⟨hother, i, hid, htop⟩
    refine ⟨(a.1, i), List.mem_zipIdx_iff_getElem?.mpr hid, ?_⟩
    rw [startAt, if_neg hother, htop]
    rfl

theorem cpuKernelStackTop_eq_some {base i top : Nat} :
    cpuKernelStackTop base i = some top ↔ 1 ≤ i ∧ i < maxCpus ∧ top = base + i * apStackSize := by
  unfold cpuKernelStackTop apStackTop
  constructor
  · intro h
    split at h
    · cases h
    · split at h
      · obtain rfl := Option.some.inj h
        rw [Nat.add_assoc, ← Nat.succ_mul]
        refine ⟨by omega, by omega, ?_⟩
        rw [show (i - 1).succ = i by omega]
      · cases h
  · rintro ⟨hlow, hhigh, rfl⟩
    rw [if_neg (by omega), if_pos (by omega), Nat.add_assoc, ← Nat.succ_mul,
      show (i - 1).succ = i by omega]

/-! The numbering. -/

/-- CPUs and stacks belong together: each AP that was started is on the stack of its own index,
and a new thread is assigned to a CPU that runs. -/
structure Numbered (base : Nat) (boot : UInt8) (cpus : Cpus) (started : List (UInt8 × Nat)) :
    Prop where
  apart : ∀ a ∈ started, ∀ b ∈ started, a.1 ≠ b.1 → a.2 ≠ b.2
  own : ∀ a ∈ started, ∃ i, cpus.apicIdToCpuIndex a.1 = some i ∧ cpuKernelStackTop base i = some a.2
  assigned : ∀ (ts : Tasks) (stackBase pid entry arg : Nat) (privilege : PrivilegeLevel) (t : Thread),
    ts.cpuCount = cpus.cpuCount →
    (ts.createKernelThread (some stackBase) pid entry arg privilege).2.threads = ts.threads ++ [t] →
    ∃ id, cpus.apicIds[t.assignedCpu]? = some id ∧ (id = boot ∨ ∃ top, (id, top) ∈ started)

theorem isSome_detectCpus (mem : Nat → UInt8) (madt : Nat) :
    (detectCpus .initial mem (.madt madt)).isSome ↔ (parseCpuLapicIds mem madt).length ≤ maxCpus := by
  have hlength : Cpus.initial.cpuData.length = maxCpus := List.length_replicate
  have hfill := isSome_fillCpuData
    ((parseCpuLapicIds mem madt).head?.getD Cpus.initial.bspApicId) Cpus.initial.cpuData 0
    (parseCpuLapicIds mem madt)
  rw [hlength, Nat.zero_add] at hfill
  have hnil : parseCpuLapicIds mem madt = [] → (parseCpuLapicIds mem madt).length ≤ maxCpus := by
    intro h
    rw [h]
    exact Nat.zero_le _
  rw [or_iff_right_of_imp hnil] at hfill
  rw [← hfill, detectCpus]
  dsimp only [Option.bind_eq_bind]
  cases fillCpuData ((parseCpuLapicIds mem madt).head?.getD Cpus.initial.bspApicId)
    Cpus.initial.cpuData 0 (parseCpuLapicIds mem madt) with
  | none => rfl
  | some data => rfl

theorem detectCpus_ids {cpus cpus' : Cpus} {mem : Nat → UInt8} {madt : Nat}
    (h : detectCpus cpus mem (.madt madt) = some cpus') :
    cpus'.apicIds = parseCpuLapicIds mem madt ∧
      cpus'.cpuCount = max (parseCpuLapicIds mem madt).length 1 := by
  obtain ⟨data, -, heq⟩ := Option.bind_eq_some_iff.mp h
  obtain rfl := Option.some.inj heq
  exact ⟨rfl, rfl⟩

theorem startAps_eq (base : Nat) (boot : UInt8) {cpus : Cpus} (hlength : cpus.apicIds.length ≤ maxCpus)
    (hboot : boot ∈ cpus.apicIds) :
    startAps base boot cpus = some (cpus.apicIds.zipIdx.filterMap (startAt base boot)) := by
  rw [startAps]
  split
  · exact startApsFrom_eq base boot (by unfold maxCpus at hlength; omega)
  · rename_i hshort
    obtain ⟨id, hids⟩ : ∃ id, cpus.apicIds = [id] := by
      rw [← List.length_eq_one_iff]
      have hpos := List.length_pos_of_mem hboot
      omega
    rw [hids, List.mem_singleton] at hboot
    subst hboot
    rw [hids]
    simp [startAt]

section Numbered

variable {base : Nat} {boot : UInt8} {cpus : Cpus} (hdistinct : cpus.apicIds.Nodup)
include hdistinct

variable {id : UInt8}

theorem place_unique {i j : Nat} (hi : cpus.apicIds[i]? = some id)
    (hj : cpus.apicIds[j]? = some id) : i = j :=
  (List.getElem?_inj (List.getElem?_eq_some_iff.mp hi).1 hdistinct).mp (hi.trans hj.symm)

theorem cpuIndex_of_place {i : Nat} (h : cpus.apicIds[i]? = some id) :
    cpus.apicIdToCpuIndex id = some i := by
  obtain ⟨hi, hid⟩ := List.getElem?_eq_some_iff.mp h
  refine List.findIdx?_eq_some_iff_getElem.mpr ⟨hi, decide_eq_true hid, ?_⟩
  intro j hj
  have hne : cpus.apicIds[j] ≠ id := by
    intro heq
    have hsame := place_unique hdistinct (List.getElem?_eq_some_iff.mpr ⟨_, heq⟩) h
    omega
  simpa using hne

/-- The boot CPU has to be first: the first place has no stack, and threads are assigned to it. -/
theorem head_of_numbered
    (h : Numbered base boot cpus (cpus.apicIds.zipIdx.filterMap (startAt base boot))) :
    cpus.apicIds.head? = some boot := by
  obtain ⟨id, hid, hruns⟩ := h.assigned (Tasks.init cpus.cpuCount fun _ => 0) 0 0 0 0 .user _ rfl rfl
  have hfirst : cpus.apicIds[0]? = some id := by
    rwa [show (0 : Nat) = 0 % max cpus.cpuCount 1 from (Nat.zero_mod _).symm]
  rw [List.head?_eq_getElem?, hfirst]
  obtain rfl | ⟨top, hstarted⟩ := hruns
  · rfl
  · obtain ⟨-, i, hi, htop⟩ := mem_started.mp hstarted
    have hpos := (cpuKernelStackTop_eq_some.mp htop).1
    have hsame := place_unique hdistinct hi hfirst
    omega

theorem numbered_of_head (hcount : cpus.cpuCount = max cpus.apicIds.length 1)
    (hlength : cpus.apicIds.length ≤ maxCpus) (hhead : cpus.apicIds.head? = some boot) :
    Numbered base boot cpus (cpus.apicIds.zipIdx.filterMap (startAt base boot)) := by
  rw [List.head?_eq_getElem?] at hhead
  have hpos := (List.getElem?_eq_some_iff.mp hhead).1
  refine ⟨?_, ?_, ?_⟩
  · intro a ha b hb hne heq
    obtain ⟨-, i, hi, htop⟩ := mem_started.mp ha
    obtain ⟨-, j, hj, htop'⟩ := mem_started.mp hb
    obtain ⟨-, -, htop⟩ := cpuKernelStackTop_eq_some.mp htop
    obtain ⟨-, -, htop'⟩ := cpuKernelStackTop_eq_some.mp htop'
    obtain rfl : i = j := by
      unfold apStackSize at htop htop'
      omega
    exact hne (Option.some.inj (hi.symm.trans hj))
  · intro a ha
    obtain ⟨-, i, hi, htop⟩ := mem_started.mp ha
    exact ⟨i, cpuIndex_of_place hdistinct hi, htop⟩
  · intro ts stackBase pid entry arg privilege t hts hthreads
    obtain ⟨n, hn⟩ : ∃ n, n = ts.nextAssignCpu % max ts.cpuCount 1 := ⟨_, rfl⟩
    have hassigned : t.assignedCpu = n := by
      have hnew := List.append_cancel_left hthreads
      rw [← (List.cons.inj hnew).1, hn]
      rfl
    have hlt : n < cpus.apicIds.length := by
      have hmod := Nat.mod_lt ts.nextAssignCpu (by omega : 0 < max ts.cpuCount 1)
      omega
    have hid := List.getElem?_eq_getElem hlt
    rw [hassigned]
    refine ⟨_, hid, ?_⟩
    by_cases hzero : n = 0
    · subst hzero
      exact .inl (Option.some.inj (hid.symm.trans hhead))
    · refine .inr ⟨base + n * apStackSize, mem_started.mpr ⟨?_, n, hid, ?_⟩⟩
      · intro heq
        exact hzero (place_unique hdistinct (hid.trans (congrArg some heq)) hhead)
      · exact cpuKernelStackTop_eq_some.mpr ⟨by omega, by omega, rfl⟩

end Numbered

/-- For every table that lists the boot CPU, the kernel comes up with stacks and indices that
belong together exactly if the table lists it first, and sixteen CPUs at most. -/
theorem cpus_numbered_iff (mem : Nat → UInt8) (madt base : Nat) {boot : UInt8}
    (hdistinct : (parseCpuLapicIds mem madt).Nodup) (hboot : boot ∈ parseCpuLapicIds mem madt) :
    (∃ cpus started, detectCpus .initial mem (.madt madt) = some cpus ∧
      startAps base boot cpus = some started ∧ Numbered base boot cpus started) ↔
      (parseCpuLapicIds mem madt).head? = some boot ∧
        (parseCpuLapicIds mem madt).length ≤ maxCpus := by
  have hdetected := isSome_detectCpus mem madt
  constructor
  · rintro ⟨cpus, started, hdetect, hstart, hnumbered⟩
    rw [hdetect] at hdetected
    have hlength := hdetected.mp rfl
    obtain ⟨hids, -⟩ := detectCpus_ids hdetect
    rw [← hids] at hdistinct hboot hlength ⊢
    rw [startAps_eq base boot hlength hboot] at hstart
    obtain rfl := Option.some.inj hstart
    exact ⟨head_of_numbered hdistinct hnumbered, hlength⟩
  · rintro ⟨hhead, hlength⟩
    obtain ⟨cpus, hdetect⟩ := Option.isSome_iff_exists.mp (hdetected.mpr hlength)
    obtain ⟨hids, hcount⟩ := detectCpus_ids hdetect
    rw [← hids] at hdistinct hboot hlength hhead hcount
    exact ⟨cpus, _, hdetect, startAps_eq base boot hlength hboot,
      numbered_of_head hdistinct hcount hlength hhead⟩

/-- Memory with a table at address zero that lists these CPUs, all enabled. -/
def madtOf (ids : List UInt8) : Nat → UInt8 := fun a =>
  let header := [65, 80, 73, 67] ++ leBytes 4 (madtSize + 8 * ids.length) ++ List.replicate 36 0
  (header ++ ids.flatMap fun id => [0, 8, 0, id, 1, 0, 0, 0]).getD a 0

theorem cpus_numbered_iff_twoCpus : ∃ cpus started,
    detectCpus .initial (madtOf [0, 1]) (.madt 0) = some cpus ∧
      startAps 0x100000 0 cpus = some started ∧ Numbered 0x100000 0 cpus started := by
  have hids : parseCpuLapicIds (madtOf [0, 1]) 0 = [0, 1] := by decide +kernel
  refine (cpus_numbered_iff (madtOf [0, 1]) 0 0x100000 ?_ ?_).mpr ?_
  · rw [hids]
    decide
  · rw [hids]
    decide
  · rw [hids]
    decide

/-- With the boot CPU in the second place the other one is not started, though threads are assigned
to its index. Of seventeen CPUs one has no place in CPU_DATA. -/
theorem second_boot_cpu_or_seventeen :
    (∃ cpus, detectCpus .initial (madtOf [1, 0]) (.madt 0) = some cpus ∧
      startAps 0x100000 0 cpus = some [] ∧ cpus.cpuCount = 2 ∧ cpus.apicIds[0]? = some 1) ∧
    (parseCpuLapicIds (madtOf ((List.range 17).map UInt8.ofNat)) 0).length = 17 ∧
      detectCpus .initial (madtOf ((List.range 17).map UInt8.ofNat)) (.madt 0) = none := by
  refine ⟨⟨(detectCpus .initial (madtOf [1, 0]) (.madt 0)).getD .initial, ?_⟩, ?_⟩
  · decide +kernel
  · decide +kernel

end KazuOS.Kernel
