import Psbox.Foundations.ForwardJumps

/-!
# The Seccomp Program

The deny-list for interfaces that Landlock and namespaces do not cover (`sys/seccomp.rs`): how
the program is put together of blocks with relative jumps, and what it decides on a system call.

The architecture that psbox was built for is a parameter, and so is the deny-list. `c_long` is
`Int64`. The numbers of `libc` are those of the kernel's tables.
-/

namespace Psbox.Seccomp

open Psbox.Foundations

/-! ## Section 1: Instructions -/

/-- `libc::sock_filter`. -/
structure SockFilter where
  code : UInt16
  jt : UInt8
  jf : UInt8
  k : UInt32
  deriving DecidableEq

/-- What the program may look at of a system call. -/
structure SeccompData where
  nr : UInt32
  arch : UInt32
  /-- The lower half of the second argument. -/
  arg1 : UInt32

def offsetNr : UInt32 := 0
def offsetArch : UInt32 := 4
def offsetArg1Lo : UInt32 := 16 + 8

/-- `BPF_LD | BPF_W | BPF_ABS`. -/
def LD : UInt16 := 0x20
/-- `BPF_JMP | BPF_JEQ | BPF_K`. -/
def JEQ : UInt16 := 0x15
/-- `BPF_JMP | BPF_JGE | BPF_K`. -/
def JGE : UInt16 := 0x35
/-- `BPF_RET | BPF_K`. -/
def RET : UInt16 := 0x06

def retKillProcess : UInt32 := 0x80000000
def retAllow : UInt32 := 0x7fff0000
/-- `SECCOMP_RET_ERRNO | EPERM`. -/
def DENY : UInt32 := 0x00050001

def stmt (code : UInt16) (k : UInt32) : SockFilter :=
  { code := code, jt := 0, jf := 0, k := k }

def jump (code : UInt16) (k : UInt32) (jt jf : UInt8) : SockFilter :=
  { code := code, jt := jt, jf := jf, k := k }

/-- One instruction, with the accumulator. -/
def exec (d : SeccompData) (f : SockFilter) (acc : UInt32) : Next UInt32 UInt32 :=
  if f.code = LD then
    if f.k = offsetNr then .goOn d.nr 0
    else if f.k = offsetArch then .goOn d.arch 0
    else if f.k = offsetArg1Lo then .goOn d.arg1 0
    else .fault
  else if f.code = JEQ then .goOn acc (if acc = f.k then f.jt else f.jf).toNat
  else if f.code = JGE then .goOn acc (if acc ≥ f.k then f.jt else f.jf).toNat
  else if f.code = RET then .stop f.k
  else .fault

/-- The kernel runs the program on a system call. -/
def run (p : List SockFilter) (d : SeccompData) : Ending UInt32 :=
  runProgram (exec d) p 0

/-! ## Section 2: The Program -/

/-- The architecture that psbox was built for. -/
inductive Target where
  | x86_64
  | aarch64
  deriving DecidableEq

/-- `AUDIT_ARCH`. -/
def auditArch : Target → UInt32
  | .x86_64 => 0xc000003e
  | .aarch64 => 0xc00000b7

def auditArchI386 : UInt32 := 0x40000003

/-- `SYS_ioctl`. -/
def sysIoctl : Target → UInt32
  | .x86_64 => 16
  | .aarch64 => 29

def TIOCSTI : UInt32 := 0x5412
def TIOCLINUX : UInt32 := 0x541c

/-- `denied_syscalls`: `keyctl`, `add_key`, `request_key`, `kexec_load`, `kexec_file_load`,
`init_module`, `finit_module`, `delete_module`, `reboot`, `swapon`, `swapoff`, `acct`, `quotactl`,
`quotactl_fd`, `perf_event_open` and `bpf`. -/
def deniedSyscalls : Target → List Int64
  | .x86_64 => [250, 248, 249, 246, 320, 175, 313, 176, 169, 167, 168, 163, 179, 443, 298, 321]
  | .aarch64 => [219, 217, 218, 104, 294, 105, 273, 106, 142, 224, 225, 89, 60, 443, 241, 280]

/-- `I386_NUMBERS`. -/
def i386Numbers : List (Int64 × UInt32) :=
  [(250, 288), (248, 286), (249, 287), (246, 283), (175, 128), (313, 350), (176, 129), (169, 88),
    (167, 87), (168, 115), (163, 51), (179, 131), (443, 443), (298, 336), (321, 357)]

def i386Ioctl : UInt32 := 54

/-- `nr as u32`. -/
def asU32 (nr : Int64) : UInt32 :=
  nr.toUInt64.toUInt32

/-- The i386 number of a system call. -/
def i386Number (nr : Int64) : Option UInt32 :=
  (i386Numbers.find? fun e => e.1 == nr).map Prod.snd

/-- With the number loaded: denies each of `denied`, denies `ioctl` with a terminal-injection
request, and allows the rest. -/
def checks (denied : List UInt32) (ioctl : UInt32) : List SockFilter :=
  (denied.flatMap fun nr => [jump JEQ nr 0 1, stmt RET DENY]) ++
    [jump JEQ ioctl 0 5,
      stmt LD offsetArg1Lo,
      jump JEQ TIOCSTI 2 0,
      jump JEQ TIOCLINUX 1 0,
      stmt RET retAllow,
      stmt RET DENY,
      stmt RET retAllow]

/-- The checks for own system calls, ending in a return. -/
def nativeBlock (t : Target) (denied : List Int64) : List SockFilter :=
  let x32 := match t with
    -- Deny the x32 ABI entirely.
    | .x86_64 => [jump JGE 0x40000000 0 1, stmt RET DENY]
    | .aarch64 => []
  stmt LD offsetNr :: x32 ++ checks (denied.map asU32) (sysIoctl t)

/-- The checks for i386 system calls, with the architecture they apply to. -/
def compatBlock (t : Target) (denied : List Int64) (allow32bit : Bool) :
    Option (UInt32 × List SockFilter) :=
  match t with
  | .x86_64 =>
      if allow32bit then
        some (auditArchI386, stmt LD offsetNr :: checks (denied.filterMap i386Number) i386Ioctl)
      else none
  -- 32-bit ARM programs are not supported.
  | .aarch64 => none

/-- The program, unless a jump would be too long, which panics. -/
def program (t : Target) (denied : List Int64) (allow32bit : Bool) : Option (List SockFilter) :=
  let own := nativeBlock t denied
  match compatBlock t denied allow32bit with
  | none =>
      some ([stmt LD offsetArch, jump JEQ (auditArch t) 1 0, stmt RET retKillProcess] ++ own)
  | some (arch, block) =>
      if 1 + own.length < 256 then
        some ([stmt LD offsetArch, jump JEQ (auditArch t) 2 0,
          jump JEQ arch (UInt8.ofNat (1 + own.length)) 0, stmt RET retKillProcess] ++ own ++ block)
      else none

/-! ## Section 3: What It Decides -/

/-- A terminal-injection request. -/
def injects (ioctl : UInt32) (d : SeccompData) : Bool :=
  d.nr == ioctl && (d.arg1 == TIOCSTI || d.arg1 == TIOCLINUX)

/-- The number belongs to the x32 ABI. -/
def isX32 (t : Target) (nr : UInt32) : Bool :=
  t == .x86_64 && nr ≥ 0x40000000

/-- What is to be returned for a system call. -/
def decision (t : Target) (denied : List Int64) (allow32bit : Bool) (d : SeccompData) : UInt32 :=
  if d.arch = auditArch t then
    if isX32 t d.nr || denied.any (fun nr => asU32 nr == d.nr) || injects (sysIoctl t) d then DENY
    else retAllow
  else if t = .x86_64 ∧ allow32bit ∧ d.arch = auditArchI386 then
    if denied.any (fun nr => i386Number nr == some d.nr) || injects i386Ioctl d then DENY
    else retAllow
  else retKillProcess

/-! ## Section 4: The Instructions One by One -/

section Steps

variable {d : SeccompData} {acc k : UInt32} {jt jf : UInt8}

private theorem exec_loadNr : exec d (stmt LD offsetNr) acc = .goOn d.nr 0 := rfl

private theorem exec_loadArch : exec d (stmt LD offsetArch) acc = .goOn d.arch 0 := rfl

private theorem exec_loadArg1 : exec d (stmt LD offsetArg1Lo) acc = .goOn d.arg1 0 := rfl

private theorem exec_ret : exec d (stmt RET k) acc = .stop k := rfl

private theorem exec_jeq : exec d (jump JEQ k jt jf) acc = .goOn acc (if acc = k then jt else jf).toNat := rfl

private theorem exec_jge : exec d (jump JGE k jt jf) acc = .goOn acc (if acc ≥ k then jt else jf).toNat := rfl

end Steps

/-! ## Section 5: The Blocks -/

section Blocks

variable {d : SeccompData} {code : List SockFilter} {acc k r : UInt32} {jt jf : UInt8}

/-- A comparison that holds. -/
theorem stops_jeq_eq (h : Stops (exec d) (code.drop jt.toNat) k r) :
    Stops (exec d) (jump JEQ k jt jf :: code) k r := by
  refine .goOn exec_jeq ?_
  rw [if_pos rfl]
  exact h

/-- A comparison that does not. -/
theorem stops_jeq_ne (hne : acc ≠ k) (h : Stops (exec d) (code.drop jf.toNat) acc r) :
    Stops (exec d) (jump JEQ k jt jf :: code) acc r := by
  refine .goOn exec_jeq ?_
  rw [if_neg hne]
  exact h

/-- The checks of the second argument, once the number was found to be that of `ioctl`. -/
theorem stops_request :
    Stops (exec d) [stmt LD offsetArg1Lo, jump JEQ TIOCSTI 2 0, jump JEQ TIOCLINUX 1 0,
      stmt RET retAllow, stmt RET DENY, stmt RET retAllow] acc
      (if d.arg1 == TIOCSTI || d.arg1 == TIOCLINUX then DENY else retAllow) := by
  refine .next exec_loadArg1 ?_
  by_cases hsti : d.arg1 = TIOCSTI
  · rw [hsti]
    exact stops_jeq_eq (.stop exec_ret)
  · refine stops_jeq_ne hsti ?_
    by_cases hlinux : d.arg1 = TIOCLINUX
    · rw [hlinux]
      exact stops_jeq_eq (.stop exec_ret)
    · rw [if_neg (by simp [hsti, hlinux])]
      exact stops_jeq_ne hlinux (.stop exec_ret)

private theorem stops_checks (denied : List UInt32) (ioctl : UInt32) :
    Stops (exec d) (checks denied ioctl) d.nr
      (if denied.contains d.nr || injects ioctl d then DENY else retAllow) := by
  induction denied with
  | nil =>
      show Stops (exec d) (jump JEQ ioctl 0 5 :: _) d.nr _
      by_cases hioctl : d.nr = ioctl
      · have hrequest : injects ioctl d = (d.arg1 == TIOCSTI || d.arg1 == TIOCLINUX) := by
          simp [injects, hioctl]
        rw [List.contains_nil, Bool.false_or, hrequest, hioctl]
        exact stops_jeq_eq stops_request
      · have hother : injects ioctl d = false := by simp [injects, hioctl]
        rw [List.contains_nil, Bool.false_or, hother]
        exact stops_jeq_ne hioctl (.stop exec_ret)
  | cons nr denied ih =>
      show Stops (exec d) (jump JEQ nr 0 1 :: stmt RET DENY :: checks denied ioctl) d.nr _
      by_cases hnr : d.nr = nr
      · rw [List.contains_cons, hnr, beq_self_eq_true, Bool.true_or, Bool.true_or]
        exact stops_jeq_eq (.stop exec_ret)
      · have hbeq : (d.nr == nr) = false := by simpa using hnr
        rw [List.contains_cons, hbeq, Bool.false_or]
        exact stops_jeq_ne hnr ih

private theorem stops_nativeBlock (t : Target) (denied : List Int64) :
    Stops (exec d) (nativeBlock t denied) acc
      (if isX32 t d.nr || denied.any (fun nr => asU32 nr == d.nr) || injects (sysIoctl t) d then DENY
        else retAllow) := by
  have hdenied : denied.any (fun nr => asU32 nr == d.nr) = (denied.map asU32).contains d.nr := by
    rw [List.contains_eq_any_beq, List.any_map]
    exact congrArg denied.any (funext fun nr => Bool.beq_comm)
  rw [hdenied]
  refine .next exec_loadNr ?_
  cases t with
  | aarch64 =>
      have hx32 : isX32 .aarch64 d.nr = false := rfl
      rw [hx32, Bool.false_or]
      exact stops_checks _ _
  | x86_64 =>
      by_cases hx32 : d.nr ≥ 0x40000000
      · have hyes : isX32 .x86_64 d.nr = true := by simpa [isX32] using hx32
        rw [hyes, Bool.true_or, Bool.true_or]
        refine .goOn exec_jge ?_
        rw [if_pos hx32]
        exact .stop exec_ret
      · have hno : isX32 .x86_64 d.nr = false := by simpa [isX32] using hx32
        rw [hno, Bool.false_or]
        refine .goOn exec_jge ?_
        rw [if_neg hx32]
        exact stops_checks _ _

/-- The i386 numbers that are denied. -/
theorem stops_compatBlock (denied : List Int64) :
    Stops (exec d) (stmt LD offsetNr :: checks (denied.filterMap i386Number) i386Ioctl) acc
      (if denied.any (fun nr => i386Number nr == some d.nr) || injects i386Ioctl d then DENY
        else retAllow) := by
  have hdenied : denied.any (fun nr => i386Number nr == some d.nr) =
      (denied.filterMap i386Number).contains d.nr := by
    rw [Bool.eq_iff_iff, List.any_eq_true, List.contains_iff_mem, List.mem_filterMap]
    simp
  rw [hdenied]
  exact .next exec_loadNr (stops_checks _ _)

end Blocks

/-! ## Section 6: The Whole Program -/

section Whole

variable {d : SeccompData} {acc k r : UInt32} {jf : UInt8}

/-- A comparison that holds, with a jump over a whole block. -/
theorem stops_jeq_past {block code : List SockFilter} {jt : UInt8} (hjt : jt.toNat = block.length)
    (h : Stops (exec d) code k r) : Stops (exec d) (jump JEQ k jt jf :: (block ++ code)) k r := by
  refine Stops.jump ?_ h
  rw [exec_jeq, if_pos rfl, hjt]

/-- Without a second architecture, every system call but a own one kills. -/
theorem stops_native_only {own : List SockFilter} {arch : UInt32}
    (hnative : ∀ acc, Stops (exec d) own acc r) :
    Stops (exec d)
      ([stmt LD offsetArch, jump JEQ arch 1 0, stmt RET retKillProcess] ++ own) acc
      (if d.arch = arch then r else retKillProcess) := by
  refine .next exec_loadArch ?_
  by_cases harch : d.arch = arch
  · rw [if_pos harch, harch]
    exact stops_jeq_eq (hnative arch)
  · rw [if_neg harch]
    exact stops_jeq_ne harch (.stop exec_ret)

/-- With a second architecture, its checks stand behind the own ones. -/
theorem stops_with_compat {own block : List SockFilter} {arch other : UInt32} {r' : UInt32}
    (hfits : 1 + own.length < 256) (hnative : ∀ acc, Stops (exec d) own acc r)
    (hblock : ∀ acc, Stops (exec d) block acc r') :
    Stops (exec d)
      ([stmt LD offsetArch, jump JEQ arch 2 0,
        jump JEQ other (UInt8.ofNat (1 + own.length)) 0, stmt RET retKillProcess] ++
          own ++ block) acc
      (if d.arch = arch then r else if d.arch = other then r' else retKillProcess) := by
  refine .next exec_loadArch ?_
  by_cases harch : d.arch = arch
  · rw [if_pos harch, harch]
    exact stops_jeq_eq ((hnative arch).append block)
  · rw [if_neg harch]
    refine stops_jeq_ne harch ?_
    by_cases hother : d.arch = other
    · rw [if_pos hother, hother]
      -- The jump counts the return in between and the own checks.
      have hskip : (UInt8.ofNat (1 + own.length)).toNat =
          (stmt RET retKillProcess :: own).length := by
        rw [UInt8.toNat_ofNat_of_lt' (by simpa [UInt8.size] using hfits), List.length_cons]
        omega
      exact stops_jeq_past hskip (hblock other)
    · rw [if_neg hother]
      exact stops_jeq_ne hother (.stop exec_ret)

end Whole

/-- The program of any deny-list whose jump fits stops, with what is to be returned. -/
theorem program_decides (t : Target) (denied : List Int64) (allow32bit : Bool) (d : SeccompData)
    (hfits : allow32bit → t = .x86_64 → 1 + (nativeBlock t denied).length ≤ 255) :
    ∃ p, program t denied allow32bit = some p ∧
      run p d = .stopped (decision t denied allow32bit d) := by
  have hnative : ∀ acc, Stops (exec d) (nativeBlock t denied) acc _ :=
    fun acc => stops_nativeBlock t denied
  by_cases hcompat : t = .x86_64 ∧ allow32bit
  · obtain ⟨rfl, rfl⟩ := hcompat
    have hlt : 1 + (nativeBlock .x86_64 denied).length < 256 := by
      have := hfits rfl rfl
      omega
    refine ⟨_, if_pos hlt, ?_⟩
    rw [run, (stops_with_compat hlt hnative fun acc => stops_compatBlock denied).runProgram]
    simp only [decision, true_and]
  · have hnone : compatBlock t denied allow32bit = none := by
      cases t with
      | aarch64 => rfl
      | x86_64 => exact if_neg fun h => hcompat ⟨rfl, h⟩
    have hprogram : program t denied allow32bit =
        some ([stmt LD offsetArch, jump JEQ (auditArch t) 1 0, stmt RET retKillProcess] ++
          nativeBlock t denied) := by
      rw [program, hnone]
    refine ⟨_, hprogram, ?_⟩
    rw [run, (stops_native_only hnative).runProgram, decision]
    rw [if_neg (c := t = .x86_64 ∧ allow32bit ∧ d.arch = auditArchI386)
      fun h => hcompat ⟨h.1, h.2.1⟩]

/-- The shipped deny-list has room for its jump, and denies an i386 `keyctl`. -/
theorem program_decides_example :
    (∃ p, program .x86_64 (deniedSyscalls .x86_64) true = some p ∧
      run p ⟨288, auditArchI386, 0⟩ = .stopped DENY) ∧
    (∃ p, program .aarch64 (deniedSyscalls .aarch64) true = some p ∧
      run p ⟨29, auditArch .aarch64, TIOCSTI⟩ = .stopped DENY) :=
  ⟨program_decides .x86_64 (deniedSyscalls .x86_64) true ⟨288, auditArchI386, 0⟩ (by decide),
    program_decides .aarch64 (deniedSyscalls .aarch64) true ⟨29, auditArch .aarch64, TIOCSTI⟩
      (by decide)⟩

end Psbox.Seccomp
