import OnyxZygisk.Lib.Prog

/-!
# The stopped tracee

What the tracer does to the process it has stopped: system calls it makes there (`remoteSyscall`), memory
it reads and writes, functions it calls. Every step can fail, and the system calls answer as the kernel
does, an error as its negated number.
-/

namespace OnyxZygisk.Ptracer

/-! ### Machine words -/

inductive Abi where
  | aarch64 | x86_64 | arm | i386
  deriving DecidableEq

def Abi.bits : Abi → Nat
  | aarch64 | x86_64 => 64
  | arm | i386 => 32

/-- `__LP64__`. -/
def Abi.lp64 (abi : Abi) : Bool := abi.bits = 64

abbrev Word (abi : Abi) : Type := BitVec abi.bits

def Abi.wordSize (abi : Abi) : Nat := abi.bits / 8

variable {abi : Abi}

def MAP_FAILED : Word abi := -1

/-- The values by which a system call reports an error. -/
def isErrno (v : Word abi) : Bool := -4095 ≤ v.toInt && v.toInt < 0

def PROT_NONE : Word abi := 0

def PROT_READ : Word abi := 1

def PROT_WRITE : Word abi := 2

def PROT_EXEC : Word abi := 4

def MAP_PRIVATE : Word abi := 0x2

def MAP_FIXED : Word abi := 0x10

def MAP_ANONYMOUS : Word abi := 0x20

def EINVAL : Word abi := 22

/-- The registers the tracer's own code names, and the others. -/
structure Regs (abi : Abi) where
  sp : Word abi
  ip : Word abi
  ret : Word abi
  /-- Processor state: `pstate`, `cpsr` or `eflags`. -/
  pstate : Word abi
  others : List (Word abi)
  deriving DecidableEq

/-! ### Remote operations -/

/-- The system calls made in the tracee. Files are only opened `O_RDONLY | O_CLOEXEC`. -/
inductive Syscall (abi : Abi) where
  | openat (path : Word abi)
  | mmap (addr len prot flags fd offset : Word abi)
  | munmap (addr len : Word abi)
  | mprotect (addr len prot : Word abi)
  | close (fd : Word abi)
  deriving DecidableEq

inductive RemoteOp (abi : Abi) where
  | syscall (call : Syscall abi)
  | writeProc (addr : Word abi) (data : List UInt8)
  /-- One word, or nothing when not all of it was read. -/
  | readWord (addr : Word abi)
  /-- The value returned, or nothing when the call did not come back to `returnAddr`. -/
  | remoteCall (funcAddr returnAddr : Word abi) (args : List (Word abi))
  | setRegs (regs : Regs abi)
  /-- The tracer's variable `regs`, which every remote operation works on. -/
  | assignRegs (regs : Regs abi)
  /-- Memory of the tracer's own. -/
  | calloc (size : Nat)
  deriving DecidableEq

def RemoteOp.Resp : RemoteOp abi → Type
  | syscall _ => Word abi
  | writeProc _ _ => Int
  | readWord _ => Option (Word abi)
  | remoteCall _ _ _ => Option (Word abi)
  | setRegs _ => Bool
  | assignRegs _ => Unit
  | calloc _ => Bool

/-- The addresses in the tracee an operation is given. -/
def RemoteOp.addresses : RemoteOp abi → List (Word abi)
  | syscall (.openat path) => [path]
  | syscall (.mmap addr _ _ _ _ _) => [addr]
  | syscall (.munmap addr _) => [addr]
  | syscall (.mprotect addr _ _) => [addr]
  | syscall (.close _) => []
  | writeProc addr _ => [addr]
  | readWord addr => [addr]
  | remoteCall funcAddr returnAddr _ => [funcAddr, returnAddr]
  | setRegs _ | assignRegs _ | calloc _ => []

abbrev Program (abi : Abi) (α : Type) : Type := Prog (@RemoteOp.Resp abi) α

/-! ### The machine -/

/-- How one `remote_syscall` goes, step by step. -/
structure SyscallRun (abi : Abi) where
  /-- `get_regs(saved)`. -/
  saves : Bool
  /-- `set_regs` with the call's arguments. -/
  sets : Bool
  /-- Both rounds of `PTRACE_SYSCALL` and the wait. -/
  steps : Bool
  /-- `get_regs` for the result. -/
  reads : Bool
  answer : Word abi
  /-- The kernel came to make the call even though the tracer saw no result. -/
  executed : Bool
  /-- `set_regs(saved)`, and the registers the tracee is left with when it fails. -/
  restores : Bool
  left : Regs abi

/-- How one `remote_call` goes. -/
structure CallRun (abi : Abi) where
  result : Option (Word abi)
  regs : Regs abi
  live : Regs abi
  mapped : Word abi → Bool

/-- What becomes of the `n`-th remote operation. -/
structure TraceEnv (abi : Abi) where
  syscall : Nat → Syscall abi → SyscallRun abi
  written : Nat → Int
  word : Nat → Option (Word abi)
  call : Nat → CallRun abi
  setRegs : Nat → Bool
  calloc : Nat → Bool

/-- An operation and its answer. -/
abbrev Event (abi : Abi) : Type := (op : RemoteOp abi) × op.Resp

structure Tracee (abi : Abi) where
  /-- The tracee's registers. -/
  live : Regs abi
  /-- The tracer's variable. -/
  regs : Regs abi
  mapped : Word abi → Bool
  /-- The descriptor the library was opened as, while it is open. -/
  libFd : Option (Word abi)
  log : List (Event abi)

namespace Tracee

/-- The bytes of `[addr, addr + len)`. -/
def inSpan (addr len a : Word abi) : Bool := a - addr < len

/-- A mapping of no bytes is refused whatever else is asked. -/
def kernelAnswer (call : Syscall abi) (answer : Word abi) : Word abi :=
  match call with
  | .mmap _ len _ _ _ _ => if len = 0 then -EINVAL else answer
  | _ => answer

/-- What a call does to the tracee. A call that fails does nothing. -/
def kernel (t : Tracee abi) (call : Syscall abi) (answer : Word abi) : Tracee abi :=
  if isErrno answer then t
  else match call with
    | .openat _ => { t with libFd := some answer }
    | .mmap _ len _ _ _ _ => { t with mapped := fun a => inSpan answer len a || t.mapped a }
    | .munmap addr len => { t with mapped := fun a => !inSpan addr len a && t.mapped a }
    | .mprotect _ _ _ => t
    | .close fd => if t.libFd = some fd then { t with libFd := none } else t

def remoteSyscall (run : SyscallRun abi) (call : Syscall abi) (t : Tracee abi) : Word abi × Tracee abi :=
  if !run.saves then (-1, t)
  else
    let returned := run.sets && run.steps && run.reads
    let answer := kernelAnswer call run.answer
    let after := if returned || run.executed then t.kernel call answer else t
    (if returned then answer else -1,
      { after with regs := t.live, live := if run.restores then t.live else run.left })

def exec : Prog.Exec (@RemoteOp.Resp abi) (TraceEnv abi) (Tracee abi) := fun e op t =>
  let n := t.log.length
  let answer : op.Resp × Tracee abi :=
    match op with
    | .syscall call => t.remoteSyscall (e.syscall n call) call
    | .writeProc _ _ => (e.written n, t)
    | .readWord _ => (e.word n, t)
    | .remoteCall _ _ _ =>
      ((e.call n).result,
        { t with regs := (e.call n).regs, live := (e.call n).live, mapped := (e.call n).mapped })
    | .setRegs regs => (e.setRegs n, if e.setRegs n then { t with live := regs } else t)
    | .assignRegs regs => ((), { t with regs })
    | .calloc _ => (e.calloc n, t)
  some (answer.1, { answer.2 with log := t.log ++ [⟨op, answer.1⟩] })

theorem log_exec {e : TraceEnv abi} {op : RemoteOp abi} {r : op.Resp} {t t' : Tracee abi}
    (h : exec e op t = some (r, t')) : t'.log = t.log ++ [⟨op, r⟩] := by
  obtain ⟨rfl, rfl⟩ := Prod.mk.inj (Option.some.inj h)
  rfl

/-- A remote operation may fail, but it is over at some time. -/
theorem runs {α : Type} (e : TraceEnv abi) (p : Program abi α) (t : Tracee abi) :
    ∃ a t', Prog.run exec e p t = some (a, t') := by
  induction p generalizing t with
  | ret a => exact ⟨a, t, rfl⟩
  | call op k ih => exact ih _ _

/-- When a remote function is called, with `regs` as the caller has them. -/
def called (live regs : Regs abi) (mapped : Word abi → Bool) : Tracee abi :=
  ⟨live, regs, mapped, none, []⟩

end Tracee

def syscall (call : Syscall abi) : Program abi (Word abi) := Prog.perform (RemoteOp.syscall call)

def writeProc (addr : Word abi) (data : List UInt8) : Program abi Int := Prog.perform (RemoteOp.writeProc addr data)

/-- `write_remote_addr` and the other writes that have to be whole. -/
def writeAll (addr : Word abi) (data : List UInt8) : Program abi Bool := do
  let n ← writeProc addr data
  return n = data.length

def readRemoteAddr (addr : Word abi) : Program abi (Option (Word abi)) := Prog.perform (RemoteOp.readWord addr)

def remoteCall (funcAddr returnAddr : Word abi) (args : List (Word abi)) :
    Program abi (Option (Word abi)) :=
  Prog.perform (RemoteOp.remoteCall funcAddr returnAddr args)

def setRegs (regs : Regs abi) : Program abi Bool := Prog.perform (RemoteOp.setRegs regs)

def assignRegs (regs : Regs abi) : Program abi Unit := Prog.perform (RemoteOp.assignRegs regs)

def calloc (size : Nat) : Program abi Bool := Prog.perform (RemoteOp.calloc size)

/-- The bytes of a word in memory. -/
def wordBytes (value : Word abi) : List UInt8 :=
  (List.range abi.wordSize).map fun i => UInt8.ofNat (value.toNat >>> (8 * i))

theorem length_wordBytes (value : Word abi) : (wordBytes value).length = abi.wordSize := by
  rw [wordBytes, List.length_map, List.length_range]

end OnyxZygisk.Ptracer
