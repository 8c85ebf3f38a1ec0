import Mathlib.Data.BitVec
import OnyxZygisk.Ptracer.RemoteLoader

/-!
# Injecting at the entry point

`inject_on_main` overwrites the `AT_ENTRY` word of the auxiliary vector with an invalid address, lets the
tracee run into it, writes the word back and calls functions of the tracee from there. A program here ends
without a result when the tracer exits or its loops go on beyond the fuel.
-/

namespace OnyxZygisk.Ptracer

variable {abi : Abi}

/-! ### What the tracer does -/

/-- What `wait_for_trace` comes back with; it leaves only with a stop of the tracee. -/
inductive TraceStop where
  | tracerExits
  | stopped (sig : Nat)
  deriving DecidableEq

def SIGSEGV : Nat := 11

def SIGSTOP : Nat := 19

inductive InjectOp (abi : Abi) where
  /-- The remote calls and the custom loader. What they write is their own: stack below the stack pointer
  and the library's span, never the auxiliary vector. -/
  | remote (op : RemoteOp abi)
  /-- The variable `regs`. -/
  | regsVar
  | getRegs
  /-- `read_proc` of some words, the result of which is not looked at. -/
  | peek (addr : Word abi)
  /-- `write_proc` of one word. -/
  | pokeWord (addr value : Word abi)
  /-- `PTRACE_CONT`. -/
  | cont
  | waitForTrace

def InjectOp.Resp : InjectOp abi → Type
  | remote op => op.Resp
  | regsVar => Regs abi
  | getRegs => Option (Regs abi)
  | peek _ => Nat → Word abi
  | pokeWord _ _ => Int
  | cont => Bool
  | waitForTrace => TraceStop

abbrev InjectProgram (abi : Abi) (α : Type) : Type := Prog (@InjectOp.Resp abi) α

/-! ### The machine -/

/-- What becomes of the `n`-th operation. -/
structure InjectEnv (abi : Abi) where
  trace : TraceEnv abi
  getRegs : Nat → Bool
  /-- What a read leaves in its buffer when it fails. -/
  misread : Nat → Option (Nat → Word abi)
  /-- The bytes a write transfers, or an error. -/
  poked : Nat → Option Nat
  cont : Nat → Bool
  /-- The next stop and the registers there. -/
  stop : Nat → TraceStop × Regs abi

/-- The tracee with the words of its argument block. -/
structure Injected (abi : Abi) where
  tracee : Tracee abi
  word : Word abi → Word abi
  clock : Nat

/-- A word of which the first `n` bytes were overwritten. -/
def overwrite (n : Nat) (new old : Word abi) : Word abi :=
  BitVec.ofNat _ (new.toNat % 2 ^ (8 * n) + old.toNat / 2 ^ (8 * n) * 2 ^ (8 * n))

/-- The address of the `i`-th word from `addr`. -/
def wordAt (addr : Word abi) (i : Nat) : Word abi := addr + BitVec.ofNat _ (i * abi.wordSize)

namespace Injected

variable (t : Injected abi)

def poke (addr value : Word abi) : Option Nat → Injected abi
  | none => t
  | some n => { t with word := fun a => if a = addr then overwrite n value (t.word a) else t.word a }

def exec : Prog.Exec (@InjectOp.Resp abi) (InjectEnv abi) (Injected abi) := fun e op t =>
  let answer : Option (op.Resp × Injected abi) :=
    match op with
    | .remote op => (Tracee.exec e.trace op t.tracee).map fun z => (z.1, { t with tracee := z.2 })
    | .regsVar => some (t.tracee.regs, t)
    | .getRegs =>
      if e.getRegs t.clock then
        some (some t.tracee.live, { t with tracee := { t.tracee with regs := t.tracee.live } })
      else some (none, t)
    | .peek addr => some ((e.misread t.clock).getD fun i => t.word (wordAt addr i), t)
    | .pokeWord addr value =>
      some (((e.poked t.clock).map Int.ofNat).getD (-1), t.poke addr value (e.poked t.clock))
    | .cont => some (e.cont t.clock, t)
    | .waitForTrace =>
      some ((e.stop t.clock).1, { t with tracee := { t.tracee with live := (e.stop t.clock).2 } })
  answer.map fun z => (z.1, { z.2 with clock := t.clock + 1 })

end Injected

/-! ### Finding the entry -/

section Code

def perform (op : InjectOp abi) : InjectProgram abi op.Resp := Prog.perform op

def remote {α : Type} (p : Program abi α) : InjectProgram abi α :=
  Prog.translate InjectOp.remote (fun _ => id) p

def getRegs : InjectProgram abi (Option (Regs abi)) := perform .getRegs

def peek (addr : Word abi) : InjectProgram abi (Nat → Word abi) := perform (.peek addr)

def pokeWord (addr value : Word abi) : InjectProgram abi Int := perform (.pokeWord addr value)

def AT_NULL : Word abi := 0

def AT_ENTRY : Word abi := 9

/-- The start of the auxiliary vector, past the null that ends the environment. -/
def skipEnvironment : Nat → Word abi → InjectProgram abi (Option (Word abi))
  | 0, _ => return none
  | fuel + 1, p => do
    let val ← peek p
    if val 0 ≠ 0 then skipEnvironment fuel (wordAt p 1) else return some (wordAt p 1)

/-- `entry_addr` and `addr_of_entry_addr`, zero when there is no `AT_ENTRY`. -/
def scanAuxv : Nat → Word abi → InjectProgram abi (Option (Word abi × Word abi))
  | 0, _ => return none
  | fuel + 1, v => do
    let buf ← peek v
    if buf 0 = AT_NULL then return some (0, 0)
    else if buf 0 = AT_ENTRY then return some (buf 1, wordAt v 1)
    else scanAuxv fuel (wordAt v 2)

/-- `argv + argc + 1`, with `argc` an `int`. -/
def envpOf (sp argc : Word abi) : Word abi :=
  wordAt sp 1 + ((argc.setWidth 32).signExtend abi.bits + 1) * BitVec.ofNat _ abi.wordSize

/-- Steps 1 and 2. -/
def findEntry (fuel : Nat) : InjectProgram abi (Option (Word abi × Word abi)) := do
  match ← getRegs with
  | none => return some (0, 0)
  | some regs =>
    let argc ← peek regs.sp
    match ← skipEnvironment fuel (envpOf regs.sp (argc 0)) with
    | none => return none
    | some auxv => scanAuxv fuel auxv

/-! ### The trap -/

/-- The hijack address, with the last bit of the entry address. -/
def breakAddr (entry : Word abi) : Word abi := (BitVec.ofInt _ (-0x05ec1cff) &&& ~~~1) ||| (entry &&& 1)

def atBreak (entry ip : Word abi) : Bool := ip &&& ~~~1 = breakAddr entry &&& ~~~1

inductive Trap (abi : Abi) where
  | goesOn
  | failed
  | reached (regs : Regs abi)

/-- Resume until the trap is hit. -/
def runToTrap (entry : Word abi) : Nat → InjectProgram abi (Trap abi)
  | 0 => return .goesOn
  | fuel + 1 => do
    let resumed ← perform .cont
    if !resumed then return .failed
    else
      match ← perform .waitForTrace with
      | .tracerExits => return .goesOn
      | .stopped sig =>
        if sig = SIGSEGV then do
          match ← getRegs with
          | none => return .failed
          | some regs => return if atBreak entry regs.ip then .reached regs else .failed
        else if sig = SIGSTOP then runToTrap entry fuel
        else return .failed

/-- Step 3. A write counts as failed only when it transferred nothing. -/
def hijack (entry addr : Word abi) (fuel : Nat) : InjectProgram abi (Trap abi) := do
  let written ← pokeWord addr (breakAddr entry)
  if written = 0 then return .failed else runToTrap entry fuel

/-! ### Remote calls -/

/-- What the tracer looks up on its own side; a function that was not found is zero. -/
structure InjectConfig (abi : Abi) where
  libPath : List UInt8
  tmpPath : List UInt8
  libcReturnAddr : Word abi
  dlopenAddr : Word abi
  dlsymAddr : Word abi
  accessAddr : Word abi
  dlerrorAddr : Word abi
  strlenAddr : Word abi
  /-- The maps of `libzygisk.so`, their starts and ends, once `dlopen` has mapped it. -/
  libraryMaps : List (Word abi × Word abi)
  loader : LoaderConfig abi

def RTLD_NOW : Word abi := if abi.lp64 then 2 else 0

def R_OK : Word abi := 4

def pushString (s : List UInt8) : InjectProgram abi (Word abi) := do
  let regs ← perform .regsVar
  let sp := (regs.sp - BitVec.ofNat _ (s.length + 1)) &&& ~~~0xf
  remote (assignRegs { regs with sp })
  let ok ← remote (writeAll sp (s ++ [0]))
  return if ok then sp else 0

variable (c : InjectConfig abi)

/-- `remote_call` with the return trap in libc. -/
def call (funcAddr : Word abi) (args : List (Word abi)) : InjectProgram abi (Option (Word abi)) :=
  remote (remoteCall funcAddr c.libcReturnAddr args)

/-- Where the library is, and its `entry`. -/
structure LoadedLib (abi : Abi) where
  startAddr : Word abi
  blockSize : Word abi
  injectorEntry : Word abi
  customLoaded : Bool

/-- After a `dlopen` that returned a handle. -/
def resolveEntry (handle : Word abi) : InjectProgram abi (Option (LoadedLib abi)) :=
  if c.dlsymAddr = 0 then return none
  else do
    let name ← pushString [0x65, 0x6e, 0x74, 0x72, 0x79]
    match ← call c c.dlsymAddr [handle, name] with
    | none => return none
    | some entry =>
      if entry = 0 then return none
      else
        return some ⟨(c.libraryMaps.head?.map Prod.fst).getD 0,
          (c.libraryMaps.map fun m => m.2 - m.1).sum, entry, false⟩

/-- The diagnostics before the fallback; nothing depends on them. -/
def diagnose (remoteLibPath : Word abi) : InjectProgram abi Unit := do
  let _ ← (if c.accessAddr ≠ 0 then call c c.accessAddr [remoteLibPath, R_OK] else pure none)
  let text ← (if c.dlerrorAddr ≠ 0 then call c c.dlerrorAddr [] else pure none)
  match text with
  | none => return ()
  | some text =>
    if text = 0 ∨ c.strlenAddr = 0 then return ()
    else
      match ← call c c.strlenAddr [text] with
      | none => return ()
      | some len =>
        if 0 < len ∧ len < 4096 then
          let _ ← peek text
          return ()
        else return ()

/-- The custom loader, after a `dlopen` that rejected the path. -/
def loadFallback (remoteLibPath : Word abi) : InjectProgram abi (Option (LoadedLib abi)) := do
  diagnose c remoteLibPath
  let regs ← perform .regsVar
  match ← remote (remoteCsoloaderLoadAndResolveEntry c.loader regs) with
  | none => return none
  | some lib => return some ⟨lib.base, lib.totalSize, lib.entry, true⟩

def loadLibrary : InjectProgram abi (Option (LoadedLib abi)) :=
  if c.libcReturnAddr = 0 ∨ c.dlopenAddr = 0 then return none
  else do
    let remoteLibPath ← pushString c.libPath
    if remoteLibPath = 0 then return none
    else
      match ← call c c.dlopenAddr [remoteLibPath, RTLD_NOW] with
      | none => return none
      | some handle => if handle ≠ 0 then resolveEntry c handle else loadFallback c remoteLibPath

/-- Step 4 from the backup of the registers on, up to the restoring of them. Whatever fails in it goes to
`abort_injection`. -/
def injectRemotely (regs : Regs abi) : InjectProgram abi Bool := do
  remote (assignRegs (if abi = .aarch64 then { regs with pstate := regs.pstate &&& ~~~0xc00 } else regs))
  match ← loadLibrary c with
  | none => return false
  | some lib =>
    let remoteTmpPath ← pushString c.tmpPath
    let result ← call c lib.injectorEntry
      [lib.startAddr, lib.blockSize, remoteTmpPath, if lib.customLoaded then 1 else 0]
    return result.isSome

def backup (regs : Regs abi) (entry : Word abi) : Regs abi := { regs with ip := entry }

/-- `abort_injection`, or step 5. -/
def restoreState (regs : Regs abi) (entry : Word abi) (injected : Bool) : InjectProgram abi Bool := do
  let restored ← remote (setRegs (backup regs entry))
  return injected && restored

def injectOnMain (fuel : Nat) : InjectProgram abi (Option Bool) := do
  match ← findEntry fuel with
  | none => return none
  | some (entry, addr) =>
    if entry = 0 then return some false
    else
      match ← hijack entry addr fuel with
      | .goesOn => return none
      | .failed => return some false
      | .reached regs =>
        let written ← pokeWord addr entry
        if written = 0 then return some false
        else
          let injected ← injectRemotely c regs
          let done ← restoreState regs entry injected
          return some done

end Code

end OnyxZygisk.Ptracer
