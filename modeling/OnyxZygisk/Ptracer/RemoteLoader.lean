import OnyxZygisk.Ptracer.Tracee

/-!
# The custom remote loader

`remote_csoloader_load_and_resolve_entry` maps the library into the tracee without the system linker: it
opens the file there, reserves the whole span, maps the segments over the reservation, writes the
relocations, protects the segments and runs the constructors. What it finds out on its own side, by
reading the same file locally, is a `Library`.
-/

namespace OnyxZygisk.Ptracer

variable {abi : Abi}

/-! ### Pages -/

def pageStart (addr pageSize : Word abi) : Word abi := addr &&& ~~~(pageSize - 1)

def pageEnd (addr pageSize : Word abi) : Word abi := pageStart (addr + pageSize - 1) pageSize

/-- `mmap2` of the 32-bit ABIs counts pages. -/
def remoteMmapOffsetArg (fileOffset pageSize : Word abi) : Word abi :=
  if abi.lp64 then fileOffset else fileOffset.sdiv pageSize

/-! ### The library -/

def PT_LOAD : Nat := 1

structure Phdr (abi : Abi) where
  pType : Nat
  /-- `PF_R`, `PF_W` and `PF_X` of `p_flags`. -/
  readable : Bool
  writable : Bool
  executable : Bool
  pOffset : Word abi
  pVaddr : Word abi
  pFilesz : Word abi
  pMemsz : Word abi

def ELFMAG : List UInt8 := [0x7f, 0x45, 0x4c, 0x46]

inductive RelocType where
  | relative
  /-- `GLOB_DAT` and `JUMP_SLOT`. -/
  | symbolic
  /-- `ABS64`, `ABS32`, `R_X86_64_64` and `R_386_32`. -/
  | absolute
  | unsupported
  deriving DecidableEq

def relaType (abi : Abi) (type : Nat) : RelocType :=
  match abi with
  | .aarch64 =>
    if type = 1027 then .relative
    else if type = 1025 ∨ type = 1026 then .symbolic
    else if type = 257 then .absolute
    else .unsupported
  | .x86_64 =>
    if type = 8 then .relative
    else if type = 6 ∨ type = 7 then .symbolic
    else if type = 1 then .absolute
    else .unsupported
  | .arm | .i386 => if type = 0 then .relative else .unsupported

def relType (abi : Abi) (type : Nat) : RelocType :=
  match abi with
  | .arm =>
    if type = 23 then .relative
    else if type = 21 ∨ type = 22 then .symbolic
    else if type = 2 then .absolute
    else .unsupported
  | .i386 =>
    if type = 8 then .relative
    else if type = 6 ∨ type = 7 then .symbolic
    else if type = 1 then .absolute
    else .unsupported
  | .aarch64 | .x86_64 => .unsupported

structure Rela (abi : Abi) where
  rOffset : Word abi
  type : Nat
  sym : Nat
  rAddend : Word abi

structure Rel (abi : Abi) where
  rOffset : Word abi
  type : Nat
  sym : Nat

inductive PltRel where
  | rela | rel
  | other (tag : Int)

/-- `elf_dyn_info`, a missing offset being zero. -/
structure DynInfo (abi : Abi) where
  relOff : Word abi
  relSz : Nat
  relaOff : Word abi
  relaSz : Nat
  jmprelOff : Word abi
  jmprelSz : Nat
  pltrelType : PltRel
  neededCount : Nat
  initVaddr : Word abi
  initArrayVaddr : Word abi
  initArraySz : Nat

/-- The library file as the tracer reads it; what could not be read, allocated or found is missing. -/
structure Library (abi : Abi) where
  eIdent : Option (List UInt8)
  phdrs : Option (List (Phdr abi))
  /-- `elf_load_dyn_info`. -/
  dynInfo : Option (DynInfo abi)
  /-- The `i`-th entry of the relocation section at an offset. -/
  rela : Word abi → Nat → Option (Rela abi)
  rel : Word abi → Nat → Option (Rel abi)
  /-- `resolve_symbol_addr` for a load bias and a symbol. -/
  resolveSymbolAddr : Word abi → Nat → Option (Word abi)
  /-- `find_dynsym_value` of `entry`. -/
  entryValue : Option (Word abi)

structure LoaderConfig (abi : Abi) where
  /-- `sysconf(_SC_PAGESIZE)`. -/
  pageSize : Word abi
  libPath : List UInt8
  /-- `open(lib_path)`. -/
  library : Option (Library abi)
  syscallGadget : Word abi
  /-- `find_module_return_addr` of `libc.so`, zero when there is none. -/
  constructorReturn : Word abi

structure Layout (abi : Abi) where
  phdrs : List (Phdr abi)
  minVaddr : Word abi
  mapSize : Word abi

/-- The lowest address and the highest end of the segments. -/
def loadSpan (phdrs : List (Phdr abi)) : Word abi × Word abi :=
  phdrs.foldl (fun span ph =>
    if ph.pType ≠ PT_LOAD then span
    else (if ph.pVaddr < span.1 then ph.pVaddr else span.1,
      if span.2 < ph.pVaddr + ph.pMemsz then ph.pVaddr + ph.pMemsz else span.2)) (-1, 0)

def computeLoadLayout (pageSize : Word abi) (lib : Library abi) : Option (Layout abi) :=
  if lib.eIdent ≠ some ELFMAG then none
  else match lib.phdrs with
    | none => none
    | some phdrs =>
      let (lo, hi) := loadSpan phdrs
      if hi ≤ lo then none
      else some ⟨phdrs, pageStart lo pageSize, pageEnd hi pageSize - pageStart lo pageSize⟩

/-! ### Reserving -/

/-- The span is there. -/
structure Reserved (abi : Abi) where
  lib : Library abi
  layout : Layout abi
  remoteFd : Word abi
  remoteBase : Word abi

namespace Reserved

variable (r : Reserved abi)

def loadBias : Word abi := r.remoteBase - r.layout.minVaddr

end Reserved

def closeRemote (fd : Word abi) : Program abi Unit := do
  let _ ← syscall (.close fd)
  return ()

def unmapRemote (base size : Word abi) : Program abi Unit := do
  let _ ← syscall (.munmap base size)
  return ()

def alignUp16 (n : Nat) : Nat := (n + 15) / 16 * 16

/-- Where the path is put on the tracee's stack. -/
def remotePath (c : LoaderConfig abi) (regs : Regs abi) : Word abi :=
  regs.sp - BitVec.ofNat _ (alignUp16 (c.libPath.length + 1))

/-- `openat` in the tracee, with the path on its stack. -/
def openRemote (c : LoaderConfig abi) (regs : Regs abi) : Program abi (Option (Word abi)) := do
  let written ← writeAll (remotePath c regs) (c.libPath ++ [0])
  if !written then return none
  else
    assignRegs { regs with sp := remotePath c regs }
    let remoteFd ← syscall (.openat (remotePath c regs))
    if remoteFd.slt 0 then return none
    else
      let zlen := alignUp16 (c.libPath.length + 1)
      let zeros ← calloc zlen
      if zeros then
        let _ ← writeProc (remotePath c regs) (List.replicate zlen 0)
        return some remoteFd
      else return some remoteFd

def minAddr : Word abi := if abi.lp64 then 0x100000000 else 0

/-- The loader up to the check of the reservation. -/
def reserve (c : LoaderConfig abi) (regs : Regs abi) : Program abi (Option (Reserved abi)) :=
  if c.pageSize.sle 0 then return none
  else match c.library with
    | none => return none
    | some lib =>
      match computeLoadLayout c.pageSize lib with
      | none => return none
      | some layout =>
        if c.syscallGadget = 0 then return none
        else do
          match ← openRemote c regs with
          | none => return none
          | some remoteFd =>
            let remoteBase ← syscall
              (.mmap minAddr layout.mapSize PROT_NONE (MAP_PRIVATE ||| MAP_ANONYMOUS) (-1) 0)
            if remoteBase = 0 ∨ remoteBase = MAP_FAILED then
              closeRemote remoteFd
              return none
            else return some ⟨lib, layout, remoteFd, remoteBase⟩

/-! ### Mapping the segments -/

section Segments

variable (c : LoaderConfig abi) (r : Reserved abi)

namespace Phdr

variable (ph : Phdr abi)

def segStart : Word abi := ph.pVaddr + r.loadBias

def segPage : Word abi := pageStart (ph.segStart r) c.pageSize

def segPageEnd : Word abi := pageEnd (ph.pVaddr + ph.pMemsz + r.loadBias) c.pageSize

def filePageOffset : Word abi := pageStart ph.pOffset c.pageSize

def fileEnd : Word abi := ph.pVaddr + ph.pFilesz + r.loadBias

def filePageEnd : Word abi := pageEnd (ph.fileEnd r) c.pageSize

def prot : Word abi :=
  (if ph.readable then PROT_READ else 0) ||| (if ph.writable then PROT_WRITE else 0) |||
    (if ph.executable then PROT_EXEC else 0)

end Phdr

/-- The rest of the last file page of a writable segment is zeroed. -/
def zeroTail (ph : Phdr abi) : Program abi Bool := do
  let tailLen := (ph.filePageEnd c r - ph.fileEnd r).toNat
  let zeros ← calloc tailLen
  let ok ← (if zeros then writeAll (ph.fileEnd r) (List.replicate tailLen 0) else pure false)
  if ok then return true
  else
    closeRemote r.remoteFd
    return false

def mapFile (ph : Phdr abi) : Program abi Bool := do
  let segMap ← syscall (.mmap (ph.segPage c r) (ph.filePageEnd c r - ph.segPage c r)
    (PROT_READ ||| PROT_WRITE) (MAP_FIXED ||| MAP_PRIVATE) r.remoteFd
    (remoteMmapOffsetArg (ph.filePageOffset c) c.pageSize))
  if segMap = 0 ∨ segMap = MAP_FAILED then
    closeRemote r.remoteFd
    return false
  else if ph.writable ∧ ph.fileEnd r < ph.filePageEnd c r then zeroTail c r ph
  else return true

def mapBss (ph : Phdr abi) : Program abi Bool := do
  let bssMap ← syscall (.mmap (ph.filePageEnd c r) (ph.segPageEnd c r - ph.filePageEnd c r)
    (PROT_READ ||| PROT_WRITE) (MAP_FIXED ||| MAP_PRIVATE ||| MAP_ANONYMOUS) (-1) 0)
  if bssMap = 0 ∨ bssMap = MAP_FAILED then
    closeRemote r.remoteFd
    return false
  else return true

/-- A turn of the mapping loop. -/
def mapSegment (ph : Phdr abi) : Program abi Bool :=
  if ph.pType ≠ PT_LOAD then return true
  else do
    let ok ← (if 0 < ph.pFilesz then mapFile c r ph else pure true)
    if !ok then return false
    else if ph.filePageEnd c r < ph.segPageEnd c r then mapBss c r ph
    else return true

/-- `segs`: what the final protections are for; the array has room for 64. -/
def loadSegments : List (Phdr abi) := (r.layout.phdrs.filter fun ph => ph.pType = PT_LOAD).take 64

/-! ### Relocating -/

/-- The value a RELA entry asks for. -/
def relaValue (e : Rela abi) : Option (Word abi) :=
  match relaType abi e.type with
  | .relative => some (r.loadBias + e.rAddend)
  | .symbolic | .absolute =>
    (r.lib.resolveSymbolAddr r.loadBias e.sym).map fun sym => if sym = 0 then 0 else sym + e.rAddend
  | .unsupported => none

def applyRelaEntry (off : Word abi) (i : Nat) : Program abi Bool :=
  match r.lib.rela off i with
  | none => return false
  | some e =>
    match relaValue r e with
    | none => return false
    | some value => writeAll (r.loadBias + e.rOffset) (wordBytes value)

def applyRelaSection (off : Word abi) (size : Nat) : Program abi Bool :=
  Prog.every (List.range (size / (3 * abi.wordSize))) (applyRelaEntry r off)

/-- The addend of a REL entry is in the word it is for. -/
def relValue (e : Rel abi) : Program abi (Option (Word abi)) :=
  match relType abi e.type with
  | .relative => do
    match ← readRemoteAddr (r.loadBias + e.rOffset) with
    | none => return none
    | some addend => return some (r.loadBias + addend)
  | .symbolic => return r.lib.resolveSymbolAddr r.loadBias e.sym
  | .absolute =>
    match r.lib.resolveSymbolAddr r.loadBias e.sym with
    | none => return none
    | some sym =>
      if sym = 0 then return some 0
      else do
        match ← readRemoteAddr (r.loadBias + e.rOffset) with
        | none => return none
        | some addend => return some (sym + addend)
  | .unsupported => return none

def applyRelEntry (off : Word abi) (i : Nat) : Program abi Bool :=
  match r.lib.rel off i with
  | none => return false
  | some e => do
    match ← relValue r e with
    | none => return false
    | some value => writeAll (r.loadBias + e.rOffset) (wordBytes value)

def applyRelSection (off : Word abi) (size : Nat) : Program abi Bool :=
  Prog.every (List.range (size / (2 * abi.wordSize))) (applyRelEntry r off)

def applyRelocations (d : DynInfo abi) : Program abi Bool := do
  let rela ← (if d.relaSz ≠ 0 ∧ d.relaOff ≠ 0 then applyRelaSection r d.relaOff d.relaSz else pure true)
  if !rela then return false
  else
    let rel ← (if d.relSz ≠ 0 ∧ d.relOff ≠ 0 then applyRelSection r d.relOff d.relSz else pure true)
    if !rel then return false
    else if d.jmprelSz ≠ 0 ∧ d.jmprelOff ≠ 0 then
      match d.pltrelType with
      | .rela => applyRelaSection r d.jmprelOff d.jmprelSz
      | .rel => applyRelSection r d.jmprelOff d.jmprelSz
      | .other _ => return false
    else return true

/-- The image is in place: every segment mapped, every relocation written. -/
def mapImage : Program abi (Option (DynInfo abi)) := do
  let mapped ← Prog.every r.layout.phdrs (mapSegment c r)
  if !mapped then return none
  else
    closeRemote r.remoteFd
    match r.lib.dynInfo with
    | none => return none
    | some d =>
      let paths ← (if d.neededCount ≠ 0 then calloc d.neededCount else pure true)
      if !paths then return none
      else
        let applied ← applyRelocations r d
        return if applied then some d else none

/-! ### Protections, constructors and the entry -/

def protectSegment (ph : Phdr abi) : Program abi Bool := do
  let ret ← syscall (.mprotect (ph.segPage c r) (ph.segPageEnd c r - ph.segPage c r) ph.prot)
  if ret.slt 0 then
    unmapRemote r.remoteBase r.layout.mapSize
    return false
  else return true

def protectSegments : Program abi Bool := Prog.every (loadSegments r) (protectSegment c r)

/-- The exits from the constructors on. -/
def giveUp (regs : Regs abi) : Program abi Bool := do
  unmapRemote r.remoteBase r.layout.mapSize
  assignRegs regs
  let _ ← setRegs regs
  return false

def callConstructor (regs : Regs abi) (address : Word abi) : Program abi Bool := do
  let result ← remoteCall address c.constructorReturn []
  if result.isSome then return true else giveUp r regs

/-- The `i`-th entry of `DT_INIT_ARRAY`. -/
def runInitEntry (regs : Regs abi) (initArray : Word abi) (i : Nat) : Program abi Bool := do
  match ← readRemoteAddr (initArray + BitVec.ofNat _ (i * abi.wordSize)) with
  | none => giveUp r regs
  | some constructor =>
    if constructor = 0 ∨ constructor = -1 then return true
    else callConstructor c r regs constructor

def runInitArray (regs : Regs abi) (d : DynInfo abi) : Program abi Bool :=
  if d.initArraySz % abi.wordSize ≠ 0 then giveUp r regs
  else
    Prog.every (List.range (d.initArraySz / abi.wordSize))
      (runInitEntry c r regs (r.loadBias + d.initArrayVaddr))

def runConstructors (regs : Regs abi) (d : DynInfo abi) : Program abi Bool := do
  let init ← (if d.initVaddr ≠ 0 then callConstructor c r regs (r.loadBias + d.initVaddr) else pure true)
  if !init then return false
  else if d.initArrayVaddr ≠ 0 ∧ d.initArraySz ≠ 0 then runInitArray c r regs d
  else return true

structure Loaded (abi : Abi) where
  base : Word abi
  totalSize : Word abi
  entry : Word abi

/-- The caller's registers are put back before it gets the entry. -/
def handOver (regs : Regs abi) : Program abi (Option (Loaded abi)) :=
  match r.lib.entryValue with
  | none => do
    let _ ← giveUp r regs
    return none
  | some entryValue => do
    assignRegs regs
    let restored ← setRegs regs
    if restored then return some ⟨r.remoteBase, r.layout.mapSize, r.loadBias + entryValue⟩
    else
      unmapRemote r.remoteBase r.layout.mapSize
      return none

def startImage (regs : Regs abi) (d : DynInfo abi) : Program abi (Option (Loaded abi)) := do
  let isProtected ← protectSegments c r
  if !isProtected then return none
  else if c.constructorReturn = 0 then
    unmapRemote r.remoteBase r.layout.mapSize
    return none
  else
    let constructed ← runConstructors c r regs d
    if !constructed then return none else handOver r regs

def lowBase : Bool := abi.lp64 && r.remoteBase < minAddr

/-- The loader from the reservation on. -/
def loadReserved (regs : Regs abi) : Program abi (Option (Loaded abi)) := do
  if lowBase r then
    unmapRemote r.remoteBase r.layout.mapSize
    closeRemote r.remoteFd
    return none
  else
    match ← mapImage c r with
    | none => return none
    | some d => startImage c r regs d

/-! ### Relocations only touch memory -/

/-- Operations on memory, the tracee's or the tracer's own. -/
def RemoteOp.InMemory : RemoteOp abi → Prop
  | .writeProc _ _ | .readWord _ | .calloc _ => True
  | _ => False

/-- A program that only reads and writes memory. -/
abbrev InMemory {α : Type} (p : Program abi α) : Prop := Prog.Only RemoteOp.InMemory p

theorem inMemory_perform {op : RemoteOp abi} (h : op.InMemory) :
    InMemory (Prog.perform op : Program abi op.Resp) := Prog.only_perform h

theorem inMemory_readRemoteAddr (addr : Word abi) : InMemory (readRemoteAddr addr) :=
  inMemory_perform trivial

theorem inMemory_writeAll (addr : Word abi) (data : List UInt8) : InMemory (writeAll addr data) :=
  Prog.only_bind (inMemory_perform trivial) fun _ => trivial

theorem inMemory_applyRelaEntry (off : Word abi) (i : Nat) : InMemory (applyRelaEntry r off i) := by
  rw [applyRelaEntry]
  cases r.lib.rela off i with
  | none => trivial
  | some e =>
    dsimp only
    cases relaValue r e with
    | none => trivial
    | some value => exact inMemory_writeAll _ _

theorem inMemory_relValue (e : Rel abi) : InMemory (relValue r e) := by
  rw [relValue]
  cases relType abi e.type with
  | relative =>
    apply Prog.only_bind (inMemory_readRemoteAddr _)
    intro addend
    cases addend <;> trivial
  | symbolic => trivial
  | absolute =>
    dsimp only
    cases r.lib.resolveSymbolAddr r.loadBias e.sym with
    | none => trivial
    | some sym =>
      refine Prog.only_ite (by trivial) ?_
      apply Prog.only_bind (inMemory_readRemoteAddr _)
      intro addend
      cases addend <;> trivial
  | unsupported => trivial

theorem inMemory_applyRelEntry (off : Word abi) (i : Nat) : InMemory (applyRelEntry r off i) := by
  rw [applyRelEntry]
  cases r.lib.rel off i with
  | none => trivial
  | some e =>
    apply Prog.only_bind (inMemory_relValue r e)
    intro value
    cases value with
    | none => trivial
    | some value => exact inMemory_writeAll _ _

theorem inMemory_applyRelaSection (off : Word abi) (size : Nat) : InMemory (applyRelaSection r off size) :=
  Prog.only_every fun i _ => inMemory_applyRelaEntry r off i

theorem inMemory_applyRelSection (off : Word abi) (size : Nat) : InMemory (applyRelSection r off size) :=
  Prog.only_every fun i _ => inMemory_applyRelEntry r off i

theorem inMemory_applyRelocations (d : DynInfo abi) : InMemory (applyRelocations r d) := by
  rw [applyRelocations]
  apply Prog.only_bind (Prog.only_ite (inMemory_applyRelaSection r _ _) (by trivial))
  intro rela
  refine Prog.only_ite (by trivial) ?_
  apply Prog.only_bind (Prog.only_ite (inMemory_applyRelSection r _ _) (by trivial))
  intro rel
  refine Prog.only_ite (by trivial) (Prog.only_ite ?_ (by trivial))
  cases d.pltrelType with
  | rela => exact inMemory_applyRelaSection r _ _
  | rel => exact inMemory_applyRelSection r _ _
  | other tag => trivial

/-- What `mapImage` does behind the mapping loop. -/
theorem inMemory_link (d : DynInfo abi) : InMemory (do
    let paths ← (if d.neededCount ≠ 0 then calloc d.neededCount else pure true)
    if !paths then return none
    else
      let applied ← applyRelocations r d
      return if applied then some d else none) := by
  apply Prog.only_bind (Prog.only_ite (inMemory_perform (by trivial)) (by trivial))
  intro (paths : Bool)
  refine Prog.only_ite (by trivial) ?_
  exact Prog.only_bind (inMemory_applyRelocations r d) fun _ => trivial

end Segments

def remoteCsoloaderLoadAndResolveEntry (c : LoaderConfig abi) (regs : Regs abi) :
    Program abi (Option (Loaded abi)) := do
  match ← reserve c regs with
  | none => return none
  | some r => loadReserved c r regs

/-! ### A small library -/

section Example

/-- A library of one page, with nothing to relocate. -/
def onePage : Library .aarch64 where
  eIdent := some ELFMAG
  phdrs := some [⟨1, true, false, true, 0, 0, 0x1000, 0x1000⟩]
  dynInfo := some ⟨0, 0, 0, 0, 0, 0, .rela, 0, 0, 0, 0⟩
  rela _ _ := none
  rel _ _ := none
  resolveSymbolAddr _ _ := none
  entryValue := some 0x100

def onePageConfig (lib : Library .aarch64) : LoaderConfig .aarch64 :=
  ⟨0x1000, [0x2f, 0x61], some lib, 0x7fff0000, 0x7ffe0000⟩

/-- Everything works, and mapping the file is answered by `v`. -/
def answering (v : Word .aarch64) : TraceEnv .aarch64 where
  syscall _ call :=
    { saves := true, sets := true, steps := true, reads := true, executed := true, restores := true
      left := ⟨0, 0, 0, 0, []⟩
      answer := match call with
        | .openat _ => 5
        | .mmap _ _ _ _ fd _ => if fd = 5 then v else 0x7000000000
        | _ => 0 }
  written _ := 3
  word _ := none
  call _ := ⟨some 0, ⟨0, 0, 0, 0, []⟩, ⟨0, 0, 0, 0, []⟩, fun _ => false⟩
  setRegs _ := true
  calloc _ := true

end Example

end OnyxZygisk.Ptracer
