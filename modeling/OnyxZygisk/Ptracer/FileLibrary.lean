import OnyxZygisk.Ptracer.DynInfo

/-!
# The library from its file

The `Library` of the loader as it reads it from the file: the headers, the relocation entries, and the addresses of the
symbols they name. A symbol the library defines itself has its value at the load bias; another one is looked for in the
needed modules the tracee has mapped, and the `dl` functions at last in the linker.
-/

namespace OnyxZygisk.Ptracer

variable {abi : Abi}

/-! ### Headers -/

def ehdrSize (abi : Abi) : Nat := if abi.lp64 then 64 else 52

def phdrSize (abi : Abi) : Nat := if abi.lp64 then 56 else 32

/-- The `i`-th program header from an offset on. -/
def phdrAt (f : ElfFile) (off i : Nat) : Option (Phdr abi) := do
  let base := off + i * phdrSize abi
  let field (at64 at32 : Nat) : Option (Word abi) := f.word abi.bits (base + if abi.lp64 then at64 else at32)
  let pType ← f.word 32 base
  let pFlags ← f.word 32 (base + if abi.lp64 then 4 else 24)
  let pOffset ← field 8 4
  let pVaddr ← field 16 8
  let pFilesz ← field 32 16
  let pMemsz ← field 40 20
  some ⟨pType.toNat, pFlags.getLsbD 2, pFlags.getLsbD 1, pFlags.getLsbD 0, pOffset, pVaddr, pFilesz, pMemsz⟩

/-- `e_phnum` headers at `e_phoff`. -/
def readPhdrs (f : ElfFile) : Option (List (Phdr abi)) := do
  let ePhoff : Word abi ← f.word abi.bits (if abi.lp64 then 32 else 28)
  let ePhnum ← f.word 16 (if abi.lp64 then 56 else 44)
  (List.range ePhnum.toNat).mapM (phdrAt f ePhoff.toNat)

/-! ### Relocation entries -/

/-- `ELF_R_TYPE` -/
def relocTypeOf (info : Word abi) : Nat := if abi.lp64 then info.toNat % 2 ^ 32 else info.toNat % 2 ^ 8

/-- `ELF_R_SYM` -/
def relocSymOf (info : Word abi) : Nat := if abi.lp64 then info.toNat / 2 ^ 32 else info.toNat / 2 ^ 8

def relaAt (f : ElfFile) (off i : Nat) : Option (Rela abi) := do
  let rOffset ← f.word abi.bits (off + i * (3 * abi.wordSize))
  let rInfo : Word abi ← f.word abi.bits (off + i * (3 * abi.wordSize) + abi.wordSize)
  let rAddend ← f.word abi.bits (off + i * (3 * abi.wordSize) + 2 * abi.wordSize)
  some ⟨rOffset, relocTypeOf rInfo, relocSymOf rInfo, rAddend⟩

def relAt (f : ElfFile) (off i : Nat) : Option (Rel abi) := do
  let rOffset ← f.word abi.bits (off + i * (2 * abi.wordSize))
  let rInfo : Word abi ← f.word abi.bits (off + i * (2 * abi.wordSize) + abi.wordSize)
  some ⟨rOffset, relocTypeOf rInfo, relocSymOf rInfo⟩

/-! ### Symbols of other modules -/

/-- What the loader uses of a line of the tracee's maps. -/
structure RemoteMap (abi : Abi) where
  path : List UInt8
  offset : Word abi

/-- The tracee's modules, as far as the tracer can tell. -/
structure RemoteModules (abi : Abi) where
  maps : List (RemoteMap abi)
  /-- `find_func_addr` for a path and a name, zero when it finds nothing. -/
  findFuncAddr : List UInt8 → List UInt8 → Word abi

/-- What stands behind the last slash. -/
def filenameOf (path : List UInt8) : List UInt8 := (path.reverse.takeWhile fun b => b ≠ 0x2f).reverse

def findRemoteModulePath (maps : List (RemoteMap abi)) (soname : List UInt8) : Option (List UInt8) :=
  (maps.find? fun m => m.path ≠ [] ∧ m.offset = 0 ∧ filenameOf m.path = soname).map RemoteMap.path

/-- The string at an offset of the table. -/
def strAt (strtab : List UInt8) (off : Nat) : List UInt8 := (strtab.drop off).takeWhile fun b => b ≠ 0

/-- `needed_paths` -/
def neededPaths (info : ElfDynInfo abi) (maps : List (RemoteMap abi)) : List (List UInt8) :=
  info.neededStrOffsets.filterMap fun off =>
    if info.strsz ≤ off.toNat then none else findRemoteModulePath maps (strAt info.strtab off.toNat)

def registerFrame : List UInt8 :=
  [0x5f, 0x5f, 0x72, 0x65, 0x67, 0x69, 0x73, 0x74, 0x65, 0x72, 0x5f, 0x66, 0x72, 0x61, 0x6d, 0x65]

def deregisterFrame : List UInt8 :=
  [0x5f, 0x5f, 0x64, 0x65, 0x72, 0x65, 0x67, 0x69, 0x73, 0x74, 0x65, 0x72, 0x5f, 0x66, 0x72, 0x61, 0x6d, 0x65]

/-- `dlopen`, `dlsym`, `dlerror`, `dl_iterate_phdr` and `dlclose`. -/
def dlFamily : List (List UInt8) :=
  [[0x64, 0x6c, 0x6f, 0x70, 0x65, 0x6e], [0x64, 0x6c, 0x73, 0x79, 0x6d], [0x64, 0x6c, 0x65, 0x72, 0x72, 0x6f, 0x72],
    [0x64, 0x6c, 0x5f, 0x69, 0x74, 0x65, 0x72, 0x61, 0x74, 0x65, 0x5f, 0x70, 0x68, 0x64, 0x72],
    [0x64, 0x6c, 0x63, 0x6c, 0x6f, 0x73, 0x65]]

/-- The linker exports them behind `__dl_`. -/
def linkerDlSymbol (name : List UInt8) : List UInt8 := [0x5f, 0x5f, 0x64, 0x6c, 0x5f] ++ name

/-- `/system/bin/linker`, with `64` behind it. -/
def linkerPath (abi : Abi) : List UInt8 :=
  [0x2f, 0x73, 0x79, 0x73, 0x74, 0x65, 0x6d, 0x2f, 0x62, 0x69, 0x6e, 0x2f, 0x6c, 0x69, 0x6e, 0x6b, 0x65, 0x72] ++
    if abi.lp64 then [0x36, 0x34] else []

/-- The addresses that a name is looked for, in this order. -/
def candidates (info : ElfDynInfo abi) (remote : RemoteModules abi) (name : List UInt8) : List (Word abi) :=
  (neededPaths info remote.maps).map (fun path => remote.findFuncAddr path name) ++
    if name ∈ dlFamily then [remote.findFuncAddr (linkerPath abi) (linkerDlSymbol name)] else []

/-- The address that is found for a name. -/
def foundAddr (info : ElfDynInfo abi) (remote : RemoteModules abi) (name : List UInt8) : Option (Word abi) :=
  (candidates info remote name).find? fun addr => addr ≠ 0

def symbolOffset (info : ElfDynInfo abi) (symIdx : Nat) : Nat := info.symtabOff.toNat + symIdx * info.syment

/-- The name of an undefined symbol, unless it has none. -/
def ElfDynInfo.nameOf (info : ElfDynInfo abi) (sym : Sym abi) : Option (List UInt8) :=
  if sym.stName = 0 ∨ info.strsz ≤ sym.stName.toNat then none
  else if strAt info.strtab sym.stName.toNat = [] then none
  else some (strAt info.strtab sym.stName.toNat)

def resolveSymbolAddr (f : ElfFile) (info : ElfDynInfo abi) (remote : RemoteModules abi) (loadBias : Word abi)
    (symIdx : Nat) : Option (Word abi) := do
  let sym ← symAt f (symbolOffset info symIdx)
  if sym.stShndx ≠ SHN_UNDEF then some (loadBias + sym.stValue)
  else
    let name ← info.nameOf sym
    -- the frame functions stay null
    if name = registerFrame ∨ name = deregisterFrame then some 0 else foundAddr info remote name

/-! ### The library -/

/-- `entry` -/
def entryName : List UInt8 := [0x65, 0x6e, 0x74, 0x72, 0x79]

def libraryOfFile (f : ElfFile) (turns : Nat) (remote : RemoteModules abi) : Library abi :=
  let phdrs : Option (List (Phdr abi)) := readPhdrs f
  let info := phdrs.bind (elfLoadDynInfo f turns)
  { eIdent := (f.pread (ehdrSize abi) 0).map (·.take 4)
    phdrs
    dynInfo := info.map ElfDynInfo.toDynInfo
    rela := fun off i => relaAt f off.toNat i
    rel := fun off i => relAt f off.toNat i
    resolveSymbolAddr := fun loadBias symIdx => info.bind fun info => resolveSymbolAddr f info remote loadBias symIdx
    entryValue := info.bind fun info => findDynsymValue f info entryName }

end OnyxZygisk.Ptracer
