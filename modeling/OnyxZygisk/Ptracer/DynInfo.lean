import OnyxZygisk.Lib.Memory
import OnyxZygisk.Ptracer.RemoteLoader

/-!
# The dynamic section

What `elf_load_dyn_info` reads of the library file: the last value of each tag it knows, the file offsets of the tables
these name, the string table, and the number of symbols, which only the GNU hash section tells.
-/

namespace OnyxZygisk.Ptracer

variable {abi : Abi}

/-! ### The file -/

structure ElfFile where
  byte : Memory
  size : Nat

namespace ElfFile

variable (f : ElfFile)

/-- `pread_full` -/
def pread (len off : Nat) : Option (List UInt8) := if off + len ≤ f.size then some (f.byte.read off len) else none

/-- `pread_full` of a word. -/
def word (w off : Nat) : Option (BitVec w) := if off + w / 8 ≤ f.size then some (f.byte.leWord w off) else none

end ElfFile

/-- Map a virtual address to its file offset via the `PT_LOAD` tables. -/
def vaddrToOffset (phdrs : List (Phdr abi)) (vaddr : Word abi) : Option (Word abi) :=
  phdrs.findSome? fun ph =>
    if ph.pType ≠ PT_LOAD then none
    else if vaddr < ph.pVaddr ∨ ph.pVaddr + ph.pFilesz ≤ vaddr then none
    else some (ph.pOffset + (vaddr - ph.pVaddr))

/-! ### Tags -/

def PT_DYNAMIC : Nat := 2

def DT_NULL : Word abi := 0

def DT_NEEDED : Word abi := 1

def DT_PLTRELSZ : Word abi := 2

def DT_STRTAB : Word abi := 5

def DT_SYMTAB : Word abi := 6

def DT_RELA : Word abi := 7

def DT_RELASZ : Word abi := 8

def DT_STRSZ : Word abi := 10

def DT_SYMENT : Word abi := 11

def DT_INIT : Word abi := 12

def DT_REL : Word abi := 17

def DT_RELSZ : Word abi := 18

def DT_PLTREL : Word abi := 20

def DT_JMPREL : Word abi := 23

def DT_INIT_ARRAY : Word abi := 25

def DT_INIT_ARRAYSZ : Word abi := 27

def DT_GNU_HASH : Word abi := 0x6ffffef5

/-- `ElfW(Dyn)` -/
structure Dyn (abi : Abi) where
  dTag : Word abi
  dVal : Word abi
  deriving DecidableEq

def dynAt (f : ElfFile) (off i : Nat) : Option (Dyn abi) := do
  let dTag ← f.word abi.bits (off + i * (2 * abi.wordSize))
  let dVal ← f.word abi.bits (off + i * (2 * abi.wordSize) + abi.wordSize)
  some ⟨dTag, dVal⟩

/-- The entries up to `DT_NULL`. -/
def readDyn (f : ElfFile) (ph : Phdr abi) : Option (List (Dyn abi)) :=
  ((List.range (ph.pFilesz.toNat / (2 * abi.wordSize))).mapM (dynAt f ph.pOffset.toNat)).map
    (·.takeWhile fun d => d.dTag ≠ DT_NULL)

/-- What the switch leaves in the variable of a tag. -/
def tagVal (dyn : List (Dyn abi)) (tag : Word abi) : Word abi :=
  ((dyn.filter fun d => d.dTag = tag).getLast?.map Dyn.dVal).getD 0

/-- A table of relocations, if there is one. -/
def tableOffset (phdrs : List (Phdr abi)) (vaddr size : Word abi) : Option (Word abi × Nat) :=
  if vaddr ≠ 0 ∧ size ≠ 0 then (vaddrToOffset phdrs vaddr).map fun off => (off, size.toNat) else some (0, 0)

/-- The tag's value as an `int`. -/
def pltRelOf (val : Word abi) : PltRel :=
  let type := val.setWidth 32
  if type = 7 then .rela else if type = 17 then .rel else .other type.toInt

/-! ### The number of symbols -/

/-- The largest of the buckets, as far as they can be read. Their distances are 32-bit products. -/
def maxBucket (f : ElfFile) (bucketsOff : Nat) : Nat → BitVec 32 → BitVec 32 → BitVec 32
  | 0, _, largest => largest
  | count + 1, b, largest =>
    match f.word 32 (bucketsOff + (b * 4).toNat) with
    | none => largest
    | some val => maxBucket f bucketsOff count (b + 1) (if largest < val then val else largest)

/-- Along the chain to the entry that ends it, or to the end of the file. -/
def walkChain (f : ElfFile) (chainsOff : Nat) : Nat → BitVec 32 → BitVec 32 → Option (BitVec 32)
  | 0, _, _ => none
  | turns + 1, symIndex, chainIdx =>
    match f.word 32 (chainsOff + (chainIdx * 4).toNat) with
    | none => some (symIndex + 1)
    | some val =>
      if val &&& 1 ≠ 0 then some (symIndex + 1) else walkChain f chainsOff turns (symIndex + 1) (chainIdx + 1)

/-- The number of symbols, from the GNU hash section at an offset; nothing if the chain takes more turns. -/
def gnuHashNsyms (abi : Abi) (f : ElfFile) (turns gnuHashOff : Nat) : Option Nat :=
  match f.word 32 gnuHashOff, f.word 32 (gnuHashOff + 4), f.word 32 (gnuHashOff + 8), f.word 32 (gnuHashOff + 12) with
  | some nbuckets, some symoffset, some bloomSize, some _ =>
    let bucketsOff := gnuHashOff + 16 + (BitVec.ofNat abi.bits (bloomSize.toNat * abi.wordSize)).toNat
    let largest := maxBucket f bucketsOff nbuckets.toNat 0 0
    if symoffset ≤ largest then
      (walkChain f (bucketsOff + (nbuckets * 4).toNat) turns largest (largest - symoffset)).map BitVec.toNat
    else some symoffset.toNat
  | _, _, _, _ => some 0

/-- The number of symbols, zero without the section. -/
def dynNsyms (f : ElfFile) (turns : Nat) (phdrs : List (Phdr abi)) (gnuHashVaddr : Word abi) : Option Nat :=
  if gnuHashVaddr = 0 then some 0
  else match vaddrToOffset phdrs gnuHashVaddr with
    | none => some 0
    | some gnuHashOff => gnuHashNsyms abi f turns gnuHashOff.toNat

/-! ### `elf_load_dyn_info` -/

structure ElfDynInfo (abi : Abi) extends DynInfo abi where
  symtabOff : Word abi
  syment : Nat
  /-- The string table, with a zero behind it. -/
  strtab : List UInt8
  strsz : Nat
  nsyms : Nat
  neededStrOffsets : List (Word abi)

/-- `sizeof(ElfW(Sym))` -/
def symSize (abi : Abi) : Nat := if abi.lp64 then 24 else 16

/-- What is read, unless it fails or takes more turns. The memory for the tables is there. -/
def elfLoadDynInfo (f : ElfFile) (turns : Nat) (phdrs : List (Phdr abi)) : Option (ElfDynInfo abi) := do
  let dynPhdr ← phdrs.find? fun ph => ph.pType = PT_DYNAMIC
  if dynPhdr.pFilesz = 0 then none
  else
    let dyn ← readDyn f dynPhdr
    let strsz := tagVal dyn DT_STRSZ
    if tagVal dyn DT_SYMTAB = 0 ∨ tagVal dyn DT_STRTAB = 0 ∨ strsz = 0 then none
    else
      let symtabOff ← vaddrToOffset phdrs (tagVal dyn DT_SYMTAB)
      let strtabOff ← vaddrToOffset phdrs (tagVal dyn DT_STRTAB)
      let (relOff, relSz) ← tableOffset phdrs (tagVal dyn DT_REL) (tagVal dyn DT_RELSZ)
      let (relaOff, relaSz) ← tableOffset phdrs (tagVal dyn DT_RELA) (tagVal dyn DT_RELASZ)
      let (jmprelOff, jmprelSz) ← tableOffset phdrs (tagVal dyn DT_JMPREL) (tagVal dyn DT_PLTRELSZ)
      let strtab ← f.pread strsz.toNat strtabOff.toNat
      let neededStrOffsets := (dyn.filter fun d => d.dTag = DT_NEEDED).map Dyn.dVal
      let nsyms ← dynNsyms f turns phdrs (tagVal dyn DT_GNU_HASH)
      let syment := tagVal dyn DT_SYMENT
      some
        { relOff, relSz, relaOff, relaSz, jmprelOff, jmprelSz
          pltrelType := pltRelOf (tagVal dyn DT_PLTREL)
          neededCount := neededStrOffsets.length
          initVaddr := tagVal dyn DT_INIT
          initArrayVaddr := tagVal dyn DT_INIT_ARRAY
          initArraySz := (tagVal dyn DT_INIT_ARRAYSZ).toNat
          symtabOff
          syment := if syment = 0 then symSize abi else syment.toNat
          strtab := strtab ++ [0]
          strsz := strsz.toNat
          nsyms, neededStrOffsets }

/-! ### Symbols -/

/-- What the loader uses of an `ElfW(Sym)`. -/
structure Sym (abi : Abi) where
  stName : BitVec 32
  stShndx : BitVec 16
  stValue : Word abi

def SHN_UNDEF : BitVec 16 := 0

/-- The symbol at an offset of the file. -/
def symAt (f : ElfFile) (off : Nat) : Option (Sym abi) :=
  if off + symSize abi ≤ f.size then
    if abi.lp64 then some ⟨f.byte.leWord 32 off, f.byte.leWord 16 (off + 6), f.byte.leWord _ (off + 8)⟩
    else some ⟨f.byte.leWord 32 off, f.byte.leWord 16 (off + 14), f.byte.leWord _ (off + 4)⟩
  else none

/-- `strcmp` with the string at an offset of the table finds no difference. -/
def strEq (strtab : List UInt8) (off : Nat) (name : List UInt8) : Bool :=
  (strtab.drop off).take (name.length + 1) = Memory.cstr name ∧ 0 ∉ name

/-- The name of the symbol is this one, as far as it has a name. -/
def ElfDynInfo.named (info : ElfDynInfo abi) (sym : Sym abi) (name : List UInt8) : Bool :=
  sym.stName ≠ 0 ∧ sym.stName.toNat < info.strsz ∧ strEq info.strtab sym.stName.toNat name

/-- `find_dynsym_value`, from a symbol on. -/
def findDynsymFrom (f : ElfFile) (info : ElfDynInfo abi) (name : List UInt8) : Nat → Nat → Option (Word abi)
  | 0, _ => none
  | count + 1, i =>
    match symAt f (info.symtabOff.toNat + i * info.syment) with
    | none => none
    | some sym =>
      if info.named sym name ∧ sym.stShndx ≠ SHN_UNDEF then some sym.stValue
      else findDynsymFrom f info name count (i + 1)

def findDynsymValue (f : ElfFile) (info : ElfDynInfo abi) (name : List UInt8) : Option (Word abi) :=
  findDynsymFrom f info name info.nsyms 0

end OnyxZygisk.Ptracer
