import OnyxZygisk.Lib.PackedRelocs
import OnyxZygisk.Ptracer.FileLibrary

/-!
# What the ABI prescribes

The relocations that the dynamic section of a library describes, in its tables and in their packed forms, and the value
that the word of each has to hold.
-/

namespace OnyxZygisk.Ptracer

variable {abi : Abi}

/-! ### Relocations -/

inductive RelocKind where
  /-- The word stays as it is. -/
  | none
  | relative
  /-- A symbol's address, with the addend of the entry if it has one. -/
  | symbolic
  /-- A symbol's address and the addend. -/
  | absolute
  | other
  deriving DecidableEq

/-- The relocation types of the machine. -/
def relocKind (abi : Abi) (type : Nat) : RelocKind :=
  match abi with
  | .aarch64 =>
    if type = 0 ∨ type = 256 then .none
    else if type = 1027 then .relative
    else if type = 1025 ∨ type = 1026 then .symbolic
    else if type = 257 then .absolute
    else .other
  | .arm =>
    if type = 0 then .none
    else if type = 23 then .relative
    else if type = 21 ∨ type = 22 then .symbolic
    else if type = 2 then .absolute
    else .other
  | .x86_64 | .i386 =>
    if type = 0 then .none
    else if type = 8 then .relative
    else if type = 6 ∨ type = 7 then .symbolic
    else if type = 1 then .absolute
    else .other

/-- A relocation; one without an addend of its own takes what stands in its word. -/
structure Reloc (abi : Abi) where
  rOffset : Word abi
  kind : RelocKind
  sym : Nat
  addend : Option (Word abi)

def Reloc.addendIn (e : Reloc abi) (word : Word abi) : Word abi :=
  e.addend.getD (if e.kind = .symbolic then 0 else word)

/-- An entry of a plain table. -/
inductive TableEntry (abi : Abi) where
  | rela (e : Rela abi)
  | rel (e : Rel abi)

def TableEntry.reloc : TableEntry abi → Reloc abi
  | rela e => ⟨e.rOffset, relocKind abi e.type, e.sym, some e.rAddend⟩
  | rel e => ⟨e.rOffset, relocKind abi e.type, e.sym, none⟩

def relaEntryAt (f : ElfFile) (off i : Nat) : Option (TableEntry abi) := (relaAt f off i).map .rela

def relEntryAt (f : ElfFile) (off i : Nat) : Option (TableEntry abi) := (relAt f off i).map .rel

/-! ### The dynamic section -/

def DT_RELRSZ : Word abi := 35

def DT_RELR : Word abi := 36

def DT_ANDROID_REL : Word abi := 0x6000000f

def DT_ANDROID_RELSZ : Word abi := 0x60000010

def DT_ANDROID_RELA : Word abi := 0x60000011

def DT_ANDROID_RELASZ : Word abi := 0x60000012

def DT_ANDROID_RELR : Word abi := 0x6fffe000

def DT_ANDROID_RELRSZ : Word abi := 0x6fffe001

/-- A library file with a dynamic section that the loader can read. -/
structure LibraryFile (abi : Abi) (turns : Nat) where
  file : ElfFile
  phdrs : List (Phdr abi)
  dyn : List (Dyn abi)
  info : ElfDynInfo abi
  readPhdrs_eq : readPhdrs file = some phdrs
  readDyn_eq : (phdrs.find? fun ph => ph.pType = PT_DYNAMIC).bind (readDyn file) = some dyn
  elfLoadDynInfo_eq : elfLoadDynInfo file turns phdrs = some info

namespace LibraryFile

variable {turns : Nat} (l : LibraryFile abi turns)

/-- Where a table is, and how long, by its two tags. -/
def table (addrTag sizeTag : Word abi) : Option (Nat × Nat) :=
  (vaddrToOffset l.phdrs (tagVal l.dyn addrTag)).map fun off => (off.toNat, (tagVal l.dyn sizeTag).toNat)

/-- The entries of a table. -/
def entries {α : Type} (addrTag sizeTag : Word abi) (size : Nat) (entryAt : ElfFile → Nat → Nat → Option α) : List α :=
  match l.table addrTag sizeTag with
  | none => []
  | some (off, len) => (List.range (len / size)).filterMap (entryAt l.file off)

def relaEntries (addrTag sizeTag : Word abi) : List (TableEntry abi) :=
  l.entries addrTag sizeTag (3 * abi.wordSize) relaEntryAt

def relEntries (addrTag sizeTag : Word abi) : List (TableEntry abi) :=
  l.entries addrTag sizeTag (2 * abi.wordSize) relEntryAt

def jmprelEntries : List (TableEntry abi) :=
  match pltRelOf (tagVal l.dyn DT_PLTREL) with
  | .rela => l.relaEntries DT_JMPREL DT_PLTRELSZ
  | .rel => l.relEntries DT_JMPREL DT_PLTRELSZ
  | .other _ => []

/-- What stands in the plain tables. -/
def tableEntries : List (TableEntry abi) :=
  l.relaEntries DT_RELA DT_RELASZ ++ (l.relEntries DT_REL DT_RELSZ ++ l.jmprelEntries)

def relrRelocs (addrTag sizeTag : Word abi) : List (Reloc abi) :=
  (PackedRelocs.relr 0 (l.entries addrTag sizeTag abi.wordSize fun f off i => f.word _ (off + i * abi.wordSize))).map
    fun rOffset => ⟨rOffset, .relative, 0, none⟩

/-- An Android table, whose relocations have an addend or not, without those that are for nothing. -/
def androidRelocs (addrTag sizeTag : Word abi) (hasAddend : Bool) : List (Reloc abi) :=
  match l.table addrTag sizeTag with
  | none => []
  | some (off, len) =>
    ((PackedRelocs.android (l.file.byte.read off len)).map fun e =>
      (⟨e.offset, relocKind abi (relocTypeOf e.info), relocSymOf e.info,
        if hasAddend then some e.addend else none⟩ : Reloc abi)).filter fun e => e.kind ≠ .none

/-- What the packed tables describe. -/
def packedRelocs : List (Reloc abi) :=
  l.relrRelocs DT_RELR DT_RELRSZ ++ (l.relrRelocs DT_ANDROID_RELR DT_ANDROID_RELRSZ ++
    (l.androidRelocs DT_ANDROID_REL DT_ANDROID_RELSZ false ++ l.androidRelocs DT_ANDROID_RELA DT_ANDROID_RELASZ true))

/-- All relocations that the dynamic section describes. -/
def relocs : List (Reloc abi) := l.tableEntries.map TableEntry.reloc ++ l.packedRelocs

end LibraryFile

/-! ### Symbols -/

/-- What names and functions stand for in the tracee. -/
structure SymbolScope (abi : Abi) where
  /-- Where another module defines the name. -/
  external : List UInt8 → Option (Word abi)
  /-- The address that an indirect function gives. -/
  indirect : Word abi → Word abi

def SHN_ABS : BitVec 16 := 0xfff1

def STT_GNU_IFUNC : Nat := 10

def STB_WEAK : Nat := 2

/-- `st_info` of the symbol at an offset. -/
def stInfoAt (abi : Abi) (f : ElfFile) (off : Nat) : Nat := (f.byte (off + if abi.lp64 then 4 else 12)).toNat

def stType (info : Nat) : Nat := info % 16

def stBind (info : Nat) : Nat := info / 16

inductive SymbolAddr (abi : Abi) where
  | defined (addr : Word abi)
  /-- A weak symbol without a definition. -/
  | weak
  | undefined

/-- The value of a word that is for the symbol: null for a weak one without a definition. -/
def SymbolAddr.value (addr : SymbolAddr abi) (addend : Word abi) : Option (Word abi) :=
  match addr with
  | .defined a => some (a + addend)
  | .weak => some 0
  | .undefined => none

/-- The address of a symbol that the library defines. -/
def ownAddr (scope : SymbolScope abi) (loadBias : Word abi) (sym : Sym abi) (stInfo : Nat) : Word abi :=
  let addr := if sym.stShndx = SHN_ABS then sym.stValue else loadBias + sym.stValue
  if stType stInfo = STT_GNU_IFUNC then scope.indirect addr else addr

/-- The address of a symbol that the library does not define. -/
def externalAddr (scope : SymbolScope abi) (name : Option (List UInt8)) (stInfo : Nat) : SymbolAddr abi :=
  match name.bind scope.external with
  | some addr => .defined addr
  | none => if stBind stInfo = STB_WEAK then .weak else .undefined

/-- The address that the loader takes for a symbol is the right one, as far as the value shows it. -/
def RightAddr (taken : Word abi) (addr : SymbolAddr abi) (addend : Word abi) : Prop :=
  match addr with
  | .defined a => if taken = 0 then a + addend = 0 else a = taken
  | .weak => taken = 0 ∨ taken + addend = 0
  | .undefined => False

namespace LibraryFile

variable {turns : Nat} (l : LibraryFile abi turns) (scope : SymbolScope abi) (loadBias : Word abi)

/-- `st_info` of a symbol. -/
def stInfo (symIdx : Nat) : Nat := stInfoAt abi l.file (symbolOffset l.info symIdx)

def symbolAddr (symIdx : Nat) : SymbolAddr abi :=
  match symAt l.file (symbolOffset l.info symIdx) with
  | none => .undefined
  | some sym =>
    if sym.stShndx ≠ SHN_UNDEF then .defined (ownAddr scope loadBias sym (l.stInfo symIdx))
    else externalAddr scope (l.info.nameOf sym) (l.stInfo symIdx)

/-- The value of the word of a relocation, if there is one. -/
def prescribed (e : Reloc abi) (word : Word abi) : Option (Word abi) :=
  match e.kind with
  | .none => some word
  | .relative => some (loadBias + e.addendIn word)
  | .symbolic | .absolute => (l.symbolAddr scope loadBias e.sym).value (e.addendIn word)
  | .other => none

/-! ### When the loader does the same -/

/-- A symbol of the library is neither absolute nor an indirect function, or this makes no difference. A name without a
definition here has the address that is found for it, and a frame function has none. -/
def SymbolRight (remote : RemoteModules abi) (symIdx : Nat) (addend : Word abi) : Prop :=
  ∀ sym, symAt l.file (symbolOffset l.info symIdx) = some sym →
    if sym.stShndx ≠ SHN_UNDEF then
      sym.stShndx = SHN_ABS ∨ stType (l.stInfo symIdx) = STT_GNU_IFUNC →
        RightAddr (loadBias + sym.stValue) (.defined (ownAddr scope loadBias sym (l.stInfo symIdx))) addend
    else ∀ name, l.info.nameOf sym = some name →
      if name = registerFrame ∨ name = deregisterFrame then
        RightAddr 0 (externalAddr scope (some name) (l.stInfo symIdx)) addend
      else ∀ addr, foundAddr l.info remote name = some addr →
        RightAddr addr (externalAddr scope (some name) (l.stInfo symIdx)) addend

/-- Entries for symbols have a right symbol. One that is for nothing stands in no table, or its value is there already:
with an addend the loader takes it for a relative one on the 32-bit ABIs. -/
def EntryRight (remote : RemoteModules abi) (e : Reloc abi) (word : Word abi) : Prop :=
  match e.kind with
  | .none => loadBias + e.addendIn word = word
  | .symbolic | .absolute => l.SymbolRight scope loadBias remote e.sym (e.addendIn word)
  | .relative | .other => True

end LibraryFile

end OnyxZygisk.Ptracer
