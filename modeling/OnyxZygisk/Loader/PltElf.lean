import OnyxZygisk.Lib.SysvHash
import OnyxZygisk.Loader.GnuLookup

/-!
# The slots of a symbol

The library for PLT hooks reads a loaded image for itself: from the header to the dynamic section, and from there to
the symbols, one of two hash sections and the relocations. It looks a name up by the GNU hashes, then by the System V
ones, then among the symbols that no GNU hash section has, and goes through the relocations for that symbol. What it
finds is what a search of the relocations for the name would find, whichever sections the image has and in whatever
order they are listed (`findPltAddr_eq`), as long as one symbol has the name.
-/

namespace OnyxZygisk.Lsplt

open Loader (ElfClass u32At addrAt isCString)

/-! ### The image -/

inductive Arch where
  | arm | aarch64 | i386 | x86_64 | riscv64
  deriving DecidableEq

namespace Arch

def cls : Arch → ElfClass
  | arm | i386 => .elf32
  | aarch64 | x86_64 | riscv64 => .elf64

/-- `e_machine` -/
def machine : Arch → Nat
  | arm => 40
  | aarch64 => 183
  | i386 => 3
  | x86_64 => 62
  | riscv64 => 243

/-- `ELF_R_GENERIC_JUMP_SLOT` -/
def jumpSlot : Arch → Nat
  | arm => 22
  | aarch64 => 1026
  | i386 | x86_64 => 7
  | riscv64 => 5

/-- `ELF_R_GENERIC_GLOB_DAT` -/
def globDat : Arch → Nat
  | arm => 21
  | aarch64 => 1025
  | i386 | x86_64 => 6
  | riscv64 => 2

/-- `ELF_R_GENERIC_ABS` -/
def abs : Arch → Nat
  | arm | riscv64 => 2
  | aarch64 => 257
  | i386 | x86_64 => 1

/-- The sum of an address and an offset. -/
def add (arch : Arch) (addr off : Nat) : Nat := (addr + off) % 2 ^ arch.cls.bits

end Arch

def u16At (m : Memory) (ptr : Nat) : Nat := (m.leWord 16 ptr).toNat

/-- The pointers into the hash section. `chain_` is behind the buckets, less the symbols that are not in the table. -/
structure HashPtrs where
  bucketCount : Nat := 0
  symOffset : Nat := 0
  bloom : Nat := 0
  bloomSize : Nat := 0
  bloomShift : Nat := 0
  bucket : Nat := 0
  deriving DecidableEq

/-- `class Elf` -/
structure Elf where
  baseAddr : Nat
  biasAddr : Nat := 0
  dynStr : Nat := 0
  dynSym : Nat := 0
  relPlt : Nat := 0
  relPltSize : Nat := 0
  relDyn : Nat := 0
  relDynSize : Nat := 0
  relAndroid : Nat := 0
  relAndroidSize : Nat := 0
  hash : HashPtrs := {}
  useRela : Bool := false
  valid : Bool := false
  deriving DecidableEq

namespace Elf

section Parse

variable (arch : Arch) (m : Memory) (baseAddr : Nat)

/-- The checks of the header. -/
def headerOk : Bool :=
  m.read baseAddr 4 = [0x7f, 0x45, 0x4c, 0x46] &&
    m (baseAddr + 4) = (match arch.cls with | .elf32 => 1 | .elf64 => 2) &&
    m (baseAddr + 5) = 1 && m (baseAddr + 6) = 1 &&
    (u16At m (baseAddr + 16) = 2 || u16At m (baseAddr + 16) = 3) &&
    u16At m (baseAddr + 18) = arch.machine && u32At m (baseAddr + 20) = 1

/-- The fields of a program header that are read: `p_type`, `p_offset`, `p_vaddr` and `p_memsz`. -/
structure Phdr where
  type : Nat
  offset : Nat
  vaddr : Nat
  memsz : Nat

def phdrAt (ptr : Nat) : Phdr :=
  let field (offset32 offset64 : Nat) := match arch.cls with
    | .elf32 => (addrAt arch.cls m (ptr + offset32)).toNat
    | .elf64 => (addrAt arch.cls m (ptr + offset64)).toNat
  ⟨(u32At m ptr).toNat, field 4 8, field 8 16, field 20 40⟩

def phdrs : List Phdr :=
  let (phoff, phentsize, phnum) := match arch.cls with
    | .elf32 => (28, 42, 44)
    | .elf64 => (32, 54, 56)
  let first := baseAddr + (addrAt arch.cls m (baseAddr + phoff)).toNat
  (List.range (u16At m (baseAddr + phnum))).map fun i => phdrAt arch m (first + i * u16At m (baseAddr + phentsize))

/-- The bias, and where the dynamic section is and how long; zero stands for what is not found. -/
def scanPhdrs (baseAddr : Nat) (phdrs : List Phdr) : Nat × Nat × Nat :=
  phdrs.foldl (fun (bias, dynamic, size) ph =>
    if ph.type = 1 ∧ ph.offset = 0 then
      if ph.vaddr ≤ baseAddr then (baseAddr - ph.vaddr, dynamic, size) else (bias, dynamic, size)
    -- `dynamic_size_` is a word
    else if ph.type = 2 then (bias, ph.vaddr, ph.memsz % 2 ^ 32)
    else (bias, dynamic, size)) (0, 0, 0)

/-- The entries of the dynamic section up to `DT_NULL`, as tags with their values. -/
def dynEntries (dynamic size : Nat) : List (Nat × Nat) :=
  let width := arch.cls.addrSize
  ((List.range (size / (2 * width))).map fun i =>
    let entry := dynamic + i * (2 * width)
    ((addrAt arch.cls m entry).toNat, (addrAt arch.cls m (entry + width)).toNat)).takeWhile fun e => e.1 ≠ 0

def DT_HASH : Nat := 4
def DT_STRTAB : Nat := 5
def DT_SYMTAB : Nat := 6
def DT_GNU_HASH : Nat := 0x6ffffef5

/-- What `DT_HASH` sets, unless there is a GNU hash section already. -/
def sysvPtrs (m : Memory) (raw : Nat) (h : HashPtrs) : HashPtrs :=
  if h.bloom ≠ 0 then h else { h with bucketCount := (u32At m raw).toNat, bucket := raw + 8 }

/-- What `DT_GNU_HASH` sets. -/
def gnuPtrs (raw : Nat) : HashPtrs :=
  let bloom := raw + 16
  { bucketCount := (u32At m raw).toNat
    symOffset := (u32At m (raw + 4)).toNat
    bloom
    bloomSize := (u32At m (raw + 8)).toNat
    bloomShift := (u32At m (raw + 12)).toNat
    bucket := bloom + (u32At m (raw + 8)).toNat * arch.cls.addrSize }

/-- `SetByOffset`: none where the pointer is not behind the start of the image. -/
def setByOffset (e : Elf) (off : Nat) : Option Nat :=
  if e.baseAddr < arch.add e.biasAddr off then some (arch.add e.biasAddr off) else none

/-- One turn of the loop over the dynamic section; none makes the image invalid. -/
def applyEntry (e : Elf) (tag val : Nat) : Option Elf :=
  match tag with
  | 5 => (e.setByOffset arch val).map fun ptr => { e with dynStr := ptr }
  | 6 => (e.setByOffset arch val).map fun ptr => { e with dynSym := ptr }
  | 20 => some { e with useRela := val = 7 }
  | 23 => (e.setByOffset arch val).map fun ptr => { e with relPlt := ptr }
  | 2 => some { e with relPltSize := val % 2 ^ 32 }
  | 17 | 7 => (e.setByOffset arch val).map fun ptr => { e with relDyn := ptr }
  | 18 | 8 => some { e with relDynSize := val % 2 ^ 32 }
  | 0x6000000f | 0x60000011 => (e.setByOffset arch val).map fun ptr => { e with relAndroid := ptr }
  | 0x60000010 | 0x60000012 => some { e with relAndroidSize := val % 2 ^ 32 }
  | 4 => some { e with hash := sysvPtrs m (arch.add e.biasAddr val) e.hash }
  | 0x6ffffef5 => some { e with hash := gnuPtrs arch m (arch.add e.biasAddr val) }
  | _ => some e

/-- Packed relocations begin with `APS2`. -/
def skipMagic (e : Elf) : Option Elf :=
  if e.relAndroid = 0 then some e
  else if e.relAndroidSize < 4 ∨ m.read e.relAndroid 4 ≠ [0x41, 0x50, 0x53, 0x32] then none
  else some { e with relAndroid := e.relAndroid + 4, relAndroidSize := e.relAndroidSize - 4 }

/-- The dynamic section of the image, if its headers are in order. -/
def dynamicOf : Option (Nat × List (Nat × Nat)) :=
  if headerOk arch m baseAddr then
    let (bias, dynamic, size) := scanPhdrs baseAddr (phdrs arch m baseAddr)
    if dynamic = 0 ∨ bias = 0 then none else some (bias, dynEntries arch m (arch.add bias dynamic) size)
  else none

/-- The constructor; none where it leaves `valid_` unset. -/
def ofBase : Option Elf := do
  let (bias, entries) ← dynamicOf arch m baseAddr
  let e ← entries.foldlM (fun (e : Elf) entry => e.applyEntry arch m entry.1 entry.2) { baseAddr, biasAddr := bias }
  let e ← e.skipMagic m
  return { e with valid := true }

end Parse

/-! ### The lookup -/

section Lookup

variable (arch : Arch) (m : Memory) (e : Elf) (name : List UInt8)

/-- The string that `st_name` is the offset of. -/
def symName (idx : Nat) : Nat := e.dynStr + (u32At m (e.dynSym + idx * arch.cls.symSize)).toNat

def isNamed (idx : Nat) : Bool := isCString m (symName arch m e idx) name

def chainAt (idx : Nat) : BitVec 32 :=
  u32At m (e.hash.bucket + e.hash.bucketCount * 4 + idx * 4 - e.hash.symOffset * 4)

def gnuHashOf : BitVec 32 := name.foldl (fun h c => h + ((h <<< 5) + BitVec.ofNat 32 c.toNat)) 5381

/-- The `do` loop, for some turns at most. -/
def gnuWalk (hash : BitVec 32) : Nat → Nat → Option Nat
  | 0, _ => none
  | turns + 1, idx =>
    if (chainAt m e idx ^^^ hash) >>> 1 = 0 ∧ isNamed arch m e name idx = true then some idx
    else if chainAt m e idx &&& 1 = 0 then gnuWalk hash turns (idx + 1)
    else some 0

def gnuLookup (turns : Nat) : Option Nat :=
  if e.hash.bucket = 0 ∨ e.hash.bloom = 0 then some 0
  else
    let hash := gnuHashOf name
    let bits := arch.cls.bits
    let word := addrAt arch.cls m (e.hash.bloom + hash.toNat / bits % e.hash.bloomSize * arch.cls.addrSize)
    let mask : BitVec bits := 1#_ <<< (hash.toNat % bits) ||| 1#_ <<< ((hash >>> e.hash.bloomShift).toNat % bits)
    if mask &&& word ≠ mask then some 0
    else
      let idx := (u32At m (e.hash.bucket + hash.toNat % e.hash.bucketCount * 4)).toNat
      if idx < e.hash.symOffset then some 0 else gnuWalk arch m e name hash turns idx

def elfHashOf : BitVec 32 :=
  name.foldl (fun h c =>
    let h := (h <<< 4) + BitVec.ofNat 32 c.toNat
    let tmp := h &&& 0xf0000000
    (h ^^^ tmp) ^^^ (tmp >>> 24)) 0

/-- The `for` loop, for some turns at most. -/
def elfWalk : Nat → Nat → Option Nat
  | 0, _ => none
  | turns + 1, idx =>
    if idx = 0 then some 0
    else if isNamed arch m e name idx then some idx
    else elfWalk turns (chainAt m e idx).toNat

def elfLookup (turns : Nat) : Option Nat :=
  if e.hash.bucket = 0 ∨ e.hash.bloom ≠ 0 then some 0
  else elfWalk arch m e name turns (u32At m (e.hash.bucket + (elfHashOf name).toNat % e.hash.bucketCount * 4)).toNat

def linearLookup : Nat :=
  if e.dynSym = 0 ∨ e.hash.symOffset = 0 then 0
  else ((List.range e.hash.symOffset).find? (isNamed arch m e name)).getD 0

/-- The three lookups, one after the other. -/
def symbolIndex (turns : Nat) : Option Nat := do
  let idx ← gnuLookup arch m e name turns
  let idx ← if idx = 0 then elfLookup arch m e name turns else return idx
  return if idx = 0 then linearLookup arch m e name else idx

end Lookup

/-! ### The relocations -/

/-- `r_offset` and the parts of `r_info`. -/
structure Rel where
  offset : Nat
  sym : Nat
  type : Nat

section Relocations

variable (arch : Arch) (m : Memory) (e : Elf)

def relAt (ptr : Nat) : Rel :=
  let info := (addrAt arch.cls m (ptr + arch.cls.addrSize)).toNat
  let shift := match arch.cls with
    | .elf32 => 8
    | .elf64 => 32
  ⟨(addrAt arch.cls m ptr).toNat, info >>> shift, info % 2 ^ shift⟩

/-- The relocations that begin before the end of a table. -/
def rels (start size : Nat) : List Rel :=
  let width := arch.cls.addrSize * if e.useRela then 3 else 2
  (List.range ((size + width - 1) / width)).map fun i => relAt arch m (start + i * width)

/-- The types of relocations that are looked for in a table. -/
def Rel.wanted (isPlt : Bool) (r : Rel) : Bool :=
  if isPlt then r.type = arch.jumpSlot else r.type = arch.abs || r.type = arch.globDat

/-- `looper` -/
def slots (idx : Nat) (isPlt : Bool) : List Rel → List Nat
  | [] => []
  | r :: rest =>
    if r.sym ≠ idx then slots idx isPlt rest
    else if !r.wanted arch isPlt then slots idx isPlt rest
    else
      let addr := arch.add e.biasAddr r.offset
      (if e.baseAddr < addr then [addr] else []) ++ if isPlt then [] else slots idx isPlt rest

/-- The tables that are there, and whether each is the one of the PLT. -/
def tables : List (Nat × Nat × Bool) :=
  [(e.relPlt, e.relPltSize, true), (e.relDyn, e.relDynSize, false), (e.relAndroid, e.relAndroidSize, false)].filter
    fun table => table.1 ≠ 0

def findPltAddr (turns : Nat) (name : List UInt8) : Option (List Nat) := do
  let idx ← symbolIndex arch m e name turns
  if idx = 0 then return []
  else return (tables e).flatMap fun (start, size, isPlt) => slots arch e idx isPlt (rels arch m e start size)

end Relocations

/-! ### The pointers of the constructor -/

section Constructor

variable {arch : Arch} {m : Memory} {e e' : Elf} {entries : List (Nat × Nat)}

/-- One entry leaves the bias as it is, and the pointers into the hash section but for its two tags. -/
theorem applyEntry_hash {tag val : Nat} (h : e.applyEntry arch m tag val = some e') :
    e'.biasAddr = e.biasAddr ∧ e'.hash =
      if tag = DT_HASH then sysvPtrs m (arch.add e.biasAddr val) e.hash
      else if tag = DT_GNU_HASH then gnuPtrs arch m (arch.add e.biasAddr val) else e.hash := by
  unfold applyEntry at h
  split at h
  -- the tags that set a pointer or a size
  all_goals first
    | (obtain ⟨ptr, -, rfl⟩ := Option.map_eq_some_iff.1 h; exact ⟨rfl, rfl⟩)
    | (cases h; exact ⟨rfl, rfl⟩)
    | skip
  cases h
  have hgnu : tag ≠ DT_GNU_HASH := by assumption
  have hsysv : tag ≠ DT_HASH := by assumption
  exact ⟨rfl, by rw [if_neg hsysv, if_neg hgnu]⟩

/-- The entries have one GNU hash section. -/
def ListsGnu (entries : List (Nat × Nat)) (p : Nat) : Prop :=
  (DT_GNU_HASH, p) ∈ entries ∧ ∀ q, (DT_GNU_HASH, q) ∈ entries → q = p

/-- The entries have one System V hash section and no other. -/
def ListsSysv (entries : List (Nat × Nat)) (p : Nat) : Prop :=
  (DT_HASH, p) ∈ entries ∧ (∀ q, (DT_HASH, q) ∈ entries → q = p) ∧ ∀ q, (DT_GNU_HASH, q) ∉ entries

/-- The loop over the dynamic section. -/
def applyAll (arch : Arch) (m : Memory) (entries : List (Nat × Nat)) (e : Elf) : Option Elf :=
  entries.foldlM (fun (e : Elf) entry => e.applyEntry arch m entry.1 entry.2) e

theorem applyAll_cons {entry : Nat × Nat} (h : applyAll arch m (entry :: entries) e = some e') :
    ∃ e₁, e.applyEntry arch m entry.1 entry.2 = some e₁ ∧ applyAll arch m entries e₁ = some e' := by
  rw [applyAll, List.foldlM_cons] at h
  exact Option.bind_eq_some_iff.1 h

theorem biasAddr_applyAll (h : applyAll arch m entries e = some e') : e'.biasAddr = e.biasAddr := by
  induction entries generalizing e with
  | nil =>
    cases h
    rfl
  | cons entry entries ih =>
    obtain ⟨e₁, hstep, hrest⟩ := applyAll_cons h
    exact (ih hrest).trans (applyEntry_hash hstep).1

/-- Wherever it is listed, the GNU hash section is the one that is used. -/
theorem hash_of_gnu {p : Nat} (hp : ∀ q, (DT_GNU_HASH, q) ∈ entries → q = p)
    (h : applyAll arch m entries e = some e')
    (hset : (DT_GNU_HASH, p) ∈ entries ∨ e.hash = gnuPtrs arch m (arch.add e.biasAddr p)) :
    e'.hash = gnuPtrs arch m (arch.add e.biasAddr p) := by
  induction entries generalizing e with
  | nil =>
    cases h
    exact hset.resolve_left List.not_mem_nil
  | cons entry entries ih =>
    obtain ⟨e₁, hstep, hrest⟩ := applyAll_cons h
    obtain ⟨hbias, hhash⟩ := applyEntry_hash hstep
    have hrest' := ih (fun q hq => hp q (.tail _ hq)) hrest
    rw [hbias] at hrest'
    refine hrest' ?_
    by_cases hgnu : entry.1 = DT_GNU_HASH
    · have hval : entry.2 = p := hp entry.2 (by rw [← hgnu]; exact .head _)
      have hother : entry.1 ≠ DT_HASH := by rw [hgnu]; decide
      right
      rw [hhash, if_neg hother, if_pos hgnu, hval]
    · rcases hset with hmem | hdone
      · rcases List.mem_cons.1 hmem with rfl | hmem
        · exact absurd rfl hgnu
        · exact .inl hmem
      · right
        have hbloom : (gnuPtrs arch m (arch.add e.biasAddr p)).bloom ≠ 0 := Nat.succ_ne_zero _
        rw [hhash, if_neg hgnu, hdone, sysvPtrs, if_pos hbloom, ite_self]

/-- Without one, the System V hash section is. -/
theorem hash_of_sysv {p : Nat} (hp : ∀ q, (DT_HASH, q) ∈ entries → q = p) (hgnu : ∀ q, (DT_GNU_HASH, q) ∉ entries)
    (h : applyAll arch m entries e = some e') (hsym : e.hash.symOffset = 0) (hbloom : e.hash.bloom = 0)
    (hset : (DT_HASH, p) ∈ entries ∨
      (e.hash.bucketCount = (u32At m (arch.add e.biasAddr p)).toNat ∧ e.hash.bucket = arch.add e.biasAddr p + 8)) :
    e'.hash.symOffset = 0 ∧ e'.hash.bloom = 0 ∧
      e'.hash.bucketCount = (u32At m (arch.add e.biasAddr p)).toNat ∧ e'.hash.bucket = arch.add e.biasAddr p + 8 := by
  induction entries generalizing e with
  | nil =>
    cases h
    exact ⟨hsym, hbloom, hset.resolve_left List.not_mem_nil⟩
  | cons entry entries ih =>
    obtain ⟨e₁, hstep, hrest⟩ := applyAll_cons h
    obtain ⟨hbias, hhash⟩ := applyEntry_hash hstep
    have hother : entry.1 ≠ DT_GNU_HASH := fun heq => hgnu entry.2 (by rw [← heq]; exact .head _)
    rw [if_neg hother, sysvPtrs, if_neg (not_not.2 hbloom)] at hhash
    have hrest' := ih (fun q hq => hp q (.tail _ hq)) (fun q hq => hgnu q (.tail _ hq)) hrest
    rw [hbias] at hrest'
    by_cases hsysv : entry.1 = DT_HASH
    · have hval : entry.2 = p := hp entry.2 (by rw [← hsysv]; exact .head _)
      rw [if_pos hsysv, hval] at hhash
      exact hrest' (by rw [hhash]; exact hsym) (by rw [hhash]; exact hbloom) (.inr (by rw [hhash]; exact ⟨rfl, rfl⟩))
    · rw [if_neg hsysv] at hhash
      refine hrest' (by rw [hhash]; exact hsym) (by rw [hhash]; exact hbloom) ?_
      rw [hhash]
      rcases hset with hmem | hdone
      · rcases List.mem_cons.1 hmem with rfl | hmem
        · exact absurd rfl hsysv
        · exact .inl hmem
      · exact .inr hdone

theorem hash_skipMagic (h : e.skipMagic m = some e') : e'.hash = e.hash ∧ e'.biasAddr = e.biasAddr := by
  unfold skipMagic at h
  split at h
  · cases h
    exact ⟨rfl, rfl⟩
  · split at h
    · cases h
    · cases h
      exact ⟨rfl, rfl⟩

/-- The image as the constructor leaves it. -/
theorem ofBase_spec {baseAddr : Nat} (h : ofBase arch m baseAddr = some e) :
    ∃ bias entries e₁, dynamicOf arch m baseAddr = some (bias, entries) ∧
      applyAll arch m entries { baseAddr, biasAddr := bias } = some e₁ ∧ e.hash = e₁.hash ∧ e.biasAddr = bias := by
  unfold ofBase at h
  obtain ⟨⟨bias, entries⟩, hdyn, h⟩ := Option.bind_eq_some_iff.1 h
  obtain ⟨e₁, hall, h⟩ := Option.bind_eq_some_iff.1 h
  obtain ⟨e₂, hskip, h⟩ := Option.bind_eq_some_iff.1 h
  cases h
  obtain ⟨hhash, hbias⟩ := hash_skipMagic hskip
  exact ⟨bias, entries, e₁, hdyn, hall, hhash, hbias.trans (biasAddr_applyAll hall)⟩

end Constructor

/-! ### The lookups and the tables -/

section Tables

variable {arch : Arch} {m : Memory} {e : Elf} {name : List UInt8} {names : Nat → List UInt8} {n : Nat}

theorem gnuHashOf_eq (name : List UInt8) : gnuHashOf name = GnuHash.gnuHash name := by
  unfold gnuHashOf GnuHash.gnuHash
  congr 1
  funext h c
  bv_omega

theorem chainAt_gnu {raw idx : Nat} (hhash : e.hash = gnuPtrs arch m raw)
    (hidx : (GnuHash.tableAt arch.cls.bits m raw).symoffset ≤ idx) :
    chainAt m e idx =
      (GnuHash.tableAt arch.cls.bits m raw).chain (idx - (GnuHash.tableAt arch.cls.bits m raw).symoffset) := by
  have hle : (u32At m (raw + 4)).toNat ≤ idx := hidx
  rw [chainAt, hhash]
  show u32At m (raw + 16 + (u32At m (raw + 8)).toNat * (arch.cls.bits / 8) + (u32At m raw).toNat * 4 + idx * 4 -
    (u32At m (raw + 4)).toNat * 4) = u32At m (raw + 16 + (u32At m (raw + 8)).toNat * (arch.cls.bits / 8) +
      (u32At m raw).toNat * 4 + (idx - (u32At m (raw + 4)).toNat) * 4)
  refine congrArg (u32At m) ?_
  omega

theorem gnuWalk_eq {raw turns idx : Nat} (hash : BitVec 32) (hhash : e.hash = gnuPtrs arch m raw)
    (hidx : (GnuHash.tableAt arch.cls.bits m raw).symoffset ≤ idx) :
    gnuWalk arch m e name hash turns idx =
      (GnuHash.tableAt arch.cls.bits m raw).walk (isNamed arch m e name) hash turns idx := by
  induction turns generalizing idx with
  | zero => rfl
  | succ turns ih =>
    rw [gnuWalk, GnuHash.Table.walk, chainAt_gnu hhash hidx, ih (Nat.le_succ_of_le hidx)]

/-- The lookup is the one of the section the pointers lead to. -/
theorem gnuLookup_eq {raw turns : Nat} (hhash : e.hash = gnuPtrs arch m raw) :
    gnuLookup arch m e name turns =
      (GnuHash.tableAt arch.cls.bits m raw).lookup (isNamed arch m e name) turns (GnuHash.gnuHash name) := by
  have hbucket : ¬(e.hash.bucket = 0 ∨ e.hash.bloom = 0) := by
    rw [hhash, not_or]
    refine ⟨?_, Nat.succ_ne_zero _⟩
    show raw + 16 + _ ≠ 0
    omega
  rw [gnuLookup, if_neg hbucket, gnuHashOf_eq, hhash, GnuHash.Table.lookup]
  dsimp only
  rw [BitVec.and_comm]
  refine if_congr Iff.rfl rfl ?_
  by_cases hlow : (GnuHash.tableAt arch.cls.bits m raw).bucket
      ((GnuHash.tableAt arch.cls.bits m raw).bucketOf (GnuHash.gnuHash name)) <
        (GnuHash.tableAt arch.cls.bits m raw).symoffset
  · rw [if_pos hlow]
    exact if_pos hlow
  · rw [if_neg hlow]
    exact (if_neg hlow).trans (gnuWalk_eq _ hhash (Nat.not_lt.1 hlow))

/-- The pointers lead to the System V section at an address. -/
structure PointsToSysv (m : Memory) (h : HashPtrs) (raw : Nat) : Prop where
  symOffset : h.symOffset = 0
  bloom : h.bloom = 0
  bucketCount : h.bucketCount = (u32At m raw).toNat
  bucket : h.bucket = raw + 8

theorem elfWalk_eq {raw turns idx : Nat} (hptr : PointsToSysv m e.hash raw) :
    elfWalk arch m e name turns idx = (SysvHash.tableAt m raw).walk (isNamed arch m e name) turns idx := by
  induction turns generalizing idx with
  | zero => rfl
  | succ turns ih =>
    have hchain : (chainAt m e idx).toNat = (SysvHash.tableAt m raw).chain idx := by
      rw [chainAt, hptr.symOffset, hptr.bucket, hptr.bucketCount]
      rfl
    rw [elfWalk, SysvHash.Table.walk, hchain, ih]

theorem elfLookup_eq {raw turns : Nat} (hptr : PointsToSysv m e.hash raw) :
    elfLookup arch m e name turns =
      (SysvHash.tableAt m raw).lookup (isNamed arch m e name) turns (SysvHash.sysvHash name) := by
  have hno : ¬(e.hash.bucket = 0 ∨ e.hash.bloom ≠ 0) := by
    rw [hptr.bucket, hptr.bloom]
    omega
  rw [elfLookup, if_neg hno, elfWalk_eq hptr, hptr.bucket, hptr.bucketCount]
  rfl

/-! ### The symbol of a name -/

/-- The symbols of an image and their names. -/
structure Symbols (arch : Arch) (m : Memory) (e : Elf) (names : Nat → List UInt8) (n : Nat) : Prop where
  pos : 0 < n
  dynSym : e.dynSym ≠ 0
  named : ∀ i < n, isCString m (symName arch m e i) (names i)

/-- No two symbols have the name. -/
def Single (names : Nat → List UInt8) (n : Nat) (name : List UInt8) : Prop :=
  ∀ i j, i < n → j < n → names i = name → names j = name → i = j

/-- The dynamic section of the image has one hash section that counts, and that section is well-formed. -/
def HasHashes (arch : Arch) (m : Memory) (baseAddr : Nat) (names : Nat → List UInt8) (n : Nat) : Prop :=
  ∃ bias entries, dynamicOf arch m baseAddr = some (bias, entries) ∧
    ((∃ p, ListsGnu entries p ∧
        (GnuHash.tableAt arch.cls.bits m (arch.add bias p)).WellFormed (fun i => GnuHash.gnuHash (names i)) n) ∨
      ∃ p, ListsSysv entries p ∧
        (SysvHash.tableAt m (arch.add bias p)).WellFormed (fun i => SysvHash.sysvHash (names i)) n)

theorem isNamed_iff (hsyms : Symbols arch m e names n) {i : Nat} (hi : i < n) :
    isNamed arch m e name i = true ↔ names i = name := by
  constructor
  · intro h
    exact Loader.isCString_unique (hsyms.named i hi) h
  · rintro rfl
    exact hsyms.named i hi

/-- A result of a lookup: the symbol of the name, or zero if there is none. -/
def IsIndex (names : Nat → List UInt8) (n : Nat) (name : List UInt8) (idx : Nat) : Prop :=
  (idx = 0 → ∀ i, 0 < i → i < n → names i ≠ name) ∧ (idx ≠ 0 → idx < n ∧ names idx = name)

/-- Behind a GNU hash section the linear lookup has the symbols that are not in it. -/
theorem symbolIndex_gnu {raw : Nat} (hsyms : Symbols arch m e names n) (hname : Single names n name)
    (hhash : e.hash = gnuPtrs arch m raw)
    (hwf : (GnuHash.tableAt arch.cls.bits m raw).WellFormed (fun i => GnuHash.gnuHash (names i)) n) :
    ∃ idx, symbolIndex arch m e name n = some idx ∧ IsIndex names n name idx := by
  have hsymoffset : e.hash.symOffset = (GnuHash.tableAt arch.cls.bits m raw).symoffset := by
    rw [hhash]
    rfl
  obtain ⟨j, hj, hnone, hsome⟩ := GnuHash.Table.lookup_spec (isNamed arch m e name) (GnuHash.gnuHash name)
    (Loader.bits_pos arch.cls) hwf fun i hi hhit => congrArg GnuHash.gnuHash ((isNamed_iff hsyms hi.2).1 hhit)
  rw [← gnuLookup_eq hhash] at hj
  rw [symbolIndex, hj]
  by_cases hzero : j = 0
  · have hbloom : e.hash.bloom ≠ 0 := by
      rw [hhash]
      exact Nat.succ_ne_zero _
    have helf : elfLookup arch m e name n = some 0 := if_pos (.inr hbloom)
    have hlinear : linearLookup arch m e name =
        ((List.range e.hash.symOffset).find? (isNamed arch m e name)).getD 0 := by
      refine if_neg (not_or.2 ⟨hsyms.dynSym, ?_⟩)
      rw [hsymoffset]
      exact Nat.ne_of_gt hwf.symoffset_pos
    refine ⟨linearLookup arch m e name, by simp [hzero, helf], ?_⟩
    rw [hlinear, hsymoffset]
    cases hfind : (List.range (GnuHash.tableAt arch.cls.bits m raw).symoffset).find? (isNamed arch m e name) with
    | none =>
      refine ⟨fun _ i hi hin hname => ?_, fun h => absurd rfl h⟩
      have hhit := (isNamed_iff hsyms hin).2 hname
      by_cases hlow : i < (GnuHash.tableAt arch.cls.bits m raw).symoffset
      · exact List.find?_eq_none.1 hfind i (List.mem_range.2 hlow) hhit
      · exact absurd hhit (by rw [hnone hzero i ⟨Nat.not_lt.1 hlow, hin⟩]; exact Bool.false_ne_true)
    | some k =>
      have hk : k < n := Nat.lt_of_lt_of_le (List.mem_range.1 (List.mem_of_find?_eq_some hfind)) hwf.symoffset_le
      have hkname := (isNamed_iff hsyms hk).1 (List.find?_some hfind)
      refine ⟨fun hfirst i hi hin hother => ?_, fun _ => ⟨hk, hkname⟩⟩
      have heq := hname i k hin hk hother hkname
      exact absurd (heq.trans hfirst) (Nat.ne_of_gt hi)
  · exact ⟨j, by simp [hzero], fun h => absurd h hzero, fun h =>
      ⟨(hsome h).1.2, (isNamed_iff hsyms (hsome h).1.2).1 (hsome h).2⟩⟩

theorem symbolIndex_sysv {raw : Nat} (hsyms : Symbols arch m e names n) (hptr : PointsToSysv m e.hash raw)
    (hwf : (SysvHash.tableAt m raw).WellFormed (fun i => SysvHash.sysvHash (names i)) n) :
    ∃ idx, symbolIndex arch m e name n = some idx ∧ IsIndex names n name idx := by
  obtain ⟨j, hj, hnone, hsome⟩ := SysvHash.Table.lookup_spec (isNamed arch m e name) (SysvHash.sysvHash name) hwf
    hsyms.pos fun i _ hi hhit => congrArg SysvHash.sysvHash ((isNamed_iff hsyms hi).1 hhit)
  rw [← elfLookup_eq hptr] at hj
  have hgnu : gnuLookup arch m e name n = some 0 := if_pos (.inr hptr.bloom)
  have hlinear : linearLookup arch m e name = 0 := if_pos (.inr hptr.symOffset)
  refine ⟨j, by simp [symbolIndex, hgnu, hj, hlinear, eq_comm], fun hzero i hi hin hname => ?_, fun hne => ?_⟩
  · exact absurd ((isNamed_iff hsyms hin).2 hname) (by rw [hnone hzero i hi hin]; exact Bool.false_ne_true)
  · exact ⟨(hsome hne).1, (isNamed_iff hsyms (hsome hne).1).1 (hsome hne).2⟩

/-- Whichever hash section the image has, the lookups come to the symbol of the name. -/
theorem symbolIndex_spec {baseAddr : Nat} (hbase : ofBase arch m baseAddr = some e) (hsyms : Symbols arch m e names n)
    (hname : Single names n name) (hhashes : HasHashes arch m baseAddr names n) :
    ∃ idx, symbolIndex arch m e name n = some idx ∧ IsIndex names n name idx := by
  obtain ⟨bias, entries, e₁, hdyn, hall, hhash, hbias⟩ := ofBase_spec hbase
  obtain ⟨bias', entries', hdyn', hsection⟩ := hhashes
  rw [hdyn, Option.some_inj, Prod.mk.injEq] at hdyn'
  obtain ⟨rfl, rfl⟩ := hdyn'
  rcases hsection with ⟨p, ⟨hmem, hone⟩, hwf⟩ | ⟨p, ⟨hmem, hone, hgnu⟩, hwf⟩
  · exact symbolIndex_gnu hsyms hname (hhash.trans (hash_of_gnu hone hall (.inl hmem))) hwf
  · obtain ⟨hsym, hbloom, hcount, hbucket⟩ := hash_of_sysv hone hgnu hall rfl rfl (.inl hmem)
    rw [← hhash] at hsym hbloom hcount hbucket
    exact symbolIndex_sysv hsyms ⟨hsym, hbloom, hcount, hbucket⟩ hwf

/-! ### The slots of a name -/

/-- The relocations of one table that are for a name: in the one of the PLT the first, in the others all. -/
def namedSlots (arch : Arch) (e : Elf) (names : Nat → List UInt8) (n : Nat) (name : List UInt8) (isPlt : Bool)
    (rels : List Rel) : List Nat :=
  let hits := rels.filter fun r => 0 < r.sym && r.sym < n && names r.sym = name && r.wanted arch isPlt
  ((if isPlt then hits.take 1 else hits).map fun r => arch.add e.biasAddr r.offset).filter (e.baseAddr < ·)

theorem slots_eq (hname : Single names n name) {idx : Nat} (hidx : IsIndex names n name idx) (hne : idx ≠ 0)
    (isPlt : Bool) (rels : List Rel) : slots arch e idx isPlt rels = namedSlots arch e names n name isPlt rels := by
  obtain ⟨hidxn, hidxname⟩ := hidx.2 hne
  induction rels with
  | nil => cases isPlt <;> rfl
  | cons r rels ih =>
    have hsym : (0 < r.sym && r.sym < n && names r.sym = name) = true ↔ r.sym = idx := by
      simp only [Bool.and_eq_true, decide_eq_true_eq]
      constructor
      · rintro ⟨⟨-, hr⟩, hrname⟩
        exact hname r.sym idx hr hidxn hrname hidxname
      · rintro rfl
        exact ⟨⟨Nat.pos_of_ne_zero hne, hidxn⟩, hidxname⟩
    rw [slots]
    by_cases hr : r.sym = idx
    · rw [if_neg (not_not.2 hr)]
      cases hwanted : r.wanted arch isPlt with
      | false =>
        rw [if_pos (show (!false) = true from rfl), ih, namedSlots, namedSlots, List.filter_cons_of_neg]
        rw [hwanted, Bool.and_false]
        exact Bool.false_ne_true
      | true =>
        rw [if_neg (by simp), ih, namedSlots, namedSlots, List.filter_cons_of_pos (by rw [hsym.2 hr, hwanted]; rfl)]
        cases isPlt with
        | true => by_cases haddr : e.baseAddr < arch.add e.biasAddr r.offset <;> simp [haddr]
        | false => by_cases haddr : e.baseAddr < arch.add e.biasAddr r.offset <;> simp [haddr]
    · rw [if_pos hr, ih, namedSlots, namedSlots, List.filter_cons_of_neg]
      rw [Bool.and_eq_true, hsym]
      exact fun hboth => hr hboth.1

/-- What is found for a name is what a search of the relocations for the name finds. -/
theorem findPltAddr_eq {baseAddr : Nat} (hbase : ofBase arch m baseAddr = some e) (hsyms : Symbols arch m e names n)
    (hname : Single names n name) (hhashes : HasHashes arch m baseAddr names n) :
    findPltAddr arch m e n name = some ((tables e).flatMap fun (start, size, isPlt) =>
      namedSlots arch e names n name isPlt (rels arch m e start size)) := by
  obtain ⟨idx, hidx, hindex⟩ := symbolIndex_spec hbase hsyms hname hhashes
  rw [findPltAddr, hidx]
  show (if idx = 0 then _ else _) = _
  by_cases hzero : idx = 0
  · have hnone (isPlt : Bool) (rels : List Rel) : namedSlots arch e names n name isPlt rels = [] := by
      have hhits : (rels.filter fun r => 0 < r.sym && r.sym < n && names r.sym = name && r.wanted arch isPlt) = [] := by
        rw [List.filter_eq_nil_iff]
        intro r _ hr
        simp only [Bool.and_eq_true, decide_eq_true_eq] at hr
        exact hindex.1 hzero r.sym hr.1.1.1 hr.1.1.2 hr.1.2
      rw [namedSlots, hhits]
      cases isPlt <;> rfl
    rw [if_pos hzero]
    simp only [hnone]
    simp
  · rw [if_neg hzero]
    simp only [slots_eq hname hindex hzero]
    rfl

end Tables

/-! ### An image with one import -/

/-- The words of an image at `0x1000` with a System V hash section, the symbol `f` and its relocation for the PLT. -/
def oneImportWords : List Nat :=
  [0x00010102464c457f, 0, 0x00000001003e0003, 0, 64, 0, 0x0038000000000000, 2] ++
    [1, 0, 0, 0, 0, 0, 0] ++ [2, 0, 176, 0, 0, 112, 0] ++
    [4, 344, 5, 336, 6, 288, 20, 7, 23, 368, 2, 24, 0, 0] ++
    [0, 0, 0, 1, 0, 0] ++ [0x6600] ++ [0x0000000200000001, 1, 0] ++ [0x2000, 0x0000000100000007, 0]

def oneImport : Memory := fun a => UInt8.ofNat (oneImportWords.getD ((a - 0x1000) / 8) 0 >>> (8 * (a % 8)))

def oneImportElf : Elf where
  baseAddr := 0x1000
  biasAddr := 0x1000
  dynStr := 0x1000 + 336
  dynSym := 0x1000 + 288
  relPlt := 0x1000 + 368
  relPltSize := 24
  hash := { bucketCount := 1, bucket := 0x1000 + 352 }
  useRela := true
  valid := true

def oneImportNames (i : Nat) : List UInt8 := if i = 1 then [0x66] else []

theorem symbols_oneImport : Symbols .x86_64 oneImport oneImportElf oneImportNames 2 where
  pos := by decide
  dynSym := by decide
  named := by decide

theorem hasHashes_oneImport : HasHashes .x86_64 oneImport 0x1000 oneImportNames 2 := by
  refine ⟨0x1000, [(4, 344), (5, 336), (6, 288), (20, 7), (23, 368), (2, 24)], by decide +kernel, .inr ⟨344, ?_, ?_⟩⟩
  · refine ⟨by decide, fun q hq => ?_, fun q hq => ?_⟩ <;> simp [DT_HASH, DT_GNU_HASH] at hq
    exact hq
  · refine ⟨by decide, fun b hb => ?_⟩
    have hb : b < 1 := hb
    obtain rfl : b = 0 := by omega
    refine ⟨[1], by decide, fun i => ?_⟩
    have hone : i ∈ [1] ↔ 0 < i ∧ i < 2 := by
      rw [List.mem_singleton]
      omega
    rw [hone]
    refine ⟨fun hi => ⟨hi.1, hi.2, Nat.mod_one _⟩, fun hi => ⟨hi.1, hi.2.1⟩⟩

theorem findPltAddr_oneImport : findPltAddr .x86_64 oneImport oneImportElf 2 [0x66] = some [0x3000] := by
  have hsingle : Single oneImportNames 2 [0x66] := by
    intro i j hi hj hname hname'
    have hat (k : Nat) (hk : oneImportNames k = [0x66]) : k = 1 := by
      by_contra hne
      rw [oneImportNames, if_neg hne] at hk
      exact absurd hk (List.cons_ne_nil _ _).symm
    rw [hat i hname, hat j hname']
  exact (findPltAddr_eq (by decide +kernel) symbols_oneImport hsingle hasHashes_oneImport).trans (by decide +kernel)

end Elf

end OnyxZygisk.Lsplt
