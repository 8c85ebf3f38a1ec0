import OnyxZygisk.Ptracer.DynSymbols

/-!
# Hash sections of gigabytes

For sizes whose offsets wrap there is a file on which the count of the symbols goes wrong: all the hashed symbols are
in one bucket, and where the loader looks for the entry that ends their chain it finds a zero.
-/

namespace OnyxZygisk.Ptracer

open GnuHash Positions

variable {abi : Abi}

/-- Sizes that a hash section can have. -/
structure TableSizes where
  nbuckets : Nat
  symoffset : Nat
  n : Nat
  nbuckets_pos : 0 < nbuckets
  nbuckets_lt : nbuckets < 2 ^ 32
  symoffset_pos : 0 < symoffset
  symoffset_lt : symoffset < 2 ^ 32
  symoffset_le : symoffset ≤ n
  n_le : n ≤ 2 ^ 32

namespace TableSizes

variable (z : TableSizes)

/-- How many words behind the first bucket the loader looks for the last entry. -/
def wrapped : Nat := z.nbuckets % 2 ^ 30 + (z.n - 1 - z.symoffset) % 2 ^ 30

/-- The bucket of all hashed symbols: one in another place. -/
def onlyBucket : Nat := if z.wrapped = 0 then 1 else 0

/-- The words of the section: the sizes, a filter that lets everything through, the buckets and the chain. -/
def tableWord (i : Nat) : Nat :=
  if i = 0 then z.nbuckets
  else if i = 1 then z.symoffset
  else if i = 2 then 1
  else if i = 3 then 5
  else if i < 6 then 2 ^ 32 - 1
  else if i < 6 + z.nbuckets then if i = 6 + z.onlyBucket then z.symoffset else 0
  else if i + 1 = 6 + z.nbuckets + (z.n - z.symoffset) then 1 else 0

/-- The length of the section, behind which the symbols are. -/
def tableSize : Nat := 4 * (6 + z.nbuckets + (z.n - z.symoffset))

/-- The bytes of a symbol at `0x1000`, whose name is the first one. -/
def symByte (i : Nat) : UInt8 := if i = 0 then 1 else if i = 6 then 1 else if i = 9 then 0x10 else 0

def wideFile : ElfFile where
  byte a :=
    if a < z.tableSize then UInt8.ofNat (z.tableWord (a / 4) / 256 ^ (a % 4))
    else symByte ((a - z.tableSize) % 24)
  size := z.tableSize + z.n * 24

/-- The name that goes to the bucket. -/
def onlyName : List UInt8 := [0x67, 0x6c, 0x69, 0x64, 0x70, 0x68, if z.onlyBucket = 0 then 0x63 else 0x64]

def wideInfo (abi : Abi) : ElfDynInfo abi where
  relOff := 0
  relSz := 0
  relaOff := 0
  relaSz := 0
  jmprelOff := 0
  jmprelSz := 0
  pltrelType := .rela
  neededCount := 0
  initVaddr := 0
  initArrayVaddr := 0
  initArraySz := 0
  symtabOff := BitVec.ofNat _ z.tableSize
  syment := 24
  strtab := 0 :: z.onlyName ++ [0, 0]
  strsz := 9
  nsyms := 0
  neededStrOffsets := []

/-! ### What is in the file -/

theorem tableWord_lt (i : Nat) : z.tableWord i < 2 ^ 32 := by
  have hn := z.nbuckets_lt
  have hs := z.symoffset_lt
  unfold tableWord
  split_ifs <;> omega

theorem tableWord_bucket {b : Nat} (hb : b < z.nbuckets) :
    z.tableWord (6 + b) = if b = z.onlyBucket then z.symoffset else 0 := by
  unfold tableWord
  rw [if_neg (by omega), if_neg (by omega), if_neg (by omega), if_neg (by omega), if_neg (by omega),
    if_pos (by omega)]
  simp only [Nat.add_left_cancel_iff]

theorem tableWord_chain (i : Nat) :
    z.tableWord (6 + z.nbuckets + i) = if i + 1 = z.n - z.symoffset then 1 else 0 := by
  unfold tableWord
  rw [if_neg (by omega), if_neg (by omega), if_neg (by omega), if_neg (by omega), if_neg (by omega),
    if_neg (by omega)]
  simp only [Nat.add_assoc, Nat.add_left_cancel_iff]

/-- The words can be read. -/
theorem leWord_wideFile {i : Nat} (hi : 4 * i < z.tableSize) :
    z.wideFile.byte.leWord 32 (4 * i) = BitVec.ofNat 32 (z.tableWord i) := by
  have hlt := z.tableWord_lt i
  have hbyte (k : Nat) (hk : k < 4) : (z.wideFile.byte (4 * i + k)).toNat = z.tableWord i / 256 ^ k % 256 := by
    have hin : 4 * i + k < z.tableSize := by
      unfold tableSize at hi ⊢
      omega
    show (if 4 * i + k < z.tableSize then _ else _ : UInt8).toNat = _
    rw [if_pos hin, UInt8.toNat_ofNat', show (4 * i + k) / 4 = i by omega, show (4 * i + k) % 4 = k by omega]
  have hle : Bytes.le (z.wideFile.byte.read (4 * i) 4) = z.tableWord i := by
    show (z.wideFile.byte (4 * i + 0)).toNat + 256 * ((z.wideFile.byte (4 * i + 1)).toNat +
      256 * ((z.wideFile.byte (4 * i + 2)).toNat + 256 * ((z.wideFile.byte (4 * i + 3)).toNat + 256 * 0))) = _
    rw [hbyte 0 (by decide), hbyte 1 (by decide), hbyte 2 (by decide), hbyte 3 (by decide)]
    omega
  exact congrArg (BitVec.ofNat 32) hle

/-- The filter has every bit. -/
theorem bloom_wideFile : z.wideFile.byte.leWord 64 16 = BitVec.allOnes 64 := by
  have hword (i : Nat) (hi : i = 4 ∨ i = 5) : z.tableWord i = 2 ^ 32 - 1 := by
    unfold tableWord
    rcases hi with rfl | rfl <;> rfl
  have hbyte (a : Nat) (ha : 16 ≤ a ∧ a < 24) : z.wideFile.byte a = 0xff := by
    have hin : a < z.tableSize := by
      unfold tableSize
      omega
    show (if a < z.tableSize then _ else _ : UInt8) = _
    rw [if_pos hin, hword _ (by omega)]
    have hmod : a % 4 = 0 ∨ a % 4 = 1 ∨ a % 4 = 2 ∨ a % 4 = 3 := by omega
    rcases hmod with hmod | hmod | hmod | hmod <;> rw [hmod] <;> rfl
  have hread : z.wideFile.byte.read 16 8 = List.replicate 8 0xff := by
    rw [Memory.read, List.eq_replicate_iff]
    refine ⟨by simp, fun b hb => ?_⟩
    obtain ⟨a, ha, rfl⟩ := List.mem_map.1 hb
    rw [List.mem_range'_1] at ha
    exact hbyte a ha
  show BitVec.ofNat 64 (Bytes.le (z.wideFile.byte.read 16 8)) = _
  rw [hread]
  decide

/-! ### The section is well-formed -/

/-- The parts of the section. -/
structure IsTable (t : Table abi.bits) : Prop where
  nbuckets : t.nbuckets = z.nbuckets
  symoffset : t.symoffset = z.symoffset
  bloomSize : t.bloomSize = 1
  shift2 : t.shift2 = 5
  bloom : t.bloom 0 = BitVec.allOnes _
  bucket : ∀ b < z.nbuckets, t.bucket b = if b = z.onlyBucket then z.symoffset else 0
  chain : ∀ i < z.n - z.symoffset, t.chain i = if i + 1 = z.n - z.symoffset then 1 else 0

theorem isTable_wideFile (h : abi.lp64 = true) : z.IsTable (tableAt abi.bits z.wideFile.byte 0) := by
  have hsize : z.tableSize = 4 * (6 + z.nbuckets + (z.n - z.symoffset)) := rfl
  have hn := z.nbuckets_lt
  have hs := z.symoffset_lt
  have hw (i : Nat) (hi : i < 6 + z.nbuckets + (z.n - z.symoffset)) :
      z.wideFile.byte.leWord 32 (4 * i) = BitVec.ofNat 32 (z.tableWord i) := z.leWord_wideFile (by omega)
  have hnat (i : Nat) (hi : i < 6 + z.nbuckets + (z.n - z.symoffset)) :
      (z.wideFile.byte.leWord 32 (4 * i)).toNat = z.tableWord i := by
    rw [hw i hi, BitVec.toNat_ofNat, Nat.mod_eq_of_lt (z.tableWord_lt i)]
  have hbloom := z.bloom_wideFile
  have hbits : abi.bits = 64 := of_decide_eq_true h
  have hnb : (tableAt abi.bits z.wideFile.byte 0).nbuckets = z.nbuckets := hnat 0 (by omega)
  have hbs : (tableAt abi.bits z.wideFile.byte 0).bloomSize = 1 := hnat 2 (by omega)
  have hbuckets : 0 + 16 + (tableAt abi.bits z.wideFile.byte 0).bloomSize * (abi.bits / 8) = 4 * 6 := by
    rw [hbs, hbits]
  refine ⟨hnb, hnat 1 (by omega), hbs, hnat 3 (by omega), ?_, fun b hb => ?_, fun i hi => ?_⟩
  · show z.wideFile.byte.leWord abi.bits (0 + 16 + 0 * (abi.bits / 8)) = _
    rw [Nat.zero_mul]
    clear hnb hbs hbuckets
    cases abi with
    | aarch64 => exact hbloom
    | x86_64 => exact hbloom
    | arm => exact absurd h (by decide)
    | i386 => exact absurd h (by decide)
  · show (z.wideFile.byte.leWord 32 (0 + 16 + (tableAt abi.bits z.wideFile.byte 0).bloomSize * (abi.bits / 8) +
      b * 4)).toNat = _
    rw [hbuckets, show 4 * 6 + b * 4 = 4 * (6 + b) by omega, hnat _ (by omega), z.tableWord_bucket hb]
  · show z.wideFile.byte.leWord 32 (0 + 16 + (tableAt abi.bits z.wideFile.byte 0).bloomSize * (abi.bits / 8) +
      (tableAt abi.bits z.wideFile.byte 0).nbuckets * 4 + i * 4) = _
    rw [hbuckets, hnb, show 4 * 6 + z.nbuckets * 4 + i * 4 = 4 * (6 + z.nbuckets + i) by omega, hw _ (by omega),
      z.tableWord_chain]
    split_ifs <;> rfl

theorem onlyBucket_lt : z.onlyBucket < z.nbuckets := by
  have hpos := z.nbuckets_pos
  unfold onlyBucket
  split_ifs with hzero
  · unfold wrapped at hzero
    omega
  · exact hpos

theorem gnuHash_onlyName : (gnuHash z.onlyName).toNat = z.onlyBucket := by
  unfold onlyName onlyBucket
  by_cases hzero : z.wrapped = 0
  · simp only [hzero, if_true]
    decide
  · simp only [hzero, if_false]
    decide

/-- No bit of the hash is left in the chain. -/
theorem hash_shift : gnuHash z.onlyName >>> 1 = 0 := by
  unfold onlyName
  split_ifs <;> decide

theorem bits_pos (abi : Abi) : 0 < abi.bits := by cases abi <;> decide

variable {z} in
theorem IsTable.bucketOf_onlyName {t : Table abi.bits} (h : z.IsTable t) :
    t.bucketOf (gnuHash z.onlyName) = z.onlyBucket := by
  rw [Table.bucketOf, z.gnuHash_onlyName, h.nbuckets, Nat.mod_eq_of_lt z.onlyBucket_lt]

variable {z} in
theorem IsTable.wellFormed {t : Table abi.bits} (h : z.IsTable t) (hsome : z.symoffset < z.n) :
    t.WellFormed (fun _ => gnuHash z.onlyName) z.n where
  nbuckets_pos := by
    rw [h.nbuckets]
    exact z.nbuckets_pos
  bloomSize_pos := by
    rw [h.bloomSize]
    exact Nat.one_pos
  shift2_lt := by
    rw [h.shift2]
    decide
  symoffset_pos := by
    rw [h.symoffset]
    exact z.symoffset_pos
  symoffset_le := by
    rw [h.symoffset]
    exact z.symoffset_le
  bloom i hi b hb := by
    have hlt : b < abi.bits := by
      rw [Table.bloomBits, List.mem_cons, List.mem_singleton] at hb
      rcases hb with rfl | rfl
      · exact Nat.mod_lt _ (bits_pos abi)
      · exact Nat.mod_lt _ (bits_pos abi)
    rw [Table.bloomWord, h.bloomSize, Nat.mod_one, h.bloom, BitVec.getLsbD_allOnes]
    exact decide_eq_true hlt
  sorted i j _ _ _ := Nat.le_refl _
  bucket_empty b hb hempty := by
    rw [h.nbuckets] at hb
    rw [h.bucket b hb, if_neg]
    rintro rfl
    exact hempty z.symoffset ⟨by rw [h.symoffset], hsome⟩ h.bucketOf_onlyName
  bucket_first i hi hbefore := by
    have hlow := hi.1
    rw [h.symoffset] at hlow
    rw [h.bucketOf_onlyName, h.bucket _ z.onlyBucket_lt, if_pos rfl]
    rcases Nat.lt_or_eq_of_le hlow with hlt | heq
    · exact absurd rfl (hbefore z.symoffset (Nat.le_of_eq h.symoffset) hlt)
    · exact heq
  chain_hash i hi := by
    have hhigh := hi.2
    have hlow := hi.1
    rw [h.symoffset] at hlow ⊢
    rw [h.chain _ (by omega), z.hash_shift]
    split_ifs <;> rfl
  chain_last i hi := by
    have hhigh := hi.2
    have hlow := hi.1
    have hlast : t.Last (fun _ => gnuHash z.onlyName) z.n i ↔ i + 1 = z.n := or_iff_left fun hne => hne rfl
    rw [h.symoffset] at hlow ⊢
    rw [hlast, h.chain _ (by omega)]
    split_ifs with hend
    · exact iff_of_true rfl (by omega)
    · exact iff_of_false Bool.false_ne_true (by omega)

/-! ### The symbols behind it -/

theorem tableSize_lt : z.tableSize + z.n * 24 < 2 ^ 40 := by
  have hn := z.nbuckets_lt
  have hle := z.n_le
  unfold tableSize
  omega

theorem byte_wideFile (i k : Nat) (hk : k < 24) : z.wideFile.byte (z.tableSize + i * 24 + k) = symByte k := by
  show (if z.tableSize + i * 24 + k < z.tableSize then _ else _ : UInt8) = _
  rw [if_neg (by omega)]
  congr 1
  omega

/-- The name of each symbol is the one at the second byte of the strings. -/
theorem symName_wideFile (i : Nat) : z.wideFile.byte.leWord 32 (z.tableSize + i * 24) = 1 := by
  have hread : z.wideFile.byte.read (z.tableSize + i * 24) 4 = [1, 0, 0, 0] := by
    show [z.wideFile.byte (z.tableSize + i * 24 + 0), z.wideFile.byte (z.tableSize + i * 24 + 1),
      z.wideFile.byte (z.tableSize + i * 24 + 2), z.wideFile.byte (z.tableSize + i * 24 + 3)] = _
    rw [z.byte_wideFile i 0 (by decide), z.byte_wideFile i 1 (by decide), z.byte_wideFile i 2 (by decide),
      z.byte_wideFile i 3 (by decide)]
    rfl
  show BitVec.ofNat 32 (Bytes.le (z.wideFile.byte.read _ 4)) = _
  rw [hread]
  rfl

theorem strEq_onlyName : strEq (0 :: z.onlyName ++ [0, 0]) 1 z.onlyName = true := by
  unfold onlyName
  split_ifs <;> decide

theorem symtabOff_toNat (h : abi.lp64 = true) : (z.wideInfo abi).symtabOff.toNat = z.tableSize := by
  have hlt := z.tableSize_lt
  have hbits : abi.bits = 64 := of_decide_eq_true h
  show (BitVec.ofNat abi.bits z.tableSize).toNat = _
  rw [BitVec.toNat_ofNat, hbits]
  omega

theorem symSize_lp64 (h : abi.lp64 = true) : symSize abi = 24 := if_pos h

theorem symAt_wideFile (h : abi.lp64 = true) {i : Nat} (hi : i < z.n) :
    ∃ sym : Sym abi, symAt z.wideFile (z.tableSize + i * 24) = some sym ∧ sym.stName = 1 := by
  have hin : (i + 1) * 24 ≤ z.n * 24 := Nat.mul_le_mul_right _ hi
  have hsize : z.wideFile.size = z.tableSize + z.n * 24 := rfl
  rw [symAt, symSize_lp64 h, if_pos (by omega), if_pos h]
  exact ⟨_, rfl, z.symName_wideFile i⟩

theorem hashedFile_wideFile (h : abi.lp64 = true) (hsome : z.symoffset < z.n) :
    HashedFile z.wideFile 0 (z.wideInfo abi) (tableAt abi.bits z.wideFile.byte 0) (fun _ => z.onlyName) z.n z.n := by
  have htable := z.isTable_wideFile h
  have hbits : abi.bits = 64 := of_decide_eq_true h
  have hword : abi.wordSize = 8 := congrArg (· / 8) hbits
  have hlt := z.tableSize_lt
  have hsyment := symSize_lp64 h
  have hsymtab := z.symtabOff_toNat h
  have hsize : z.wideFile.size = z.tableSize + z.n * 24 := rfl
  refine ⟨rfl, htable.wellFormed hsome, ?_, hsyment.symm, ?_, ?_, Nat.le_refl _, fun _ => rfl, fun i hi => ?_,
    fun _ i hlow hhigh => absurd hhigh (Nat.not_lt.2 hlow)⟩
  · rw [htable.bloomSize, htable.nbuckets, htable.symoffset, hword, hsize]
    unfold tableSize
    omega
  · rw [hsymtab, hsyment, hsize]
  · rw [hsize, hbits]
    omega
  · obtain ⟨sym, hsym, hname⟩ := z.symAt_wideFile h hi.2
    rw [hsymtab]
    refine ⟨sym, hsym, ?_⟩
    have hinside : (1 : BitVec 32).toNat < 9 := by decide
    rw [ElfDynInfo.named, hname]
    exact decide_eq_true ⟨by decide, hinside, z.strEq_onlyName⟩

/-! ### The count goes wrong -/

/-- The loader finds the bucket. -/
theorem largestBucket_wideFile (h : abi.lp64 = true) (hsome : z.symoffset < z.n) :
    (largestBucket z.wideFile 0 (tableAt abi.bits z.wideFile.byte 0)).toNat = z.symoffset := by
  have htable := z.isTable_wideFile h
  have honly : z.onlyBucket < 2 ^ 30 := by
    unfold onlyBucket
    split_ifs <;> decide
  obtain ⟨hall, hfound⟩ := largestBucket_spec (z.hashedFile_wideFile h hsome)
  have hlow := hall z.onlyBucket (by rw [htable.nbuckets]; exact z.onlyBucket_lt)
  rw [Nat.mod_eq_of_lt honly, htable.bucket _ z.onlyBucket_lt, if_pos rfl] at hlow
  rcases hfound with hzero | ⟨b, hb, hfound⟩
  · omega
  · rw [htable.nbuckets] at hb
    rw [htable.bucket _ (by omega)] at hfound
    split_ifs at hfound <;> omega

/-- The word the loader takes for the entry of the last symbol does not end the chain. -/
theorem not_endsChain_wideFile (hsome : z.symoffset < z.n)
    (hwide : ¬ (z.nbuckets < 2 ^ 30 ∧ z.n - z.symoffset ≤ 2 ^ 30)) :
    ¬ EndsChain z.wideFile (24 + 4 * (z.nbuckets % 2 ^ 30)) (BitVec.ofNat 32 (z.n - 1 - z.symoffset)) := by
  have hwrapped : z.wrapped = z.nbuckets % 2 ^ 30 + (z.n - 1 - z.symoffset) % 2 ^ 30 := rfl
  have hread : z.wideFile.word 32
      (24 + 4 * (z.nbuckets % 2 ^ 30) + (BitVec.ofNat 32 (z.n - 1 - z.symoffset) * 4).toNat) =
        some (BitVec.ofNat 32 (z.tableWord (6 + z.wrapped))) := by
    have hin : 4 * (6 + z.wrapped) + 4 ≤ z.tableSize := by
      unfold tableSize
      omega
    have hsize : z.wideFile.size = z.tableSize + z.n * 24 := rfl
    rw [toNat_mul_four, ← z.leWord_wideFile (by omega),
      show 24 + 4 * (z.nbuckets % 2 ^ 30) + 4 * ((z.n - 1 - z.symoffset) % 2 ^ 30) = 4 * (6 + z.wrapped) by omega,
      word_eq_some]
    omega
  have hword : z.tableWord (6 + z.wrapped) = 0 := by
    by_cases hbucket : z.wrapped < z.nbuckets
    · rw [z.tableWord_bucket hbucket, if_neg]
      unfold onlyBucket
      split_ifs <;> omega
    · obtain ⟨i, hi⟩ := Nat.exists_eq_add_of_le (Nat.le_of_not_lt hbucket)
      rw [hi, ← Nat.add_assoc, z.tableWord_chain, if_neg (by omega)]
  rw [endsChain_word hread, hword]
  exact Bool.false_ne_true

theorem not_symbolsRight_wideFile (h : abi.lp64 = true) (hwide : ¬ Counted z.nbuckets z.symoffset z.n) :
    ¬ SymbolsRight z.wideFile 0 (z.wideInfo abi) z.n z.n := by
  rintro ⟨turns, hnsyms, -⟩
  have hne : z.symoffset ≠ z.n := fun heq => hwide (.inl heq)
  have hle := z.symoffset_le
  have hsome : z.symoffset < z.n := by omega
  have htable := z.isTable_wideFile h
  have hbits : abi.bits = 64 := of_decide_eq_true h
  have hlargest := z.largestBucket_wideFile h hsome
  have hbuckets : bucketsOffset 0 (tableAt abi.bits z.wideFile.byte 0) = 24 := by
    unfold bucketsOffset Abi.wordSize
    rw [htable.bloomSize, hbits]
  rw [gnuHashNsyms_eq (z.hashedFile_wideFile h hsome), hlargest, htable.symoffset, if_pos (Nat.le_refl _),
    htable.nbuckets, hbuckets, Option.map_eq_some_iff] at hnsyms
  obtain ⟨found, hwalk, hn⟩ := hnsyms
  obtain ⟨k, -, ⟨hends, -⟩, rfl⟩ := walkChain_iff.1 hwalk
  have hlt := z.symoffset_lt
  have hfound := BitVec.isLt (largestBucket z.wideFile 0 (tableAt abi.bits z.wideFile.byte 0) + BitVec.ofNat 32 k + 1)
  rw [hn] at hfound
  rw [BitVec.toNat_add, BitVec.toNat_add, hlargest, BitVec.toNat_ofNat] at hn
  change ((z.symoffset + k % 2 ^ 32) % 2 ^ 32 + 1) % 2 ^ 32 = z.n at hn
  -- the entry is the one of the last symbol
  have hidx : largestBucket z.wideFile 0 (tableAt abi.bits z.wideFile.byte 0) - BitVec.ofNat 32 z.symoffset +
      BitVec.ofNat 32 k = BitVec.ofNat 32 (z.n - 1 - z.symoffset) := by
    apply BitVec.eq_of_toNat_eq
    rw [BitVec.toNat_add, BitVec.toNat_sub, hlargest, BitVec.toNat_ofNat, BitVec.toNat_ofNat, BitVec.toNat_ofNat]
    omega
  rw [hidx] at hends
  exact z.not_endsChain_wideFile hsome (fun hsmall => hwide (.inr ⟨hsmall.1, hsmall.2, hfound⟩)) hends

end TableSizes

/-- For every file with sections of these sizes the number of symbols is right exactly if the offsets do not wrap: they
never do with 32-bit words. -/
theorem nsyms_right_iff (abi : Abi) (z : TableSizes) :
    (∀ f off (info : ElfDynInfo abi) t names total, HashedFile f off info t names z.n total →
        t.nbuckets = z.nbuckets → t.symoffset = z.symoffset → SymbolsRight f off info z.n total) ↔
      (abi.lp64 = true → Counted z.nbuckets z.symoffset z.n) := by
  constructor
  · intro hright h
    by_contra hwide
    have hle := z.symoffset_le
    have hsome : z.symoffset < z.n := Nat.lt_of_le_of_ne hle fun heq => hwide (.inl heq)
    have htable := z.isTable_wideFile h
    exact z.not_symbolsRight_wideFile h hwide
      (hright _ _ _ _ _ _ (z.hashedFile_wideFile h hsome) htable.nbuckets htable.symoffset)
  · intro hcounted f off info t names total h hbuckets hsymoffset
    have hall : Counted t.nbuckets t.symoffset z.n := by
      cases habi : abi.lp64 with
      | false => exact counted_of_narrow h habi
      | true =>
        rw [hbuckets, hsymoffset]
        exact hcounted habi
    obtain ⟨turns, hnsyms⟩ := nsyms_of_counted h hall
    exact ⟨turns, hnsyms, lookup_right h⟩

/-- Two symbols, the second of them hashed, in one of `2 ^ 30` buckets. -/
def wideSizes : TableSizes := ⟨2 ^ 30, 1, 2, by decide, by decide, by decide, by decide, by decide, by decide⟩

theorem nsyms_wide : ∃ (f : ElfFile) (info : ElfDynInfo .aarch64) (t : Table Abi.aarch64.bits)
    (names : Nat → List UInt8), HashedFile f 0 info t names 2 2 ∧ ¬ SymbolsRight f 0 info 2 2 := by
  have hwide : ¬ Counted (2 ^ 30) 1 2 := by
    unfold Counted
    decide
  exact ⟨_, _, _, _, wideSizes.hashedFile_wideFile rfl (by decide), wideSizes.not_symbolsRight_wideFile rfl hwide⟩

end OnyxZygisk.Ptracer
