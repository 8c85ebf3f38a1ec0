import OnyxZygisk.Lib.GnuHash

/-!
# Symbol lookup by GNU hash

`ElfImage` maps the file of a loaded library and keeps pointers to the parts of its hash section. The lookup of a name
there ends and gives the value of the first hashed symbol of that name, whatever else has the same hash
(`findSymbolByGnuHash_spec`).
-/

namespace OnyxZygisk.Loader

open Memory GnuHash

/-! ### The file -/

inductive ElfClass where
  | elf32 | elf64
  deriving DecidableEq

def ElfClass.bits : ElfClass → Nat
  | elf32 => 32
  | elf64 => 64

/-- The size of an address. -/
def ElfClass.addrSize (cls : ElfClass) : Nat := cls.bits / 8

/-- `sizeof(ElfW(Sym))` -/
def ElfClass.symSize : ElfClass → Nat
  | elf32 => 16
  | elf64 => 24

/-- Where `st_value` is in a symbol. `st_name` comes first. -/
def ElfClass.valueOffset : ElfClass → Nat
  | elf32 => 4
  | elf64 => 8

abbrev u32At (m : Memory) (ptr : Nat) : BitVec 32 := m.leWord 32 ptr

/-- An `ElfW(Addr)`. -/
abbrev addrAt (cls : ElfClass) (m : Memory) (ptr : Nat) : BitVec cls.bits := m.leWord cls.bits ptr

/-- `symbol_name == ptr`, a view compared with a C string. -/
def isCString (m : Memory) (ptr : Nat) (name : List UInt8) : Bool :=
  m.read ptr (name.length + 1) = cstr name ∧ 0 ∉ name

/-- What the lookup uses of an `ElfImage`. -/
structure ElfImage where
  dynsym : Nat
  dynstr : Nat
  gnuNbucket : Nat
  gnuSymindx : Nat
  gnuBloomSize : Nat
  gnuShift2 : Nat
  gnuBloomFilter : Nat
  gnuBucket : Nat
  gnuChain : Nat

/-- The image with its sections, the hash section as `SHT_GNU_HASH` sets it up. -/
def ElfImage.ofSections (cls : ElfClass) (m : Memory) (mapBase dynsymOffset dynstrOffset gnuHashOffset : Nat) :
    ElfImage :=
  let gnuHashData := mapBase + gnuHashOffset
  let gnuNbucket := (u32At m gnuHashData).toNat
  let gnuBloomSize := (u32At m (gnuHashData + 8)).toNat
  let gnuBloomFilter := mapBase + (gnuHashOffset + 16)
  let gnuBucket := gnuBloomFilter + gnuBloomSize * cls.addrSize
  { dynsym := mapBase + dynsymOffset
    dynstr := mapBase + dynstrOffset
    gnuNbucket
    gnuSymindx := (u32At m (gnuHashData + 4)).toNat
    gnuBloomSize
    gnuShift2 := (u32At m (gnuHashData + 12)).toNat
    gnuBloomFilter
    gnuBucket
    gnuChain := gnuBucket + gnuNbucket * 4 }

/-! ### The lookup -/

def calculateGnuHash (name : List UInt8) : BitVec 32 :=
  name.foldl (fun h c => (h <<< 5) + h + BitVec.ofNat 32 c.toNat) 5381

section Lookup

variable (cls : ElfClass) (m : Memory) (img : ElfImage)

def symAt (symIndex : Nat) : Nat := img.dynsym + symIndex * cls.symSize

/-- The string that `st_name` is the offset of. -/
def symName (symIndex : Nat) : Nat := img.dynstr + (u32At m (symAt cls img symIndex)).toNat

def symValue (symIndex : Nat) : BitVec cls.bits := addrAt cls m (symAt cls img symIndex + cls.valueOffset)

/-- The bits that the filter has to have for the hash. -/
def bloomMask (hash : BitVec 32) : BitVec cls.bits :=
  (1#64 <<< (hash.toNat % cls.bits) ||| 1#64 <<< ((hash >>> img.gnuShift2).toNat % cls.bits)).setWidth _

/-- The `do` loop, for some turns at most. -/
def traverseChain (name : List UInt8) (hash : BitVec 32) : Nat → Nat → Nat → Option (BitVec cls.bits)
  | 0, _, _ => none
  | turns + 1, symIndex, chain =>
    if (u32At m chain ^^^ hash) >>> 1 = 0 ∧ isCString m (symName cls m img symIndex) name then
      some (symValue cls m img symIndex)
    else if u32At m chain &&& 1 = 0 then traverseChain name hash turns (symIndex + 1) (chain + 4)
    else some 0

/-- The result, unless the chain takes more turns. -/
def findSymbolByGnuHash (turns : Nat) (name : List UInt8) (hash : BitVec 32) : Option (BitVec cls.bits) :=
  if img.gnuBloomFilter = 0 then some 0
  else
    let word := addrAt cls m (img.gnuBloomFilter + hash.toNat / cls.bits % img.gnuBloomSize * cls.addrSize)
    if word &&& bloomMask cls img hash ≠ bloomMask cls img hash then some 0
    else
      let symIndex := (u32At m (img.gnuBucket + hash.toNat % img.gnuNbucket * 4)).toNat
      if symIndex < img.gnuSymindx then some 0
      else traverseChain cls m img name hash turns symIndex (img.gnuChain + (symIndex - img.gnuSymindx) * 4)

end Lookup

/-! ### What is looked up -/

/-- The first hashed symbol of a name, of symbols with these names. -/
def FirstNamed {w : Nat} (t : Table w) (names : Nat → List UInt8) (n : Nat) (name : List UInt8) (i : Nat) : Prop :=
  t.Hashed n i ∧ names i = name ∧ ∀ j, t.Hashed n j → j < i → names j ≠ name

theorem FirstNamed.unique {w : Nat} {t : Table w} {names : Nat → List UInt8} {n : Nat} {name : List UInt8} {i j : Nat}
    (hi : FirstNamed t names n name i) (hj : FirstNamed t names n name j) : i = j := by
  rcases Nat.lt_trichotomy i j with hlt | heq | hgt
  · exact absurd hi.2.1 (hj.2.2 i hi.1 hlt)
  · exact heq
  · exact absurd hj.2.1 (hi.2.2 j hj.1 hgt)

/-- A well-formed hash section over the first `n` symbols, and the names of the hashed ones. -/
structure HashedSymbols (cls : ElfClass) (m : Memory) (img : ElfImage) (t : Table cls.bits) (names : Nat → List UInt8)
    (n : Nat) : Prop where
  wellFormed : t.WellFormed (fun i => gnuHash (names i)) n
  named : ∀ i, t.Hashed n i → isCString m (symName cls m img i) (names i)

theorem calculateGnuHash_eq (name : List UInt8) : calculateGnuHash name = gnuHash name := by
  unfold calculateGnuHash gnuHash
  congr 1
  funext h c
  bv_omega

theorem isCString_iff {m : Memory} {ptr : Nat} {s : List UInt8} :
    isCString m ptr s ↔ m.read ptr (cstr s).length = cstr s ∧ 0 ∉ s := by
  rw [isCString, decide_eq_true_iff, length_cstr]

/-- One string stands at an address. -/
theorem isCString_unique {m : Memory} {ptr : Nat} {a b : List UInt8} (ha : isCString m ptr a) (hb : isCString m ptr b) :
    a = b := by
  rw [isCString_iff] at ha hb
  have hlength : a.length = b.length := by
    have hlengthA : m.strnlen ptr (a.length + b.length + 1) = a.length := strnlen_cstr ha.2 ha.1 (by omega)
    have hlengthB : m.strnlen ptr (a.length + b.length + 1) = b.length := strnlen_cstr hb.2 hb.1 (by omega)
    exact hlengthA.symm.trans hlengthB
  have hread := ha.1
  rw [length_cstr, hlength, ← length_cstr b, hb.1] at hread
  exact (List.append_cancel_right hread).symm

section Correct

variable {cls : ElfClass} {m : Memory} {mapBase dynsymOffset dynstrOffset gnuHashOffset n : Nat}
  {names : Nat → List UInt8} {name : List UInt8}

/-- The code's pointers and the parts of the section. -/
structure PointsInto (cls : ElfClass) (m : Memory) (img : ElfImage) (t : Table cls.bits) : Prop where
  bloomFilter : img.gnuBloomFilter ≠ 0
  nbucket : img.gnuNbucket = t.nbuckets
  symindx : img.gnuSymindx = t.symoffset
  bloomSize : img.gnuBloomSize = t.bloomSize
  shift2 : img.gnuShift2 = t.shift2
  bloom : ∀ i, addrAt cls m (img.gnuBloomFilter + i * cls.addrSize) = t.bloom i
  bucket : ∀ b, (u32At m (img.gnuBucket + b * 4)).toNat = t.bucket b
  chain : ∀ i, u32At m (img.gnuChain + i * 4) = t.chain i

theorem pointsInto_ofSections (cls : ElfClass) (m : Memory) (mapBase dynsymOffset dynstrOffset gnuHashOffset : Nat) :
    PointsInto cls m (.ofSections cls m mapBase dynsymOffset dynstrOffset gnuHashOffset)
      (tableAt cls.bits m (mapBase + gnuHashOffset)) where
  bloomFilter := Nat.succ_ne_zero _
  nbucket := rfl
  symindx := rfl
  bloomSize := rfl
  shift2 := rfl
  bloom _ := rfl
  bucket _ := rfl
  chain _ := rfl

variable {img : ElfImage} {t : Table cls.bits}

theorem setWidth_one_shiftLeft {a : Nat} (ha : a < cls.bits) :
    (1#64 <<< a).setWidth cls.bits = BitVec.twoPow _ a := by
  have hbits : cls.bits ≤ 64 := by cases cls <;> decide
  apply BitVec.eq_of_getLsbD_eq
  intro j hj
  rw [BitVec.getLsbD_setWidth, ← BitVec.twoPow_eq, BitVec.getLsbD_twoPow, BitVec.getLsbD_twoPow]
  simp [hj, ha, show a < 64 by omega]

theorem bits_pos (cls : ElfClass) : 0 < cls.bits := by cases cls <;> decide

/-- The mask has the bits that the filter has for the hash. -/
theorem bloomMask_eq (hptr : PointsInto cls m img t) (hash : BitVec 32) :
    bloomMask cls img hash =
      BitVec.twoPow _ (hash.toNat % cls.bits) ||| BitVec.twoPow _ ((hash >>> t.shift2).toNat % cls.bits) := by
  rw [bloomMask, hptr.shift2, BitVec.setWidth_or, setWidth_one_shiftLeft (Nat.mod_lt _ (bits_pos cls)),
    setWidth_one_shiftLeft (Nat.mod_lt _ (bits_pos cls))]

/-- The filter lets through the hash of every symbol in the table. -/
theorem bloom_passes (hptr : PointsInto cls m img t) (hsyms : HashedSymbols cls m img t names n) {i : Nat}
    (hi : t.Hashed n i) :
    addrAt cls m (img.gnuBloomFilter + (gnuHash (names i)).toNat / cls.bits % img.gnuBloomSize * cls.addrSize) &&&
        bloomMask cls img (gnuHash (names i)) = bloomMask cls img (gnuHash (names i)) := by
  have hbits := hsyms.wellFormed.bloom i hi
  rw [hptr.bloom, hptr.bloomSize, bloomMask_eq hptr]
  exact (Table.and_bits_eq_iff (Nat.mod_lt _ (bits_pos cls)) (Nat.mod_lt _ (bits_pos cls))).2
    ⟨hbits _ List.mem_cons_self, hbits _ (List.mem_cons_of_mem _ List.mem_cons_self)⟩

/-- An entry has the hash and the symbol the name exactly if it is a symbol of that name. -/
theorem entry_matches_iff (hptr : PointsInto cls m img t) (hsyms : HashedSymbols cls m img t names n) {i : Nat}
    (hi : t.Hashed n i) :
    (u32At m (img.gnuChain + (i - t.symoffset) * 4) ^^^ gnuHash name) >>> 1 = 0 ∧
        isCString m (symName cls m img i) name ↔ names i = name := by
  constructor
  · rintro ⟨-, hstring⟩
    exact isCString_unique (hsyms.named i hi) hstring
  · rintro rfl
    refine ⟨?_, hsyms.named i hi⟩
    rw [hptr.chain, BitVec.ushiftRight_xor_distrib, hsyms.wellFormed.chain_hash i hi]
    exact BitVec.xor_self

/-- The lowest bit of an entry says whether its symbol is the last of the bucket. -/
theorem entry_goes_on_iff (hptr : PointsInto cls m img t) (hsyms : HashedSymbols cls m img t names n) {i : Nat}
    (hi : t.Hashed n i) :
    u32At m (img.gnuChain + (i - t.symoffset) * 4) &&& 1 = 0 ↔ ¬ t.Last (fun i => gnuHash (names i)) n i := by
  rw [hptr.chain, Table.and_one_eq_zero_iff, ← hsyms.wellFormed.chain_last i hi, Bool.not_eq_true]

/-- From a symbol of a run on, the loop gives the first symbol of the name. -/
theorem traverseChain_spec (name : List UInt8) (hptr : PointsInto cls m img t) (hsyms : HashedSymbols cls m img t names n)
    {first last : Nat} (hrun : t.Run (fun i => gnuHash (names i)) n first last) {turns i : Nat} (hfirst : first ≤ i)
    (hlast : i ≤ last) (hturns : last < i + turns) :
    (∃ j, (i ≤ j ∧ j ≤ last) ∧ names j = name ∧ (∀ k, i ≤ k → k < j → names k ≠ name) ∧
        traverseChain cls m img name (gnuHash name) turns i (img.gnuChain + (i - t.symoffset) * 4) =
          some (symValue cls m img j)) ∨
      ((∀ j, i ≤ j → j ≤ last → names j ≠ name) ∧
        traverseChain cls m img name (gnuHash name) turns i (img.gnuChain + (i - t.symoffset) * 4) = some 0) := by
  induction turns generalizing i with
  | zero => omega
  | succ turns ih =>
    have hi : t.Hashed n i := ⟨Nat.le_trans hrun.symoffset_le hfirst, Nat.lt_of_le_of_lt hlast hrun.lt⟩
    have hnext : img.gnuChain + (i - t.symoffset) * 4 + 4 = img.gnuChain + (i + 1 - t.symoffset) * 4 := by
      have hle := hi.1
      omega
    rw [traverseChain, hnext]
    by_cases hname : names i = name
    · refine .inl ⟨i, ⟨Nat.le_refl i, hlast⟩, hname, fun k hk hk' => absurd hk (Nat.not_le_of_lt hk'), ?_⟩
      exact if_pos ((entry_matches_iff hptr hsyms hi).2 hname)
    · rw [if_neg fun h => hname ((entry_matches_iff hptr hsyms hi).1 h)]
      rcases Nat.lt_or_ge i last with hlt | hge
      · rw [if_pos ((entry_goes_on_iff hptr hsyms hi).2 (hrun.not_last i hfirst hlt))]
        have hother (k : Nat) (hk : i ≤ k) (hk' : ¬ i + 1 ≤ k) : names k ≠ name := by
          obtain rfl : k = i := by omega
          exact hname
        rcases ih (by omega) hlt (by omega) with ⟨j, hj, hjname, hbefore, hvalue⟩ | ⟨hnone, hzero⟩
        · refine .inl ⟨j, ⟨by omega, hj.2⟩, hjname, fun k hk hkj => ?_, hvalue⟩
          by_cases hik : i + 1 ≤ k
          · exact hbefore k hik hkj
          · exact hother k hk hik
        · refine .inr ⟨fun j hj hjl => ?_, hzero⟩
          by_cases hij : i + 1 ≤ j
          · exact hnone j hij hjl
          · exact hother j hj hij
      · obtain rfl : i = last := Nat.le_antisymm hlast hge
        rw [if_neg fun h => (entry_goes_on_iff hptr hsyms hi).1 h hrun.last]
        refine .inr ⟨fun j hj hjl => ?_, rfl⟩
        obtain rfl : j = i := Nat.le_antisymm hjl hj
        exact hname

/-- What a lookup of the name gives. -/
def Looked (cls : ElfClass) (m : Memory) (img : ElfImage) (t : Table cls.bits) (names : Nat → List UInt8) (n : Nat)
    (name : List UInt8) (v : BitVec cls.bits) : Prop :=
  (∃ i, FirstNamed t names n name i ∧ v = symValue cls m img i) ∨ ((∀ i, t.Hashed n i → names i ≠ name) ∧ v = 0)

theorem findSymbol_looked (name : List UInt8) (hptr : PointsInto cls m img t) (hsyms : HashedSymbols cls m img t names n) :
    ∃ v, findSymbolByGnuHash cls m img n name (gnuHash name) = some v ∧ Looked cls m img t names n name v := by
  have hwf := hsyms.wellFormed
  rw [findSymbolByGnuHash, if_neg hptr.bloomFilter]
  by_cases hbloom : addrAt cls m (img.gnuBloomFilter + (gnuHash name).toNat / cls.bits % img.gnuBloomSize *
      cls.addrSize) &&& bloomMask cls img (gnuHash name) = bloomMask cls img (gnuHash name)
  · rw [if_neg (not_not.2 hbloom), hptr.bucket, hptr.nbucket, hptr.symindx]
    by_cases hbucket : ∃ i, t.Hashed n i ∧ t.bucketOf (gnuHash (names i)) = t.bucketOf (gnuHash name)
    · obtain ⟨i, hi, hsame⟩ := hbucket
      obtain ⟨first, last, hrun, hfirst, hlast⟩ := Table.exists_run hwf hi
      have hbucket : t.bucketOf (gnuHash name) = t.bucketOf (gnuHash (names first)) :=
        hsame.symm.trans ((hrun.mem_iff i hi).2 ⟨hfirst, hlast⟩)
      have hstart : t.bucket ((gnuHash name).toNat % t.nbuckets) = first := by
        rw [← hrun.bucket, ← hbucket]
        rfl
      -- whatever has the name is in the run
      have hinside (k : Nat) (hk : t.Hashed n k) (hname : names k = name) : first ≤ k ∧ k ≤ last := by
        apply (hrun.mem_iff k hk).1
        rw [hname]
        exact hbucket
      rw [hstart, if_neg (Nat.not_lt.2 hrun.symoffset_le)]
      have hturns : last < first + n := by
        have hlt := hrun.lt
        omega
      rcases traverseChain_spec name hptr hsyms hrun (Nat.le_refl first) hrun.le hturns with ⟨j, hj, hname, hbefore, hvalue⟩ | ⟨hnone, hzero⟩
      · have hjn : t.Hashed n j := ⟨Nat.le_trans hrun.symoffset_le hj.1, Nat.lt_of_le_of_lt hj.2 hrun.lt⟩
        refine ⟨_, hvalue, .inl ⟨j, ⟨hjn, hname, fun k hk hkj hkname => ?_⟩, rfl⟩⟩
        exact hbefore k (hinside k hk hkname).1 hkj hkname
      · refine ⟨0, hzero, .inr ⟨fun k hk hkname => ?_, rfl⟩⟩
        obtain ⟨hk, hk'⟩ := hinside k hk hkname
        exact hnone k hk hk' hkname
    · have hzero : t.bucket (t.bucketOf (gnuHash name)) = 0 :=
        hwf.bucket_empty _ (Table.bucketOf_lt hwf _) fun i hi hsame => hbucket ⟨i, hi, hsame⟩
      refine ⟨0, if_pos ?_, .inr ⟨fun i hi hname => hbucket ⟨i, hi, by rw [hname]⟩, rfl⟩⟩
      show t.bucket (t.bucketOf (gnuHash name)) < t.symoffset
      rw [hzero]
      exact hwf.symoffset_pos
  · refine ⟨0, if_pos hbloom, .inr ⟨fun i hi hname => hbloom ?_, rfl⟩⟩
    rw [← hname]
    exact bloom_passes hptr hsyms hi

end Correct

/-- The lookup ends and gives the value of the first hashed symbol of the name, and zero, if no value is zero, exactly
when there is none. -/
theorem findSymbolByGnuHash_spec (cls : ElfClass) (m : Memory) (mapBase dynsymOffset dynstrOffset gnuHashOffset : Nat)
    (names : Nat → List UInt8) (n : Nat) (name : List UInt8)
    (hsyms : HashedSymbols cls m (.ofSections cls m mapBase dynsymOffset dynstrOffset gnuHashOffset)
      (tableAt cls.bits m (mapBase + gnuHashOffset)) names n) :
    let img := ElfImage.ofSections cls m mapBase dynsymOffset dynstrOffset gnuHashOffset
    let t := tableAt cls.bits m (mapBase + gnuHashOffset)
    ∃ v, findSymbolByGnuHash cls m img n name (calculateGnuHash name) = some v ∧
      (∀ i, FirstNamed t names n name i → v = symValue cls m img i) ∧
      ((∀ i, t.Hashed n i → symValue cls m img i ≠ 0) → (v = 0 ↔ ∀ i, t.Hashed n i → names i ≠ name)) := by
  intro img t
  rw [calculateGnuHash_eq]
  obtain ⟨v, hv, hlooked⟩ := findSymbol_looked name (pointsInto_ofSections cls m mapBase dynsymOffset
    dynstrOffset gnuHashOffset) hsyms
  refine ⟨v, hv, fun i hfirst => ?_, fun hvalues => ?_⟩
  · rcases hlooked with ⟨j, hj, rfl⟩ | ⟨hnone, -⟩
    · rw [hj.unique hfirst]
    · exact absurd hfirst.2.1 (hnone i hfirst.1)
  · rcases hlooked with ⟨j, hj, rfl⟩ | ⟨hnone, rfl⟩
    · exact ⟨fun hzero => absurd hzero (hvalues j hj.1), fun hnone => absurd hj.2.1 (hnone j hj.1)⟩
    · exact ⟨fun _ => hnone, fun _ => rfl⟩

/-! ### A table of one symbol -/

/-- The hash section, the two symbols and the strings of a file with the symbol `a` at `0x1000`. -/
def oneSymbolFile : List UInt8 :=
  Bytes.ofU32 1 ++ Bytes.ofU32 1 ++ Bytes.ofU32 1 ++ Bytes.ofU32 5 ++ [0x40, 0, 0, 0, 0, 0, 1, 0] ++
    Bytes.ofU32 1 ++ Bytes.ofU32 177671 ++ List.replicate 24 0 ++
    Bytes.ofU32 1 ++ [0, 0, 0, 0] ++ [0, 0x10, 0, 0, 0, 0, 0, 0] ++ List.replicate 8 0 ++ [0, 0x61, 0]

def oneSymbol : Memory := fun a => oneSymbolFile.getD a 0

theorem hashedSymbols_oneSymbol : HashedSymbols .elf64 oneSymbol (.ofSections .elf64 oneSymbol 0 32 80 0)
    (tableAt 64 oneSymbol (0 + 0)) (fun _ => [0x61]) 2 := by
  have hsym : (tableAt 64 oneSymbol (0 + 0)).symoffset = 1 := by decide
  have hone (i : Nat) (hi : (tableAt 64 oneSymbol (0 + 0)).Hashed 2 i) : i = 1 := by
    have hlow := hi.1
    have hhigh := hi.2
    omega
  refine ⟨?_, fun i hi => ?_⟩
  · constructor
    · decide
    · decide
    · decide
    · decide
    · decide
    · intro i hi
      decide
    · exact fun i j _ _ _ => Nat.le_refl _
    · intro b hb hempty
      have hb : b < 1 := hb
      refine absurd ?_ (hempty 1 ⟨by rw [hsym], by decide⟩)
      obtain rfl : b = 0 := by omega
      decide
    · intro i hi _
      obtain rfl := hone i hi
      decide
    · intro i hi
      obtain rfl := hone i hi
      decide
    · intro i hi
      obtain rfl := hone i hi
      exact ⟨fun _ => .inl rfl, fun _ => by decide⟩
  · obtain rfl := hone i hi
    decide

theorem findSymbolByGnuHash_oneSymbol : ∃ v,
    findSymbolByGnuHash .elf64 oneSymbol (.ofSections .elf64 oneSymbol 0 32 80 0) 2 [0x61] (calculateGnuHash [0x61]) =
      some v ∧ v = 0x1000 := by
  obtain ⟨v, hv, hfirst, -⟩ := findSymbolByGnuHash_spec .elf64 oneSymbol 0 32 80 0 (fun _ => [0x61]) 2 [0x61]
    hashedSymbols_oneSymbol
  refine ⟨v, hv, (hfirst 1 ⟨⟨by decide, by decide⟩, rfl, fun j hj hlt => ?_⟩).trans (by decide)⟩
  have hlow : 1 ≤ j := hj.1
  omega

end OnyxZygisk.Loader
