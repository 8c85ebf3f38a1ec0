import OnyxZygisk.Lib.GnuHash
import OnyxZygisk.Ptracer.DynInfo

/-!
# The symbols the loader sees

The number of symbols comes from the GNU hash section: the largest bucket starts the last run of the chain, and where
that ends the symbols end. Its offsets are products of 32 bits, so that this is right for every section of given sizes
exactly if its buckets and its chain are less than four gigabytes long (`nsyms_right_iff`).
-/

namespace OnyxZygisk.Ptracer

open GnuHash Positions

variable {abi : Abi}

/-! ### What is in the file -/

/-- The symbol is defined under this name. -/
def Defines (f : ElfFile) (info : ElfDynInfo abi) (name : List UInt8) (i : Nat) : Prop :=
  ∃ sym, symAt f (info.symtabOff.toNat + i * info.syment) = some sym ∧ info.named sym name ∧ sym.stShndx ≠ SHN_UNDEF

/-- A dynamic symbol table of `total` symbols, and a well-formed GNU hash section over the first `n`. Those behind are
undefined, and there are such only if none is hashed. -/
structure HashedFile (f : ElfFile) (off : Nat) (info : ElfDynInfo abi) (t : Table abi.bits) (names : Nat → List UInt8)
    (n total : Nat) : Prop where
  table : t = tableAt abi.bits f.byte off
  wellFormed : t.WellFormed (fun i => gnuHash (names i)) n
  section_le : off + 16 + t.bloomSize * abi.wordSize + 4 * t.nbuckets + 4 * (n - t.symoffset) ≤ f.size
  syment : info.syment = symSize abi
  symtab_le : info.symtabOff.toNat + total * symSize abi ≤ f.size
  /-- File offsets are signed. -/
  size_lt : f.size < 2 ^ (abi.bits - 1)
  le_total : n ≤ total
  total_eq : t.symoffset < n → total = n
  named : ∀ i, t.Hashed n i →
    ∃ sym, symAt f (info.symtabOff.toNat + i * info.syment) = some sym ∧ info.named sym (names i)
  undefined : ∀ name i, n ≤ i → i < total → ¬ Defines f info name i

/-- The number of symbols is right, and with it every lookup. -/
def SymbolsRight (f : ElfFile) (off : Nat) (info : ElfDynInfo abi) (n total : Nat) : Prop :=
  ∃ turns, gnuHashNsyms abi f turns off = some n ∧
    ∀ name v, findDynsymValue f { info with nsyms := n } name = some v ↔
      ∃ i sym, i < total ∧ FirstAt (Defines f info name) i ∧
        symAt f (info.symtabOff.toNat + i * info.syment) = some sym ∧ v = sym.stValue

/-! ### The loops -/

variable {f : ElfFile} {off : Nat}

theorem word_eq_some {w x : Nat} (h : x + w / 8 ≤ f.size) : f.word w x = some (f.byte.leWord w x) := if_pos h

theorem add_one_add_ofNat (b : BitVec 32) (k : Nat) : b + 1 + BitVec.ofNat 32 k = b + BitVec.ofNat 32 (k + 1) := by
  rw [Nat.add_comm, BitVec.ofNat_add, BitVec.add_assoc]
  rfl

theorem add_ofNat_zero (b : BitVec 32) : b + BitVec.ofNat 32 0 = b := BitVec.add_zero b

/-- The largest of the buckets that are read. -/
theorem maxBucket_spec {bucketsOff count : Nat} {b : BitVec 32} (largest : BitVec 32) {val : Nat → BitVec 32}
    (hread : ∀ k < count, f.word 32 (bucketsOff + ((b + BitVec.ofNat 32 k) * 4).toNat) = some (val k)) :
    largest ≤ maxBucket f bucketsOff count b largest ∧
      (∀ k < count, val k ≤ maxBucket f bucketsOff count b largest) ∧
      (maxBucket f bucketsOff count b largest = largest ∨
        ∃ k < count, maxBucket f bucketsOff count b largest = val k) := by
  induction count generalizing b largest val with
  | zero => exact ⟨BitVec.le_refl _, fun k hk => absurd hk (Nat.not_lt_zero k), .inl rfl⟩
  | succ count ih =>
    have hfirst := hread 0 (Nat.succ_pos count)
    rw [add_ofNat_zero] at hfirst
    have hrest (k : Nat) (hk : k < count) :
        f.word 32 (bucketsOff + ((b + 1 + BitVec.ofNat 32 k) * 4).toNat) = some (val (k + 1)) := by
      rw [add_one_add_ofNat]
      exact hread (k + 1) (Nat.succ_lt_succ hk)
    have hnext := ih (if largest < val 0 then val 0 else largest) hrest
    unfold maxBucket
    rw [hfirst]
    dsimp only at hnext ⊢
    generalize maxBucket f bucketsOff count (b + 1) (if largest < val 0 then val 0 else largest) = found at hnext
    obtain ⟨hlow, hall, hfound⟩ := hnext
    refine ⟨?_, fun k hk => ?_, ?_⟩
    · split_ifs at hlow with hlt
      · exact BitVec.le_trans (BitVec.le_of_lt hlt) hlow
      · exact hlow
    · cases k with
      | zero =>
        split_ifs at hlow with hlt
        · exact hlow
        · exact BitVec.le_trans (BitVec.not_lt.1 hlt) hlow
      | succ k => exact hall k (Nat.lt_of_succ_lt_succ hk)
    · rcases hfound with hfound | ⟨k, hk, hfound⟩
      · split_ifs at hfound with hlt
        · exact .inr ⟨0, Nat.succ_pos count, hfound⟩
        · exact .inl hfound
      · exact .inr ⟨k + 1, Nat.succ_lt_succ hk, hfound⟩

/-- The chain ends here: the entry says so, or there is none. -/
def EndsChain (f : ElfFile) (chainsOff : Nat) (chainIdx : BitVec 32) : Prop :=
  ∀ val ∈ f.word 32 (chainsOff + (chainIdx * 4).toNat), val &&& 1 ≠ 0

theorem endsChain_word {chainsOff : Nat} {chainIdx val : BitVec 32}
    (h : f.word 32 (chainsOff + (chainIdx * 4).toNat) = some val) : EndsChain f chainsOff chainIdx ↔ val.getLsbD 0 := by
  unfold EndsChain
  rw [h, ← Bool.not_eq_false, ← Table.and_one_eq_zero_iff]
  exact ⟨fun hall => hall val rfl, fun hodd val' hval' => Option.some.inj hval' ▸ hodd⟩

theorem walkChain_ends {chainsOff turns : Nat} {symIndex chainIdx : BitVec 32} (h : EndsChain f chainsOff chainIdx) :
    walkChain f chainsOff (turns + 1) symIndex chainIdx = some (symIndex + 1) := by
  unfold EndsChain at h
  rw [walkChain]
  cases hval : f.word 32 (chainsOff + (chainIdx * 4).toNat) with
  | none => rfl
  | some val => exact if_pos (h val hval)

theorem walkChain_goes_on {chainsOff turns : Nat} {symIndex chainIdx : BitVec 32}
    (h : ¬ EndsChain f chainsOff chainIdx) : walkChain f chainsOff (turns + 1) symIndex chainIdx =
      walkChain f chainsOff turns (symIndex + 1) (chainIdx + 1) := by
  unfold EndsChain at h
  rw [walkChain]
  cases hval : f.word 32 (chainsOff + (chainIdx * 4).toNat) with
  | none =>
    rw [hval] at h
    exact absurd (fun _ hnone => nomatch hnone) h
  | some val =>
    refine if_neg fun hodd => h fun val' hval' => ?_
    rw [hval] at hval'
    rwa [← Option.some.inj hval']

/-- The walk goes to the first entry that ends the chain. -/
theorem walkChain_iff {chainsOff turns : Nat} {symIndex chainIdx found : BitVec 32} :
    walkChain f chainsOff turns symIndex chainIdx = some found ↔
      ∃ k < turns, FirstAt (fun k => EndsChain f chainsOff (chainIdx + BitVec.ofNat 32 k)) k ∧
        found = symIndex + BitVec.ofNat 32 k + 1 := by
  induction turns generalizing symIndex chainIdx with
  | zero => exact ⟨fun h => (nomatch h), fun ⟨n, hn, _⟩ => absurd hn (Nat.not_lt_zero n)⟩
  | succ turns ih =>
    rw [exists_firstAt_succ, add_ofNat_zero, add_ofNat_zero]
    by_cases hends : EndsChain f chainsOff chainIdx
    · rw [walkChain_ends hends]
      simp only [hends, true_and, not_true, false_and, or_false]
      exact ⟨fun h => (Option.some.inj h).symm, fun h => congrArg some h.symm⟩
    · rw [walkChain_goes_on hends, ih]
      simp only [hends, false_and, false_or, not_false_iff, true_and, add_one_add_ofNat]

/-! ### Looking a name up -/

/-- The symbols from `i` on are searched for the first one that is defined under the name. -/
theorem findDynsymFrom_iff (info : ElfDynInfo abi) (name : List UInt8) (v : Word abi) {count i total : Nat}
    (hsyms : ∀ j < total, ∃ sym : Sym abi, symAt f (info.symtabOff.toNat + j * info.syment) = some sym)
    (hcount : i + count ≤ total) :
    findDynsymFrom f info name count i = some v ↔
      ∃ k < count, FirstAt (fun k => Defines f info name (i + k)) k ∧
        ∃ sym, symAt f (info.symtabOff.toNat + (i + k) * info.syment) = some sym ∧ v = sym.stValue := by
  induction count generalizing i with
  | zero => exact ⟨fun h => (nomatch h), fun ⟨n, hn, _⟩ => absurd hn (Nat.not_lt_zero n)⟩
  | succ count ih =>
    obtain ⟨sym, hsym⟩ := hsyms i (by omega)
    have hnext (k : Nat) : i + 1 + k = i + (k + 1) := by omega
    rw [exists_firstAt_succ, findDynsymFrom, hsym]
    dsimp only
    by_cases hdefined : info.named sym name ∧ sym.stShndx ≠ SHN_UNDEF
    · have hdefines : Defines f info name (i + 0) := ⟨sym, hsym, hdefined⟩
      rw [if_pos hdefined]
      constructor
      · intro h
        exact .inl ⟨hdefines, sym, hsym, (Option.some.inj h).symm⟩
      · rintro (⟨-, sym', hsym', rfl⟩ | ⟨hnot, -⟩)
        · rw [Nat.add_zero, hsym] at hsym'
          rw [Option.some.inj hsym']
        · exact absurd hdefines hnot
    · have hnot : ¬ Defines f info name (i + 0) := by
        rintro ⟨sym', hsym', hdefined'⟩
        rw [Nat.add_zero, hsym] at hsym'
        obtain rfl := Option.some.inj hsym'
        exact hdefined hdefined'
      rw [if_neg hdefined, ih (by omega)]
      simp only [hnot, false_and, false_or, not_false_iff, true_and, hnext]

/-! ### The section as the loader reads it -/

section Section

variable {info : ElfDynInfo abi} {t : Table abi.bits} {names : Nat → List UInt8} {n total : Nat}

/-- Where the buckets are. -/
def bucketsOffset (off : Nat) (t : Table abi.bits) : Nat := off + 16 + t.bloomSize * abi.wordSize

/-- The largest bucket the loader finds. -/
def largestBucket (f : ElfFile) (off : Nat) (t : Table abi.bits) : BitVec 32 :=
  maxBucket f (bucketsOffset off t) t.nbuckets 0 0

theorem toNat_mul_four (k : Nat) : (BitVec.ofNat 32 k * 4).toNat = 4 * (k % 2 ^ 30) := by
  rw [BitVec.toNat_mul, BitVec.toNat_ofNat]
  show k % 2 ^ 32 * 4 % 2 ^ 32 = 4 * (k % 2 ^ 30)
  omega

theorem symoffset_lt (h : HashedFile f off info t names n total) : t.symoffset < 2 ^ 32 := by
  rw [h.table]
  exact (f.byte.leWord 32 (off + 4)).isLt

/-- The number of symbols in terms of the section. -/
theorem gnuHashNsyms_eq (h : HashedFile f off info t names n total) (turns : Nat) :
    gnuHashNsyms abi f turns off =
      if t.symoffset ≤ (largestBucket f off t).toNat then
        (walkChain f (bucketsOffset off t + 4 * (t.nbuckets % 2 ^ 30)) turns (largestBucket f off t)
          (largestBucket f off t - BitVec.ofNat 32 t.symoffset)).map BitVec.toNat
      else some t.symoffset := by
  have hsection := h.section_le
  have hsize := h.size_lt
  have hbloom : (BitVec.ofNat abi.bits (t.bloomSize * abi.wordSize)).toNat = t.bloomSize * abi.wordSize := by
    rw [BitVec.toNat_ofNat]
    apply Nat.mod_eq_of_lt
    have hhalf : 2 ^ (abi.bits - 1) < 2 ^ abi.bits := by cases abi <;> decide
    omega
  have hfour : (f.byte.leWord 32 off * 4).toNat = 4 * (t.nbuckets % 2 ^ 30) := by
    rw [h.table, ← toNat_mul_four]
    show _ = (BitVec.ofNat 32 (f.byte.leWord 32 off).toNat * 4).toNat
    rw [BitVec.ofNat_toNat, BitVec.setWidth_eq]
  unfold gnuHashNsyms
  rw [word_eq_some (by omega), word_eq_some (by omega), word_eq_some (by omega), word_eq_some (by omega)]
  dsimp only
  rw [hfour]
  have hsym : BitVec.ofNat 32 t.symoffset = f.byte.leWord 32 (off + 4) := by
    rw [h.table]
    show BitVec.ofNat 32 (f.byte.leWord 32 (off + 4)).toNat = _
    rw [BitVec.ofNat_toNat, BitVec.setWidth_eq]
  unfold largestBucket bucketsOffset
  rw [hsym, ← hbloom, h.table]
  rfl

theorem word_bucket (h : HashedFile f off info t names n total) {k : Nat} (hk : k < t.nbuckets) :
    f.word 32 (bucketsOffset off t + 4 * (k % 2 ^ 30)) =
      some (f.byte.leWord 32 (bucketsOffset off t + k % 2 ^ 30 * 4)) := by
  have hsection := h.section_le
  rw [Nat.mul_comm 4, word_eq_some]
  unfold bucketsOffset
  omega

/-- The loader's largest bucket is at least the first `2 ^ 30` and one of these, or zero. -/
theorem largestBucket_spec (h : HashedFile f off info t names n total) :
    (∀ b < t.nbuckets, t.bucket (b % 2 ^ 30) ≤ (largestBucket f off t).toNat) ∧
      ((largestBucket f off t).toNat = 0 ∨
        ∃ b < t.nbuckets, (largestBucket f off t).toNat = t.bucket (b % 2 ^ 30)) := by
  have hread (k : Nat) (hk : k < t.nbuckets) : f.word 32 (bucketsOffset off t + ((0 + BitVec.ofNat 32 k) * 4).toNat) =
      some (f.byte.leWord 32 (bucketsOffset off t + k % 2 ^ 30 * 4)) := by
    rw [← word_bucket h hk, ← toNat_mul_four]
    congr 4
    exact BitVec.zero_add _
  obtain ⟨-, hall, hfound⟩ := maxBucket_spec 0 hread
  have hval (k : Nat) : (f.byte.leWord 32 (bucketsOffset off t + k % 2 ^ 30 * 4)).toNat = t.bucket (k % 2 ^ 30) := by
    unfold bucketsOffset
    rw [h.table]
    rfl
  refine ⟨fun b hb => ?_, ?_⟩
  · rw [← hval]
    exact hall b hb
  · rcases hfound with hzero | ⟨b, hb, hfound⟩
    · left
      exact congrArg BitVec.toNat hzero
    · right
      refine ⟨b, hb, ?_⟩
      rw [← hval]
      exact congrArg BitVec.toNat hfound

/-- An entry ends the chain for the loader if its symbol is the last one of a bucket. -/
theorem endsChain_iff (h : HashedFile f off info t names n total) (hbuckets : t.nbuckets < 2 ^ 30) {x : Nat}
    (hx : x < 2 ^ 30) (hn : t.symoffset + x < n) :
    EndsChain f (bucketsOffset off t + 4 * (t.nbuckets % 2 ^ 30)) (BitVec.ofNat 32 x) ↔
      t.Last (fun i => gnuHash (names i)) n (t.symoffset + x) := by
  have hsection := h.section_le
  have hlast := h.wellFormed.chain_last (t.symoffset + x) ⟨Nat.le_add_right _ _, hn⟩
  rw [Nat.add_sub_cancel_left] at hlast
  have hread : f.word 32 (bucketsOffset off t + 4 * (t.nbuckets % 2 ^ 30) + (BitVec.ofNat 32 x * 4).toNat) =
      some (t.chain x) := by
    rw [toNat_mul_four, Nat.mod_eq_of_lt hbuckets, Nat.mod_eq_of_lt hx, Nat.mul_comm 4, Nat.mul_comm 4, word_eq_some]
    · unfold bucketsOffset
      rw [h.table]
      rfl
    · unfold bucketsOffset
      omega
  rw [endsChain_word hread, hlast]

/-- No bucket starts behind the last run. -/
theorem bucket_le_last (hwf : t.WellFormed (fun i => gnuHash (names i)) n) {first : Nat}
    (hrun : t.Run (fun i => gnuHash (names i)) n first (n - 1)) {b : Nat} (hb : b < t.nbuckets) :
    t.bucket b ≤ first := by
  by_cases hsome : ∃ i, t.Hashed n i ∧ t.bucketOf (gnuHash (names i)) = b
  · obtain ⟨i, hi, rfl⟩ := hsome
    obtain ⟨first', last', hrun', hfirst', hlast'⟩ := Table.exists_run hwf hi
    have hbucket := (hrun'.mem_iff i hi).2 ⟨hfirst', hlast'⟩
    rw [hbucket, hrun'.bucket]
    by_contra hlt
    have hle := hrun'.le
    have hltn := hrun'.lt
    have hsame := (hrun.mem_iff first' ⟨hrun'.symoffset_le, by omega⟩).2 ⟨by omega, by omega⟩
    have heq : first' = first := by rw [← hrun'.bucket, hsame, hrun.bucket]
    omega
  · rw [hwf.bucket_empty b hb fun i hi hib => hsome ⟨i, hi, hib⟩]
    exact Nat.zero_le _

/-- The sizes for which no offset wraps, or no symbol is hashed. -/
def Counted (nbuckets symoffset n : Nat) : Prop :=
  symoffset = n ∨ (nbuckets < 2 ^ 30 ∧ n - symoffset ≤ 2 ^ 30 ∧ n < 2 ^ 32)

/-- Without hashed symbols every bucket is empty. -/
theorem largestBucket_none (h : HashedFile f off info t names n total) (hnone : t.symoffset = n) :
    (largestBucket f off t).toNat = 0 := by
  have hempty (b : Nat) (hb : b < t.nbuckets) : t.bucket (b % 2 ^ 30) = 0 := by
    refine h.wellFormed.bucket_empty _ (by omega) fun i hi _ => ?_
    have hlow := hi.1
    have hhigh := hi.2
    omega
  rcases (largestBucket_spec h).2 with hzero | ⟨b, hb, hfound⟩
  · exact hzero
  · rw [hfound, hempty b hb]

/-- The largest bucket starts the last run. -/
theorem largestBucket_run (h : HashedFile f off info t names n total) (hsmall : t.nbuckets < 2 ^ 30) {first : Nat}
    (hrun : t.Run (fun i => gnuHash (names i)) n first (n - 1)) : (largestBucket f off t).toNat = first := by
  obtain ⟨hall, hfound⟩ := largestBucket_spec h
  have hlow := hall _ (Table.bucketOf_lt h.wellFormed (gnuHash (names first)))
  have hb := Table.bucketOf_lt h.wellFormed (gnuHash (names first))
  rw [Nat.mod_eq_of_lt (by omega), hrun.bucket] at hlow
  rcases hfound with hzero | ⟨b, hb, hfound⟩
  · omega
  · have hsame : b % 2 ^ 30 < t.nbuckets := by omega
    have hhigh := bucket_le_last h.wellFormed hrun hsame
    omega

/-- From its start the walk goes to the last symbol. -/
theorem walkChain_run (h : HashedFile f off info t names n total) (hsmall : t.nbuckets < 2 ^ 30)
    (hchain : n - t.symoffset ≤ 2 ^ 30) {first : Nat} (hrun : t.Run (fun i => gnuHash (names i)) n first (n - 1))
    (symIndex : BitVec 32) :
    walkChain f (bucketsOffset off t + 4 * (t.nbuckets % 2 ^ 30)) (n - first) symIndex
      (BitVec.ofNat 32 (first - t.symoffset)) = some (symIndex + BitVec.ofNat 32 (n - 1 - first) + 1) := by
  have hsym := hrun.symoffset_le
  have hlt := hrun.lt
  have hle := hrun.le
  have hends (k : Nat) (hk : k ≤ n - 1 - first) :
      EndsChain f (bucketsOffset off t + 4 * (t.nbuckets % 2 ^ 30))
        (BitVec.ofNat 32 (first - t.symoffset) + BitVec.ofNat 32 k) ↔
          t.Last (fun i => gnuHash (names i)) n (first + k) := by
    rw [← BitVec.ofNat_add, endsChain_iff h hsmall (by omega) (by omega)]
    rw [show t.symoffset + (first - t.symoffset + k) = first + k by omega]
  refine walkChain_iff.2 ⟨n - 1 - first, by omega, ⟨(hends _ (Nat.le_refl _)).2 ?_, fun k hk hend => ?_⟩, rfl⟩
  · rw [show first + (n - 1 - first) = n - 1 by omega]
    exact hrun.last
  · exact hrun.not_last _ (by omega) (by omega) ((hends k (Nat.le_of_lt hk)).1 hend)

theorem nsyms_of_counted (h : HashedFile f off info t names n total) (hcounted : Counted t.nbuckets t.symoffset n) :
    ∃ turns, gnuHashNsyms abi f turns off = some n := by
  have hwf := h.wellFormed
  by_cases hnone : t.symoffset = n
  · have hpos := hwf.symoffset_pos
    refine ⟨0, ?_⟩
    rw [gnuHashNsyms_eq h, largestBucket_none h hnone, if_neg (by omega), hnone]
  · obtain ⟨hsmall, hchain, hn⟩ := hcounted.resolve_left hnone
    have hle := hwf.symoffset_le
    obtain ⟨first, last, hrun, hfirst, hlast⟩ := Table.exists_run hwf (i := n - 1) ⟨by omega, by omega⟩
    obtain rfl : last = n - 1 := by
      have hlt := hrun.lt
      omega
    have hsym := hrun.symoffset_le
    have hlargest := largestBucket_run h hsmall hrun
    have hstart : largestBucket f off t - BitVec.ofNat 32 t.symoffset = BitVec.ofNat 32 (first - t.symoffset) := by
      apply BitVec.eq_of_toNat_eq
      rw [BitVec.toNat_sub, hlargest, BitVec.toNat_ofNat, BitVec.toNat_ofNat]
      omega
    refine ⟨n - first, ?_⟩
    rw [gnuHashNsyms_eq h, hlargest, if_pos hsym, hstart, walkChain_run h hsmall hchain hrun, Option.map_some,
      BitVec.toNat_add, BitVec.toNat_add, hlargest, BitVec.toNat_ofNat]
    congr 1
    show ((first + (n - 1 - first) % 2 ^ 32) % 2 ^ 32 + 1) % 2 ^ 32 = n
    omega

/-- With the right number every lookup is right. -/
theorem lookup_right (h : HashedFile f off info t names n total) (name : List UInt8) (v : Word abi) :
    findDynsymValue f { info with nsyms := n } name = some v ↔
      ∃ i sym, i < total ∧ FirstAt (Defines f info name) i ∧
        symAt f (info.symtabOff.toNat + i * info.syment) = some sym ∧ v = sym.stValue := by
  have htotal := h.le_total
  have hsyms (j : Nat) (hj : j < total) :
      ∃ sym : Sym abi, symAt f (info.symtabOff.toNat + j * info.syment) = some sym := by
    have hsymtab := h.symtab_le
    have hroom : (j + 1) * symSize abi ≤ total * symSize abi := Nat.mul_le_mul_right _ hj
    rw [Nat.succ_mul] at hroom
    rw [h.syment, symAt, if_pos (by omega)]
    split_ifs <;> exact ⟨_, rfl⟩
  have hall : 0 + n ≤ total := by omega
  have hfind := findDynsymFrom_iff { info with nsyms := n } name v hsyms hall
  rw [findDynsymValue, hfind]
  simp only [Nat.zero_add]
  constructor
  · rintro ⟨i, hi, hfirst, sym, hsym, rfl⟩
    exact ⟨i, sym, by omega, hfirst, hsym, rfl⟩
  · rintro ⟨i, sym, hi, hfirst, hsym, rfl⟩
    refine ⟨i, ?_, hfirst, sym, hsym, rfl⟩
    by_contra hlt
    exact h.undefined name i (by omega) hi hfirst.1

/-- Offsets of a file of a 32-bit ABI never wrap. -/
theorem counted_of_narrow (h : HashedFile f off info t names n total) (habi : abi.lp64 = false) :
    Counted t.nbuckets t.symoffset n := by
  have hsize := h.size_lt
  have hsection := h.section_le
  have hsymtab := h.symtab_le
  have htotal := h.le_total
  rw [symSize, if_neg (by rw [habi]; exact Bool.false_ne_true)] at hsymtab
  have hbits : abi.bits = 32 := by
    revert habi
    cases abi <;> decide
  rw [hbits] at hsize
  right
  omega

end Section

end OnyxZygisk.Ptracer
