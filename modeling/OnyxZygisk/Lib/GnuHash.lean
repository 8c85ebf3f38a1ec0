import OnyxZygisk.Lib.Memory
import OnyxZygisk.Lib.Positions

/-!
# GNU hash sections

How a GNU hash section is built over the hashes of a symbol table. The symbols from `symoffset` on are sorted by
bucket, so that each bucket has a run of them, which ends at the chain entry with its lowest bit set (`exists_run`).
A bloom filter has two bits set for each symbol.
-/

namespace GnuHash

open Positions

/-- The hash of a name. -/
def gnuHash (name : List UInt8) : BitVec 32 := name.foldl (fun h c => h * 33 + BitVec.ofNat 32 c.toNat) 5381

/-- A section over words of `w` bits. The chain has an entry for each symbol from `symoffset` on. -/
structure Table (w : Nat) where
  nbuckets : Nat
  symoffset : Nat
  bloomSize : Nat
  shift2 : Nat
  bloom : Nat → BitVec w
  bucket : Nat → Nat
  chain : Nat → BitVec 32

/-- The section at an address: four words, the filter, the buckets and the chain. -/
def tableAt (w : Nat) (m : Memory) (ptr : Nat) : Table w :=
  let nbuckets := (m.leWord 32 ptr).toNat
  let bloomSize := (m.leWord 32 (ptr + 8)).toNat
  let buckets := ptr + 16 + bloomSize * (w / 8)
  { nbuckets
    symoffset := (m.leWord 32 (ptr + 4)).toNat
    bloomSize
    shift2 := (m.leWord 32 (ptr + 12)).toNat
    bloom := fun i => m.leWord w (ptr + 16 + i * (w / 8))
    bucket := fun b => (m.leWord 32 (buckets + b * 4)).toNat
    chain := fun i => m.leWord 32 (buckets + nbuckets * 4 + i * 4) }

namespace Table

variable {w : Nat} (t : Table w)

def bucketOf (h : BitVec 32) : Nat := h.toNat % t.nbuckets

/-- The word of the bloom filter for a hash. -/
def bloomWord (h : BitVec 32) : BitVec w := t.bloom (h.toNat / w % t.bloomSize)

/-- The bits that are set there for the hash. -/
def bloomBits (h : BitVec 32) : List Nat := [h.toNat % w, (h >>> t.shift2).toNat % w]

/-- The symbols in the table, of `n` symbols in all. -/
def Hashed (n i : Nat) : Prop := t.symoffset ≤ i ∧ i < n

/-- The symbol is the last one of its bucket, `hashes` being the hashes of all symbols. -/
def Last (hashes : Nat → BitVec 32) (n i : Nat) : Prop :=
  i + 1 = n ∨ t.bucketOf (hashes (i + 1)) ≠ t.bucketOf (hashes i)

/-- The section is built over the symbols from `symoffset` to `n`. The shift is less than the length of a hash, and
the first symbol of all is not in the table: its number stands for an empty bucket. -/
structure WellFormed (hashes : Nat → BitVec 32) (n : Nat) : Prop where
  nbuckets_pos : 0 < t.nbuckets
  bloomSize_pos : 0 < t.bloomSize
  shift2_lt : t.shift2 < 32
  symoffset_pos : 0 < t.symoffset
  symoffset_le : t.symoffset ≤ n
  bloom : ∀ i, t.Hashed n i → ∀ b ∈ t.bloomBits (hashes i), (t.bloomWord (hashes i)).getLsbD b
  sorted : ∀ i j, t.symoffset ≤ i → i ≤ j → j < n → t.bucketOf (hashes i) ≤ t.bucketOf (hashes j)
  bucket_empty : ∀ b < t.nbuckets, (∀ i, t.Hashed n i → t.bucketOf (hashes i) ≠ b) → t.bucket b = 0
  bucket_first : ∀ i, t.Hashed n i →
    (∀ j, t.symoffset ≤ j → j < i → t.bucketOf (hashes j) ≠ t.bucketOf (hashes i)) →
    t.bucket (t.bucketOf (hashes i)) = i
  chain_hash : ∀ i, t.Hashed n i → t.chain (i - t.symoffset) >>> 1 = hashes i >>> 1
  chain_last : ∀ i, t.Hashed n i → ((t.chain (i - t.symoffset)).getLsbD 0 ↔ t.Last hashes n i)

/-- The symbols of one bucket. -/
structure Run (hashes : Nat → BitVec 32) (n first last : Nat) : Prop where
  symoffset_le : t.symoffset ≤ first
  le : first ≤ last
  lt : last < n
  bucket : t.bucket (t.bucketOf (hashes first)) = first
  mem_iff : ∀ i, t.Hashed n i → (t.bucketOf (hashes i) = t.bucketOf (hashes first) ↔ first ≤ i ∧ i ≤ last)
  not_last : ∀ i, first ≤ i → i < last → ¬ t.Last hashes n i
  last : t.Last hashes n last

variable {t} {hashes : Nat → BitVec 32} {n i : Nat}

theorem bucketOf_lt (hwf : t.WellFormed hashes n) (h : BitVec 32) : t.bucketOf h < t.nbuckets :=
  Nat.mod_lt _ hwf.nbuckets_pos

/-- A bucket with a symbol in it has a run. -/
theorem exists_run (hwf : t.WellFormed hashes n) (hi : t.Hashed n i) :
    ∃ first last, t.Run hashes n first last ∧ first ≤ i ∧ i ≤ last := by
  have hin : t.symoffset ≤ i ∧ t.bucketOf (hashes i) = t.bucketOf (hashes i) := ⟨hi.1, rfl⟩
  obtain ⟨first, hfirst, ⟨hsym, hbucket⟩, hbefore⟩ :=
    exists_firstAt (P := fun j => t.symoffset ≤ j ∧ t.bucketOf (hashes j) = t.bucketOf (hashes i)) hin
  have hend : i ≤ n - 1 ∧ t.Last hashes n (n - 1) := ⟨Nat.le_sub_one_of_lt hi.2, .inl (by have := hi.2; omega)⟩
  obtain ⟨last, hlastn, ⟨hle, hlast⟩, hgoes⟩ := exists_firstAt (P := fun j => i ≤ j ∧ t.Last hashes n j) hend
  have hlt : last < n := by
    have hn := hi.2
    omega
  -- up to the last one the bucket stays the same
  have hafter (k : Nat) (hk : i + k ≤ last) : t.bucketOf (hashes (i + k)) = t.bucketOf (hashes i) := by
    induction k with
    | zero => rfl
    | succ k ih =>
      have hnext : ¬ t.Last hashes n (i + k) := fun h => hgoes (i + k) (by omega) ⟨by omega, h⟩
      rw [Last, not_or, not_not] at hnext
      exact hnext.2.trans (ih (by omega))
  have hinside (k : Nat) (hk : first ≤ k) (hk' : k ≤ last) : t.bucketOf (hashes k) = t.bucketOf (hashes i) := by
    by_cases hki : k ≤ i
    · have hlow := hwf.sorted first k hsym hk (by omega)
      have hhigh := hwf.sorted k i (by omega) hki hi.2
      omega
    · obtain ⟨d, rfl⟩ := Nat.exists_eq_add_of_le (Nat.le_of_not_le hki)
      exact hafter d hk'
  refine ⟨first, last, ⟨hsym, by omega, hlt, ?_, fun k hk => ?_, fun k hk hk' => ?_, hlast⟩, hfirst, hle⟩
  · refine hwf.bucket_first first ⟨hsym, by omega⟩ fun j hj hjf heq => hbefore j hjf ⟨hj, heq.trans hbucket⟩
  · rw [hbucket]
    refine ⟨fun heq => ⟨?_, ?_⟩, fun h => hinside k h.1 h.2⟩
    · by_contra hlow
      exact hbefore k (by omega) ⟨hk.1, heq⟩
    · by_contra hhigh
      rcases hlast with hn | hnext
      · have hkn := hk.2
        omega
      · have hstep := hwf.sorted last (last + 1) (by omega) (Nat.le_succ last) (by have := hk.2; omega)
        have hrest := hwf.sorted (last + 1) k (by omega) (by omega) hk.2
        have hsame := hinside last (by omega) (Nat.le_refl last)
        omega
  · rintro (hn | hnext)
    · omega
    · exact hnext ((hinside (k + 1) (by omega) hk').trans (hinside k hk (by omega)).symm)

/-! ### Bits -/

theorem and_one_eq_zero_iff (x : BitVec 32) : x &&& 1 = 0 ↔ x.getLsbD 0 = false := by
  show x &&& 1#32 = 0 ↔ _
  rw [BitVec.and_one_eq_setWidth_ofBool_getLsbD]
  cases x.getLsbD 0 <;> decide

/-- A word has the bits of a mask of two. -/
theorem and_bits_eq_iff {word : BitVec w} {a b : Nat} (ha : a < w) (hb : b < w) :
    word &&& (BitVec.twoPow w a ||| BitVec.twoPow w b) = BitVec.twoPow w a ||| BitVec.twoPow w b ↔
      word.getLsbD a ∧ word.getLsbD b := by
  constructor
  · intro h
    have hbit (j : Nat) := congrArg (fun x : BitVec w => x.getLsbD j) h
    simp only [BitVec.getLsbD_and, BitVec.getLsbD_or, BitVec.getLsbD_twoPow] at hbit
    refine ⟨?_, ?_⟩
    · simpa [ha] using hbit a
    · simpa [hb] using hbit b
  · rintro ⟨hwa, hwb⟩
    apply BitVec.eq_of_getLsbD_eq
    intro j hj
    rw [BitVec.getLsbD_and, BitVec.getLsbD_or, BitVec.getLsbD_twoPow, BitVec.getLsbD_twoPow]
    by_cases hja : a = j
    · subst hja
      simp [hwa, ha]
    · by_cases hjb : b = j
      · subst hjb
        simp [hwb, hb]
      · simp [hja, hjb]

/-! ### Lookups -/

variable (t) in
/-- Along the chain, for some turns at most. -/
def walk (hit : Nat → Bool) (h : BitVec 32) : Nat → Nat → Option Nat
  | 0, _ => none
  | turns + 1, i =>
    if (t.chain (i - t.symoffset) ^^^ h) >>> 1 = 0 ∧ hit i = true then some i
    else if t.chain (i - t.symoffset) &&& 1 = 0 then walk hit h turns (i + 1)
    else some 0

variable (t) in
/-- The bits of the filter that a hash asks for. -/
def bloomMask (h : BitVec 32) : BitVec w :=
  BitVec.twoPow w (h.toNat % w) ||| BitVec.twoPow w ((h >>> t.shift2).toNat % w)

variable (t) in
/-- A symbol that is hit, among those with the hash. -/
def lookup (hit : Nat → Bool) (turns : Nat) (h : BitVec 32) : Option Nat :=
  if t.bloomWord h &&& t.bloomMask h ≠ t.bloomMask h then some 0
  else if t.bucket (t.bucketOf h) < t.symoffset then some 0
  else t.walk hit h turns (t.bucket (t.bucketOf h))

variable {hit : Nat → Bool} {h : BitVec 32} {first last turns : Nat}

/-- From a symbol of a run on, the walk comes to one that is hit, or to the end of the run. -/
theorem walk_spec (hwf : t.WellFormed hashes n) (hrun : t.Run hashes n first last)
    (hhash : ∀ i, t.Hashed n i → hit i = true → hashes i = h) (hfirst : first ≤ i) (hlast : i ≤ last)
    (hturns : last < i + turns) :
    ∃ j, t.walk hit h turns i = some j ∧ (j = 0 → ∀ k, i ≤ k → k ≤ last → hit k = false) ∧
      (j ≠ 0 → t.Hashed n j ∧ hit j = true) := by
  induction turns generalizing i with
  | zero => omega
  | succ turns ih =>
    have hi : t.Hashed n i := ⟨Nat.le_trans hrun.symoffset_le hfirst, Nat.lt_of_le_of_lt hlast hrun.lt⟩
    rw [walk]
    by_cases hhit : hit i = true
    · have hentry : (t.chain (i - t.symoffset) ^^^ h) >>> 1 = 0 := by
        rw [BitVec.ushiftRight_xor_distrib, hwf.chain_hash i hi, hhash i hi hhit]
        exact BitVec.xor_self
      have hne : i ≠ 0 := by
        have hpos := hwf.symoffset_pos
        have hle := hi.1
        omega
      exact ⟨i, if_pos ⟨hentry, hhit⟩, fun hzero => absurd hzero hne, fun _ => ⟨hi, hhit⟩⟩
    · rw [if_neg fun hboth => hhit hboth.2]
      rw [Bool.not_eq_true] at hhit
      by_cases hend : t.Last hashes n i
      · have hbit := (hwf.chain_last i hi).2 hend
        have hsame : i = last := by
          by_contra hne
          exact hrun.not_last i hfirst (by omega) hend
        refine ⟨0, if_neg fun hzero => ?_, fun _ k hk hk' => ?_, fun hne => absurd rfl hne⟩
        · rw [(and_one_eq_zero_iff _).1 hzero] at hbit
          exact Bool.false_ne_true hbit
        · obtain rfl : k = i := by omega
          exact hhit
      · have hbit : (t.chain (i - t.symoffset)).getLsbD 0 = false := by
          rw [← Bool.not_eq_true, hwf.chain_last i hi]
          exact hend
        have hlt : i < last := by
          by_contra hge
          obtain rfl : i = last := by omega
          exact hend hrun.last
        obtain ⟨j, hj, hnone, hsome⟩ := ih (by omega) hlt (by omega)
        refine ⟨j, (if_pos ((and_one_eq_zero_iff _).2 hbit)).trans hj, fun hzero k hk hk' => ?_, hsome⟩
        rcases Nat.eq_or_lt_of_le hk with rfl | hlater
        · exact hhit
        · exact hnone hzero k hlater hk'

/-- The lookup ends, with a hashed symbol that is hit, or with 0 if there is none. -/
theorem lookup_spec (hit : Nat → Bool) (h : BitVec 32) (hw : 0 < w) (hwf : t.WellFormed hashes n)
    (hhash : ∀ i, t.Hashed n i → hit i = true → hashes i = h) :
    ∃ j, t.lookup hit n h = some j ∧ (j = 0 → ∀ i, t.Hashed n i → hit i = false) ∧
      (j ≠ 0 → t.Hashed n j ∧ hit j = true) := by
  rw [lookup]
  by_cases hbloom : t.bloomWord h &&& t.bloomMask h = t.bloomMask h
  · rw [if_neg (not_not.2 hbloom)]
    by_cases hbucket : ∃ i, t.Hashed n i ∧ t.bucketOf (hashes i) = t.bucketOf h
    · obtain ⟨i, hi, hsame⟩ := hbucket
      obtain ⟨first, last, hrun, hfirst, hlast⟩ := exists_run hwf hi
      have hhead : t.bucketOf h = t.bucketOf (hashes first) := hsame.symm.trans ((hrun.mem_iff i hi).2 ⟨hfirst, hlast⟩)
      rw [hhead, hrun.bucket, if_neg (Nat.not_lt.2 hrun.symoffset_le)]
      have hturns : last < first + n := Nat.lt_of_lt_of_le hrun.lt (Nat.le_add_left n first)
      obtain ⟨j, hj, hnone, hsome⟩ := walk_spec hwf hrun hhash (Nat.le_refl first) hrun.le hturns
      refine ⟨j, hj, fun hzero k hk => ?_, hsome⟩
      by_contra hhit
      rw [Bool.not_eq_false] at hhit
      obtain ⟨hk', hk''⟩ := (hrun.mem_iff k hk).1 (by rw [hhash k hk hhit]; exact hhead)
      exact absurd hhit (by rw [hnone hzero k hk' hk'']; exact Bool.false_ne_true)
    · have hzero : t.bucket (t.bucketOf h) = 0 :=
        hwf.bucket_empty _ (bucketOf_lt hwf _) fun i hi hsame => hbucket ⟨i, hi, hsame⟩
      rw [hzero, if_pos hwf.symoffset_pos]
      refine ⟨0, rfl, fun _ i hi => ?_, fun hne => absurd rfl hne⟩
      by_contra hhit
      rw [Bool.not_eq_false] at hhit
      exact hbucket ⟨i, hi, by rw [hhash i hi hhit]⟩
  · rw [if_pos hbloom]
    refine ⟨0, rfl, fun _ i hi => ?_, fun hne => absurd rfl hne⟩
    by_contra hhit
    rw [Bool.not_eq_false] at hhit
    have hbits := hwf.bloom i hi
    rw [hhash i hi hhit] at hbits
    exact hbloom ((and_bits_eq_iff (Nat.mod_lt _ hw) (Nat.mod_lt _ hw)).2
      ⟨hbits _ List.mem_cons_self, hbits _ (List.mem_cons_of_mem _ List.mem_cons_self)⟩)

end Table

end GnuHash
