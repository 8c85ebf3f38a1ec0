import OnyxZygisk.Lib.AddressSpace
import OnyxZygisk.Lib.Compaction

/-!
# The table of exit handlers

`AtexitArray::recompact` moves the handlers that are left to the front of the C library's table, clears the
slots behind them and gives back the pages that the table no longer reaches. The table is words in memory,
and a page may end inside an entry; still no handler that is left lies in a page given back
(`recompact_live`). `set_writable` changes protections only, no entry.
-/

namespace OnyxZygisk.Loader

/-- Pointers of `ptr` bytes, and pages. -/
structure Platform where
  ptr : Nat
  pageSize : BitVec (8 * ptr)
  ptr_eq : ptr = 4 ∨ ptr = 8
  pageSize_pow : ∃ p, 3 ≤ p ∧ pageSize.toNat = 2 ^ p

namespace Platform

variable (P : Platform)

abbrev Word : Type := BitVec (8 * P.ptr)

variable {P}

def pageStart (x : P.Word) : P.Word := x &&& ~~~(P.pageSize - 1)

def pageOffset (x : P.Word) : P.Word := x &&& (P.pageSize - 1)

def pageEnd (x : P.Word) : P.Word := pageStart (x + P.pageSize - 1)

end Platform

open Platform

structure AtexitEntry (P : Platform) where
  fn : P.Word
  arg : P.Word
  dso : P.Word
  deriving DecidableEq

/-- `sizeof(AtexitEntry)` -/
def sizeofEntry (P : Platform) : Nat := 3 * P.ptr

/-- The words from the start of the array on. -/
abbrev AtexitTable (P : Platform) : Type := Nat → P.Word

variable {P : Platform}

/-- `array[i]` -/
def AtexitTable.entry (t : AtexitTable P) (i : Nat) : AtexitEntry P := ⟨t (3 * i), t (3 * i + 1), t (3 * i + 2)⟩

/-- `array[i] = entry` -/
def AtexitTable.store (t : AtexitTable P) (i : Nat) (entry : AtexitEntry P) : AtexitTable P :=
  Function.update (Function.update (Function.update t (3 * i) entry.fn) (3 * i + 1) entry.arg) (3 * i + 2)
    entry.dso

/-- `{}` -/
def AtexitEntry.empty : AtexitEntry P := ⟨0, 0, 0⟩

def AtexitEntry.nonNull (entry : AtexitEntry P) : Bool := entry.fn ≠ 0

/-- `madvise(array + addr, len, MADV_DONTNEED)`: a page given back reads as zeros. -/
def AtexitTable.discard (t : AtexitTable P) (array addr len : P.Word) : AtexitTable P :=
  if pageOffset (array + addr) ≠ 0 then t
  else fun k => if addr.toNat ≤ k * P.ptr ∧ k * P.ptr < addr.toNat + len.toNat then 0 else t k

/-- The array lies in the address space, behind its first page. -/
structure AtexitArray (P : Platform) where
  array : P.Word
  size : P.Word
  extractedCount : P.Word
  capacity : P.Word
  totalAppends : BitVec 64
  inMemory : size ≠ 0 → P.pageSize.toNat ≤ array.toNat ∧
    array.toNat + size.toNat * sizeofEntry P ≤ 2 ^ (8 * P.ptr)

def pageEndOfIndex (idx : P.Word) : P.Word := pageEnd (idx * BitVec.ofNat _ (sizeofEntry P))

/-- `while (src < size && array[src].fn != nullptr)`, over `left` entries. -/
def skipNonNull (t : AtexitTable P) : Nat → Nat → Nat
  | 0, src => src
  | left + 1, src => if (t.entry src).fn ≠ 0 then skipNonNull t left (src + 1) else src

/-- `for (; src < size; ++src)`, over `left` entries: the table and `dst` afterwards. -/
def shiftEntries : Nat → Nat → Nat → AtexitTable P → AtexitTable P × Nat
  | 0, _, dst, t => (t, dst)
  | left + 1, src, dst, t =>
    let entry := t.entry src
    let t := t.store src AtexitEntry.empty
    if entry.fn ≠ 0 then shiftEntries left (src + 1) (dst + 1) (t.store dst entry)
    else shiftEntries left (src + 1) dst t

/-! ### Entries -/

variable {t : AtexitTable P} {i j k : Nat}

theorem entry_store (t : AtexitTable P) (i : Nat) (entry : AtexitEntry P) :
    (t.store i entry).entry = Function.update t.entry i entry := by
  funext j
  by_cases h : j = i
  · rw [h, Function.update_self]
    have h01 : 3 * i ≠ 3 * i + 1 := by omega
    have h02 : 3 * i ≠ 3 * i + 2 := by omega
    have h12 : 3 * i + 1 ≠ 3 * i + 2 := by omega
    rw [AtexitTable.entry, AtexitTable.store, Function.update_of_ne h02, Function.update_of_ne h01,
      Function.update_self, Function.update_of_ne h12, Function.update_self, Function.update_self]
  · rw [Function.update_of_ne h]
    simp only [AtexitTable.entry, AtexitTable.store, Function.update_apply]
    rw [if_neg (by omega), if_neg (by omega), if_neg (by omega), if_neg (by omega), if_neg (by omega),
      if_neg (by omega), if_neg (by omega), if_neg (by omega), if_neg (by omega)]

theorem nonNull_iff {entry : AtexitEntry P} : entry.nonNull = true ↔ entry.fn ≠ 0 := decide_eq_true_iff

/-- The loops are the ones over slots that hold entries. -/
theorem skipNonNull_eq (t : AtexitTable P) (left src : Nat) :
    skipNonNull t left src = Compaction.skip AtexitEntry.nonNull t.entry left src := by
  induction left generalizing src with
  | zero => rfl
  | succ left ih =>
    rw [skipNonNull, Compaction.skip, ih]
    simp only [nonNull_iff]

theorem shiftEntries_eq (t : AtexitTable P) (left src dst : Nat) :
    ((shiftEntries left src dst t).1.entry, (shiftEntries left src dst t).2) =
      Compaction.walk AtexitEntry.nonNull AtexitEntry.empty left src dst t.entry := by
  induction left generalizing src dst t with
  | zero => rfl
  | succ left ih =>
    rw [shiftEntries, Compaction.walk]
    simp only [nonNull_iff]
    by_cases h : (t.entry src).fn ≠ 0
    · rw [if_pos h, if_pos h, ih, entry_store, entry_store]
    · rw [if_neg h, if_neg h, ih, entry_store]

/-- The table once both loops have run. -/
theorem loops_compacted (t : AtexitTable P) (size : Nat) :
    let src := skipNonNull t size 0
    Compaction.Compacted AtexitEntry.nonNull AtexitEntry.empty t.entry size
      (shiftEntries (size - src) src src t).2 (shiftEntries (size - src) src src t).1.entry := by
  intro src
  have hskip : src = Compaction.skip AtexitEntry.nonNull t.entry size 0 := skipNonNull_eq t size 0
  have hle : src ≤ size := by
    have h : Compaction.skip AtexitEntry.nonNull t.entry size 0 ≤ 0 + size := Compaction.skip_le _ _ _
    omega
  have h : Compaction.Compacted AtexitEntry.nonNull AtexitEntry.empty t.entry src src t.entry := by
    rw [hskip]
    exact Compaction.skip_compacted rfl size
  have hwalk := Compaction.walk_compacted h (size - src)
  rw [← shiftEntries_eq, Nat.add_sub_cancel' hle] at hwalk
  exact hwalk

/-! ### The table afterwards -/

theorem dst_le (t : AtexitTable P) (size : Nat) :
    (shiftEntries (size - skipNonNull t size 0) (skipNonNull t size 0) (skipNonNull t size 0) t).2 ≤ size :=
  (loops_compacted t size).dst_le

/-- Fewer entries of an array lie in memory, too. -/
theorem AtexitArray.inMemory_of_le (a : AtexitArray P) {size : P.Word} (h : size.toNat ≤ a.size.toNat)
    (hne : size ≠ 0) :
    P.pageSize.toNat ≤ a.array.toNat ∧ a.array.toNat + size.toNat * sizeofEntry P ≤ 2 ^ (8 * P.ptr) := by
  have hsize : a.size ≠ 0 := by
    intro hzero
    rw [hzero] at h
    exact hne (BitVec.eq_of_toNat_eq (Nat.le_zero.1 h))
  obtain ⟨hpage, hend⟩ := a.inMemory hsize
  have hmul : size.toNat * sizeofEntry P ≤ a.size.toNat * sizeofEntry P := Nat.mul_le_mul_right _ h
  exact ⟨hpage, by omega⟩

theorem toNat_ofNat_le {size : P.Word} {dst : Nat} (h : dst ≤ size.toNat) :
    (BitVec.ofNat (8 * P.ptr) dst).toNat = dst := by
  have hlt := size.isLt
  rw [BitVec.toNat_ofNat, Nat.mod_eq_of_lt (by omega)]

/-- What is left of the array, and how many entries. -/
def AtexitArray.shifted (a : AtexitArray P) (t : AtexitTable P) : AtexitTable P × Nat :=
  let src := skipNonNull t a.size.toNat 0
  shiftEntries (a.size.toNat - src) src src t

theorem AtexitArray.shifted_compacted (a : AtexitArray P) (t : AtexitTable P) :
    Compaction.Compacted AtexitEntry.nonNull AtexitEntry.empty t.entry a.size.toNat (a.shifted t).2
      (a.shifted t).1.entry :=
  loops_compacted t a.size.toNat

theorem AtexitArray.toNat_dst (a : AtexitArray P) (t : AtexitTable P) :
    (BitVec.ofNat (8 * P.ptr) (a.shifted t).2).toNat = (a.shifted t).2 :=
  toNat_ofNat_le (a.shifted_compacted t).dst_le

/-- `needs_recompaction` is asked for a log line only. -/
def AtexitArray.recompact (a : AtexitArray P) (t : AtexitTable P) : AtexitArray P × AtexitTable P :=
  let table := (a.shifted t).1
  let dst := BitVec.ofNat (8 * P.ptr) (a.shifted t).2
  let oldBytes := pageEndOfIndex a.size
  let newBytes := pageEndOfIndex dst
  let table := if newBytes < oldBytes then table.discard a.array newBytes (oldBytes - newBytes) else table
  ({ a with
      size := dst
      extractedCount := 0
      totalAppends := dst.setWidth 64
      inMemory := a.inMemory_of_le (a.toNat_dst t ▸ (a.shifted_compacted t).dst_le) }, table)

/-! ### Pages -/

theorem Platform.ptr_pos (P : Platform) : 0 < P.ptr := by
  have h := P.ptr_eq
  omega

theorem Platform.pageSize_pos (P : Platform) : 0 < P.pageSize.toNat := by
  obtain ⟨p, -, hp⟩ := P.pageSize_pow
  rw [hp]
  exact Nat.two_pow_pos p

/-- The end of an index inside the array is not past the address space. -/
theorem toNat_pageEndOfIndex (a : AtexitArray P) {idx : P.Word} (h : idx.toNat ≤ a.size.toNat) :
    (pageEndOfIndex idx).toNat = pageUp P.pageSize.toNat (idx.toNat * sizeofEntry P) := by
  obtain ⟨p, -, hp⟩ := P.pageSize_pow
  have hpage := P.pageSize_pos
  have hpage_lt := P.pageSize.isLt
  have hsum : idx.toNat * sizeofEntry P + P.pageSize.toNat ≤ 2 ^ (8 * P.ptr) := by
    by_cases hne : idx = 0
    · have hzero : idx.toNat * sizeofEntry P = 0 := by
        rw [hne]
        exact Nat.zero_mul _
      omega
    · obtain ⟨hlow, hend⟩ := a.inMemory_of_le h hne
      omega
  have hsize : sizeofEntry P < 2 ^ (8 * P.ptr) := by
    rw [sizeofEntry]
    obtain hptr | hptr := P.ptr_eq
    · rw [hptr]
      decide
    · rw [hptr]
      decide
  have hmul : (idx * BitVec.ofNat _ (sizeofEntry P)).toNat = idx.toNat * sizeofEntry P := by
    rw [BitVec.toNat_mul, BitVec.toNat_ofNat, Nat.mod_eq_of_lt hsize, Nat.mod_eq_of_lt (by omega)]
  rw [pageEndOfIndex, pageEnd, pageStart, toNat_add_and_not _ _ hp, hmul]
  apply Nat.mod_eq_of_lt
  have hdown := pageDown_le P.pageSize.toNat (idx.toNat * sizeofEntry P + P.pageSize.toNat - 1)
  rw [pageUp]
  omega

/-- A word is kept or zeroed, and one in front of the range is kept. -/
theorem discard_apply (t : AtexitTable P) (array addr len : P.Word) (k : Nat) :
    t.discard array addr len k = t k ∨ (t.discard array addr len k = 0 ∧ addr.toNat ≤ k * P.ptr) := by
  rw [AtexitTable.discard]
  split
  · exact .inl rfl
  · by_cases h : addr.toNat ≤ k * P.ptr ∧ k * P.ptr < addr.toNat + len.toNat
    · exact .inr ⟨if_pos h, h.1⟩
    · exact .inl (if_neg h)

/-- The words of an entry in front of the range are kept. -/
theorem entry_discard_of_lt {array addr len : P.Word} (h : (i + 1) * sizeofEntry P ≤ addr.toNat) :
    (t.discard array addr len).entry i = t.entry i := by
  have hptr := P.ptr_pos
  have hword (k : Nat) (hk : k < 3 * (i + 1)) : t.discard array addr len k = t k := by
    obtain heq | ⟨-, hle⟩ := discard_apply t array addr len k
    · exact heq
    · have hlt : k * P.ptr < (i + 1) * sizeofEntry P := by
        rw [sizeofEntry, ← Nat.mul_assoc, Nat.mul_comm (i + 1) 3]
        exact Nat.mul_lt_mul_of_pos_right hk hptr
      omega
  rw [AtexitTable.entry, hword _ (by omega), hword _ (by omega), hword _ (by omega), AtexitTable.entry]

/-- What is empty stays so. -/
theorem entry_discard_of_empty {array addr len : P.Word} (h : t.entry i = AtexitEntry.empty) :
    (t.discard array addr len).entry i = AtexitEntry.empty := by
  have hword (k : Nat) (hk : t k = 0) : t.discard array addr len k = 0 := by
    obtain heq | ⟨hzero, -⟩ := discard_apply t array addr len k
    · rw [heq, hk]
    · exact hzero
  rw [AtexitTable.entry, AtexitEntry.empty, AtexitEntry.mk.injEq] at h
  rw [AtexitTable.entry, hword _ h.1, hword _ h.2.1, hword _ h.2.2, AtexitEntry.empty]

/-! ### Recompaction -/

/-- No page that is given back holds an entry that is left. -/
theorem recompact_live (a : AtexitArray P) (t : AtexitTable P) (hi : i < (a.shifted t).2) :
    (a.recompact t).2.entry i = (a.shifted t).1.entry i := by
  rw [AtexitArray.recompact]
  dsimp only
  split
  · apply entry_discard_of_lt
    have hdst := a.toNat_dst t
    rw [toNat_pageEndOfIndex a (hdst.symm ▸ (a.shifted_compacted t).dst_le), hdst]
    exact (Nat.mul_le_mul_right _ hi).trans (le_pageUp P.pageSize_pos _)
  · rfl

theorem recompact_empty (a : AtexitArray P) (t : AtexitTable P)
    (h : (a.shifted t).1.entry i = AtexitEntry.empty) : (a.recompact t).2.entry i = AtexitEntry.empty := by
  rw [AtexitArray.recompact]
  dsimp only
  split
  · exact entry_discard_of_empty h
  · exact h

/-- The entries of a table that the array holds. -/
def AtexitArray.entries (a : AtexitArray P) (t : AtexitTable P) : List (AtexitEntry P) :=
  Compaction.front a.size.toNat t.entry

/-- Recompaction is a stable filter: the array holds the handlers that were left, in their order, as many
as there were, and each slot behind them up to the old size is zero. -/
theorem recompact_filter (a : AtexitArray P) (t : AtexitTable P) :
    (a.recompact t).1.size.toNat = ((a.entries t).filter fun entry => entry.fn ≠ 0).length ∧
      (a.recompact t).1.entries (a.recompact t).2 = (a.entries t).filter (fun entry => entry.fn ≠ 0) ∧
      ∀ i, (a.recompact t).1.size.toNat ≤ i → i < a.size.toNat → (a.recompact t).2.entry i = ⟨0, 0, 0⟩ := by
  have h := a.shifted_compacted t
  have hsize : (a.recompact t).1.size.toNat = (a.shifted t).2 := a.toNat_dst t
  refine ⟨hsize.trans h.dst_eq, ?_, fun i hle hlt => ?_⟩
  · rw [AtexitArray.entries, hsize]
    have hfront : Compaction.front (a.shifted t).2 (a.recompact t).2.entry =
        Compaction.front (a.shifted t).2 (a.shifted t).1.entry :=
      Compaction.front_congr fun i hi => recompact_live a t hi
    rw [hfront]
    exact h.kept
  · rw [hsize] at hle
    exact recompact_empty a t (h.emptied i hle hlt)

end OnyxZygisk.Loader
