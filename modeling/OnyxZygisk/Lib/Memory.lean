import OnyxZygisk.Lib.Bytes
import Mathlib.Data.List.GetD
import Mathlib.Tactic.Common
import Mathlib.Tactic.SplitIfs

/-!
# Byte memory

A memory is what stands at each address. A write changes its own range and nothing else, writes of adjacent
ranges are one write, and writing back what was read changes nothing. A C string is read by its length up to
a limit.
-/

abbrev Memory : Type := Nat → UInt8

namespace Memory

/-! ### Ranges -/

def read (m : Memory) (ptr len : Nat) : List UInt8 := (List.range' ptr len).map m

/-- `memcpy` into the memory. -/
def write (m : Memory) (ptr : Nat) (bs : List UInt8) : Memory := fun a =>
  if ptr ≤ a ∧ a < ptr + bs.length then bs.getD (a - ptr) 0 else m a

/-- `memset` -/
def fill (m : Memory) (ptr len : Nat) (b : UInt8) : Memory := m.write ptr (List.replicate len b)

/-- The little-endian word at an address. -/
def leWord (w : Nat) (m : Memory) (ptr : Nat) : BitVec w := BitVec.ofNat w (Bytes.le (m.read ptr (w / 8)))

variable {m m' : Memory} {ptr len a k n : Nat} {bs bs' : List UInt8}

@[simp] theorem length_read (m : Memory) (ptr len : Nat) : (m.read ptr len).length = len := by
  rw [read, List.length_map, List.length_range']

@[simp] theorem read_zero (m : Memory) (ptr : Nat) : m.read ptr 0 = [] := rfl

theorem read_succ (m : Memory) (ptr len : Nat) : m.read ptr (len + 1) = m ptr :: m.read (ptr + 1) len := rfl

theorem read_add (m : Memory) (ptr k n : Nat) : m.read ptr (k + n) = m.read ptr k ++ m.read (ptr + k) n := by
  rw [read, read, read, ← List.map_append]
  congr 1
  exact List.range'_append_1.symm

theorem read_concat (m : Memory) (ptr len : Nat) : m.read ptr (len + 1) = m.read ptr len ++ [m (ptr + len)] :=
  read_add m ptr len 1

/-- A read sees its own range only. -/
theorem read_congr (h : ∀ a, ptr ≤ a → a < ptr + len → m a = m' a) : m.read ptr len = m'.read ptr len := by
  apply List.map_congr_left
  intro a ha
  rw [List.mem_range'_1] at ha
  exact h a ha.1 ha.2

theorem write_out (h : ¬ (ptr ≤ a ∧ a < ptr + bs.length)) : m.write ptr bs a = m a := if_neg h

theorem write_in (h : ptr ≤ a ∧ a < ptr + bs.length) : m.write ptr bs a = bs.getD (a - ptr) 0 := if_pos h

/-- Two writes, one behind the other, are one write. -/
theorem write_append (m : Memory) (ptr : Nat) (bs bs' : List UInt8) :
    (m.write ptr bs).write (ptr + bs.length) bs' = m.write ptr (bs ++ bs') := by
  funext a
  by_cases hback : ptr + bs.length ≤ a ∧ a < ptr + bs.length + bs'.length
  · have hall : ptr ≤ a ∧ a < ptr + (bs ++ bs').length := by
      rw [List.length_append]
      omega
    rw [write_in hback, write_in hall, List.getD_eq_getElem?_getD, List.getD_eq_getElem?_getD,
      List.getElem?_append_right (by omega)]
    congr 2
    omega
  · rw [write_out hback]
    by_cases hfront : ptr ≤ a ∧ a < ptr + bs.length
    · have hall : ptr ≤ a ∧ a < ptr + (bs ++ bs').length := by
        rw [List.length_append]
        omega
      rw [write_in hfront, write_in hall, List.getD_eq_getElem?_getD, List.getD_eq_getElem?_getD,
        List.getElem?_append_left (by omega)]
    · have hnone : ¬ (ptr ≤ a ∧ a < ptr + (bs ++ bs').length) := by
        rw [List.length_append]
        omega
      rw [write_out hfront, write_out hnone]

/-- What was written is read. -/
theorem read_write (m : Memory) (ptr : Nat) (bs : List UInt8) : (m.write ptr bs).read ptr bs.length = bs := by
  apply List.ext_getElem (length_read _ _ _)
  intro i hi hbs
  have hin : ptr ≤ ptr + i ∧ ptr + i < ptr + bs.length := by omega
  simp only [read, List.getElem_map, List.getElem_range', Nat.one_mul]
  rw [write_in hin, Nat.add_sub_cancel_left, List.getD_eq_getElem _ _ hbs]

/-- Writing what stands there changes nothing. -/
theorem write_of_read (h : m.read ptr bs.length = bs) : m.write ptr bs = m := by
  funext a
  by_cases hin : ptr ≤ a ∧ a < ptr + bs.length
  · rw [write_in hin, ← h]
    have hlt : a - ptr < (m.read ptr bs.length).length := by
      rw [length_read]
      omega
    rw [List.getD_eq_getElem _ _ hlt]
    simp only [read, List.getElem_map, List.getElem_range', Nat.one_mul]
    congr 1
    omega
  · exact write_out hin

theorem read_append_iff : m.read ptr (bs ++ bs').length = bs ++ bs' ↔
    m.read ptr bs.length = bs ∧ m.read (ptr + bs.length) bs'.length = bs' := by
  rw [List.length_append, read_add]
  constructor
  · intro h
    exact List.append_inj h (length_read _ _ _)
  · rintro ⟨h, h'⟩
    rw [h, h']

theorem length_flatMap_block {α : Type} {block : α → List UInt8} {size : Nat} (hsize : ∀ x, (block x).length = size)
    (xs : List α) : (xs.flatMap block).length = size * xs.length := by
  induction xs with
  | nil => rfl
  | cons x xs ih => rw [List.flatMap_cons, List.length_append, hsize, ih, List.length_cons, Nat.mul_succ, Nat.add_comm]

/-- Blocks of one size stand at the multiples of it. -/
theorem read_flatMap {α : Type} {block : α → List UInt8} {size i : Nat} (hsize : ∀ x, (block x).length = size)
    (m : Memory) (ptr : Nat) {xs : List α} (hi : i < xs.length) :
    (m.write ptr (xs.flatMap block)).read (ptr + size * i) size = block xs[i] := by
  have hfront : ((xs.take i).flatMap block).length = size * i := by
    rw [length_flatMap_block hsize, List.length_take, Nat.min_eq_left (Nat.le_of_lt hi)]
  have hsplit : xs.flatMap block =
      (xs.take i).flatMap block ++ block xs[i] ++ (xs.drop (i + 1)).flatMap block := by
    conv_lhs => rw [← List.take_append_drop i xs, List.drop_eq_getElem_cons hi]
    rw [List.flatMap_append, List.flatMap_cons, List.append_assoc]
  have hread := read_write m ptr (xs.flatMap block)
  rw [hsplit] at hread ⊢
  rw [read_append_iff, read_append_iff, hfront, hsize] at hread
  exact hread.1.2

/-! ### C strings -/

/-- `strnlen`: the bytes in front of a zero, at most as many as the limit says. -/
def strnlen (m : Memory) (ptr : Nat) : Nat → Nat
  | 0 => 0
  | limit + 1 => if m ptr = 0 then 0 else strnlen m (ptr + 1) limit + 1

/-- The bytes of a string, with its zero. -/
def cstr (s : List UInt8) : List UInt8 := s ++ [0]

@[simp] theorem length_cstr (s : List UInt8) : (cstr s).length = s.length + 1 := List.length_append

theorem strnlen_le (m : Memory) (ptr limit : Nat) : m.strnlen ptr limit ≤ limit := by
  induction limit generalizing ptr with
  | zero => exact Nat.le_refl 0
  | succ limit ih =>
    rw [strnlen]
    split_ifs
    · exact Nat.zero_le _
    · exact Nat.succ_le_succ (ih (ptr + 1))

/-- In front of the zero there is none. -/
theorem zero_not_mem_read (m : Memory) (ptr limit : Nat) : 0 ∉ m.read ptr (m.strnlen ptr limit) := by
  induction limit generalizing ptr with
  | zero => exact List.not_mem_nil
  | succ limit ih =>
    rw [strnlen]
    split_ifs with hzero
    · exact List.not_mem_nil
    · rw [read_succ, List.mem_cons, not_or]
      exact ⟨Ne.symm hzero, ih (ptr + 1)⟩

theorem strnlen_zero {limit : Nat} (h : m.strnlen ptr limit < limit) : m (ptr + m.strnlen ptr limit) = 0 := by
  induction limit generalizing ptr with
  | zero => exact absurd h (Nat.lt_irrefl 0)
  | succ limit ih =>
    rw [strnlen] at h ⊢
    split_ifs at h ⊢ with hzero
    · exact hzero
    · have hrest := ih (Nat.lt_of_succ_lt_succ h)
      rw [Nat.add_assoc, Nat.add_comm 1] at hrest
      exact hrest

/-- The string that stands in the memory has its length, if the limit leaves room for the zero. -/
theorem strnlen_cstr {s : List UInt8} {limit : Nat} (hs : 0 ∉ s) (hread : m.read ptr (cstr s).length = cstr s)
    (hlt : s.length < limit) : m.strnlen ptr limit = s.length := by
  induction s generalizing ptr limit with
  | nil =>
    obtain ⟨limit, rfl⟩ := Nat.exists_eq_add_of_lt hlt
    rw [strnlen, if_pos (List.cons.inj hread).1]
    rfl
  | cons b s ih =>
    rw [List.mem_cons, not_or] at hs
    obtain ⟨hb, hread⟩ := List.cons.inj hread
    cases limit with
    | zero => exact absurd hlt (Nat.not_lt_zero _)
    | succ limit =>
      rw [strnlen, if_neg (by rw [hb]; exact Ne.symm hs.1), ih hs.2 hread (Nat.lt_of_succ_lt_succ hlt)]
      rfl

end Memory
