import Mathlib.Algebra.Group.Int.Defs
import Mathlib.Algebra.Group.Nat.Defs
import Mathlib.Tactic.Common

/-!
# Byte buffers

Little-endian words in a byte list, and what `resize` and a read into a buffer make of its contents.
-/

namespace Bytes

/-- The little-endian number that the bytes make up. -/
def le : List UInt8 → Nat
  | [] => 0
  | b :: bs => b.toNat + 256 * le bs

theorem le_eq_foldr (bytes : List UInt8) : le bytes = bytes.foldr (fun b n => b.toNat + 256 * n) 0 := by
  induction bytes with
  | nil => rfl
  | cons b bytes ih => rw [List.foldr_cons, ← ih, le]

/-- The digits of a number make it up. -/
theorem le_digits (n x : Nat) : le ((List.range n).map fun i => UInt8.ofNat (x >>> (8 * i))) = x % 256 ^ n := by
  induction n generalizing x with
  | zero => exact (Nat.mod_one x).symm
  | succ n ih =>
    have hrest : (List.range n).map (fun i => UInt8.ofNat (x >>> (8 * (i + 1)))) =
        (List.range n).map fun i => UInt8.ofNat ((x / 256) >>> (8 * i)) := by
      apply List.map_congr_left
      intro i _
      rw [Nat.mul_succ, Nat.add_comm, Nat.shiftRight_add, Nat.shiftRight_eq_div_pow x 8]
    have hpow : 256 ^ (n + 1) = 256 * 256 ^ n := Nat.pow_succ'
    have hsplit : x % (256 * 256 ^ n) = x % 256 + 256 * (x / 256 % 256 ^ n) := Nat.mod_mul
    rw [List.range_succ_eq_map, List.map_cons, List.map_map, hpow, hsplit]
    show (UInt8.ofNat (x >>> 0)).toNat + 256 * le ((List.range n).map fun i => UInt8.ofNat (x >>> (8 * (i + 1)))) = _
    rw [hrest, ih, UInt8.toNat_ofNat']
    rfl

/-- The little-endian word in the first four bytes. -/
def u32 (bs : List UInt8) : Nat :=
  (bs.getD 0 0).toNat + 256 * ((bs.getD 1 0).toNat + 256 * ((bs.getD 2 0).toNat +
    256 * (bs.getD 3 0).toNat))

/-- The same word, signed. -/
def i32 (bs : List UInt8) : Int := if u32 bs < 2 ^ 31 then u32 bs else (u32 bs : Int) - 2 ^ 32

/-- The little-endian bytes of a word. -/
def ofU32 (n : Nat) : List UInt8 :=
  [UInt8.ofNat n, UInt8.ofNat (n / 256), UInt8.ofNat (n / 65536), UInt8.ofNat (n / 16777216)]

/-- A buffer with `n` bytes: cut, or filled up with zeros. -/
def resize (bs : List UInt8) (n : Nat) : List UInt8 := bs.take n ++ List.replicate (n - bs.length) 0

/-- A buffer after a read of `new` to its start. -/
def overlay (new old : List UInt8) : List UInt8 := new ++ old.drop new.length

variable {bs bs' new old : List UInt8} {n : Nat}

theorem getD_append_of_lt {i : Nat} (h : i < bs.length) : (bs ++ bs').getD i 0 = bs.getD i 0 := by
  rw [List.getD_eq_getElem?_getD, List.getElem?_append_left h, List.getD_eq_getElem?_getD]

/-- A word depends on its four bytes only. -/
theorem u32_append (h : 4 ≤ bs.length) : u32 (bs ++ bs') = u32 bs := by
  simp only [u32]
  rw [getD_append_of_lt (by omega), getD_append_of_lt (by omega), getD_append_of_lt (by omega),
    getD_append_of_lt (by omega)]

theorem u32_take (h : 4 ≤ n) (hn : n ≤ bs.length) : u32 (bs.take n) = u32 bs := by
  conv_rhs => rw [← List.take_append_drop n bs]
  rw [u32_append]
  rw [List.length_take]
  omega

theorem u32_lt (bs : List UInt8) : u32 bs < 2 ^ 32 := by
  have h (i : Nat) : (bs.getD i 0).toNat < 256 := (bs.getD i 0).toNat_lt
  have h0 := h 0
  have h1 := h 1
  have h2 := h 2
  have h3 := h 3
  unfold u32
  omega

@[simp] theorem length_ofU32 (n : Nat) : (ofU32 n).length = 4 := rfl

/-- A word that is written is read back. -/
theorem u32_ofU32 (h : n < 2 ^ 32) : u32 (ofU32 n) = n := by
  have hbyte (k : Nat) : (UInt8.ofNat k).toNat = k % 256 := UInt8.toNat_ofNat'
  simp only [u32, ofU32, List.getD_cons_zero, List.getD_cons_succ, hbyte]
  omega

/-- The bytes of the word that four bytes make up are these bytes. -/
theorem ofU32_u32 (h : bs.length = 4) : ofU32 (u32 bs) = bs := by
  match bs, h with
  | [a, b, c, d], _ =>
    have ha := a.toNat_lt
    have hb := b.toNat_lt
    have hc := c.toNat_lt
    have hd := d.toNat_lt
    have hword : u32 [a, b, c, d] = a.toNat + 256 * (b.toNat + 256 * (c.toNat + 256 * d.toNat)) := rfl
    rw [hword, ofU32]
    simp only [List.cons.injEq, and_true, ← UInt8.toNat_inj, UInt8.toNat_ofNat']
    omega

@[simp] theorem length_resize (bs : List UInt8) (n : Nat) : (resize bs n).length = n := by
  rw [resize, List.length_append, List.length_take, List.length_replicate]
  omega

theorem overlay_of_length_le (h : old.length ≤ new.length) : overlay new old = new := by
  rw [overlay, List.drop_eq_nil_of_le h, List.append_nil]

end Bytes
