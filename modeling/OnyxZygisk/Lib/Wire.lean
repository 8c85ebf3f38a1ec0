import Mathlib.Algebra.Order.Ring.Nat
import Mathlib.Data.List.TakeWhile
import Mathlib.Tactic.Common
import Mathlib.Tactic.Ring

/-!
# A byte stream that carries descriptors

Words of fixed width, strings with their length in front, and descriptors that ride on a word of their
own. A read past the end of the stream gives a default and leaves nothing. What was written is read back
(`readNat_write`, `readString_write`, `recvFd_send`); a string comes back up to its first zero byte.
-/

namespace Wire

/-- A byte, and the descriptor that arrives with it. -/
structure Cell where
  byte : UInt8
  fd : Option Nat

abbrev Stream := List Cell

def bytes (bs : List UInt8) : Stream := bs.map fun b => ⟨b, none⟩

/-- The little-endian word of `width` bytes. -/
def leBytes : Nat → Nat → List UInt8
  | 0, _ => []
  | width + 1, n => UInt8.ofNat n :: leBytes width (n / 256)

def leValue : List UInt8 → Nat
  | [] => 0
  | b :: bs => b.toNat + 256 * leValue bs

/-! ### Writing -/

def writeNat (width n : Nat) : Stream := bytes (leBytes width n)

/-- `usize` is the width of a length. -/
def writeString (usize : Nat) (s : List UInt8) : Stream := writeNat usize s.length ++ bytes s

def sendFd (fd : Nat) : Stream := ⟨0, some fd⟩ :: bytes [0, 0, 0]

/-! ### Reading -/

/-- `read_exact_or(0)`: a word, or 0 if the stream ends before. -/
def readNat (width : Nat) (s : Stream) : Nat × Stream :=
  if width ≤ s.length then (leValue ((s.take width).map Cell.byte), s.drop width) else (0, [])

/-- `read_string`. The buffer holds `heap` where nothing is read into it; the result is a C string. -/
def readString (usize : Nat) (heap : Nat → List UInt8) (s : Stream) : List UInt8 × Stream :=
  let (len, s) := readNat usize s
  let got := (s.take len).map Cell.byte
  let buf := (got ++ (heap len).drop got.length).take len
  (buf.takeWhile (· ≠ 0), s.drop len)

/-- `recv_fd`: the descriptor of the next four bytes, or -1. -/
def recvFd (s : Stream) : Int × Stream :=
  (match (s.take 4).findSome? Cell.fd with
    | some fd => fd
    | none => -1, s.drop 4)

/-! ### Round trips -/

variable {width usize n : Nat} {rest : Stream} {heap : Nat → List UInt8}

@[simp] theorem length_leBytes (width n : Nat) : (leBytes width n).length = width := by
  induction width generalizing n with
  | zero => rfl
  | succ width ih => rw [leBytes, List.length_cons, ih]

theorem leValue_leBytes (h : n < 256 ^ width) : leValue (leBytes width n) = n := by
  induction width generalizing n with
  | zero =>
    rw [Nat.pow_zero, Nat.lt_one_iff] at h
    rw [h]
    rfl
  | succ width ih =>
    have hdiv : n / 256 < 256 ^ width := by
      apply Nat.div_lt_of_lt_mul
      rw [Nat.mul_comm, ← Nat.pow_succ]
      exact h
    have hbyte : (UInt8.ofNat n).toNat = n % 256 := UInt8.toNat_ofNat'
    rw [leBytes, leValue, ih hdiv, hbyte]
    omega

/-- The bytes of the number that bytes make up are these bytes. -/
theorem leBytes_leValue (bs : List UInt8) : leBytes bs.length (leValue bs) = bs := by
  induction bs with
  | nil => rfl
  | cons b bs ih =>
    have hb := b.toNat_lt
    have hbyte : UInt8.ofNat (b.toNat + 256 * leValue bs) = b := by
      apply UInt8.toNat_inj.1
      rw [UInt8.toNat_ofNat']
      omega
    have hdiv : (b.toNat + 256 * leValue bs) / 256 = leValue bs := by omega
    rw [List.length_cons, leValue, leBytes, hbyte, hdiv, ih]

@[simp] theorem length_bytes (bs : List UInt8) : (bytes bs).length = bs.length := List.length_map _

@[simp] theorem map_byte_bytes (bs : List UInt8) : (bytes bs).map Cell.byte = bs := by
  rw [bytes, List.map_map]
  exact List.map_id _

theorem readNat_write (h : n < 256 ^ width) (rest : Stream) :
    readNat width (writeNat width n ++ rest) = (n, rest) := by
  have hlen : (writeNat width n).length = width := by rw [writeNat, length_bytes, length_leBytes]
  rw [readNat, if_pos, List.take_left' hlen, List.drop_left' hlen, writeNat, map_byte_bytes,
    leValue_leBytes h]
  rw [List.length_append, hlen]
  exact Nat.le_add_right _ _

theorem readString_write {s : List UInt8} (h : s.length < 256 ^ usize) (rest : Stream) :
    readString usize heap (writeString usize s ++ rest) = (s.takeWhile (· ≠ 0), rest) := by
  have hlen : (bytes s).length = s.length := length_bytes s
  rw [readString, writeString, List.append_assoc, readNat_write h]
  dsimp only
  rw [List.take_left' hlen, List.drop_left' hlen, map_byte_bytes, List.take_left' rfl]

theorem recvFd_send (fd : Nat) (rest : Stream) : recvFd (sendFd fd ++ rest) = ((fd : Int), rest) := rfl

/-! ### Behind the end -/

theorem readNat_nil (h : 0 < width) : readNat width [] = (0, []) := if_neg (Nat.not_le.2 h)

theorem readString_nil (h : 0 < usize) : readString usize heap [] = ([], []) := by
  rw [readString, readNat_nil h]
  rfl

/-- A C string loses nothing exactly if it holds no zero byte. -/
theorem takeWhile_nul_iff {s : List UInt8} : s.takeWhile (· ≠ 0) = s ↔ (0 : UInt8) ∉ s := by
  rw [List.takeWhile_eq_self_iff]
  constructor
  · intro h hmem
    exact of_decide_eq_true (h 0 hmem) rfl
  · intro h b hb
    exact decide_eq_true fun heq => h (heq ▸ hb)

end Wire
