import Mathlib.Algebra.Order.Ring.Nat
import Mathlib.Tactic.Common
import Mathlib.Tactic.Ring

/-!
# Ranges of addresses, and what is moved between them

A memory is what stands at each address. Moving a range changes what stands in its destination and nothing
else, and copying page by page comes to one move, as long as the two ranges do not meet (`copyPages_eq`).
-/

structure AddrRange where
  start : Nat
  stop : Nat
  deriving DecidableEq

namespace AddrRange

instance : Membership Nat AddrRange := ⟨fun r a => r.start ≤ a ∧ a < r.stop⟩

theorem mem_def {a : Nat} {r : AddrRange} : a ∈ r ↔ r.start ≤ a ∧ a < r.stop := Iff.rfl

instance (a : Nat) (r : AddrRange) : Decidable (a ∈ r) := inferInstanceAs (Decidable (_ ∧ _))

/-- One range ends before the other begins. -/
def Apart (r s : AddrRange) : Prop := r.stop ≤ s.start ∨ s.stop ≤ r.start

instance (r s : AddrRange) : Decidable (r.Apart s) := inferInstanceAs (Decidable (_ ∨ _))

variable {r s : AddrRange} {a : Nat}

theorem Apart.symm (h : r.Apart s) : s.Apart r := Or.symm h

theorem Apart.not_mem (h : r.Apart s) (ha : a ∈ r) : a ∉ s := by
  intro ha'
  rw [mem_def] at ha ha'
  rcases h with h | h <;> omega

end AddrRange

namespace Moves

variable {α : Type} {m : Nat → α} {src dst len page a : Nat}

/-- `memmove`: the range at `dst` holds what stood at `src`. -/
def move (m : Nat → α) (src dst len : Nat) : Nat → α := fun a =>
  if dst ≤ a ∧ a < dst + len then m (src + (a - dst)) else m a

/-- `n` pages, one after the other. -/
def copyPages (page : Nat) : Nat → Nat → Nat → (Nat → α) → Nat → α
  | 0, _, _, m => m
  | n + 1, src, dst, m => copyPages page n (src + page) (dst + page) (move m src dst page)

theorem move_in (h : dst ≤ a ∧ a < dst + len) : move m src dst len a = m (src + (a - dst)) := if_pos h

theorem move_out (h : ¬ (dst ≤ a ∧ a < dst + len)) : move m src dst len a = m a := if_neg h

@[simp] theorem move_zero (m : Nat → α) (src dst : Nat) : move m src dst 0 = m := by
  funext a
  exact move_out (by omega)

/-- Two moves side by side are one, if the second one reads nothing that the first one wrote. -/
theorem move_move {n : Nat} (h : src + len + n ≤ dst ∨ dst + len ≤ src) :
    move (move m src dst len) (src + len) (dst + len) n = move m src dst (len + n) := by
  funext a
  by_cases hback : dst + len ≤ a ∧ a < dst + len + n
  · have hread : ¬ (dst ≤ src + len + (a - (dst + len)) ∧ src + len + (a - (dst + len)) < dst + len) := by
      omega
    rw [move_in hback, move_out hread, move_in (by omega)]
    congr 1
    omega
  · rw [move_out hback]
    by_cases hfront : dst ≤ a ∧ a < dst + len
    · rw [move_in hfront, move_in (by omega)]
    · rw [move_out hfront, move_out (by omega)]

theorem copyPages_eq {n : Nat} (h : src + n * page ≤ dst ∨ dst + n * page ≤ src) (m : Nat → α) :
    copyPages page n src dst m = move m src dst (n * page) := by
  induction n generalizing src dst m with
  | zero =>
    rw [Nat.zero_mul, move_zero]
    rfl
  | succ n ih =>
    rw [Nat.succ_mul] at h ⊢
    rw [copyPages, ih (by omega), move_move (by omega), Nat.add_comm page]

end Moves
