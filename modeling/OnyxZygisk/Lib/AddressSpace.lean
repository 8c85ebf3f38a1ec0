import Mathlib.Data.Nat.Bitwise
import Mathlib.Tactic.Common
import Mathlib.Tactic.Ring

/-!
# Pages and address spaces

Rounding to pages, on numbers and as the mask does it on machine words, and an address space as what stands at each
address: a byte and a protection. Mapping, protecting and storing change one range each, and every operation has one
lemma for the addresses in its range and one for the others.
-/

/-! ### Pages -/

def pageDown (page x : Nat) : Nat := x / page * page

def pageUp (page x : Nat) : Nat := pageDown page (x + page - 1)

section Pages

variable {page x y base : Nat}

theorem pageDown_le (page x : Nat) : pageDown page x ≤ x := Nat.div_mul_le_self x page

theorem dvd_pageDown (page x : Nat) : page ∣ pageDown page x := Nat.dvd_mul_left page _

theorem dvd_pageUp (page x : Nat) : page ∣ pageUp page x := dvd_pageDown page _

theorem pageDown_eq_sub (page x : Nat) : pageDown page x = x - x % page := by
  have h := Nat.div_add_mod' x page
  unfold pageDown
  omega

theorem pageDown_mono (h : x ≤ y) : pageDown page x ≤ pageDown page y :=
  Nat.mul_le_mul_right page (Nat.div_le_div_right h)

theorem pageUp_mono (h : x ≤ y) : pageUp page x ≤ pageUp page y := pageDown_mono (by omega)

theorem lt_pageDown_add (hpage : 0 < page) (x : Nat) : x < pageDown page x + page := by
  have h := Nat.lt_div_mul_add hpage (a := x)
  unfold pageDown
  omega

theorem le_pageUp (hpage : 0 < page) (x : Nat) : x ≤ pageUp page x := by
  have h := lt_pageDown_add hpage (x + page - 1)
  unfold pageUp
  omega

/-- A multiple above a number is above its page. -/
theorem pageUp_le (hpage : 0 < page) (hdvd : page ∣ y) (h : x ≤ y) : pageUp page x ≤ y := by
  obtain ⟨n, rfl⟩ := hdvd
  unfold pageUp pageDown
  have hdiv : (x + page - 1) / page ≤ n := by
    apply Nat.le_of_lt_succ
    rw [Nat.div_lt_iff_lt_mul hpage, Nat.succ_mul, Nat.mul_comm n page]
    omega
  rw [Nat.mul_comm page n]
  exact Nat.mul_le_mul_right page hdiv

/-- A base of whole pages moves the pages with it. -/
theorem pageDown_add (hpage : 0 < page) (hdvd : page ∣ base) (x : Nat) :
    pageDown page (base + x) = base + pageDown page x := by
  obtain ⟨n, rfl⟩ := hdvd
  unfold pageDown
  rw [Nat.mul_add_div hpage, Nat.add_mul, Nat.mul_comm n page]

theorem pageUp_add (hpage : 0 < page) (hdvd : page ∣ base) (x : Nat) :
    pageUp page (base + x) = base + pageUp page x := by
  unfold pageUp
  rw [show base + x + page - 1 = base + (x + page - 1) by omega, pageDown_add hpage hdvd]

theorem pageUp_of_dvd (hpage : 0 < page) (hdvd : page ∣ x) : pageUp page x = x := by
  have h := pageUp_add hpage hdvd 0
  have hzero : pageUp page 0 = 0 := by
    unfold pageUp pageDown
    rw [Nat.div_eq_of_lt (by omega), Nat.zero_mul]
  rwa [hzero] at h

/-- The mask of a power of two rounds down. -/
theorem toNat_and_not {w p : Nat} (x page : BitVec w) (hpage : page.toNat = 2 ^ p) :
    (x &&& ~~~(page - 1)).toNat = pageDown page.toNat x.toNat := by
  have hp : p < w := (Nat.pow_lt_pow_iff_right (by decide)).1 (hpage ▸ page.isLt)
  have hone : (1 : BitVec w).toNat = 1 := by
    show (BitVec.ofNat w 1).toNat = 1
    rw [BitVec.toNat_ofNat]
    exact Nat.mod_eq_of_lt (Nat.one_lt_two_pow (by omega))
  have hmask : (page - 1).toNat = 2 ^ p - 1 := by
    have hle : (1 : BitVec w) ≤ page := by
      rw [BitVec.le_def, hone, hpage]
      exact Nat.one_le_two_pow
    rw [BitVec.toNat_sub_of_le hle, hone, hpage]
  apply Nat.eq_of_testBit_eq
  intro i
  rw [hpage, pageDown, Nat.testBit_mul_two_pow, Nat.testBit_div_two_pow, BitVec.testBit_toNat,
    BitVec.getLsbD_and, BitVec.getLsbD_not, ← BitVec.testBit_toNat, ← BitVec.testBit_toNat, hmask,
    Nat.testBit_two_pow_sub_one]
  by_cases hi : p ≤ i
  · by_cases hw : i < w
    · simp [hi, hw]
    · have hbit : x.toNat.testBit i = false := Nat.testBit_lt_two_pow (Nat.lt_of_lt_of_le x.isLt
        (Nat.pow_le_pow_right (by decide) (by omega)))
      simp [hi, hw, hbit]
  · simp [hi, Nat.lt_of_not_le hi]

/-- Rounding up wraps at the end of the address space only. -/
theorem toNat_add_and_not {w p : Nat} (x page : BitVec w) (hpage : page.toNat = 2 ^ p) :
    ((x + page - 1) &&& ~~~(page - 1)).toNat = pageUp page.toNat x.toNat % 2 ^ w := by
  have hpos : 0 < page.toNat := hpage ▸ Nat.two_pow_pos p
  have hp : p < w := (Nat.pow_lt_pow_iff_right (by decide)).1 (hpage ▸ page.isLt)
  have hdvd : page.toNat ∣ 2 ^ w := hpage ▸ Nat.pow_dvd_pow 2 hp.le
  have hsum : (x + page - 1).toNat = (x.toNat + page.toNat - 1) % 2 ^ w := by
    have hone : (1 : BitVec w) ≤ page := by
      rw [BitVec.le_def, show (1 : BitVec w).toNat = 1 from Nat.mod_eq_of_lt (Nat.one_lt_two_pow (by omega))]
      exact hpos
    have hassoc : x + page - 1 = x + (page - 1) := by
      rw [BitVec.sub_eq_add_neg, BitVec.sub_eq_add_neg, BitVec.add_assoc]
    rw [hassoc, BitVec.toNat_add, BitVec.toNat_sub_of_le hone,
      show (1 : BitVec w).toNat = 1 from Nat.mod_eq_of_lt (Nat.one_lt_two_pow (by omega)), Nat.add_sub_assoc hpos]
  rw [toNat_and_not _ page hpage, hsum]
  have hx := x.isLt
  have hle : pageUp page.toNat x.toNat ≤ 2 ^ w := pageUp_le hpos hdvd hx.le
  by_cases hwrap : x.toNat + page.toNat - 1 < 2 ^ w
  · have hlt : pageUp page.toNat x.toNat < 2 ^ w := Nat.lt_of_le_of_lt (pageDown_le _ _) hwrap
    rw [Nat.mod_eq_of_lt hwrap, Nat.mod_eq_of_lt hlt, pageUp]
  · have hrest : (x.toNat + page.toNat - 1) % 2 ^ w = x.toNat + page.toNat - 1 - 2 ^ w := by
      have hpage_lt := page.isLt
      rw [Nat.mod_eq_sub_mod (by omega), Nat.mod_eq_of_lt (by omega)]
    have hend : pageUp page.toNat x.toNat = 2 ^ w := by
      apply Nat.le_antisymm hle
      have hmono : pageDown page.toNat (2 ^ w) ≤ pageDown page.toNat (x.toNat + page.toNat - 1) :=
        pageDown_mono (by omega)
      have hself : pageDown page.toNat (2 ^ w) = 2 ^ w := Nat.div_mul_cancel hdvd
      rw [hself] at hmono
      exact hmono
    rw [hrest, hend, Nat.mod_self, pageDown, Nat.div_eq_of_lt (by omega), Nat.zero_mul]

end Pages

/-! ### Address spaces -/

structure Cell (π : Type) where
  byte : UInt8
  prot : π

/-- What is mapped at each address. -/
abbrev AddressSpace (π : Type) : Type := Nat → Option (Cell π)

namespace AddressSpace

variable {π : Type}

def map (m : AddressSpace π) (addr len : Nat) (content : Nat → UInt8) (prot : π) : AddressSpace π := fun a =>
  if addr ≤ a ∧ a < addr + len then some ⟨content (a - addr), prot⟩ else m a

def unmap (m : AddressSpace π) (addr len : Nat) : AddressSpace π := fun a =>
  if addr ≤ a ∧ a < addr + len then none else m a

def protect (m : AddressSpace π) (addr len : Nat) (prot : π) : AddressSpace π := fun a =>
  if addr ≤ a ∧ a < addr + len then (m a).map fun cell => { cell with prot } else m a

def store (m : AddressSpace π) (addr : Nat) (data : List UInt8) : AddressSpace π := fun a =>
  if addr ≤ a ∧ a < addr + data.length then (m a).map fun cell => { cell with byte := data.getD (a - addr) 0 } else m a

variable {m : AddressSpace π} {addr len a : Nat} {content : Nat → UInt8} {prot : π} {data : List UInt8}

theorem map_in (h : addr ≤ a ∧ a < addr + len) : m.map addr len content prot a = some ⟨content (a - addr), prot⟩ :=
  if_pos h

theorem map_out (h : ¬ (addr ≤ a ∧ a < addr + len)) : m.map addr len content prot a = m a := if_neg h

theorem protect_in (h : addr ≤ a ∧ a < addr + len) :
    m.protect addr len prot a = (m a).map fun cell => { cell with prot } := if_pos h

theorem protect_out (h : ¬ (addr ≤ a ∧ a < addr + len)) : m.protect addr len prot a = m a := if_neg h

theorem store_in (h : addr ≤ a ∧ a < addr + data.length) :
    m.store addr data a = (m a).map fun cell => { cell with byte := data.getD (a - addr) 0 } := if_pos h

theorem store_out (h : ¬ (addr ≤ a ∧ a < addr + data.length)) : m.store addr data a = m a := if_neg h

/-- Protecting changes no byte, and storing no protection. -/
theorem byte_protect (m : AddressSpace π) (addr len : Nat) (prot : π) (a : Nat) :
    (m.protect addr len prot a).map Cell.byte = (m a).map Cell.byte := by
  unfold protect
  split_ifs
  · rw [Option.map_map]
    rfl
  · rfl

theorem prot_store (m : AddressSpace π) (addr : Nat) (data : List UInt8) (a : Nat) :
    (m.store addr data a).map Cell.prot = (m a).map Cell.prot := by
  unfold store
  split_ifs
  · rw [Option.map_map]
    rfl
  · rfl

end AddressSpace
