import OnyxZygisk.Lib.Moves

/-!
# The mappings of a process

What is mapped at an address: a byte, the access to it, and what stands behind it, a file or nothing. The system
calls change the addresses of their ranges, and each has one lemma for those and one for the others. A range that is
copied to a free place and moved back over itself has kept its bytes (`swapIn_in`).
-/

namespace Mappings

inductive Backing
  | file (path : String)
  /-- Anonymous, with the address of its name. -/
  | anon (name : Option Nat)
deriving DecidableEq

structure Cell where
  byte : UInt8
  perms : BitVec 8
  backing : Backing
deriving DecidableEq

/-- What is mapped. -/
abbrev Table := Nat → Option Cell

def PROT_READ : BitVec 8 := 1

def PROT_WRITE : BitVec 8 := 2

def PROT_EXEC : BitVec 8 := 4

variable (t : Table) (r : AddrRange) (perms : BitVec 8) (src dst len : Nat)

/-- `mmap` of anonymous memory -/
def mmap : Table := fun a => if a ∈ r then some ⟨0, perms, .anon none⟩ else t a

def munmap : Table := fun a => if a ∈ r then none else t a

def mprotect : Table := fun a => if a ∈ r then (t a).map fun c => { c with perms } else t a

/-- `memcpy` to memory that is mapped -/
def memcpy : Table := fun a =>
  if dst ≤ a ∧ a < dst + len then (t a).map fun c => { c with byte := ((t (src + (a - dst))).map Cell.byte).getD 0 }
  else t a

/-- `mremap` to a fixed address, over what is mapped there -/
def mremap : Table := fun a =>
  if dst ≤ a ∧ a < dst + len then t (src + (a - dst)) else if src ≤ a ∧ a < src + len then none else t a

/-- `PR_SET_VMA_ANON_NAME`, which leaves the mappings of files alone -/
def setName (name : Nat) : Table := fun a =>
  if a ∈ r then
    (t a).map fun c => match c.backing with
      | .anon _ => { c with backing := .anon (some name) }
      | .file _ => c
  else t a

/-- Bytes that are written to memory that is mapped -/
def store (addr : Nat) (bytes : List UInt8) : Table := fun a =>
  if addr ≤ a ∧ a < addr + bytes.length then (t a).map fun c => { c with byte := bytes.getD (a - addr) 0 } else t a

/-- Nothing is mapped in a range. -/
def Free : Prop := ∀ n < r.stop - r.start, t (r.start + n) = none

instance : Decidable (Free t r) := inferInstanceAs (Decidable (∀ n < _, _))

section Lemmas

variable {t r perms src dst len} {a name : Nat} {bytes : List UInt8}

theorem Free.at (h : Free t r) (ha : a ∈ r) : t a = none := by
  have hfree := h (a - r.start) (by rw [AddrRange.mem_def] at ha; omega)
  rwa [Nat.add_sub_cancel' ha.1] at hfree

theorem mmap_in (h : a ∈ r) : mmap t r perms a = some ⟨0, perms, .anon none⟩ := if_pos h

theorem mmap_out (h : a ∉ r) : mmap t r perms a = t a := if_neg h

theorem munmap_in (h : a ∈ r) : munmap t r a = none := if_pos h

theorem munmap_out (h : a ∉ r) : munmap t r a = t a := if_neg h

theorem mprotect_in (h : a ∈ r) : mprotect t r perms a = (t a).map fun c => { c with perms } := if_pos h

theorem mprotect_out (h : a ∉ r) : mprotect t r perms a = t a := if_neg h

theorem memcpy_out (h : ¬ (dst ≤ a ∧ a < dst + len)) : memcpy t src dst len a = t a := if_neg h

theorem setName_out (h : a ∉ r) : setName t r name a = t a := if_neg h

theorem setName_some (r : AddrRange) (name : Nat) {c : Cell} (hc : t a = some c) : ∃ backing,
    setName t r name a = some { c with backing } ∧
    (backing = c.backing ∨ backing = .anon (some name)) := by
  unfold setName
  split_ifs
  · obtain ⟨byte, perms, backing⟩ := c
    rw [hc, Option.map_some]
    cases backing with
    | file path => exact ⟨.file path, rfl, Or.inl rfl⟩
    | anon old => exact ⟨.anon (some name), rfl, Or.inr rfl⟩
  · exact ⟨c.backing, hc, Or.inl rfl⟩

theorem setName_none (h : t a = none) : setName t r name a = none := by
  unfold setName
  rw [h, Option.map_none, ite_self]

theorem store_in (h : addr ≤ a ∧ a < addr + bytes.length) :
    store t addr bytes a = (t a).map fun c => { c with byte := bytes.getD (a - addr) 0 } := if_pos h

theorem store_out (h : ¬ (addr ≤ a ∧ a < addr + bytes.length)) : store t addr bytes a = t a := if_neg h

/-- Apart from it, memory is mapped before or behind a change of access. -/
theorem mprotect_mmap {s : AddrRange} {perms' : BitVec 8} (h : ∀ a ∈ r, a ∉ s) :
    mprotect (mmap t r perms) s perms' = mmap (mprotect t s perms') r perms := by
  funext a
  by_cases ha : a ∈ r
  · rw [mprotect_out (h a ha), mmap_in ha, mmap_in ha]
  · rw [mmap_out ha]
    unfold mprotect
    rw [mmap_out ha]

theorem mprotect_eq_none : mprotect t r perms a = none ↔ t a = none := by
  unfold mprotect
  split_ifs
  · exact Option.map_eq_none_iff
  · exact Iff.rfl

/-- A copy at `copy`, which is moved over the range. -/
def swapIn (t : Table) (r : AddrRange) (copy : Nat) : Table :=
  mremap (memcpy (mmap t ⟨copy, copy + (r.stop - r.start)⟩ PROT_WRITE) r.start copy (r.stop - r.start)) copy r.start
    (r.stop - r.start)

variable {copy : Nat}

theorem swapIn_in (hfree : Free t ⟨copy, copy + (r.stop - r.start)⟩)
    (hmapped : ∀ a ∈ r, t a ≠ none) {c : Cell} (ha : a ∈ r) (hc : t a = some c) :
    swapIn t r copy a = some ⟨c.byte, PROT_WRITE, .anon none⟩ := by
  have har := ha
  rw [AddrRange.mem_def] at har
  have hcopy : copy + (a - r.start) ∈ (⟨copy, copy + (r.stop - r.start)⟩ : AddrRange) := ⟨by simp, by simp; omega⟩
  have hout : a ∉ (⟨copy, copy + (r.stop - r.start)⟩ : AddrRange) := fun hin => hmapped a ha (hfree.at hin)
  have hback : r.start + (copy + (a - r.start) - copy) = a := by omega
  rw [swapIn, mremap, if_pos ⟨har.1, by omega⟩, memcpy, if_pos ⟨hcopy.1, hcopy.2⟩, mmap_in hcopy, hback, mmap_out hout,
    hc]
  rfl

theorem swapIn_out (hfree : Free t ⟨copy, copy + (r.stop - r.start)⟩) (ha : a ∉ r) : swapIn t r copy a = t a := by
  rw [AddrRange.mem_def] at ha
  have hdst : ¬ (r.start ≤ a ∧ a < r.start + (r.stop - r.start)) := by omega
  rw [swapIn, mremap, if_neg hdst]
  split_ifs with hcopy
  · exact (hfree.at ⟨hcopy.1, hcopy.2⟩).symm
  · rw [memcpy_out hcopy]
    exact mmap_out hcopy

end Lemmas

end Mappings
