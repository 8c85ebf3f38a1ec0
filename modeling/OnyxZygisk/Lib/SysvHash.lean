import OnyxZygisk.Lib.Memory
import Mathlib.Data.List.Perm.Subperm
import Mathlib.Data.List.Range

/-!
# System V hash sections

A hash section has a bucket for each remainder of a hash, which is the head of a linked list of symbols; the list ends
at the symbol 0. In a well-formed section the list of a bucket has just the symbols whose hashes belong there, in any
order, so a lookup along it ends, and finds a symbol of the name if there is one (`lookup_spec`).
-/

namespace SysvHash

/-- The hash of a name. -/
def sysvHash (name : List UInt8) : BitVec 32 :=
  name.foldl (fun h c =>
    let h := (h <<< 4) + BitVec.ofNat 32 c.toNat
    let top := h &&& 0xf0000000
    (h ^^^ top) ^^^ (top >>> 24)) 0

structure Table where
  nbuckets : Nat
  bucket : Nat → Nat
  chain : Nat → Nat

/-- The section at an address: two numbers, the buckets, and an entry of the chain for each symbol. -/
def tableAt (m : Memory) (ptr : Nat) : Table :=
  let nbuckets := (m.leWord 32 ptr).toNat
  let buckets := ptr + 8
  { nbuckets
    bucket := fun b => (m.leWord 32 (buckets + b * 4)).toNat
    chain := fun i => (m.leWord 32 (buckets + nbuckets * 4 + i * 4)).toNat }

/-- From a symbol on, the list has these symbols. -/
def Follows (chain : Nat → Nat) : Nat → List Nat → Prop
  | i, [] => i = 0
  | i, j :: js => i = j ∧ i ≠ 0 ∧ Follows chain (chain i) js

instance decFollows (chain : Nat → Nat) : (i : Nat) → (is : List Nat) → Decidable (Follows chain i is)
  | i, [] => inferInstanceAs (Decidable (i = 0))
  | i, _ :: js =>
    have := decFollows chain (chain i) js
    inferInstanceAs (Decidable (_ ∧ i ≠ 0 ∧ Follows chain (chain i) js))

namespace Follows

variable {chain : Nat → Nat} {i j : Nat} {is js : List Nat}

/-- What follows a symbol does not depend on how it was reached. -/
theorem unique (h : Follows chain i is) (h' : Follows chain i js) : is = js := by
  induction is generalizing i js with
  | nil =>
    cases js with
    | nil => rfl
    | cons j js => exact absurd h h'.2.1
  | cons k is ih =>
    cases js with
    | nil => exact absurd h' h.2.1
    | cons j js => rw [← h.1, ← h'.1, ih h.2.2 h'.2.2]

theorem from_mem (h : Follows chain i is) (hj : j ∈ is) : ∃ js, Follows chain j js ∧ js.length ≤ is.length := by
  induction is generalizing i with
  | nil => cases hj
  | cons k is ih =>
    rcases List.mem_cons.1 hj with rfl | hj
    · exact ⟨j :: is, h.1 ▸ h, Nat.le_refl _⟩
    · obtain ⟨js, hjs, hle⟩ := ih h.2.2 hj
      exact ⟨js, hjs, Nat.le_succ_of_le hle⟩

/-- A list that ends has no symbol twice. -/
theorem nodup (h : Follows chain i is) : is.Nodup := by
  induction is generalizing i with
  | nil => exact List.nodup_nil
  | cons k is ih =>
    obtain ⟨rfl, -, hrest⟩ := id h
    refine List.nodup_cons.2 ⟨fun hmem => ?_, ih hrest⟩
    obtain ⟨js, hjs, hle⟩ := hrest.from_mem hmem
    rw [hjs.unique h, List.length_cons] at hle
    omega

end Follows

namespace Table

variable (t : Table)

def bucketOf (h : BitVec 32) : Nat := h.toNat % t.nbuckets

/-- The section is built over the symbols from 1 to `n`. -/
structure WellFormed (hashes : Nat → BitVec 32) (n : Nat) : Prop where
  nbuckets_pos : 0 < t.nbuckets
  lists : ∀ b < t.nbuckets, ∃ is, Follows t.chain (t.bucket b) is ∧
    ∀ i, i ∈ is ↔ 0 < i ∧ i < n ∧ t.bucketOf (hashes i) = b

/-- Along the list, for some turns at most. -/
def walk (hit : Nat → Bool) : Nat → Nat → Option Nat
  | 0, _ => none
  | turns + 1, i => if i = 0 then some 0 else if hit i then some i else walk hit turns (t.chain i)

def lookup (hit : Nat → Bool) (turns : Nat) (h : BitVec 32) : Option Nat := t.walk hit turns (t.bucket (t.bucketOf h))

variable {t} {hit : Nat → Bool} {hashes : Nat → BitVec 32} {h : BitVec 32} {n i turns : Nat} {is : List Nat}

/-- The first symbol on the list that is hit, or 0. -/
theorem walk_spec (hlist : Follows t.chain i is) (hturns : is.length < turns) :
    ∃ j, t.walk hit turns i = some j ∧ (j = 0 → ∀ k ∈ is, hit k = false) ∧ (j ≠ 0 → j ∈ is ∧ hit j = true) := by
  induction turns generalizing i is with
  | zero => exact absurd hturns (Nat.not_lt_zero _)
  | succ turns ih =>
    rw [walk]
    cases is with
    | nil =>
      refine ⟨0, if_pos hlist, ?_, fun h => absurd rfl h⟩
      intro _ k hk
      cases hk
    | cons k is =>
      obtain ⟨rfl, hpos, hrest⟩ := hlist
      rw [if_neg hpos]
      cases hhit : hit i with
      | true => exact ⟨i, if_pos rfl, fun h => absurd h hpos, fun _ => ⟨List.mem_cons_self, hhit⟩⟩
      | false =>
        obtain ⟨j, hj, hnone, hsome⟩ := ih hrest (Nat.lt_of_succ_lt_succ hturns)
        refine ⟨j, (if_neg Bool.false_ne_true).trans hj, fun hzero => ?_, fun hne => ?_⟩
        · exact List.forall_mem_cons.2 ⟨hhit, hnone hzero⟩
        · exact ⟨List.mem_cons_of_mem _ (hsome hne).1, (hsome hne).2⟩

/-- A list has fewer symbols than there are. -/
theorem length_lt (hn : 0 < n) (hlist : Follows t.chain i is) (hmem : ∀ j ∈ is, 0 < j ∧ j < n) : is.length < n := by
  have hsub : is ⊆ (List.range n).erase 0 := by
    intro j hj
    have hj' := hmem j hj
    exact (List.mem_erase_of_ne (Nat.ne_of_gt hj'.1)).2 (List.mem_range.2 hj'.2)
  have hle := (List.subperm_of_subset hlist.nodup hsub).length_le
  rw [List.length_erase_of_mem (List.mem_range.2 hn), List.length_range] at hle
  omega

/-- The lookup ends, with a symbol that is hit, or with 0 if there is none. -/
theorem lookup_spec (hit : Nat → Bool) (h : BitVec 32) (hwf : t.WellFormed hashes n) (hn : 0 < n)
    (hhash : ∀ i, 0 < i → i < n → hit i = true → hashes i = h) :
    ∃ i, t.lookup hit n h = some i ∧ (i = 0 → ∀ j, 0 < j → j < n → hit j = false) ∧
      (i ≠ 0 → i < n ∧ hit i = true) := by
  obtain ⟨is, hlist, hmem⟩ := hwf.lists (t.bucketOf h) (Nat.mod_lt _ hwf.nbuckets_pos)
  have hlength := length_lt hn hlist fun j hj => ⟨((hmem j).1 hj).1, ((hmem j).1 hj).2.1⟩
  obtain ⟨i, hi, hnone, hsome⟩ := walk_spec hlist hlength
  refine ⟨i, hi, fun hzero j hj hjn => ?_, fun hne => ⟨((hmem i).1 (hsome hne).1).2.1, (hsome hne).2⟩⟩
  by_contra hhit
  rw [Bool.not_eq_false] at hhit
  have hin : j ∈ is := (hmem j).2 ⟨hj, hjn, by rw [hhash j hj hjn hhit]⟩
  exact absurd hhit (by rw [hnone hzero j hin]; exact Bool.false_ne_true)

end Table

end SysvHash
