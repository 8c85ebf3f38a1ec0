import Mathlib.Data.List.Basic
import Mathlib.Logic.Function.Basic
import Mathlib.Tactic.Common

/-!
# Compaction in place

Slots hold entries, some of which are to be kept. One index walks over the slots and takes each entry out; a
second one, never ahead of it, says where the next entry to keep is put, which may be the slot just emptied.
Behind the walk stand the kept entries in their order and then empty slots (`walk_compacted`).
-/

namespace Compaction

variable {α : Type} (keep : α → Bool) (empty : α)

/-- The first `n` slots. -/
def front (n : Nat) (slots : Nat → α) : List α := (List.range n).map slots

/-- Past the entries at the start that are kept, `left` of them at most. -/
def skip (slots : Nat → α) : Nat → Nat → Nat
  | 0, src => src
  | left + 1, src => if keep (slots src) then skip slots left (src + 1) else src

/-- The walk over `left` slots from `src` on; the next entry that is kept goes to `dst`. -/
def walk : Nat → Nat → Nat → (Nat → α) → (Nat → α) × Nat
  | 0, _, dst, slots => (slots, dst)
  | left + 1, src, dst, slots =>
    let cleared := Function.update slots src empty
    if keep (slots src) then walk left (src + 1) (dst + 1) (Function.update cleared dst (slots src))
    else walk left (src + 1) dst cleared

/-- What the walk has done up to `src`. -/
structure Compacted (before : Nat → α) (src dst : Nat) (slots : Nat → α) : Prop where
  dst_le : dst ≤ src
  kept : front dst slots = (front src before).filter keep
  emptied : ∀ i, dst ≤ i → i < src → slots i = empty
  ahead : ∀ i, src ≤ i → slots i = before i

variable {keep empty} {before slots : Nat → α} {n src dst left : Nat}

@[simp] theorem length_front (n : Nat) (slots : Nat → α) : (front n slots).length = n := by
  rw [front, List.length_map, List.length_range]

theorem front_succ (n : Nat) (slots : Nat → α) : front (n + 1) slots = front n slots ++ [slots n] := by
  rw [front, List.range_succ, List.map_append, ← front]
  rfl

theorem front_congr {slots' : Nat → α} (h : ∀ i < n, slots i = slots' i) : front n slots = front n slots' :=
  List.map_congr_left fun i hi => h i (List.mem_range.1 hi)

theorem front_update (hn : n ≤ src) (slots : Nat → α) (x : α) :
    front n (Function.update slots src x) = front n slots := by
  apply front_congr
  intro i hi
  exact Function.update_of_ne (by omega) _ _

/-! ### The start -/

theorem skip_le (slots : Nat → α) (left src : Nat) : skip keep slots left src ≤ src + left := by
  induction left generalizing src with
  | zero => exact Nat.le_refl _
  | succ left ih =>
    have h := ih (src + 1)
    rw [skip]
    split <;> omega

/-- Nothing has to be done for entries that are all kept. -/
theorem skip_compacted (hkeep : front src slots = (front src slots).filter keep) (left : Nat) :
    Compacted keep empty slots (skip keep slots left src) (skip keep slots left src) slots := by
  induction left generalizing src with
  | zero => exact ⟨Nat.le_refl _, hkeep, fun i hle hlt => absurd hlt (Nat.not_lt.2 hle), fun _ _ => rfl⟩
  | succ left ih =>
    rw [skip]
    by_cases h : keep (slots src)
    · rw [if_pos h]
      apply ih
      rw [front_succ, List.filter_append, ← hkeep, List.filter_cons_of_pos h]
      rfl
    · rw [if_neg h]
      exact ⟨Nat.le_refl _, hkeep, fun i hle hlt => absurd hlt (Nat.not_lt.2 hle), fun _ _ => rfl⟩

/-! ### The walk -/

/-- An entry that is not kept leaves its slot empty. -/
theorem Compacted.drop (h : Compacted keep empty before src dst slots) (hkeep : ¬ keep (slots src)) :
    Compacted keep empty before (src + 1) dst (Function.update slots src empty) := by
  have hsrc := h.ahead src (Nat.le_refl _)
  refine ⟨by have := h.dst_le; omega, ?_, fun i hdst hi => ?_, fun i hi => ?_⟩
  · rw [front_update h.dst_le, h.kept, front_succ, List.filter_append, ← hsrc, List.filter_cons_of_neg hkeep,
      List.filter_nil, List.append_nil]
  · by_cases heq : i = src
    · rw [heq, Function.update_self]
    · rw [Function.update_of_ne heq]
      exact h.emptied i hdst (by omega)
  · rw [Function.update_of_ne (by omega)]
    exact h.ahead i (by omega)

/-- An entry that is kept is moved behind the ones before it; its slot is emptied first, since it may be
the very slot it goes to. -/
theorem Compacted.move (h : Compacted keep empty before src dst slots) (hkeep : keep (slots src)) :
    Compacted keep empty before (src + 1) (dst + 1)
      (Function.update (Function.update slots src empty) dst (slots src)) := by
  have hsrc := h.ahead src (Nat.le_refl _)
  have hle := h.dst_le
  refine ⟨by omega, ?_, fun i hdst hi => ?_, fun i hi => ?_⟩
  · rw [front_succ, Function.update_self, front_update (Nat.le_refl _), front_update hle, h.kept, front_succ,
      List.filter_append, ← hsrc, List.filter_cons_of_pos hkeep, List.filter_nil]
  · rw [Function.update_of_ne (by omega)]
    by_cases heq : i = src
    · rw [heq, Function.update_self]
    · rw [Function.update_of_ne heq]
      exact h.emptied i (by omega) (by omega)
  · rw [Function.update_of_ne (by omega), Function.update_of_ne (by omega)]
    exact h.ahead i (by omega)

theorem walk_compacted (h : Compacted keep empty before src dst slots) (left : Nat) :
    Compacted keep empty before (src + left) (walk keep empty left src dst slots).2
      (walk keep empty left src dst slots).1 := by
  induction left generalizing src dst slots with
  | zero => exact h
  | succ left ih =>
    rw [walk, ← Nat.add_assoc, Nat.add_right_comm]
    by_cases hkeep : keep (slots src)
    · simp only [if_pos hkeep]
      exact ih (h.move hkeep)
    · simp only [if_neg hkeep]
      exact ih (h.drop hkeep)

/-- The kept entries are as many as there were. -/
theorem Compacted.dst_eq (h : Compacted keep empty before src dst slots) :
    dst = ((front src before).filter keep).length := by
  rw [← h.kept, length_front]

end Compaction
