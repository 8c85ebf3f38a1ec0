import Mathlib.Data.List.Basic
import Mathlib.Data.List.Infix

/-!
# Positions

The first number with a property, and sorted lists: one is the front of another when it is part of it and nothing of
the other sorts in between.
-/

namespace Positions

/-! ### First positions -/

/-- `n` is the first number with the property. -/
def FirstAt (P : Nat → Prop) (n : Nat) : Prop := P n ∧ ∀ i < n, ¬ P i

theorem firstAt_zero {P : Nat → Prop} : FirstAt P 0 ↔ P 0 :=
  ⟨And.left, fun h => ⟨h, fun _ hi => absurd hi (Nat.not_lt_zero _)⟩⟩

theorem firstAt_succ {P : Nat → Prop} {n : Nat} : FirstAt P (n + 1) ↔ ¬ P 0 ∧ FirstAt (fun i => P (i + 1)) n := by
  constructor
  · rintro ⟨hn, hbefore⟩
    exact ⟨hbefore 0 (Nat.succ_pos n), hn, fun i hi => hbefore (i + 1) (Nat.succ_lt_succ hi)⟩
  · rintro ⟨hzero, hn, hbefore⟩
    refine ⟨hn, fun i hi => ?_⟩
    cases i with
    | zero => exact hzero
    | succ i => exact hbefore i (Nat.lt_of_succ_lt_succ hi)

theorem exists_firstAt {P : Nat → Prop} {n : Nat} (h : P n) : ∃ m ≤ n, FirstAt P m := by
  induction n using Nat.strongRecOn with
  | ind n ih =>
    by_cases hbefore : ∃ i < n, P i
    · obtain ⟨i, hi, hp⟩ := hbefore
      obtain ⟨m, hm, hfirst⟩ := ih i hi hp
      exact ⟨m, Nat.le_trans hm (Nat.le_of_lt hi), hfirst⟩
    · exact ⟨n, Nat.le_refl n, h, fun i hi hp => hbefore ⟨i, hi, hp⟩⟩

theorem firstAt_congr {P Q : Nat → Prop} {n : Nat} (h : ∀ i ≤ n, P i ↔ Q i) : FirstAt P n ↔ FirstAt Q n :=
  and_congr (h n (Nat.le_refl n)) (forall₂_congr fun i hi => not_congr (h i (Nat.le_of_lt hi)))

/-- A search that stops at the first one: it is the very next or a later one. -/
theorem exists_firstAt_succ {P Q : Nat → Prop} {fuel : Nat} :
    (∃ n < fuel + 1, FirstAt P n ∧ Q n) ↔
      (P 0 ∧ Q 0) ∨ (¬ P 0 ∧ ∃ n < fuel, FirstAt (fun i => P (i + 1)) n ∧ Q (n + 1)) := by
  constructor
  · rintro ⟨n, hn, hfirst, hq⟩
    cases n with
    | zero => exact .inl ⟨firstAt_zero.1 hfirst, hq⟩
    | succ n =>
      obtain ⟨hzero, hrest⟩ := firstAt_succ.1 hfirst
      exact .inr ⟨hzero, n, Nat.lt_of_succ_lt_succ hn, hrest, hq⟩
  · rintro (⟨hzero, hq⟩ | ⟨hzero, n, hn, hrest, hq⟩)
    · exact ⟨0, Nat.succ_pos fuel, firstAt_zero.2 hzero, hq⟩
    · exact ⟨n + 1, Nat.succ_lt_succ hn, firstAt_succ.2 ⟨hzero, hrest⟩, hq⟩

/-! ### Sorted lists -/

variable {α : Type*} {lt : α → α → Prop} {xs ys : List α}

theorem prefix_iff_of_sorted (hlt : ∀ a b, lt a b → ¬ lt b a) (hxs : xs.Pairwise lt) (hys : ys.Pairwise lt) :
    xs <+: ys ↔ (∀ x ∈ xs, x ∈ ys) ∧ ∀ y ∈ ys, ∀ x ∈ xs, lt y x → y ∈ xs := by
  constructor
  · rintro ⟨zs, rfl⟩
    refine ⟨fun x hx => List.mem_append_left zs hx, fun y hy x hx hyx => ?_⟩
    rcases List.mem_append.1 hy with hy | hy
    · exact hy
    · exact absurd hyx (hlt x y ((List.pairwise_append.1 hys).2.2 x hx y hy))
  · rintro ⟨hmem, hfront⟩
    induction xs generalizing ys with
    | nil => exact List.nil_prefix
    | cons a xs ih =>
      obtain ⟨hafter, hxs⟩ := List.pairwise_cons.1 hxs
      cases ys with
      | nil => exact absurd (hmem a List.mem_cons_self) List.not_mem_nil
      | cons b ys =>
        obtain ⟨hbehind, hrest⟩ := List.pairwise_cons.1 hys
        -- nothing is in front of the first element
        obtain rfl : a = b := by
          rcases List.mem_cons.1 (hmem a List.mem_cons_self) with hab | ha
          · exact hab
          · have hba := hbehind a ha
            rcases List.mem_cons.1 (hfront b List.mem_cons_self a List.mem_cons_self hba) with hb | hb
            · exact hb.symm
            · exact absurd (hafter b hb) (hlt b a hba)
        have hirrefl : ∀ {c}, lt a c → c ≠ a := by
          rintro c hc rfl
          exact hlt c c hc hc
        refine List.cons_prefix_cons.2 ⟨rfl, ih hxs hrest ?_ ?_⟩
        · intro x hx
          rcases List.mem_cons.1 (hmem x (List.mem_cons_of_mem a hx)) with rfl | hxy
          · exact absurd rfl (hirrefl (hafter x hx))
          · exact hxy
        · intro y hy x hx hyx
          rcases List.mem_cons.1
            (hfront y (List.mem_cons_of_mem a hy) x (List.mem_cons_of_mem a hx) hyx) with rfl | hyxs
          · exact absurd rfl (hirrefl (hbehind y hy))
          · exact hyxs

end Positions
