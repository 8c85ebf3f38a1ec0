import Mathlib.Data.List.Basic
import Mathlib.Data.List.Infix

/-!
# Runs of a step function

A run is a fold. What a flag of the state says after a run: it was set before, or the step that sets it was
taken somewhere in the run. A property holds all along a run exactly if every step that is taken keeps it. What is
owed stays owed until a step settles it, and where the steps at work use up a measure there are only so many of them.
-/

namespace Folds

variable {σ α : Type*} {step : σ → α → σ} {fires : σ → α → Prop}

theorem flag_foldl (flag : σ → Prop) (h : ∀ s a, flag (step s a) ↔ flag s ∨ fires s a) (xs : List α) (s : σ) :
    flag (xs.foldl step s) ↔
      flag s ∨ ∃ front x back, xs = front ++ x :: back ∧ fires (front.foldl step s) x := by
  induction xs generalizing s with
  | nil =>
    refine ⟨.inl, fun hflag => ?_⟩
    rcases hflag with hflag | ⟨front, x, back, hnil, -⟩
    · exact hflag
    · exact absurd hnil (by simp)
  | cons a xs ih =>
    rw [List.foldl_cons, ih, h, or_assoc]
    refine or_congr_right ⟨fun hfires => ?_, fun ⟨front, x, back, heq, hfires⟩ => ?_⟩
    · rcases hfires with hfires | ⟨front, x, back, rfl, hfires⟩
      · exact ⟨[], a, xs, rfl, hfires⟩
      · exact ⟨a :: front, x, back, rfl, hfires⟩
    · cases front with
      | nil =>
        obtain ⟨rfl, rfl⟩ := List.cons.inj heq
        exact .inl hfires
      | cons b front =>
        obtain ⟨rfl, rfl⟩ := List.cons.inj heq
        exact .inr ⟨front, x, back, rfl, hfires⟩

/-- The steps that keep a property are those that are `good`, in the states with what every step keeps. -/
theorem forall_prefix_iff {base inv : σ → Prop} {good : σ → α → Prop} {s : σ} (hbase : base s) (hinv : inv s)
    (hkeep : ∀ s a, base s → base (step s a)) (hstep : ∀ s a, base s → inv s → (inv (step s a) ↔ good s a))
    (xs : List α) :
    (∀ pre, pre <+: xs → inv (pre.foldl step s)) ↔ ∀ pre a, pre ++ [a] <+: xs → good (pre.foldl step s) a := by
  have hall (pre : List α) : base (pre.foldl step s) := by
    induction pre using List.reverseRecOn with
    | nil => exact hbase
    | append_singleton pre a ih =>
      rw [List.foldl_append]
      exact hkeep _ a ih
  constructor
  · intro h pre a hpre
    have hnext := h (pre ++ [a]) hpre
    rw [List.foldl_append] at hnext
    exact (hstep _ a (hall pre) (h pre ((List.prefix_append pre [a]).trans hpre))).1 hnext
  · intro h pre
    induction pre using List.reverseRecOn with
    | nil => exact fun _ => hinv
    | append_singleton pre a ih =>
      intro hpre
      rw [List.foldl_append]
      exact (hstep _ a (hall pre) (ih ((List.prefix_append pre [a]).trans hpre))).2 (h pre a hpre)

/-- Steps that are never refused and keep a property are never refused one after the other. -/
theorem foldlM_invariant {next : σ → α → Option σ} {inv : σ → Prop}
    (hnext : ∀ s a, inv s → ∃ s', next s a = some s' ∧ inv s') (xs : List α) {s : σ} (hs : inv s) :
    ∃ s', xs.foldlM next s = some s' ∧ inv s' := by
  induction xs generalizing s with
  | nil => exact ⟨s, rfl, hs⟩
  | cons a xs ih =>
    obtain ⟨s₁, hfirst, hs₁⟩ := hnext s a hs
    obtain ⟨s₂, hrest, hs₂⟩ := ih hs₁
    refine ⟨s₂, ?_, hs₂⟩
    rw [List.foldlM_cons, hfirst]
    exact hrest

/-- A property that the steps keep holds where a run of them ends. -/
theorem foldlM_some_invariant {next : σ → α → Option σ} {inv : σ → Prop}
    (hnext : ∀ s a s', inv s → next s a = some s' → inv s') {xs : List α} {s s' : σ} (hs : inv s)
    (h : xs.foldlM next s = some s') : inv s' := by
  induction xs generalizing s with
  | nil =>
    cases h
    exact hs
  | cons a xs ih =>
    rw [List.foldlM_cons, Option.bind_eq_bind, Option.bind_eq_some_iff] at h
    obtain ⟨s₁, hfirst, hrest⟩ := h
    exact ih (hnext s a s₁ hs hfirst) hrest

/-! ### Runs of steps that can be refused -/

section Refused

variable {next : σ → α → Option σ} {a : α} {xs ys : List α} {s s' : σ}

theorem foldlM_cons_iff :
    (a :: xs).foldlM next s = some s' ↔ ∃ t, next s a = some t ∧ xs.foldlM next t = some s' := by
  rw [List.foldlM_cons, Option.bind_eq_bind, Option.bind_eq_some_iff]

theorem foldlM_append_iff :
    (xs ++ ys).foldlM next s = some s' ↔ ∃ t, xs.foldlM next s = some t ∧ ys.foldlM next t = some s' := by
  rw [List.foldlM_append, Option.bind_eq_bind, Option.bind_eq_some_iff]

/-- The same for the steps that are allowed. -/
theorem foldlM_some_invariant_of (inv : σ → Prop) {allowed : α → Prop} (hxs : ∀ a ∈ xs, allowed a)
    (hnext : ∀ s a s', allowed a → inv s → next s a = some s' → inv s') (hs : inv s)
    (h : xs.foldlM next s = some s') : inv s' := by
  induction xs generalizing s with
  | nil =>
    cases h
    exact hs
  | cons a xs ih =>
    obtain ⟨t, hfirst, hrest⟩ := foldlM_cons_iff.1 h
    rw [List.forall_mem_cons] at hxs
    exact ih hxs.2 (hnext s a t hxs.1 hs hfirst) hrest

/-- What is owed is still owed at the end, or a step on the way has settled it. -/
theorem foldlM_unless {owed : σ → Prop} {settles : α → Prop}
    (hnext : ∀ s a s', owed s → next s a = some s' → owed s' ∨ settles a) (hs : owed s)
    (h : xs.foldlM next s = some s') : owed s' ∨ ∃ a ∈ xs, settles a := by
  induction xs generalizing s with
  | nil =>
    cases h
    exact .inl hs
  | cons a xs ih =>
    obtain ⟨t, hfirst, hrest⟩ := foldlM_cons_iff.1 h
    rcases hnext s a t hs hfirst with ht | hsettles
    · exact (ih ht hrest).imp_right fun ⟨b, hb, hsettles⟩ => ⟨b, .tail _ hb, hsettles⟩
    · exact .inr ⟨a, .head _, hsettles⟩

/-- There are not more steps at work than the measure allows. -/
theorem countP_le_of_foldlM {inv : σ → Prop} {allowed : α → Prop} {work : α → Bool} {μ : σ → Nat}
    (hxs : ∀ a ∈ xs, allowed a) (hinv : ∀ s a s', allowed a → inv s → next s a = some s' → inv s')
    (hnext : ∀ s a s', allowed a → inv s → next s a = some s' → μ s' + (if work a then 1 else 0) ≤ μ s)
    (hs : inv s) (h : xs.foldlM next s = some s') : μ s' + xs.countP work ≤ μ s := by
  induction xs generalizing s with
  | nil =>
    cases h
    exact Nat.le_refl _
  | cons a xs ih =>
    obtain ⟨t, hfirst, hrest⟩ := foldlM_cons_iff.1 h
    rw [List.forall_mem_cons] at hxs
    have hone := hnext s a t hxs.1 hs hfirst
    have hothers := ih hxs.2 (hinv s a t hxs.1 hs hfirst) hrest
    rw [List.countP_cons]
    omega

end Refused

end Folds
