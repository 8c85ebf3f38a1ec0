import Mathlib.Data.List.Basic
import Mathlib.Tactic.Common

/-!
# Classic filters of system calls

A filter is a list of instructions whose jumps go forward, so it is run along the list. A filter that the kernel
takes always returns (`run_isSome`); a ladder of comparisons returns its first answer if and only if they all hold
(`run_ladder`). A process has a stack of filters, of which the one with the least action decides (`verdict`), and
one that allows is not noticed there (`verdict_insert`).
-/

namespace Bpf

/-- `BPF_LD | BPF_W | BPF_ABS`, `BPF_JMP | BPF_JEQ | BPF_K` and `BPF_RET | BPF_K`. -/
inductive Insn where
  | ld (k : Nat)
  | jeq (k : BitVec 32) (jt jf : Nat)
  | ret (k : BitVec 32)
  deriving DecidableEq

/-- What a filter returns over the words of `data`; `skip` instructions are still jumped over, and the accumulator
is `a`. -/
def run (data : Nat → BitVec 32) : List Insn → Nat → BitVec 32 → Option (BitVec 32)
  | [], _, _ => none
  | _ :: is, skip + 1, a => run data is skip a
  | .ld k :: is, 0, _ => run data is 0 (data k)
  | .jeq k jt jf :: is, 0, a => run data is (if a = k then jt else jf) a
  | .ret k :: _, 0, _ => some k

/-- What the kernel asks of a filter over `size` bytes: words are aligned and inside the data, jumps stay inside the
filter, and its last instruction returns. -/
def check (size : Nat) : List Insn → Bool
  | [] => false
  | .ld k :: is => k % 4 = 0 && k + 4 ≤ size && check size is
  | .jeq _ jt jf :: is => jt < is.length && jf < is.length && check size is
  | .ret _ :: is => is.isEmpty || check size is

variable {size : Nat} {data : Nat → BitVec 32} {is : List Insn}

theorem run_isSome (h : check size is = true) :
    ∀ (skip : Nat) (a : BitVec 32), skip < is.length → (run data is skip a).isSome = true := by
  induction is with
  | nil => cases h
  | cons i is ih =>
    intro skip a hskip
    cases skip with
    | succ skip =>
      have hrest : skip < is.length := by simpa using hskip
      refine ih ?_ skip a hrest
      cases i <;> simp only [check, Bool.and_eq_true, Bool.or_eq_true] at h
      case ld => exact h.2
      case jeq => exact h.2
      case ret =>
        refine h.resolve_left fun hnil => ?_
        rw [List.isEmpty_iff.1 hnil] at hrest
        exact absurd hrest (Nat.not_lt_zero skip)
    | zero =>
      cases i with
      | ret k => rfl
      | ld k =>
        rw [check, Bool.and_eq_true] at h
        refine ih h.2 0 _ ?_
        cases is with
        | nil => cases h.2
        | cons => exact Nat.succ_pos _
      | jeq k jt jf =>
        simp only [check, Bool.and_eq_true, decide_eq_true_eq] at h
        refine ih h.2 _ a ?_
        split
        · exact h.1.1
        · exact h.1.2

/-! ### Ladders -/

/-- Compares words one by one and leaves for the last instruction where one differs. -/
def ladder (yes no : BitVec 32) : List (Nat × BitVec 32) → List Insn
  | [] => [.ret yes, .ret no]
  | (k, v) :: keys => .ld k :: .jeq v 0 (2 * keys.length + 1) :: ladder yes no keys

variable {yes no : BitVec 32} {keys : List (Nat × BitVec 32)}

theorem run_ladder_out (a : BitVec 32) : run data (ladder yes no keys) (2 * keys.length + 1) a = some no := by
  induction keys with
  | nil => rfl
  | cons key keys ih => exact ih

theorem run_ladder (a : BitVec 32) :
    run data (ladder yes no keys) 0 a = some (if ∀ key ∈ keys, data key.1 = key.2 then yes else no) := by
  induction keys generalizing a with
  | nil => rw [if_pos (by simp)]; rfl
  | cons key keys ih =>
    simp only [ladder, run, List.forall_mem_cons]
    by_cases h : data key.1 = key.2
    · rw [if_pos h, ih]
      simp only [h, true_and]
    · rw [if_neg h, if_neg (fun hall => h hall.1)]
      exact run_ladder_out _

/-! ### Stacks -/

/-- A filter that the kernel took. -/
structure Filter (size : Nat) where
  insns : List Insn
  checked : check size insns = true

theorem Filter.isSome (f : Filter size) (data : Nat → BitVec 32) : (run data f.insns 0 0).isSome = true := by
  refine run_isSome f.checked 0 0 ?_
  rcases f with ⟨_ | ⟨i, is⟩, h⟩
  · cases h
  · exact Nat.succ_pos _

def Filter.ret (f : Filter size) (data : Nat → BitVec 32) : BitVec 32 := (run data f.insns 0 0).get (f.isSome data)

/-- The action of an answer; answers are compared by it, as signed numbers. -/
def action (r : BitVec 32) : Int := (r.extractLsb' 16 16).toInt

/-- The first of the answers with the least action. -/
def verdict (data : Nat → BitVec 32) (allow : BitVec 32) (fs : List (Filter size)) : BitVec 32 :=
  fs.foldl (fun r f => if action (f.ret data) < action r then f.ret data else r) allow

variable {allow : BitVec 32} {f : Filter size} {fs gs : List (Filter size)}

theorem action_verdict_le_start : action (verdict data allow fs) ≤ action allow := by
  induction fs generalizing allow with
  | nil => exact Int.le_refl _
  | cons f fs ih =>
    rw [verdict, List.foldl_cons]
    refine Int.le_trans ih ?_
    split
    · exact Int.le_of_lt ‹_›
    · exact Int.le_refl _

theorem verdict_cons : verdict data allow (f :: fs) =
    verdict data (if action (f.ret data) < action allow then f.ret data else allow) fs := rfl

theorem verdict_append : verdict data allow (gs ++ fs) = verdict data (verdict data allow gs) fs :=
  List.foldl_append

/-- No filter of the stack is passed over. -/
theorem action_verdict_le (hf : f ∈ fs) : action (verdict data allow fs) ≤ action (f.ret data) := by
  obtain ⟨fs, hs, rfl⟩ := List.append_of_mem hf
  rw [verdict_append, verdict_cons]
  refine Int.le_trans action_verdict_le_start ?_
  split
  · exact Int.le_refl _
  · exact Int.not_lt.1 ‹_›

/-- Under a lesser start the stack decides as before, or the start does. -/
theorem action_verdict_of_le {r : BitVec 32} (h : action r ≤ action allow) :
    action (verdict data r fs) = min (action r) (action (verdict data allow fs)) := by
  induction fs generalizing r allow with
  | nil => exact (Int.min_eq_left h).symm
  | cons f fs ih =>
    rw [verdict_cons, verdict_cons]
    by_cases hallow : action (f.ret data) < action allow
    · have hf : action (verdict data (f.ret data) fs) ≤ action (f.ret data) := action_verdict_le_start
      rw [if_pos hallow]
      split
      · omega
      · exact ih (Int.not_lt.1 ‹_›)
    · rw [if_neg hallow, if_neg (by omega)]
      exact ih h

/-- A filter whose answer is the greatest may stand anywhere in the stack. -/
theorem verdict_insert (h : action allow ≤ action (f.ret data)) :
    verdict data allow (gs ++ f :: fs) = verdict data allow (gs ++ fs) := by
  rw [verdict_append, verdict_append, verdict_cons, if_neg]
  exact Int.not_lt.2 (Int.le_trans action_verdict_le_start h)

end Bpf
