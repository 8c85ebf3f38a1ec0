import OnyxZygisk.Lib.Positions
import OnyxZygisk.Ptracer.InjectOnMain

/-!
# The scan of the argument block

`inject_on_main` looks for `AT_ENTRY` behind the environment of the tracee, and goes by what is in its buffers, read or
not. The scan ends, with an entry that was read, if all the reads are whole that it takes to get there, and only then
whatever the reads that fail leave behind (`findEntry_right_iff`).
-/

namespace OnyxZygisk.Ptracer

open Positions

variable {abi : Abi}

/-! ### The block in memory -/

/-- The environment ends with its `n`-th word. -/
def EnvironmentEnds (word : Word abi → Word abi) (envp : Word abi) (n : Nat) : Prop :=
  FirstAt (fun i => word (wordAt envp i) = 0) n

/-- What ends the scan of the auxiliary vector. -/
def EndType (type : Word abi) : Prop := type = AT_NULL ∨ type = AT_ENTRY

/-- The address of the `k`-th record of the auxiliary vector behind `n` words of environment. -/
def auxRecordAt (envp : Word abi) (n k : Nat) : Word abi := wordAt (wordAt envp (n + 1)) (2 * k)

/-- A record of the auxiliary vector, of the block at `sp`. -/
def AuxRecord (word : Word abi → Word abi) (sp v : Word abi) : Prop :=
  ∃ n k, EnvironmentEnds word (envpOf sp (word sp)) n ∧
    (∀ j < k, word (auxRecordAt (envpOf sp (word sp)) n j) ≠ AT_NULL) ∧ v = auxRecordAt (envpOf sp (word sp)) n k

/-- With `m` reads the scan gets to the record where it ends. -/
def CompleteWithin (word : Word abi → Word abi) (sp : Word abi) (m : Nat) : Prop :=
  ∃ n k, EnvironmentEnds word (envpOf sp (word sp)) n ∧
    FirstAt (fun j => EndType (word (auxRecordAt (envpOf sp (word sp)) n j))) k ∧ n + k + 3 ≤ m

/-! ### The scan -/

/-- What is in the buffer after the `n`-th operation from here, a read. -/
def Injected.shown (e : InjectEnv abi) (t : Injected abi) (n : Nat) (addr : Word abi) : Nat → Word abi :=
  (e.misread (t.clock + n)).getD fun i => t.word (wordAt addr i)

def Injected.later (t : Injected abi) (n : Nat) : Injected abi := { t with clock := t.clock + n }

/-- The scan ends, and if it goes on to the hijacking write it has read the address of the entry, and where that stands,
from a record of the auxiliary vector. -/
def ScanRight (e : InjectEnv abi) (t : Injected abi) : Prop :=
  ∃ fuel entry addr t', Prog.run Injected.exec e (findEntry fuel) t = some (some (entry, addr), t') ∧
    (entry ≠ 0 → ∃ v, AuxRecord t.word t.tracee.live.sp v ∧ t.word v = AT_ENTRY ∧ e.misread (t'.clock - 1) = none ∧
      addr = wordAt v 1 ∧ entry = t.word addr)

/-- The first `m` reads are whole. They begin after `get_regs`. -/
def FirstReadsWhole (m : Nat) (e : InjectEnv abi) (t : Injected abi) : Prop :=
  ∀ n < m, e.misread (t.clock + 1 + n) = none

/-! ### The two loops -/

variable {e : InjectEnv abi} {t t' : Injected abi} {fuel : Nat}

theorem wordAt_wordAt (p : Word abi) (i j : Nat) : wordAt (wordAt p i) j = wordAt p (i + j) := by
  unfold wordAt
  rw [BitVec.add_assoc, ← BitVec.ofNat_add, Nat.add_mul]

theorem shown_later (e : InjectEnv abi) (t : Injected abi) (n k : Nat) (addr : Word abi) :
    (t.later n).shown e k addr = t.shown e (n + k) addr := by
  unfold Injected.shown Injected.later
  rw [Nat.add_assoc]

theorem run_peek {α : Type} (e : InjectEnv abi) (t : Injected abi) (addr : Word abi)
    (f : (Nat → Word abi) → InjectProgram abi α) :
    Prog.run Injected.exec e (peek addr >>= f) t = Prog.run Injected.exec e (f (t.shown e 0 addr)) (t.later 1) := rfl

@[simp] theorem later_zero (t : Injected abi) : t.later 0 = t := rfl

theorem later_later (t : Injected abi) (n k : Nat) : (t.later n).later k = t.later (n + k) := by
  unfold Injected.later
  rw [Nat.add_assoc]

theorem run_skipEnvironment_iff {p auxv : Word abi} :
    Prog.run Injected.exec e (skipEnvironment fuel p) t = some (some auxv, t') ↔
      ∃ n < fuel, FirstAt (fun i => t.shown e i (wordAt p i) 0 = 0) n ∧ auxv = wordAt p (n + 1) ∧ t' = t.later (n + 1) := by
  induction fuel generalizing p t with
  | zero => exact ⟨fun h => (nomatch h), fun ⟨n, hn, _⟩ => absurd hn (Nat.not_lt_zero n)⟩
  | succ fuel ih =>
    have hstart : wordAt p 0 = p := by simp [wordAt]
    rw [skipEnvironment, run_peek, exists_firstAt_succ, hstart]
    split_ifs with hval
    · rw [ih]
      simp only [hval, false_and, false_or, not_false_iff, true_and, wordAt_wordAt, shown_later, later_later,
        Nat.add_comm 1]
    · have hnull := not_not.1 hval
      simp only [hnull, true_and, not_true, false_and, or_false]
      show some (some (wordAt p 1), t.later 1) = _ ↔ _
      rw [Option.some.injEq, Prod.mk.injEq, Option.some.injEq]
      exact and_congr eq_comm eq_comm

/-- What the scan takes from the record it ends with. -/
def recordEntry (buf : Nat → Word abi) (v : Word abi) : Word abi × Word abi :=
  if buf 0 = AT_NULL then (0, 0) else (buf 1, wordAt v 1)

theorem run_scanAuxv_iff {v : Word abi} {found : Word abi × Word abi} :
    Prog.run Injected.exec e (scanAuxv fuel v) t = some (some found, t') ↔
      ∃ k < fuel, FirstAt (fun j => EndType (t.shown e j (wordAt v (2 * j)) 0)) k ∧
        found = recordEntry (t.shown e k (wordAt v (2 * k))) (wordAt v (2 * k)) ∧ t' = t.later (k + 1) := by
  induction fuel generalizing v t with
  | zero => exact ⟨fun h => (nomatch h), fun ⟨n, hn, _⟩ => absurd hn (Nat.not_lt_zero n)⟩
  | succ fuel ih =>
    have hstart : wordAt v (2 * 0) = v := by simp [wordAt]
    rw [scanAuxv, run_peek, exists_firstAt_succ, hstart]
    unfold EndType recordEntry
    have hdone (r : Word abi × Word abi) :
        Prog.run Injected.exec e (pure (some r) : InjectProgram abi _) (t.later 1) = some (some found, t') ↔
          found = r ∧ t' = t.later 1 := by
      show some (some r, t.later 1) = _ ↔ _
      rw [Option.some.injEq, Prod.mk.injEq, Option.some.injEq]
      exact and_congr eq_comm eq_comm
    split_ifs with hnull hentry
    · rw [hdone]
      simp only [hnull, true_or, true_and, not_true, false_and, or_false]
    · rw [hdone]
      simp only [hentry, or_true, true_and, not_true, false_and, or_false]
    · rw [ih]
      have hnext (k : Nat) : 2 * (k + 1) = 2 + 2 * k := by omega
      simp only [hnull, hentry, or_false, false_and, false_or, not_false_iff, true_and, wordAt_wordAt, shown_later,
        later_later, Nat.add_comm 1, hnext, EndType, recordEntry]

/-! ### The whole scan -/

/-- The tracee when the loops start. -/
def Injected.atEnvironment (t : Injected abi) : Injected abi :=
  { t with tracee := { t.tracee with regs := t.tracee.live }, clock := t.clock + 2 }

/-- `envp`, as the buffer for `argc` has it. -/
def shownEnvp (e : InjectEnv abi) (t : Injected abi) : Word abi :=
  envpOf t.tracee.live.sp (t.shown e 1 t.tracee.live.sp 0)

theorem run_findEntry_iff {found : Word abi × Word abi} (hregs : e.getRegs t.clock = true) :
    Prog.run Injected.exec e (findEntry fuel) t = some (some found, t') ↔
      ∃ n < fuel, ∃ k < fuel,
        FirstAt (fun i => t.atEnvironment.shown e i (wordAt (shownEnvp e t) i) 0 = 0) n ∧
        FirstAt (fun j => EndType (t.atEnvironment.shown e (n + 1 + j) (auxRecordAt (shownEnvp e t) n j) 0)) k ∧
        found = recordEntry (t.atEnvironment.shown e (n + 1 + k) (auxRecordAt (shownEnvp e t) n k))
          (auxRecordAt (shownEnvp e t) n k) ∧ t' = t.atEnvironment.later (n + k + 2) := by
  obtain ⟨rest, hnone, hsome, hstart⟩ :
      ∃ rest : Option (Word abi) → InjectProgram abi (Option (Word abi × Word abi)),
        rest none = pure none ∧ (∀ auxv, rest (some auxv) = scanAuxv fuel auxv) ∧
          Prog.run Injected.exec e (findEntry fuel) t =
            Prog.run Injected.exec e (skipEnvironment fuel (shownEnvp e t) >>= rest) t.atEnvironment := by
    have hlive : Injected.exec e .getRegs t = some (some t.tracee.live,
        { t with tracee := { t.tracee with regs := t.tracee.live }, clock := t.clock + 1 }) := by
      unfold Injected.exec
      simp only [hregs, if_true]
      rfl
    refine ⟨?rest, ?_, ?_, ?run⟩
    case run =>
      show (Injected.exec e .getRegs t).bind _ = _
      rw [hlive]
      rfl
    · rfl
    · exact fun _ => rfl
  rw [hstart, Prog.run_bind, Option.bind_eq_some_iff]
  constructor
  · rintro ⟨⟨auxv, t₁⟩, hskip, hscan⟩
    cases auxv with
    | none =>
      rw [hnone] at hscan
      cases hscan
    | some auxv =>
      rw [hsome] at hscan
      obtain ⟨n, hn, hnull, rfl, rfl⟩ := run_skipEnvironment_iff.1 hskip
      obtain ⟨k, hk, hend, rfl, rfl⟩ := run_scanAuxv_iff.1 hscan
      simp only [shown_later, later_later] at hend ⊢
      exact ⟨n, hn, k, hk, hnull, hend, rfl, by congr 1; omega⟩
  · rintro ⟨n, hn, k, hk, hnull, hend, rfl, rfl⟩
    refine ⟨(some _, _), run_skipEnvironment_iff.2 ⟨n, hn, hnull, rfl, rfl⟩, ?_⟩
    rw [hsome]
    refine run_scanAuxv_iff.2 ⟨k, hk, ?_⟩
    simp only [shown_later, later_later]
    exact ⟨hend, rfl, by congr 1; omega⟩

/-! ### Whole reads -/

theorem wordAt_zero (p : Word abi) : wordAt p 0 = p := by simp [wordAt]

/-- A whole read shows what is in memory. -/
theorem shown_whole {n : Nat} (h : e.misread (t.clock + n) = none) (addr : Word abi) (i : Nat) :
    t.shown e n addr i = t.word (wordAt addr i) := by
  unfold Injected.shown
  rw [h]
  rfl

theorem shown_zero {n : Nat} (h : e.misread (t.clock + n) = none) (addr : Word abi) :
    t.shown e n addr 0 = t.word addr := by
  rw [shown_whole h, wordAt_zero]

section Whole

variable {n k : Nat} (hwhole : FirstReadsWhole (n + k + 3) e t)

include hwhole

theorem shownEnvp_whole : shownEnvp e t = envpOf t.tracee.live.sp (t.word t.tracee.live.sp) := by
  rw [shownEnvp, shown_zero (hwhole 0 (by omega))]

theorem misread_whole {i : Nat} (hi : i ≤ n + k + 1) : e.misread (t.atEnvironment.clock + i) = none := by
  have hread := hwhole (i + 1) (by omega)
  rwa [show t.clock + 1 + (i + 1) = t.clock + 2 + i by omega] at hread

/-- The loops end where they end in memory. -/
theorem shownEnds_iff :
    FirstAt (fun i => t.atEnvironment.shown e i (wordAt (shownEnvp e t) i) 0 = 0) n ∧
        FirstAt (fun j => EndType (t.atEnvironment.shown e (n + 1 + j) (auxRecordAt (shownEnvp e t) n j) 0)) k ↔
      EnvironmentEnds t.word (envpOf t.tracee.live.sp (t.word t.tracee.live.sp)) n ∧
        FirstAt (fun j => EndType (t.word (auxRecordAt (envpOf t.tracee.live.sp (t.word t.tracee.live.sp)) n j))) k := by
  rw [shownEnvp_whole hwhole]
  refine and_congr (firstAt_congr fun i hi => ?_) (firstAt_congr fun j hj => ?_)
  · rw [shown_zero (misread_whole hwhole (by omega))]
    rfl
  · rw [shown_zero (misread_whole hwhole (by omega))]
    rfl

end Whole

/-! ### When it is right -/

theorem recordEntry_ne_zero {buf : Nat → Word abi} {v entry addr : Word abi} (h : (entry, addr) = recordEntry buf v)
    (hentry : entry ≠ 0) : buf 0 ≠ AT_NULL ∧ entry = buf 1 ∧ addr = wordAt v 1 := by
  unfold recordEntry at h
  split_ifs at h with hnull
  · exact absurd (Prod.mk.inj h).1 hentry
  · exact ⟨hnull, Prod.mk.inj h⟩

theorem run_findEntry_noRegs (fuel : Nat) (h : e.getRegs t.clock = false) :
    ∃ t', Prog.run Injected.exec e (findEntry fuel) t = some (some (0, 0), t') := by
  have hnone : Injected.exec e .getRegs t = some (none, { t with clock := t.clock + 1 }) := by
    unfold Injected.exec
    simp only [h, Bool.false_eq_true, if_false]
    rfl
  refine ⟨{ t with clock := t.clock + 1 }, ?_⟩
  show (Injected.exec e .getRegs t).bind _ = _
  rw [hnone]
  rfl

/-- Whole reads lead to the record that ends the scan. -/
theorem scanRight_of_complete {m : Nat} (hwhole : FirstReadsWhole m e t)
    (hcomplete : CompleteWithin t.word t.tracee.live.sp m) : ScanRight e t := by
  obtain ⟨n, k, hnull, hend, hm⟩ := hcomplete
  cases hregs : e.getRegs t.clock with
  | false =>
    obtain ⟨t', hrun⟩ := run_findEntry_noRegs 0 hregs
    exact ⟨0, 0, 0, t', hrun, fun h => absurd rfl h⟩
  | true =>
    have hneeded : FirstReadsWhole (n + k + 3) e t := fun i hi => hwhole i (by omega)
    obtain ⟨hshownNull, hshownEnd⟩ := (shownEnds_iff hneeded).2 ⟨hnull, hend⟩
    have hlast : e.misread (t.atEnvironment.clock + (n + 1 + k)) = none := misread_whole hneeded (by omega)
    obtain ⟨⟨entry, addr⟩, hfound⟩ : ∃ found, found = recordEntry
        (t.atEnvironment.shown e (n + 1 + k) (auxRecordAt (shownEnvp e t) n k)) (auxRecordAt (shownEnvp e t) n k) :=
      ⟨_, rfl⟩
    have hrun : Prog.run Injected.exec e (findEntry (n + k + 1)) t =
        some (some (entry, addr), t.atEnvironment.later (n + k + 2)) :=
      (run_findEntry_iff hregs).2 ⟨n, by omega, k, by omega, hshownNull, hshownEnd, hfound, rfl⟩
    refine ⟨n + k + 1, entry, addr, _, hrun, fun hentry => ?_⟩
    obtain ⟨htype, rfl, rfl⟩ := recordEntry_ne_zero hfound hentry
    rw [shown_zero hlast, shownEnvp_whole hneeded] at htype
    rw [shown_whole hlast, shownEnvp_whole hneeded]
    refine ⟨_, ⟨n, k, hnull, fun j hj hzero => hend.2 j hj (.inl hzero), rfl⟩, hend.1.resolve_left htype, ?_, rfl, rfl⟩
    rw [← hlast]
    congr 1
    show t.clock + 2 + (n + k + 2) - 1 = t.clock + 2 + (n + 1 + k)
    omega

/-- Reads that fail from the `m`-th on, with ones in the buffers. -/
def stuck (m : Nat) (t : Injected abi) : InjectEnv abi where
  trace :=
    { syscall := fun _ _ => ⟨false, false, false, false, 0, false, false, ⟨0, 0, 0, 0, []⟩⟩
      written := fun _ => -1
      word := fun _ => none
      call := fun _ => ⟨none, ⟨0, 0, 0, 0, []⟩, ⟨0, 0, 0, 0, []⟩, fun _ => false⟩
      setRegs := fun _ => false
      calloc := fun _ => false }
  getRegs _ := true
  misread n := if n < t.clock + 1 + m then none else some fun _ => 1
  poked _ := none
  cont _ := false
  stop _ := (.tracerExits, ⟨0, 0, 0, 0, []⟩)

/-- The ones end neither loop: the scan ends only at what it has read. -/
theorem complete_of_scanRight_stuck {m : Nat} (h : ScanRight (stuck m t) t) :
    CompleteWithin t.word t.tracee.live.sp m := by
  obtain ⟨fuel, entry, addr, t', hrun, -⟩ := h
  obtain ⟨n, -, k, -, hnull, hend, -, -⟩ := (run_findEntry_iff rfl).1 hrun
  have hlast : t.clock + 2 + (n + 1 + k) < t.clock + 1 + m := by
    by_contra hfails
    have hones : (stuck m t).misread (t.atEnvironment.clock + (n + 1 + k)) = some fun _ => 1 := if_neg hfails
    have hone (addr : Word abi) : t.atEnvironment.shown (stuck m t) (n + 1 + k) addr 0 = 1 := by
      unfold Injected.shown
      rw [hones]
      rfl
    have htype := hend.1
    dsimp only at htype
    rw [hone] at htype
    revert htype
    unfold EndType
    cases abi <;> decide
  have hneeded : FirstReadsWhole (n + k + 3) (stuck m t) t := fun i hi => if_pos (by omega)
  obtain ⟨hnull, hend⟩ := (shownEnds_iff hneeded).1 ⟨hnull, hend⟩
  exact ⟨n, k, hnull, hend, by omega⟩

/-- Whatever the reads behind the first `m` leave in the buffers, the scan ends and goes on only with an entry it has
read, exactly if it needs no more than these. -/
theorem findEntry_right_iff (t : Injected abi) (m : Nat) :
    (∀ e, FirstReadsWhole m e t → ScanRight e t) ↔ CompleteWithin t.word t.tracee.live.sp m := by
  constructor
  · intro h
    exact complete_of_scanRight_stuck (h _ fun n hn => if_pos (by omega))
  · intro h e hwhole
    exact scanRight_of_complete hwhole h

/-- A process with one argument and one word of environment, its entry at `0x5000`. -/
def oneVariable : Injected .aarch64 where
  tracee := .called ⟨0x8000, 0x4000, 0, 0, []⟩ ⟨0, 0, 0, 0, []⟩ fun _ => true
  word a :=
    if a = 0x8000 then 1 else if a = 0x8018 then 0x9000 else if a = 0x8028 then AT_ENTRY else if a = 0x8030 then 0x5000
    else 0
  clock := 0

/-- When it dies after the first word of the environment was read, the scan goes on for ever. -/
theorem findEntry_dies : ¬ ScanRight (stuck 2 oneVariable) oneVariable := by
  intro h
  obtain ⟨n, k, -, -, hreads⟩ := complete_of_scanRight_stuck h
  omega

end OnyxZygisk.Ptracer
