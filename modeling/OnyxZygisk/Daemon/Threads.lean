import OnyxZygisk.Daemon.Scope
import OnyxZygisk.Lib.Pool

/-!
# The daemon's threads

Both daemons and the WebUI process run the same program text on the same disk, so together they are one
pool of threads. `only_body` says once which operations any of them can issue, and `get_leaf` what such
an operation does to a file of the work directory: nothing, unless it names that file.
-/

namespace OnyxZygisk.Daemon

open Prog (Only)

/-- A file among the markers or the opt-ins. -/
def IsLeaf (p : FilePath) : Prop := ∃ n, p = activationMarkers ++ [n] ∨ p = hotplugDir ++ [n]

theorem isLeaf_activationMarker (name suffix : String) : IsLeaf (activationMarker name suffix) :=
  ⟨_, .inl rfl⟩

theorem isLeaf_hotplugOptIn (name : String) : IsLeaf (hotplugOptIn name) := ⟨_, .inr rfl⟩

/-- What a daemon thread removes, renames and creates directories for. -/
def Op.issued : Op → Prop
  | .createDirAll p => p = tmpPath ∨ p = activationMarkers
  | .removeFile p => IsLeaf p ∨ p = hotplugRestartGuard ∨ ∃ n f, p = activeDir n ++ [f]
  | .removeDirAll p => ∃ n, p = backupDir n
  | .rename src dst => ∃ n, src = activeDir n ∧ dst = backupDir n ∨
      src = stagedDir n ∧ dst = activeDir n ∨ src = backupDir n ∧ dst = activeDir n
  | .onLoad _ _ => False
  | .spawn job => job.ofDaemon
  | _ => True

/-- The same, file by file. -/
def issuedScope : Scope where
  writes _ := True
  removes p := IsLeaf p ∨ p = hotplugRestartGuard ∨ ∃ n f, p = activeDir n ++ [f]
  clears p := ∃ n, p = backupDir n
  moves src dst := ∃ n, src = activeDir n ∧ dst = backupDir n ∨
    src = stagedDir n ∧ dst = activeDir n ∨ src = backupDir n ∧ dst = activeDir n

theorem issuedScope_full : issuedScope.Full where
  write := trivial
  remove := .inr (.inl rfl)
  applies n := {
    lock := trivial
    write := fun _ _ => trivial
    remove := fun _ _ => .inl (isLeaf_activationMarker n _)
    inherit := trivial
    backup := ⟨n, rfl⟩
    preserve := ⟨n, .inl ⟨rfl, rfl⟩⟩
    moveIn := ⟨n, .inr (.inl ⟨rfl, rfl⟩)⟩
    restore := ⟨n, .inr (.inr ⟨rfl, rfl⟩)⟩
    enable := .inr (.inr ⟨n, _, rfl⟩)
    updated := .inr (.inr ⟨n, _, rfl⟩) }
  blocks n := {
    lock := trivial
    write := fun _ _ => trivial
    remove := fun _ _ => .inl (isLeaf_activationMarker n _)
    optOut := .inl (isLeaf_hotplugOptIn n) }

theorem issued_within {α : Type} {p : Program α} (h : Only (Op.within issuedScope) p) :
    Only Op.issued p := by
  refine Prog.only_mono h ?_
  intro op hop
  cases op <;> exact hop

theorem Op.issued_of_inert {op : Op} (hop : op.inert) : op.issued := by
  cases op <;> first | exact hop.elim | trivial

theorem issued_inert {α : Type} {p : Program α} (h : Only Op.inert p) : Only Op.issued p :=
  Prog.only_mono h fun _ hop => Op.issued_of_inert hop

theorem issued_asks {α : Type} {p : Program α} (h : Asks p) : Only Op.issued p :=
  issued_inert (inert_asks h)

theorem issued_runPendingStagedServices : Only Op.issued runPendingStagedServices :=
  issued_within (within_runPendingStagedServices fun n => (issuedScope_full.blocks n).toMarkers)

theorem issued_runFrameworkActivations : Only Op.issued runFrameworkActivations :=
  issued_within (within_runFrameworkActivations issuedScope_full.blocks)

theorem issued_activateStagedModule (name : String) (dir : FilePath) :
    Only Op.issued (activateStagedModule name dir) :=
  issued_within (within_activateStagedModule (issuedScope_full.applies name).toSwaps dir)

/-- What any thread of the daemon issues. -/
theorem only_body {j : Job} (hj : j.ofDaemon) : Only Op.issued (body j) :=
  issued_within (within_body issuedScope_full hj)

/-! ### The files of the work directory -/

/-- The file an operation opens, writes or removes. -/
def Op.target : Op → Option FilePath
  | .createNew p | .openKeep p | .openTrunc p | .writeData p _ _ | .removeFile p => some p
  | _ => none

section Leaf

variable {e : Env} {w w' : World} {op : Op} {r : Resp op} {p q : FilePath}

theorem IsLeaf.length (hq : IsLeaf q) : q.length = 5 := by
  obtain ⟨n, rfl | rfl⟩ := hq <;> rfl

theorem IsLeaf.eq_of_prefix (hp : IsLeaf p) (hq : IsLeaf q) (h : p <+: q) : p = q :=
  h.eq_of_length (hp.length.trans hq.length.symm)

/-- What the daemon removes is no directory above a leaf. -/
theorem IsLeaf.eq_of_issued (hq : IsLeaf q) (hop : (Op.removeFile p).issued) (h : p <+: q) :
    p = q := by
  rcases hop with hp | rfl | ⟨n, f, rfl⟩
  · exact hp.eq_of_prefix hq h
  · obtain ⟨n, rfl | rfl⟩ := hq <;> simp [hotplugRestartGuard, activationMarkers, hotplugDir] at h
  · obtain ⟨m, rfl | rfl⟩ := hq <;> simp [activeDir, activationMarkers, hotplugDir] at h

theorem IsLeaf.not_prefix_modules (hq : IsLeaf q) (n : String) :
    ¬ activeDir n <+: q ∧ ¬ stagedDir n <+: q ∧ ¬ backupDir n <+: q := by
  obtain ⟨m, rfl | rfl⟩ := hq <;>
    simp [activeDir, stagedDir, backupDir, activationMarkers, hotplugDir]

/-- An operation of the daemon leaves every leaf alone that it does not name. -/
theorem get_leaf (hop : op.issued) (hx : exec e op w = some (r, w')) (hq : IsLeaf q)
    (hne : op.target ≠ some q) : w'.fs.get q = w.fs.get q := by
  have hmods := hq.not_prefix_modules
  cases op with
  | createDirAll p =>
    rcases exec_createDirAll hx with ⟨rfl, -⟩ | ⟨rfl, -, -⟩
    · refine FileTree.get_mkdirAll _ ?_
      intro hpre
      have hlen := hpre.length_le
      rw [hq.length] at hlen
      rcases hop with rfl | rfl <;> exact absurd hlen (by decide)
    · rfl
  | createNew p =>
    rcases exec_createNew hx with ⟨-, fs, hfs, rfl⟩ | ⟨-, rfl⟩
    · rw [FileTree.get_create hfs, if_neg]
      rintro rfl
      exact hne rfl
    · rfl
  | openKeep p =>
    rcases exec_openKeep hx with ⟨-, fs, hfs, rfl⟩ | ⟨-, rfl, -⟩
    · refine FileTree.get_openKeep hfs ?_
      rintro rfl
      exact hne rfl
    · rfl
  | openTrunc p =>
    rcases exec_openTrunc hx with ⟨ino, fs, -, hfs, rfl⟩ | ⟨-, rfl, -⟩
    · refine FileTree.get_openTrunc hfs ?_
      rintro rfl
      exact hne rfl
    · rfl
  | writeData p ino data =>
    rcases exec_writeData hx with ⟨-, rfl⟩ | ⟨-, rfl, -⟩
    · refine FileTree.get_writeData _ ?_ ino data
      rintro rfl
      exact hne rfl
    · rfl
  | removeFile p =>
    rcases exec_removeFile hx with ⟨-, fs, hfs, rfl⟩ | ⟨-, rfl, -⟩
    · rw [FileTree.get_removeFile hfs, if_neg]
      intro hpre
      exact hne (congrArg some (hq.eq_of_issued hop hpre))
    · rfl
  | removeDirAll p =>
    obtain ⟨n, rfl⟩ := hop
    rcases exec_removeDirAll hx with ⟨-, fs, hfs, rfl⟩ | ⟨-, ⟨fs, rfl, hfs, -⟩, -⟩
    · rw [FileTree.get_removeDirAll (by simp [backupDir]) hfs, if_neg (hmods n).2.2]
    · exact hfs q (hmods n).2.2
  | rename src dst =>
    rcases exec_rename hx with ⟨-, fs, hfs, rfl⟩ | ⟨-, rfl, -⟩
    · obtain ⟨n, ⟨rfl, rfl⟩ | ⟨rfl, rfl⟩ | ⟨rfl, rfl⟩⟩ := hop
      · exact FileTree.get_rename_apart hfs (hmods n).1 (hmods n).2.2
      · exact FileTree.get_rename_apart hfs (hmods n).2.1 (hmods n).1
      · exact FileTree.get_rename_apart hfs (hmods n).2.2 (hmods n).1
    · rfl
  | flock use =>
    rcases exec_flock hx with ⟨-, -, rfl⟩ | ⟨-, rfl, -⟩ <;> rfl
  | unlock => rw [exec_unlock hx]
  | onLoad _ _ => exact hop.elim
  | runModuleScript _ _ | startDaemon _ _ | kill _ _ _ | spawn _ =>
    simp only [exec, Option.some.injEq, Prod.mk.injEq] at hx
    rw [← hx.2]
    rfl
  | _ => rw [exec_inert (by trivial) hx]

/-- A leaf disappears only by being removed. -/
theorem present_leaf (hop : op.issued) (hx : exec e op w = some (r, w')) (hq : IsLeaf q)
    (h : w.fs.present q = true) : w'.fs.present q = true ∨ op = .removeFile q := by
  by_cases hne : op.target = some q
  · cases op with
    | createNew p =>
      obtain rfl := Option.some.inj hne
      rcases exec_createNew hx with ⟨-, fs, hfs, rfl⟩ | ⟨-, rfl⟩
      · left
        rw [FileTree.present, FileTree.get_create hfs, if_pos rfl]
        rfl
      · exact .inl h
    | openKeep p =>
      obtain rfl := Option.some.inj hne
      rcases exec_openKeep hx with ⟨-, fs, hfs, rfl⟩ | ⟨-, rfl, -⟩
      · left
        obtain ⟨ino, data, hget⟩ := FileTree.get_openKeep_self hfs
        rw [FileTree.present, hget]
        rfl
      · exact .inl h
    | openTrunc p =>
      obtain rfl := Option.some.inj hne
      rcases exec_openTrunc hx with ⟨ino, fs, -, hfs, rfl⟩ | ⟨-, rfl, -⟩
      · left
        rw [FileTree.present, FileTree.get_openTrunc_self hfs]
        rfl
      · exact .inl h
    | writeData p ino data =>
      rcases exec_writeData hx with ⟨-, rfl⟩ | ⟨-, rfl, -⟩
      · left
        rw [FileTree.present_writeData]
        exact h
      · exact .inl h
    | removeFile p =>
      obtain rfl := Option.some.inj hne
      exact .inr rfl
    | _ => exact absurd hne (by simp [Op.target])
  · left
    rw [FileTree.present, get_leaf hop hx hq hne]
    exact h

theorem log_of_exec (hx : exec e op w = some (r, w')) : w'.log = w.log ∨ w'.log = op :: w.log := by
  cases op with
  | createDirAll p => rcases exec_createDirAll hx with ⟨rfl, -⟩ | ⟨rfl, -, -⟩ <;> exact .inl rfl
  | createNew p => rcases exec_createNew hx with ⟨-, fs, -, rfl⟩ | ⟨-, rfl⟩ <;> exact .inl rfl
  | openKeep p => rcases exec_openKeep hx with ⟨-, fs, -, rfl⟩ | ⟨-, rfl, -⟩ <;> exact .inl rfl
  | openTrunc p =>
    rcases exec_openTrunc hx with ⟨ino, fs, -, -, rfl⟩ | ⟨-, rfl, -⟩ <;> exact .inl rfl
  | writeData p ino data => rcases exec_writeData hx with ⟨-, rfl⟩ | ⟨-, rfl, -⟩ <;> exact .inl rfl
  | removeFile p => rcases exec_removeFile hx with ⟨-, fs, -, rfl⟩ | ⟨-, rfl, -⟩ <;> exact .inl rfl
  | removeDirAll p =>
    rcases exec_removeDirAll hx with ⟨-, fs, -, rfl⟩ | ⟨-, ⟨fs, rfl, -, -⟩, -⟩ <;> exact .inl rfl
  | rename src dst =>
    rcases exec_rename hx with ⟨-, fs, -, rfl⟩ | ⟨-, rfl, -⟩
    · exact .inr rfl
    · exact .inl rfl
  | flock use => rcases exec_flock hx with ⟨-, -, rfl⟩ | ⟨-, rfl, -⟩ <;> exact .inl rfl
  | unlock => rw [exec_unlock hx]; exact .inl rfl
  | runModuleScript _ _ | startDaemon _ _ | kill _ _ _ | onLoad _ _ | spawn _ =>
    simp only [exec, Option.some.injEq, Prod.mk.injEq] at hx
    exact .inr (hx.2 ▸ rfl)
  | _ => rw [exec_inert (by trivial) hx]; exact .inl rfl

theorem lock_of_exec (hx : exec e op w = some (r, w')) (hflock : ∀ use, op ≠ .flock use)
    (hunlock : op ≠ .unlock) : w'.lock = w.lock := by
  cases op with
  | createDirAll p => rcases exec_createDirAll hx with ⟨rfl, -⟩ | ⟨rfl, -, -⟩ <;> rfl
  | createNew p => rcases exec_createNew hx with ⟨-, fs, -, rfl⟩ | ⟨-, rfl⟩ <;> rfl
  | openKeep p => rcases exec_openKeep hx with ⟨-, fs, -, rfl⟩ | ⟨-, rfl, -⟩ <;> rfl
  | openTrunc p => rcases exec_openTrunc hx with ⟨ino, fs, -, -, rfl⟩ | ⟨-, rfl, -⟩ <;> rfl
  | writeData p ino data => rcases exec_writeData hx with ⟨-, rfl⟩ | ⟨-, rfl, -⟩ <;> rfl
  | removeFile p => rcases exec_removeFile hx with ⟨-, fs, -, rfl⟩ | ⟨-, rfl, -⟩ <;> rfl
  | removeDirAll p =>
    rcases exec_removeDirAll hx with ⟨-, fs, -, rfl⟩ | ⟨-, ⟨fs, rfl, -, -⟩, -⟩ <;> rfl
  | rename src dst => rcases exec_rename hx with ⟨-, fs, -, rfl⟩ | ⟨-, rfl, -⟩ <;> rfl
  | flock use => exact absurd rfl (hflock use)
  | unlock => exact absurd rfl hunlock
  | runModuleScript _ _ | startDaemon _ _ | kill _ _ _ | onLoad _ _ | spawn _ =>
    simp only [exec, Option.some.injEq, Prod.mk.injEq] at hx
    exact hx.2 ▸ rfl
  | _ => rw [exec_inert (by trivial) hx]

end Leaf

/-! ### Who holds the lock -/

section Lock

open Pool (AtMostOne)

variable {τ : Type} {holds mine : τ → Bool} {use : LockUse} {M : Multiset τ} {o o' : τ}
  {w w' : World}

/-- At most one thread holds the lock, and the world says whether it is for `use`. -/
structure Held (holds mine : τ → Bool) (use : LockUse) (M : Multiset τ) (w : World) : Prop where
  one : AtMostOne holds M
  use : ∀ o ∈ M, holds o = true → ∃ u, w.lock = some u ∧ (mine o = true ↔ u = use)

theorem Held.frame (h : Held holds mine use M w) (hlock : w'.lock = w.lock) :
    Held holds mine use M w' :=
  ⟨h.one, fun o ho hh => hlock ▸ h.use o ho hh⟩

/-- A typestate that holds the lock like the one before. -/
theorem Held.restage (h : Held holds mine use (o ::ₘ M) w)
    (hholds : holds o' = true → holds o = true) (hmine : holds o' = true → mine o' = mine o) :
    Held holds mine use (o' ::ₘ M) w := by
  refine ⟨h.one.replace hholds, ?_⟩
  intro x hx hh
  rcases Multiset.mem_cons.1 hx with rfl | hx
  · rw [hmine hh]
    exact h.use o (Multiset.mem_cons_self o M) (hholds hh)
  · exact h.use x (Multiset.mem_cons_of_mem hx) hh

theorem Held.none_of_free (h : Held holds mine use M w) (hlock : w.lock = none) :
    ∀ x ∈ M, holds x = false := by
  intro x hx
  cases hh : holds x with
  | false => rfl
  | true =>
    obtain ⟨u, hu, -⟩ := h.use x hx hh
    rw [hlock] at hu
    exact absurd hu (by simp)

theorem Held.take {u : LockUse} (h : Held holds mine use (o ::ₘ M) w) (hlock : w.lock = none)
    (hmine : mine o' = true ↔ u = use) :
    Held holds mine use (o' ::ₘ M) { w with lock := some u } := by
  have hfree := h.none_of_free hlock
  refine ⟨AtMostOne.cons (fun x hx => hfree x (Multiset.mem_cons_of_mem hx)) _, ?_⟩
  intro x hx hh
  rcases Multiset.mem_cons.1 hx with rfl | hx
  · exact ⟨u, rfl, hmine⟩
  · rw [hfree x (Multiset.mem_cons_of_mem hx)] at hh
    exact absurd hh (by simp)

theorem Held.drop (h : Held holds mine use (o ::ₘ M) w) (ho : holds o = true)
    (ho' : holds o' = false) : Held holds mine use (o' ::ₘ M) { w with lock := none } := by
  have hothers := h.one.others ho
  refine ⟨AtMostOne.cons hothers _, ?_⟩
  intro x hx hh
  rcases Multiset.mem_cons.1 hx with rfl | hx
  · rw [ho'] at hh
    exact absurd hh (by simp)
  · rw [hothers x hx] at hh
    exact absurd hh (by simp)

/-- A thread that does not hold the lock. -/
theorem Held.cons_free (h : Held holds mine use M w) (ho : holds o = false) :
    Held holds mine use (o ::ₘ M) w := by
  refine ⟨(AtMostOne.cons_iff ho).2 h.one, ?_⟩
  intro x hx hh
  rcases Multiset.mem_cons.1 hx with rfl | hx
  · rw [ho] at hh
    exact absurd hh (by simp)
  · exact h.use x hx hh

end Lock

/-! ### The pool -/

/-- What another process, or a fork, asks the daemon to do. -/
def Job.request : Job → Prop
  | .readModules | .systemServerStarted | .applyHotplug _ | .startup | .activateStagedModule _ _
  | .runPendingStagedServices | .restartFrameworkOnce _ | .runFrameworkActivations => True
  | _ => False

theorem Job.ofDaemon_of_request {j : Job} (hj : j.request) : j.ofDaemon := by
  cases j <;> first | exact hj.elim | trivial

/-- The threads of all daemon processes; a thread can die, and what it had locked is free then. -/
def daemon (adm : Admissible) (drift : World → World → Prop) : Pool.System Resp Job World where
  body := body
  called := Job.request
  step := StepIn adm
  forks := forks
  drift := drift
  kill w w' := w'.fs = w.fs ∧ w'.log = w.log ∧ (w'.lock = w.lock ∨ w'.lock = none)

/-- Threads of the daemon start threads of the daemon. -/
theorem only_forked {adm : Admissible} {drift : World → World → Prop} (op : Op) (j : Job)
    (hop : op.issued) (hj : (daemon adm drift).forks op = some j) :
    Only Op.issued ((daemon adm drift).body j) := by
  cases op with
  | spawn job =>
    obtain rfl : job = j := Option.some.inj hj
    exact only_body hop
  | _ => exact absurd hj (by simp [daemon, forks])

/-- A move of a scheduler of the daemon's threads. -/
abbrev DaemonMove := Pool.Move Job World Env

/-- `k` operations of the `i`-th thread. -/
def steps (i k : Nat) (e : Env) : List DaemonMove := List.replicate k (.op i e)

end OnyxZygisk.Daemon
