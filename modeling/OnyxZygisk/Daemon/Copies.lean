import OnyxZygisk.Daemon.Steps

/-!
# The three directories of a swap

A swap concerns three directory trees: the active copy, the staged copy and the backup. Everything else
it touches lies in the work directory. Each operation of the swap has one lemma here that says what it
does to the three trees; the file system does not appear in the arguments built on them.
-/

namespace OnyxZygisk.Daemon

open FileTree (Apart)

/-- What a directory holds, by the path from there; the empty tree is a path nothing is at. -/
abbrev Tree := FilePath → Option Node

@[ext]
structure Copies where
  active : Tree
  staged : Tree
  backup : Tree

def Tree.none : Tree := fun _ => Option.none

def copies (name : String) (fs : FileTree) : Copies :=
  ⟨fs.below (activeDir name), fs.below (stagedDir name), fs.below (backupDir name)⟩

/-! ### Paths apart -/

theorem apart_active_staged (m n : String) : Apart (activeDir m) (stagedDir n) := by
  simp [Apart, activeDir, stagedDir]

theorem apart_active_backup (m n : String) : Apart (activeDir m) (backupDir n) := by
  simp [Apart, activeDir, backupDir]

theorem backup_name_ne (name : String) : ".onyx-hotplug-backup-" ++ name ≠ name := by
  intro h
  have := congrArg String.length h
  simp [String.length_append] at this

theorem apart_staged_backup (name : String) : Apart (stagedDir name) (backupDir name) := by
  simp [Apart, stagedDir, backupDir, backup_name_ne name, (backup_name_ne name).symm]

theorem apart_work_active (name : String) : Apart tmpPath (activeDir name) := by
  simp [Apart, activeDir]

theorem apart_work_staged (name : String) : Apart tmpPath (stagedDir name) := by
  simp [Apart, stagedDir]

theorem apart_work_backup (name : String) : Apart tmpPath (backupDir name) := by
  simp [Apart, backupDir]

/-! ### The operations on the trees -/

variable {name : String} {e : Env} {w w' : World}

/-- A change inside the work directory leaves the trees alone. -/
theorem copies_congr {fs fs' : FileTree} (h : ∀ q, ¬ tmpPath <+: q → ¬ q <+: tmpPath →
    fs'.get q = fs.get q) : copies name fs' = copies name fs := by
  have hbelow : ∀ a, Apart tmpPath a → fs'.below a = fs.below a := fun a ha => by
    funext q
    refine h _ (ha.not_below q) fun hp => ?_
    exact ha.2 ((List.prefix_append a q).trans hp)
  rw [copies, hbelow _ (apart_work_active name), hbelow _ (apart_work_staged name),
    hbelow _ (apart_work_backup name), copies]

/-- The operations on files of the work directory. -/
def Op.inWork : Op → Prop
  | .createDirAll p | .createNew p | .openKeep p | .openTrunc p | .writeData p _ _
  | .removeFile p => tmpPath <+: p
  | .flock _ | .unlock | .runModuleScript _ _ | .startDaemon _ _ | .kill _ _ _ | .onLoad _ _
  | .spawn _ => True
  | op => op.inert

theorem get_inWork {op : Op} {r : Resp op} (hop : op.inWork) (h : exec e op w = some (r, w'))
    {q : FilePath} (hq : ¬ tmpPath <+: q) (hq' : ¬ q <+: tmpPath) : w'.fs.get q = w.fs.get q := by
  have hne : ∀ p, tmpPath <+: p → q ≠ p := fun p hp hqp => hq (hqp ▸ hp)
  -- below nothing of the work directory, and not on the way to it
  have hnot : ∀ p, tmpPath <+: p → ¬ p <+: q ∧ ¬ q <+: p := fun p hp =>
    ⟨fun h => hq (hp.trans h), fun h => by
      rcases List.prefix_or_prefix_of_prefix hp h with h' | h'
      · exact hq h'
      · exact hq' h'⟩
  cases op with
  | createDirAll p =>
    rcases exec_createDirAll h with ⟨rfl, -⟩ | ⟨rfl, -, -⟩
    · exact FileTree.get_mkdirAll _ (hnot p hop).2
    · rfl
  | createNew p =>
    rcases exec_createNew h with ⟨-, fs, hfs, rfl⟩ | ⟨-, rfl⟩
    · simp only [FileTree.get_create hfs, if_neg (hne p hop)]
    · rfl
  | openKeep p =>
    rcases exec_openKeep h with ⟨-, fs, hfs, rfl⟩ | ⟨-, rfl, -⟩
    · exact FileTree.get_openKeep hfs (hne p hop)
    · rfl
  | openTrunc p =>
    rcases exec_openTrunc h with ⟨ino, fs, -, hfs, rfl⟩ | ⟨-, rfl, -⟩
    · exact FileTree.get_openTrunc hfs (hne p hop)
    · rfl
  | writeData p ino data =>
    rcases exec_writeData h with ⟨-, rfl⟩ | ⟨-, rfl, -⟩
    · exact FileTree.get_writeData _ (hne p hop) ino data
    · rfl
  | removeFile p =>
    rcases exec_removeFile h with ⟨-, fs, hfs, rfl⟩ | ⟨-, rfl, -⟩
    · simp only [FileTree.get_removeFile hfs, if_neg (hnot p hop).1]
    · rfl
  | flock use =>
    rcases exec_flock h with ⟨-, -, rfl⟩ | ⟨-, rfl, -⟩ <;> rfl
  | unlock => rw [exec_unlock h]
  | removeDirAll p => exact hop.elim
  | rename src dst => exact hop.elim
  | runModuleScript _ _ | startDaemon _ _ | kill _ _ _ | onLoad _ _ | spawn _ =>
    simp only [exec, Option.some.injEq, Prod.mk.injEq] at h
    rw [← h.2]
    rfl
  | _ =>
    have hw : w' = w := exec_inert (by trivial) h
    rw [hw]

theorem copies_inWork {op : Op} {r : Resp op} (h : exec e op w = some (r, w'))
    (hop : op.inWork) : copies name w'.fs = copies name w.fs :=
  copies_congr fun _ hq hq' => get_inWork hop h hq hq'

/-- Removing the backup, whether or not it comes to its end. -/
theorem copies_removeBackup {r : Bool}
    (h : exec e (.removeDirAll (backupDir name)) w = some (r, w')) :
    (copies name w'.fs).active = (copies name w.fs).active ∧
      (copies name w'.fs).staged = (copies name w.fs).staged ∧
      (r = true → (copies name w'.fs).backup = Tree.none) := by
  have hsame : ∀ fs : FileTree, (∀ q, ¬ backupDir name <+: q → fs.get q = w.fs.get q) →
      (copies name fs).active = (copies name w.fs).active ∧
        (copies name fs).staged = (copies name w.fs).staged := fun fs hfs =>
    ⟨FileTree.below_congr (apart_active_backup name name).symm hfs,
      FileTree.below_congr (apart_staged_backup name).symm hfs⟩
  have hne : backupDir name ≠ [] := by simp [backupDir]
  rcases exec_removeDirAll h with ⟨rfl, fs, hfs, rfl⟩ | ⟨rfl, ⟨fs, rfl, hkeep, -⟩, -⟩
  · have hget := FileTree.get_removeDirAll hne hfs
    obtain ⟨ha, hs⟩ := hsame fs fun q hq => by rw [hget, if_neg hq]
    refine ⟨ha, hs, fun _ => ?_⟩
    funext q
    exact (hget _).trans (if_pos (List.prefix_append _ q))
  · obtain ⟨ha, hs⟩ := hsame fs hkeep
    exact ⟨ha, hs, fun h => absurd h (by simp)⟩

theorem copies_preserve {r : Bool}
    (h : exec e (.rename (activeDir name) (backupDir name)) w = some (r, w')) :
    (r = true ∧ copies name w'.fs =
        ⟨Tree.none, (copies name w.fs).staged, (copies name w.fs).active⟩) ∨
      (r = false ∧ w' = w) := by
  rcases exec_rename h with ⟨rfl, fs, hfs, rfl⟩ | ⟨rfl, rfl, -⟩
  · refine .inl ⟨rfl, ?_⟩
    rw [copies, FileTree.below_rename_src hfs, FileTree.below_rename_dst hfs,
      FileTree.below_rename_apart hfs (apart_active_staged name name)
        (apart_staged_backup name).symm]
    rfl
  · exact .inr ⟨rfl, rfl⟩

theorem copies_moveIn {r : Bool}
    (h : exec e (.rename (stagedDir name) (activeDir name)) w = some (r, w')) :
    (r = true ∧ copies name w'.fs =
        ⟨(copies name w.fs).staged, Tree.none, (copies name w.fs).backup⟩) ∨
      (r = false ∧ w' = w) := by
  rcases exec_rename h with ⟨rfl, fs, hfs, rfl⟩ | ⟨rfl, rfl, -⟩
  · refine .inl ⟨rfl, ?_⟩
    rw [copies, FileTree.below_rename_src hfs, FileTree.below_rename_dst hfs,
      FileTree.below_rename_apart hfs (apart_staged_backup name) (apart_active_backup name name)]
    rfl
  · exact .inr ⟨rfl, rfl⟩

theorem copies_restore {r : Bool}
    (h : exec e (.rename (backupDir name) (activeDir name)) w = some (r, w')) :
    (r = true ∧ copies name w'.fs =
        ⟨(copies name w.fs).backup, (copies name w.fs).staged, Tree.none⟩) ∨
      (r = false ∧ w' = w) := by
  rcases exec_rename h with ⟨rfl, fs, hfs, rfl⟩ | ⟨rfl, rfl, -⟩
  · refine .inl ⟨rfl, ?_⟩
    rw [copies, FileTree.below_rename_src hfs, FileTree.below_rename_dst hfs,
      FileTree.below_rename_apart hfs (apart_staged_backup name).symm
        (apart_active_staged name name)]
    rfl
  · exact .inr ⟨rfl, rfl⟩

/-- The staged copy with the flag it inherits. -/
def withDisable (t : Tree) (ino : Nat) : Tree :=
  fun q => if q = ["disable"] then some (.file ino "") else t q

theorem copies_inherit {r : Option Nat}
    (h : exec e (.openTrunc (stagedDir name ++ ["disable"])) w = some (r, w')) :
    (∃ ino, r = some ino ∧ copies name w'.fs = ⟨(copies name w.fs).active,
        withDisable (copies name w.fs).staged ino, (copies name w.fs).backup⟩) ∨
      (r = none ∧ w' = w) := by
  rcases exec_openTrunc h with ⟨ino, fs, rfl, hfs, rfl⟩ | ⟨rfl, rfl, -⟩
  · refine .inl ⟨ino, rfl, ?_⟩
    have hkeep : ∀ q, ¬ stagedDir name <+: q → fs.get q = w.fs.get q := fun q hq => by
      refine FileTree.get_openTrunc hfs ?_
      rintro rfl
      exact hq (List.prefix_append _ _)
    have hstaged : fs.below (stagedDir name) = withDisable (w.fs.below (stagedDir name)) ino := by
      funext q
      by_cases hq : q = ["disable"]
      · subst hq
        rw [withDisable, if_pos rfl]
        exact FileTree.get_openTrunc_self hfs
      · rw [withDisable, if_neg hq]
        exact FileTree.get_openTrunc hfs (by simpa using hq)
    rw [copies, hstaged, FileTree.below_congr (apart_active_staged name name).symm hkeep,
      FileTree.below_congr (apart_staged_backup name) hkeep]
    rfl
  · exact .inr ⟨rfl, rfl⟩

/-! ### Programs that stay in the work directory -/

/-- Operations of the work directory that wait for nothing. -/
def Op.markers (op : Op) : Prop := op.inWork ∧ ∀ use, op ≠ .flock use

variable {R : Prog.Rules Resp World} {I : Copies → Prop} {adm : Admissible}

/-- A program of the work directory keeps the trees, and with them any invariant of theirs. -/
theorem Sound.inWork {α : Type} (hR : Sound R (fun w => I (copies name w.fs)) adm) {p : Program α}
    (hp : Prog.Only Op.markers p) {w : World}
    (hI : I (copies name w.fs)) :
    Prog.Spec R p w fun _ w' => copies name w'.fs = copies name w.fs := by
  induction p generalizing w with
  | ret a => rfl
  | call op k ih =>
    refine hR.call hI (fun use h => absurd h (hp.1.2 use)) fun e r w' _ hx => ?_
    have hc : copies name w'.fs = copies name w.fs := copies_inWork hx hp.1.1
    exact Prog.spec_mono (ih r (hp.2 r) (hc ▸ hI)) fun _ _ h => h.trans hc

theorem prefix_activationMarker (name suffix : String) :
    tmpPath <+: activationMarker name suffix := by
  rw [activationMarker, activationMarkers, List.append_assoc]
  exact List.prefix_append _ _

theorem markers_fsWrite {p : FilePath} (hp : tmpPath <+: p) (data : String) :
    Prog.Only Op.markers (fsWrite p data) := by
  refine Prog.only_bind (Prog.only_perform ⟨hp, by simp⟩) fun r => ?_
  cases r with
  | none => trivial
  | some ino =>
    simp only
    split_ifs
    · trivial
    · exact Prog.only_perform ⟨hp, by simp⟩

theorem markers_clearActivationMarkers (name : String) :
    Prog.Only Op.markers (clearActivationMarkers name) :=
  Prog.only_forEach fun suffix _ =>
    Prog.only_bind (Prog.only_perform ⟨prefix_activationMarker name suffix, by simp⟩)
      fun _ => trivial

theorem markers_writeActivationMarker (name suffix : String) :
    Prog.Only Op.markers (writeActivationMarker name suffix) := by
  refine Prog.only_bind (Prog.only_perform ⟨List.prefix_append _ _, by simp⟩) fun _ => ?_
  exact Prog.only_bind (markers_fsWrite (prefix_activationMarker name suffix) "1") fun _ => trivial

/-! ### Readiness -/

/-- `module.prop` and at least one library. -/
def Tree.complete (t : Tree) : Prop :=
  (t ["module.prop"]).isSome = true ∧
    ∃ arch ∈ ["arm64-v8a", "armeabi-v7a", "x86_64", "x86"],
      (t ["zygisk", arch ++ ".so"]).isSome = true

theorem complete_withDisable {t : Tree} {ino : Nat} :
    (withDisable t ino).complete ↔ t.complete := by
  simp [Tree.complete, withDisable]

/-- The staged copy is complete when `staged_update_ready` says so. -/
theorem Sound.stagedUpdateReady {I : World → Prop} (hR : Sound R I adm) {w : World} (hI : I w) :
    Prog.Spec R (stagedUpdateReady name) w fun r w' =>
      w' = w ∧ (r = true → (copies name w.fs).staged.complete) := by
  have hlib : ∀ arch ∈ ["arm64-v8a", "armeabi-v7a", "x86_64", "x86"],
      w.fs.present (stagedDir name ++ ["module.prop"]) = true →
      w.fs.present (librarySo (stagedDir name) arch) = true →
      (copies name w.fs).staged.complete := fun arch harch hp hso => ⟨hp, arch, harch, hso⟩
  rw [Daemon.stagedUpdateReady, Prog.spec_bind]
  refine hR.pathExists hI fun r hr _ => ?_
  cases r with
  | false => exact ⟨rfl, fun h => absurd h (by simp)⟩
  | true =>
    have hp := hr rfl
    simp only [if_true]
    rw [Prog.spec_bind]
    refine hR.pathExists hI fun r hr _ => ?_
    cases r with
    | true => exact ⟨rfl, fun _ => hlib _ (by simp) hp (hr rfl)⟩
    | false =>
      simp only [Bool.false_eq_true, if_false]
      rw [Prog.spec_bind]
      refine hR.pathExists hI fun r hr _ => ?_
      cases r with
      | true => exact ⟨rfl, fun _ => hlib _ (by simp) hp (hr rfl)⟩
      | false =>
        simp only [Bool.false_eq_true, if_false]
        rw [Prog.spec_bind]
        refine hR.pathExists hI fun r hr _ => ?_
        cases r with
        | true => exact ⟨rfl, fun _ => hlib _ (by simp) hp (hr rfl)⟩
        | false =>
          simp only [Bool.false_eq_true, if_false]
          exact hR.pathExists hI fun r hr _ => ⟨rfl, fun h => hlib _ (by simp) hp (hr h)⟩

theorem complete_iff {fs : FileTree} :
    (copies name fs).staged.complete ↔ stagedReady fs name = true := by
  have hlib : ∀ arch, ((copies name fs).staged ["zygisk", arch ++ ".so"]).isSome =
      carries fs (stagedDir name) arch := fun _ => rfl
  simp only [Tree.complete, List.mem_cons, List.not_mem_nil, or_false, exists_eq_or_imp, exists_eq_left,
    stagedReady, Bool.and_eq_true, Bool.or_eq_true, or_assoc, hlib]
  rfl

/-! ### The lock -/

/-- The disk once the lock file is open, if it can be opened. -/
def lockedFs (fs : FileTree) : Option FileTree :=
  if (fs.mkdirAll tmpPath).2 then (fs.mkdirAll tmpPath).1.openKeep hotplugLock else none

/-- Taking the lock changes the work directory only. -/
theorem Sound.acquireHotplugLock (hR : Sound R (fun w => I (copies name w.fs)) adm) {use : LockUse}
    {w : World} (hI : I (copies name w.fs)) (hlock : w.lock = none) :
    Prog.Spec R (acquireHotplugLock use) w fun r w' =>
      copies name w'.fs = copies name w.fs ∧
        (r = .ok () → lockedFs w.fs = some w'.fs ∧ w'.lock = some use) := by
  rw [Daemon.acquireHotplugLock, Prog.spec_bind]
  refine hR.perform hI (by simp) fun e r w₁ _ hx => ?_
  have h₁ : copies name w₁.fs = copies name w.fs := copies_inWork hx (List.prefix_refl _)
  have hd : r = true → (w.fs.mkdirAll tmpPath).2 = true ∧ w₁.fs = (w.fs.mkdirAll tmpPath).1 := by
    rcases exec_createDirAll hx with ⟨rfl, rfl⟩ | ⟨-, rfl, -⟩
    · exact fun h => ⟨h, rfl⟩
    · exact fun h => absurd h (by simp)
  have hl₁ : w₁.lock = none := by
    rcases exec_createDirAll hx with ⟨rfl, -⟩ | ⟨rfl, -, -⟩ <;> exact hlock
  cases r with
  | false => exact ⟨h₁, fun h => absurd h (by simp)⟩
  | true =>
    obtain ⟨hdir, hfs⟩ := hd rfl
    simp only [if_true]
    rw [Prog.spec_bind]
    refine hR.perform (h₁ ▸ hI) (by simp) fun e r w₂ _ hx => ?_
    have h₂ : copies name w₂.fs = copies name w.fs :=
      (copies_inWork hx (List.prefix_append _ _)).trans h₁
    have ho : r = true → w₁.fs.openKeep hotplugLock = some w₂.fs := by
      rcases exec_openKeep hx with ⟨-, fs, hfs, rfl⟩ | ⟨rfl, -, -⟩
      · exact fun _ => hfs
      · exact fun h => absurd h (by simp)
    have hl₂ : w₂.lock = none := by
      rcases exec_openKeep hx with ⟨-, fs, -, rfl⟩ | ⟨-, rfl, -⟩ <;> exact hl₁
    cases r with
    | false => exact ⟨h₂, fun h => absurd h (by simp)⟩
    | true =>
      have hopen : lockedFs w.fs = some w₂.fs := by rw [lockedFs, if_pos hdir, ← hfs, ho rfl]
      simp only [if_true]
      rw [Prog.spec_bind]
      refine hR.perform (h₂ ▸ hI) (fun _ _ => hl₂) fun e r w₃ _ hx => ?_
      have h₃ : copies name w₃.fs = copies name w.fs := (copies_inWork hx trivial).trans h₂
      rcases exec_flock hx with ⟨rfl, -, rfl⟩ | ⟨rfl, -, -⟩
      · exact ⟨h₃, fun _ => ⟨hopen, rfl⟩⟩
      · exact ⟨h₃, fun h => absurd h (by simp)⟩

/-- The lock rule for a property of the trees. -/
theorem Sound.withHotplugLock {α : Type} (hR : Sound R (fun w => I (copies name w.fs)) adm)
    {use : LockUse} {onError : String → α} {body : Program α} {w : World} {Q : α → Copies → Prop}
    (hI : I (copies name w.fs)) (hlock : w.lock = none)
    (herror : ∀ msg, Q (onError msg) (copies name w.fs)) (hQ : ∀ a c, Q a c → I c)
    (hbody : ∀ w₁, copies name w₁.fs = copies name w.fs → lockedFs w.fs = some w₁.fs →
      Prog.Spec R body w₁ fun a w₂ => Q a (copies name w₂.fs)) :
    Prog.Spec R (withHotplugLock use onError body) w fun a w' => Q a (copies name w'.fs) := by
  refine Prog.spec_seq (hR.acquireHotplugLock hI hlock) fun r w₁ h₁ => ?_
  obtain ⟨h₁, hok⟩ := h₁
  cases r with
  | error msg =>
    simp only [Prog.pure_eq, Prog.spec_ret]
    exact h₁ ▸ herror msg
  | ok u =>
    refine Prog.spec_seq (hbody w₁ h₁ (hok rfl).1) fun a w₂ h₂ => ?_
    rw [Prog.spec_bind]
    refine hR.perform (hQ a _ h₂) (by simp) fun e r w₃ _ hx => ?_
    simp only [Prog.pure_eq, Prog.spec_ret]
    rw [exec_unlock hx]
    exact h₂

end OnyxZygisk.Daemon
