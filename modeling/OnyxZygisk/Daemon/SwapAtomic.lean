import OnyxZygisk.Daemon.Copies

/-!
# A failing swap

One operation of a swap fails. The renames are undone, but the `disable` flag the staged copy inherits
is written before the first of them and nothing takes it back: the swap fails without a trace unless it
has written the flag and then one of the renames fails, or the first rename meets a backup that the
failing `stat` hid (`swapAtomic_iff`).
-/

namespace OnyxZygisk.Daemon

/-- Every operation but `bad` works; `bad` works or fails each time it is issued. -/
def onlyFails (bad : Op) : Admissible := fun e op _ => op ≠ bad → e.works op = true

def Unchanged (c c' : Copies) : Prop := c'.active = c.active ∧ c'.staged = c.staged

/-- An error leaves the active and the staged directory as they were. -/
def SwapAtomic (fs : FileTree) (name : String) (moduleDir : FilePath) (bad : Op) : Prop :=
  ∀ msg w', Prog.Steps (StepIn (onlyFails bad)) (swapStagedModule name moduleDir) (.idle fs)
    (.ret (.error msg)) w' → Unchanged (copies name fs) (copies name w'.fs)

/-- The swap gets as far as writing the inherited flag. -/
structure InheritsFlag (fs : FileTree) (name : String) (moduleDir : FilePath) : Prop where
  valid : validModuleId name = true
  dir : moduleDir = stagedDir name
  ready : stagedReady fs name = true
  lock : (lockedFs fs).isSome = true
  staged : fs.get (stagedDir name) = some .dir
  active : fs.get (activeDir name) = some .dir
  disabled : fs.present (activeDir name ++ ["disable"]) = true
  enabled : fs.present (stagedDir name ++ ["disable"]) = false

/-- A directory cannot be renamed to here. -/
def Tree.blocks (t : Tree) : Prop := t [] ≠ Option.none ∧ ¬ (t [] = some .dir ∧ ∀ n, t [n] = Option.none)

/-- The flag is written and the operation that fails is a rename, or hides a backup from the removal. -/
def LeavesFlag (fs : FileTree) (name : String) (moduleDir : FilePath) (bad : Op) : Prop :=
  InheritsFlag fs name moduleDir ∧
    ((fs.present (backupDir name) = true → fs.isDir (backupDir name) = true) ∧
        (bad = .rename (activeDir name) (backupDir name) ∨
          bad = .rename (stagedDir name) (activeDir name)) ∨
      bad = .look (backupDir name) ∧ (copies name fs).backup.blocks)

variable {fs : FileTree} {name : String} {moduleDir : FilePath} {bad : Op} {R : Prog.Rules Resp World}

theorem fails_onlyFails {op : Op} {w : World} (h : Sound.Fails (onlyFails bad) op w) : op = bad := by
  obtain ⟨e, he, hw⟩ := h
  by_contra hne
  rw [he hne] at hw
  exact absurd hw (by simp)

theorem onlyFails_works {e : Env} {op : Op} {w : World} (h : onlyFails bad e op w)
    (hw : e.works op = false) : op = bad := fails_onlyFails ⟨e, h, hw⟩

/-! ### Renames that find nothing in the way -/

theorem children_isEmpty {t : FileTree} {p : FilePath} :
    (t.children p).isEmpty = true ↔ ∀ n, t.get (p ++ [n]) = none := by
  rw [List.isEmpty_iff, List.eq_nil_iff_forall_not_mem]
  exact forall_congr' fun n => by simp [FileTree.mem_children, FileTree.present]

/-- The active directory can be renamed to the backup when nothing blocks it. -/
theorem canRename_backup {t : FileTree} (hactive : t.get (activeDir name) = some .dir)
    (hstaged : t.present (stagedDir name) = true) :
    t.canRename (activeDir name) (backupDir name) = true ↔ ¬ (copies name t).backup.blocks := by
  have hdir : t.isDir pathModulesUpdateDir = true := FileTree.isDir_of_present_child hstaged
  have hap := apart_active_backup name name
  have hlast : (backupDir name).dropLast = pathModulesUpdateDir := by simp [backupDir]
  have hback : (copies name t).backup [] = t.get (backupDir name) := by
    simp [copies, FileTree.below]
  have hempty : (t.children (backupDir name)).isEmpty = true ↔
      ∀ n, (copies name t).backup [n] = none := children_isEmpty
  simp only [FileTree.canRename, FileTree.present, hactive, hlast, hdir, hap.1, hap.2,
    Tree.blocks, hback, ← hempty]
  cases t.get (backupDir name) with
  | none => simp
  | some n => cases n <;> simp

/-! ### What the pieces leave -/

/-- What `removeStaleBackup` makes of a disk with copies `c`, when it succeeds. -/
def BackupCleared (fs : FileTree) (name : String) (bad : Op) (c : Copies) : Prop :=
  Unchanged (copies name fs) c ∧
    (c.backup = Tree.none ∧
        (fs.present (backupDir name) = true → fs.isDir (backupDir name) = true) ∨
      bad = .look (backupDir name) ∧ c.backup = (copies name fs).backup)

theorem spec_removeStaleBackup_cleared (hR : Sound R (fun _ => True) (onlyFails bad)) {w : World}
    (hc : copies name w.fs = copies name fs) :
    Prog.Spec R (removeStaleBackup name) w fun r w' =>
      if r then BackupCleared fs name bad (copies name w'.fs)
      else Unchanged (copies name fs) (copies name w'.fs) := by
  have hpres : w.fs.present (backupDir name) = fs.present (backupDir name) := by
    have := congrFun (congrArg Copies.backup hc) []
    simp only [copies, FileTree.below, List.append_nil] at this
    rw [FileTree.present, FileTree.present, this]
  have hdir : w.fs.isDir (backupDir name) = fs.isDir (backupDir name) := by
    have := congrFun (congrArg Copies.backup hc) []
    simp only [copies, FileTree.below, List.append_nil] at this
    rw [FileTree.isDir, FileTree.isDir, this]
  rw [removeStaleBackup, Prog.spec_bind]
  refine hR.pathExists trivial fun r _ hr => ?_
  cases r with
  | false =>
    simp only [Bool.false_eq_true, if_false, Prog.pure_eq, Prog.spec_ret, if_true]
    refine ⟨by rw [hc]; exact ⟨rfl, rfl⟩, ?_⟩
    rcases hr rfl with hno | hfail
    · refine .inl ⟨?_, fun h => absurd h (by simp [← hpres, hno])⟩
      -- nothing lies below a path that is not there
      funext q
      by_contra hq
      have hq' : w.fs.present (backupDir name ++ q) = true := by
        rw [FileTree.present, Option.isSome_iff_ne_none]
        exact hq
      by_cases hnil : q = []
      · simp [hnil, hno] at hq'
      · have := FileTree.present_of_isDir (FileTree.isDir_of_present_below hnil hq')
        simp [hno] at this
    · exact .inr ⟨(fails_onlyFails hfail).symm, by rw [hc]⟩
  | true =>
    simp only [if_true]
    refine hR.perform trivial (by simp) fun e r w' hadm hx => ?_
    obtain ⟨ha, hs, hb⟩ := copies_removeBackup hx
    rw [hc] at ha hs
    cases r with
    | false => exact ⟨ha, hs⟩
    | true =>
      refine ⟨⟨ha, hs⟩, .inl ⟨hb rfl, fun _ => ?_⟩⟩
      rcases exec_removeDirAll hx with ⟨-, t, ht, -⟩ | ⟨h, -⟩
      · rw [← hdir]
        by_contra hd
        simp [FileTree.removeDirAll, hd] at ht
      · exact absurd h (by simp)

/-- The flag was written: the active copy is disabled, the staged one was not, or `bad` hid that. -/
def FlagWritten (fs : FileTree) (name : String) (bad : Op) (c : Copies) : Prop :=
  c.active = (copies name fs).active ∧
    (∃ ino, c.staged = withDisable (copies name fs).staged ino) ∧
    fs.present (activeDir name ++ ["disable"]) = true ∧
    (fs.present (stagedDir name ++ ["disable"]) = false ∨
      bad = .look (stagedDir name ++ ["disable"]))

theorem present_of_below {t t' : FileTree} {a : FilePath} (h : t'.below a = t.below a) (q : FilePath) :
    t'.present (a ++ q) = t.present (a ++ q) := congrArg Option.isSome (congrFun h q)

theorem spec_inheritDisable_written (hR : Sound R (fun _ => True) (onlyFails bad)) {w : World}
    (hc : Unchanged (copies name fs) (copies name w.fs)) :
    Prog.Spec R (inheritDisable name) w fun r w' =>
      (copies name w'.fs).backup = (copies name w.fs).backup ∧
        (Unchanged (copies name fs) (copies name w'.fs) ∨
          r = true ∧ FlagWritten fs name bad (copies name w'.fs)) := by
  rw [inheritDisable, Prog.spec_bind]
  refine hR.pathExists trivial fun r hr _ => ?_
  cases r with
  | false => exact ⟨rfl, .inl hc⟩
  | true =>
    have hdis := hr rfl
    rw [present_of_below (a := activeDir name) hc.1] at hdis
    simp only [if_true]
    rw [Prog.spec_bind]
    refine hR.pathExists trivial fun r _ hr => ?_
    cases r with
    | true => exact ⟨rfl, .inl hc⟩
    | false =>
      have hen := hr rfl
      rw [present_of_below (a := stagedDir name) hc.2] at hen
      simp only [Bool.false_eq_true, if_false, fsWrite]
      rw [Prog.spec_bind]
      refine hR.perform trivial (by simp) fun e r w' _ hx => ?_
      rcases copies_inherit hx with ⟨ino, rfl, hc'⟩ | ⟨rfl, rfl⟩
      · simp only [if_true, Prog.pure_eq, Prog.spec_ret]
        rw [hc']
        refine ⟨rfl, .inr ⟨trivial, hc.1, ⟨ino, ?_⟩, hdis, hen.imp id fun h => (fails_onlyFails h).symm⟩⟩
        rw [← hc.2]
      · exact ⟨rfl, .inl hc⟩

/-- What the swap has checked before it moves anything. -/
structure Checked (fs : FileTree) (name : String) (moduleDir : FilePath) : Prop where
  valid : validModuleId name = true
  dir : moduleDir = stagedDir name
  ready : stagedReady fs name = true
  lock : (lockedFs fs).isSome = true
  staged : fs.get (stagedDir name) = some .dir

/-- Once the flag is written, no operation that can still fail leaves it behind. -/
theorem FlagWritten.no_rename_fails {c c₁ : Copies} (hw : FlagWritten fs name bad c)
    (hno : ¬ LeavesFlag fs name moduleDir bad) (hch : Checked fs name moduleDir)
    (ha : fs.get (activeDir name) = some .dir) (hcl : BackupCleared fs name bad c₁) :
    bad ≠ .rename (activeDir name) (backupDir name) ∧
      bad ≠ .rename (stagedDir name) (activeDir name) ∧ ¬ c₁.backup.blocks := by
  obtain ⟨-, -, hdis, hen⟩ := hw
  have hnone : ¬ Tree.none.blocks := fun h => h.1 rfl
  rcases hen with hen | rfl
  · have hin : InheritsFlag fs name moduleDir :=
      ⟨hch.valid, hch.dir, hch.ready, hch.lock, hch.staged, ha, hdis, hen⟩
    rcases hcl with ⟨-, ⟨hb, hdir⟩ | ⟨rfl, hb⟩⟩
    · refine ⟨fun h => hno ⟨hin, .inl ⟨hdir, .inl h⟩⟩, fun h => hno ⟨hin, .inl ⟨hdir, .inr h⟩⟩, ?_⟩
      rw [hb]
      exact hnone
    · exact ⟨by simp, by simp, fun h => hno ⟨hin, .inr ⟨rfl, hb ▸ h⟩⟩⟩
  · refine ⟨by simp, by simp, ?_⟩
    rcases hcl with ⟨-, ⟨hb, -⟩ | ⟨hbad, -⟩⟩
    · rw [hb]
      exact hnone
    · simp [stagedDir, backupDir] at hbad

/-- The active copy is in the backup; if the staged one has the flag, the second rename works. -/
structure Moved (fs : FileTree) (name : String) (bad : Op) (w : World) : Prop where
  active : (copies name w.fs).active = Tree.none
  backup : (copies name w.fs).backup = (copies name fs).active
  staged : (copies name w.fs).staged = (copies name fs).staged ∨
    bad ≠ .rename (stagedDir name) (activeDir name)
  isDir : (copies name w.fs).staged [] = some .dir ∧ (copies name w.fs).backup [] = some .dir
  parent : w.fs.isDir pathModulesDir = true

theorem get_active (t : FileTree) : t.get (activeDir name) = (copies name t).active [] := by
  simp [copies, FileTree.below]

theorem get_staged (t : FileTree) : t.get (stagedDir name) = (copies name t).staged [] := by
  simp [copies, FileTree.below]

theorem get_backup (t : FileTree) : t.get (backupDir name) = (copies name t).backup [] := by
  simp [copies, FileTree.below]

theorem spec_preserveActive_moved (hR : Sound R (fun _ => True) (onlyFails bad)) {w : World}
    (hno : ¬ LeavesFlag fs name moduleDir bad) (hch : Checked fs name moduleDir)
    (hcl : BackupCleared fs name bad (copies name w.fs)) :
    Prog.Spec R (preserveActive name) w fun r w' => match r with
      | .ok _ => Moved fs name bad w'
      | .error _ => Unchanged (copies name fs) (copies name w'.fs) := by
  have hun := hcl.1
  rw [preserveActive, Prog.spec_bind]
  refine hR.look trivial ?_ fun _ => hun
  split
  · exact hun
  · rename_i hdir
    have ha : fs.get (activeDir name) = some .dir := by
      rw [get_active, ← hun.1, ← get_active, hdir]
    have hs : (copies name fs).staged [] = some .dir := by rw [← get_staged, hch.staged]
    refine Prog.spec_seq (spec_inheritDisable_written hR hun) fun r w₁ h₁ => ?_
    obtain ⟨hb₁, h₁⟩ := h₁
    cases r with
    | false => exact h₁.elim id fun h => absurd h.1 (by simp)
    | true =>
      simp only [if_true]
      rw [Prog.spec_bind]
      refine hR.perform trivial (by simp) fun e r w₂ hadm hx => ?_
      have ha₁ : (copies name w₁.fs).active = (copies name fs).active :=
        h₁.elim (fun h => h.1) fun h => h.2.1
      have hs₁ : (copies name w₁.fs).staged [] = some .dir := by
        rcases h₁ with h | ⟨-, -, ⟨ino, h⟩, -⟩
        · rw [h.2, hs]
        · rw [h, withDisable, if_neg (by simp), hs]
      rcases copies_preserve hx with ⟨rfl, hc₂⟩ | ⟨rfl, rfl⟩
      · -- renamed: what was active is the backup now
        simp only [if_true, Prog.pure_eq, Prog.spec_ret]
        refine ⟨by rw [hc₂], by rw [hc₂, ← ha₁], ?_, ?_, ?_⟩
        · rw [hc₂]
          exact h₁.imp (fun h => h.2) fun h => (h.2.no_rename_fails hno hch ha hcl).2.1
        · rw [hc₂]
          refine ⟨hs₁, ?_⟩
          show (copies name w₁.fs).active [] = some .dir
          rw [ha₁, ← get_active, ha]
        · have hp : w₁.fs.isDir pathModulesDir = true := by
            refine FileTree.isDir_of_present_child (n := name) ?_
            show w₁.fs.present (activeDir name) = true
            rw [FileTree.present, get_active, ha₁, ← get_active, ha]
            rfl
          rcases exec_rename hx with ⟨-, t, ht, rfl⟩ | ⟨h, -⟩
          · rw [FileTree.isDir, FileTree.get_rename_apart ht (by simp [activeDir])
              (by simp [backupDir])]
            exact hp
          · exact absurd h (by simp)
      · -- the rename failed: then no flag was written
        refine h₁.elim id fun h => ?_
        obtain ⟨hne, -, hblock⟩ := h.2.no_rename_fails hno hch ha hcl
        rw [← hb₁] at hblock
        have hst : w₂.fs.present (stagedDir name) = true := by
          rw [FileTree.present, get_staged, hs₁]
          rfl
        have hcan := (canRename_backup (by rw [get_active, ha₁, ← get_active, ha]) hst).2 hblock
        rcases exec_rename hx with ⟨h, -⟩ | ⟨-, -, hw | hnat⟩
        · exact absurd h (by simp)
        · exact absurd (onlyFails_works hadm hw).symm hne
        · rw [← FileTree.rename_isSome, hnat] at hcan
          exact absurd hcan (by simp)
  · exact hun

theorem spec_moveIn_atomic (hR : Sound R (fun _ => True) (onlyFails bad)) {w : World}
    {hadActive : Bool} (h : hadActive = true ∧ Moved fs name bad w ∨
      hadActive = false ∧ Unchanged (copies name fs) (copies name w.fs)) :
    Prog.Spec R (moveIn name hadActive) w fun r w' =>
      ∀ msg, r = .error msg → Unchanged (copies name fs) (copies name w'.fs) := by
  rw [moveIn, Prog.spec_bind]
  refine hR.perform trivial (by simp) fun e r w₁ hadm hx => ?_
  cases r with
  | true =>
    -- no error from here on
    simp only [if_true]
    refine Prog.spec_seq (hR.ends ?_ w₁) fun _ w₂ _ => ?_
    · cases hadActive
      · trivial
      · exact Prog.only_bind (Prog.only_perform (by simp)) fun _ => trivial
    · refine Prog.spec_seq (hR.ends (Prog.only_mono (markers_clearActivationMarkers name)
        fun _ h => h.2) w₂) fun _ w₃ _ => ?_
      refine Prog.spec_seq (hR.ends (Prog.only_mono (markers_writeActivationMarker name "applying")
        fun _ h => h.2) w₃) fun _ w₄ _ => ?_
      exact fun msg hmsg => absurd hmsg (by simp)
  | false =>
    rcases exec_rename hx with ⟨h, -⟩ | ⟨-, rfl, hcause⟩
    · exact absurd h (by simp)
    simp only [Bool.false_eq_true, if_false]
    rcases h with ⟨rfl, hm⟩ | ⟨rfl, hun⟩
    · have hget : w₁.fs.get (activeDir name) = none := by
        rw [get_active, hm.active]
        rfl
      have hpres : ∀ a, w₁.fs.get a = some .dir → w₁.fs.present a = true := fun a ha => by
        simp [FileTree.present, ha]
      have hlast : (activeDir name).dropLast = pathModulesDir := by simp [activeDir]
      have hst := hpres (stagedDir name) (by rw [get_staged, hm.isDir.1])
      have hba := hpres (backupDir name) (by rw [get_backup, hm.isDir.2])
      -- nothing is in the way of either rename, so `bad` failed and the rollback works
      have hbad : bad = .rename (stagedDir name) (activeDir name) := by
        rcases hcause with hw | hnat
        · exact (onlyFails_works hadm hw).symm
        · obtain ⟨t, ht⟩ := FileTree.rename_of hst hget (hlast ▸ hm.parent)
            (apart_active_staged name name).symm
          rw [ht] at hnat
          exact absurd hnat (by simp)
      have hstaged : (copies name w₁.fs).staged = (copies name fs).staged :=
        hm.staged.elim id fun h => absurd hbad h
      simp only [onlyIf, if_true]
      rw [Prog.spec_bind, Prog.spec_bind]
      refine hR.perform trivial (by simp) fun e r w₂ hadm hx => ?_
      rcases copies_restore hx with ⟨rfl, hc₂⟩ | ⟨rfl, rfl⟩
      · intro msg _
        rw [hc₂]
        exact ⟨hm.backup, hstaged⟩
      · rcases exec_rename hx with ⟨h, -⟩ | ⟨-, -, hw | hnat⟩
        · exact absurd h (by simp)
        · have := onlyFails_works hadm hw
          rw [hbad] at this
          simp [stagedDir, backupDir] at this
        · obtain ⟨t, ht⟩ := FileTree.rename_of hba hget (hlast ▸ hm.parent)
            (apart_active_backup name name).symm
          rw [ht] at hnat
          exact absurd hnat (by simp)
    · exact fun _ _ => hun

theorem spec_swapDirs_atomic (hR : Sound R (fun _ => True) (onlyFails bad)) {w : World}
    (hno : ¬ LeavesFlag fs name moduleDir bad) (hch : Checked fs name moduleDir)
    (hc : copies name w.fs = copies name fs) :
    Prog.Spec R (swapDirs name) w fun r w' =>
      ∀ msg, r = .error msg → Unchanged (copies name fs) (copies name w'.fs) := by
  refine Prog.spec_seq (spec_removeStaleBackup_cleared hR hc) fun r w₁ h₁ => ?_
  cases r with
  | false => exact fun _ _ => h₁
  | true =>
    have hcl : BackupCleared fs name bad (copies name w₁.fs) := h₁
    simp only [if_true]
    rw [Prog.spec_bind]
    refine hR.pathExists trivial fun r _ _ => ?_
    cases r with
    | false => exact spec_moveIn_atomic hR (.inr ⟨rfl, hcl.1⟩)
    | true =>
      simp only [if_true]
      refine Prog.spec_seq (spec_preserveActive_moved hR hno hch hcl) fun r w₂ h₂ => ?_
      cases r with
      | error msg => exact fun _ _ => h₂
      | ok u => exact spec_moveIn_atomic hR (.inl ⟨rfl, h₂⟩)

/-- Where no flag is left behind, an error leaves both directories as they were. -/
theorem swapAtomic_of_not_leavesFlag (hno : ¬ LeavesFlag fs name moduleDir bad) :
    SwapAtomic fs name moduleDir bad := by
  intro msg w' hsteps
  have hR := sound_always (onlyFails bad) (fun _ => True)
  suffices hspec : Prog.Spec (Prog.Rules.always (StepIn (onlyFails bad)) fun _ => True)
      (swapStagedModule name moduleDir) (.idle fs)
      fun r w' => ∀ msg, r = .error msg → Unchanged (copies name fs) (copies name w'.fs) from
    Prog.spec_result hspec hsteps msg rfl
  have hsame : ∀ c, c = copies name fs → Unchanged (copies name fs) c := fun c hc =>
    ⟨by rw [hc], by rw [hc]⟩
  rw [swapStagedModule]
  split_ifs with hv hd
  · exact fun _ _ => ⟨rfl, rfl⟩
  · exact fun _ _ => ⟨rfl, rfl⟩
  · refine Prog.spec_seq (hR.stagedUpdateReady trivial) fun r w₁ h₁ => ?_
    obtain ⟨rfl, hready⟩ := h₁
    cases r with
    | false => exact fun _ _ => ⟨rfl, rfl⟩
    | true =>
      simp only [if_true]
      refine hR.withHotplugLock (I := fun _ => True)
        (Q := fun (r : Except String FilePath) c => ∀ msg, r = .error msg → Unchanged (copies name fs) c)
        trivial rfl (fun _ _ _ => hsame _ rfl) (fun _ _ _ => trivial) fun w₂ h₂ hlock => ?_
      refine Prog.spec_seq (hR.stagedUpdateReady trivial) fun r w₃ h₃ => ?_
      obtain ⟨rfl, -⟩ := h₃
      cases r with
      | false => exact fun _ _ => hsame _ h₂
      | true =>
        simp only [if_true]
        rw [Prog.spec_bind]
        refine hR.look trivial ?_ fun _ _ _ => hsame _ h₂
        split
        · exact fun _ _ => hsame _ h₂
        · rename_i hdir
          refine spec_swapDirs_atomic hR hno ?_ h₂
          have hv' : validModuleId name = true := by simpa using hv
          refine ⟨hv', by simpa using hd, complete_iff.1 (hready rfl), by
            rw [show lockedFs fs = _ from hlock]; rfl, ?_⟩
          have hc : (copies name fs).staged = (copies name w₃.fs).staged := by rw [h₂]; rfl
          rw [get_staged, hc, ← get_staged, hdir]
        · exact fun _ _ => hsame _ h₂

/-! ### The flag stays behind -/

/-- `bad` fails every time, everything else works. -/
def Env.failing (bad : Op) : Env := { Env.fine with works := fun op => op != bad }

theorem failing_works {op : Op} (h : op ≠ bad) : (Env.failing bad).works op = true := by
  simpa [Env.failing] using h

theorem failing_fails (bad : Op) : (Env.failing bad).works bad = false := by
  simp [Env.failing]

def StagedFlag (name : String) (w : World) : Prop :=
  ((copies name w.fs).staged ["disable"]).isSome = true

/-- The operations on which a swap with an inherited flag gets stuck. -/
def Culprit (name : String) (bad : Op) : Prop :=
  bad = .rename (activeDir name) (backupDir name) ∨ bad = .rename (stagedDir name) (activeDir name) ∨
    bad = .look (backupDir name)

theorem LeavesFlag.culprit (h : LeavesFlag fs name moduleDir bad) : Culprit name bad := by
  rcases h with ⟨-, ⟨-, h | h⟩ | ⟨h, -⟩⟩
  · exact .inl h
  · exact .inr (.inl h)
  · exact .inr (.inr h)

/-- The rules of a run in which `bad` fails. -/
abbrev FailRules (R : Prog.Rules Resp World) (bad : Op) : Prop :=
  Sound R (fun _ => True) fun e _ _ => e = .failing bad

theorem not_fails {op : Op} {w : World} (h : op ≠ bad) :
    ¬ Sound.Fails (fun e _ _ => e = Env.failing bad) op w := by
  rintro ⟨e, rfl, hw⟩
  rw [failing_works h] at hw
  exact absurd hw (by simp)

theorem pathExists_exact (hR : FailRules R bad) {p : FilePath} {w : World} {Q : Bool → World → Prop}
    (hp : (.look p : Op) ≠ bad) (h : Q (w.fs.present p) w) : Prog.Spec R (pathExists p) w Q := by
  refine hR.pathExists trivial fun r hr hr' => ?_
  have heq : r = w.fs.present p := by
    cases r with
    | true => exact (hr rfl).symm
    | false => exact ((hr' rfl).resolve_right (not_fails hp)).symm
  exact heq ▸ h

theorem pathExists_hidden {p : FilePath} (hR : FailRules R (.look p)) {w : World}
    {Q : Bool → World → Prop} (h : Q false w) : Prog.Spec R (pathExists p) w Q := by
  refine hR.call trivial (by simp) fun e r w' he hx => ?_
  subst he
  obtain ⟨rfl, rfl⟩ : r = none ∧ w' = w := by
    rw [exec, failing_fails] at hx
    simpa [eq_comm] using hx
  exact h

theorem stagedUpdateReady_exact (hR : FailRules R bad) {w : World} (hbad : Culprit name bad) :
    Prog.Spec R (stagedUpdateReady name) w fun r w' => r = stagedReady w.fs name ∧ w' = w := by
  have hne : ∀ q, q ≠ [] → (.look (stagedDir name ++ q) : Op) ≠ bad := by
    intro q hq h
    rcases hbad with rfl | rfl | rfl
    · exact absurd h (by simp)
    · exact absurd h (by simp)
    · have hpre : stagedDir name <+: backupDir name := ⟨q, by simpa using h⟩
      exact (apart_staged_backup name).1 hpre
  have hlook : ∀ q, q ≠ [] → Prog.Only
      (fun op => op.asks ∧ ¬ Sound.Fails (fun e _ _ => e = Env.failing bad) op w)
      (pathExists (stagedDir name ++ q)) := fun q hq =>
    ⟨⟨trivial, not_fails (hne q hq)⟩, fun _ => trivial⟩
  rw [← askOf_stagedUpdateReady]
  refine hR.answers trivial ?_
  refine Prog.only_bind (hlook _ (by simp)) fun r => ?_
  cases r with
  | false => trivial
  | true =>
    refine Prog.only_bind (hlook _ (by simp)) fun r => ?_
    cases r with
    | true => trivial
    | false =>
      refine Prog.only_bind (hlook _ (by simp)) fun r => ?_
      cases r with
      | true => trivial
      | false =>
        refine Prog.only_bind (hlook _ (by simp)) fun r => ?_
        cases r with
        | true => trivial
        | false => exact hlook _ (by simp)

/-- The staged copy has the flag, and the second rename is the culprit if the first worked. -/
theorem moveIn_fails (hR : FailRules R (.rename (stagedDir name) (activeDir name))) {w : World}
    (h : StagedFlag name w) :
    Prog.Spec R (moveIn name true) w fun r w' =>
      (∃ msg, r = .error msg) ∧ StagedFlag name w' := by
  rw [moveIn, Prog.spec_bind]
  refine hR.perform trivial (by simp) fun e r w₁ he hx => ?_
  subst he
  have hr : r = false ∧ w₁ = w := by
    rw [exec, failing_fails] at hx
    simpa [eq_comm] using hx
  obtain ⟨rfl, rfl⟩ := hr
  simp only [Bool.false_eq_true, if_false, onlyIf, if_true]
  rw [Prog.spec_bind, Prog.spec_bind]
  refine hR.perform trivial (by simp) fun e r w₂ _ hx => ⟨⟨_, rfl⟩, ?_⟩
  rcases copies_restore hx with ⟨-, hc⟩ | ⟨-, rfl⟩
  · rw [StagedFlag, hc]
    exact h
  · exact h

/-- From where the active directory is looked at: the flag is written and the swap fails. -/
theorem preserveActive_fails (hR : FailRules R bad) {w : World} (hbad : Culprit name bad)
    (hin : InheritsFlag fs name moduleDir)
    (hun : Unchanged (copies name fs) (copies name w.fs))
    (hblock : bad = .look (backupDir name) → (copies name w.fs).backup.blocks) :
    Prog.Spec R (preserveActive name >>= fun
        | .error e => pure (.error e)
        | .ok () => moveIn name true) w fun r w' =>
      (∃ msg, r = .error msg) ∧ StagedFlag name w' := by
  have hne : ∀ q, (.look (activeDir name ++ q) : Op) ≠ bad := by
    intro q h
    rcases hbad with rfl | rfl | rfl
    · exact absurd h (by simp)
    · exact absurd h (by simp)
    · simp [activeDir, backupDir] at h
  have hne' : (.look (stagedDir name ++ ["disable"]) : Op) ≠ bad := by
    intro h
    rcases hbad with rfl | rfl | rfl
    · exact absurd h (by simp)
    · exact absurd h (by simp)
    · simp [stagedDir, backupDir] at h
  have hact : w.fs.get (activeDir name) = some .dir := by
    rw [get_active, hun.1, ← get_active, hin.active]
  have hst : w.fs.get (stagedDir name) = some .dir := by
    rw [get_staged, hun.2, ← get_staged, hin.staged]
  have hdis : w.fs.present (activeDir name ++ ["disable"]) = true :=
    (present_of_below (a := activeDir name) hun.1 _).trans hin.disabled
  have hen : w.fs.present (stagedDir name ++ ["disable"]) = false :=
    (present_of_below (a := stagedDir name) hun.2 _).trans hin.enabled
  rw [preserveActive]
  simp only [Prog.bind_assoc]
  rw [Prog.spec_bind]
  refine hR.look trivial ?_ fun hf => absurd hf (not_fails (by simpa using hne []))
  rw [hact]
  simp only [Prog.bind_assoc, inheritDisable]
  rw [Prog.spec_bind]
  refine pathExists_exact hR (hne _) ?_
  rw [hdis]
  simp only [if_true, Prog.bind_assoc]
  rw [Prog.spec_bind]
  refine pathExists_exact hR hne' ?_
  rw [hen]
  simp only [Bool.false_eq_true, if_false, fsWrite, Prog.bind_assoc]
  rw [Prog.spec_bind]
  refine hR.perform trivial (by simp) fun e r w₁ he hx => ?_
  subst he
  -- the flag is not there and its directory is, so it can be created
  obtain ⟨ino, rfl⟩ : ∃ ino, r = some ino := by
    rcases exec_openTrunc hx with ⟨ino, -, rfl, -⟩ | ⟨-, -, hw | hnone⟩
    · exact ⟨ino, rfl⟩
    · rw [failing_works (by rcases hbad with rfl | rfl | rfl <;> simp)] at hw
      exact absurd hw (by simp)
    · rcases FileTree.openTrunc_eq_none hnone with h | h
      · rw [hen] at h
        exact absurd h (by simp)
      · simp [FileTree.isDir, hst, Node.isDir] at h
  rcases copies_inherit hx with ⟨i, hi, hc₁⟩ | ⟨h, -⟩
  · have hflag : StagedFlag name w₁ := by
      rw [StagedFlag, hc₁]
      simp [withDisable]
    simp only [if_true]
    rw [Prog.spec_bind]
    refine hR.perform trivial (by simp) fun e r w₂ he hx => ?_
    subst he
    rcases copies_preserve hx with ⟨rfl, hc₂⟩ | ⟨rfl, rfl⟩
    · -- the first rename worked, so the second is `bad`
      have hflag₂ : StagedFlag name w₂ := by
        rw [StagedFlag, hc₂]
        exact hflag
      have hbad₂ : bad = .rename (stagedDir name) (activeDir name) := by
        rcases exec_rename hx with ⟨-, t, ht, -⟩ | ⟨h, -⟩
        · rcases hbad with rfl | h | h
          · rw [exec, failing_fails] at hx
            exact absurd hx (by simp)
          · exact h
          · exfalso
            have hb : (copies name w₁.fs).backup.blocks := by
              rw [hc₁]
              exact hblock h
            have hact₁ : w₁.fs.get (activeDir name) = some .dir := by
              rw [get_active, hc₁, ← get_active, hact]
            have hst₁ : w₁.fs.present (stagedDir name) = true := by
              have : (copies name w₁.fs).staged [] = (copies name w.fs).staged [] := by
                simp [hc₁, withDisable]
              rw [FileTree.present, get_staged, this, ← get_staged, hst]
              rfl
            refine (canRename_backup hact₁ hst₁).1 ?_ hb
            rw [← FileTree.rename_isSome, ht]
            rfl
        · exact absurd h (by simp)
      subst hbad₂
      simp only [Prog.pure_eq]
      exact moveIn_fails hR hflag₂
    · simp only [Prog.pure_eq]
      exact ⟨⟨_, rfl⟩, hflag⟩
  · exact absurd h (by simp)

theorem acquireHotplugLock_exact (hR : FailRules R bad) (hbad : Culprit name bad) {use : LockUse}
    {w : World} (hlock : w.lock = none) (hopen : (lockedFs w.fs).isSome = true) :
    Prog.Spec R (acquireHotplugLock use) w fun r w' =>
      r = .ok () ∧ copies name w'.fs = copies name w.fs := by
  have hworks : ∀ op : Op, op.inWork → (∀ p, op ≠ .look p) →
      (Env.failing bad).works op = true := fun op hop hne => by
    refine failing_works ?_
    rintro rfl
    rcases hbad with rfl | rfl | rfl
    · exact hop.elim
    · exact hop.elim
    · exact hne _ rfl
  rw [lockedFs] at hopen
  split_ifs at hopen with hdir
  · rw [acquireHotplugLock, Prog.spec_bind]
    refine hR.perform trivial (by simp) fun e r w₁ he hx => ?_
    subst he
    have hop : (.createDirAll tmpPath : Op).inWork := List.prefix_refl _
    rcases exec_createDirAll hx with ⟨rfl, rfl⟩ | ⟨-, -, hw⟩
    · rw [if_pos hdir, Prog.spec_bind]
      refine hR.perform trivial (by simp) fun e r w₂ he hx₂ => ?_
      subst he
      have hop₂ : (.openKeep hotplugLock : Op).inWork := List.prefix_append _ _
      rcases exec_openKeep hx₂ with ⟨rfl, fs₂, -, rfl⟩ | ⟨-, -, hw | hnone⟩
      · simp only [if_true]
        rw [Prog.spec_bind]
        refine hR.perform trivial (fun _ _ => hlock) fun e r w₃ he hx₃ => ?_
        subst he
        rcases exec_flock hx₃ with ⟨rfl, -, rfl⟩ | ⟨-, -, hw⟩
        · exact ⟨rfl, (copies_inWork hx₂ hop₂).trans (copies_inWork hx hop)⟩
        · rw [hworks (.flock use) trivial (by simp)] at hw
          exact absurd hw (by simp)
      · rw [hworks _ hop₂ (by simp)] at hw
        exact absurd hw (by simp)
      · rw [hnone] at hopen
        exact absurd hopen (by simp)
    · rw [hworks _ hop (by simp)] at hw
      exact absurd hw (by simp)
  · exact absurd hopen (by simp)

/-- The backup is out of the way, or is there and was not seen. -/
theorem removeStaleBackup_exact (hR : FailRules R bad) {w : World}
    (hleave : LeavesFlag fs name moduleDir bad) (hc : copies name w.fs = copies name fs) :
    Prog.Spec R (removeStaleBackup name) w fun r w' =>
      r = true ∧ Unchanged (copies name fs) (copies name w'.fs) ∧
        (bad = .look (backupDir name) → (copies name w'.fs).backup.blocks) := by
  have hback : w.fs.get (backupDir name) = fs.get (backupDir name) := by
    rw [get_backup, hc, ← get_backup]
  have hun : Unchanged (copies name fs) (copies name w.fs) := hc ▸ ⟨rfl, rfl⟩
  rw [removeStaleBackup, Prog.spec_bind]
  rcases hleave.2 with ⟨hdir, hren⟩ | ⟨rfl, hblock⟩
  · have hne : (.look (backupDir name) : Op) ≠ bad := by rcases hren with rfl | rfl <;> simp
    refine pathExists_exact hR hne ?_
    split
    · rename_i hp
      refine hR.perform trivial (by simp) fun e r w' he hx => ?_
      subst he
      obtain ⟨ha, hs, -⟩ := copies_removeBackup hx
      refine ⟨?_, ⟨ha.trans hun.1, hs.trans hun.2⟩, fun h => absurd h.symm hne⟩
      rcases exec_removeDirAll hx with ⟨rfl, -⟩ | ⟨-, -, hw | hw⟩
      · rfl
      · rw [failing_works (by rcases hren with rfl | rfl <;> simp)] at hw
        exact absurd hw (by simp)
      · rw [FileTree.present, hback] at hp
        rw [FileTree.isDir, hback, ← FileTree.isDir, hdir hp] at hw
        exact absurd hw (by simp)
    · exact ⟨rfl, hun, fun h => absurd h.symm hne⟩
  · -- the failing `stat` reads as no backup
    refine pathExists_hidden hR ?_
    exact ⟨rfl, hun, fun _ => by rw [hc]; exact hblock⟩

/-- A run on the disk `fs` with the failing operation `bad`: an error, and the flag is there. -/
theorem swapStagedModule_fails (hR : FailRules R bad) (hleave : LeavesFlag fs name moduleDir bad) :
    Prog.Spec R (swapStagedModule name moduleDir) (.idle fs) fun r w' =>
      (∃ msg, r = .error msg) ∧ StagedFlag name w' := by
  have hbad := hleave.culprit
  obtain ⟨hin, -⟩ := id hleave
  rw [swapStagedModule, if_neg (by simp [hin.valid]), if_neg (by simp [hin.dir]), Prog.spec_bind]
  refine Prog.spec_mono (stagedUpdateReady_exact hR hbad) fun r w₁ h₁ => ?_
  obtain ⟨rfl, rfl⟩ := h₁
  rw [if_pos (show stagedReady (World.idle fs).fs name = true from hin.ready), withHotplugLock]
  refine Prog.spec_seq (acquireHotplugLock_exact hR hbad rfl hin.lock) fun r w₂ h₂ => ?_
  obtain ⟨rfl, hc₂⟩ := h₂
  have hready : stagedReady w₂.fs name = true := by
    rw [← complete_iff, hc₂]
    exact complete_iff.2 hin.ready
  have hst : w₂.fs.get (stagedDir name) = some .dir := by
    rw [get_staged, hc₂, ← get_staged]
    exact hin.staged
  refine Prog.spec_seq (M := fun r w' => (∃ msg, r = .error msg) ∧ StagedFlag name w') ?_ ?_
  · rw [swapLocked]
    refine Prog.spec_seq (stagedUpdateReady_exact hR hbad) fun r w₃ h₃ => ?_
    obtain ⟨rfl, rfl⟩ := h₃
    rw [if_pos hready, Prog.spec_bind]
    refine hR.look trivial ?_ fun hf => absurd hf (not_fails ?_)
    · rw [hst]
      refine Prog.spec_seq (removeStaleBackup_exact hR hleave hc₂) fun r w₄ h₄ => ?_
      obtain ⟨rfl, hun, hblock⟩ := h₄
      rw [if_pos rfl, Prog.spec_bind]
      refine pathExists_exact hR ?_ ?_
      · rcases hbad with rfl | rfl | rfl <;> simp [activeDir, backupDir]
      · have hp : w₄.fs.present (activeDir name) = true := by
          rw [FileTree.present, get_active, hun.1, ← get_active, hin.active]
          rfl
        rw [if_pos hp]
        exact preserveActive_fails hR hbad hin hun hblock
    · rcases hbad with rfl | rfl | rfl <;>
        simp [stagedDir, backupDir, (backup_name_ne name).symm]
  · rintro r w₃ ⟨hr, hflag⟩
    rw [Prog.spec_bind]
    refine hR.perform trivial (by simp) fun e u w₄ _ hx => ⟨hr, ?_⟩
    rw [exec_unlock hx]
    exact hflag

/-- A failing operation is without a trace exactly where it leaves no flag. -/
theorem swapAtomic_iff : SwapAtomic fs name moduleDir bad ↔ ¬ LeavesFlag fs name moduleDir bad := by
  refine ⟨fun h hleave => ?_, swapAtomic_of_not_leavesFlag⟩
  obtain ⟨r, w', hrun, ⟨msg, rfl⟩, hflag⟩ := Prog.run_of_spec
    (swapStagedModule_fails (sound_exact (Env.failing bad)) hleave)
  have hun := h msg w' (Prog.run_sound (fun _ _ hne => failing_works hne) hrun)
  have henabled : ((copies name fs).staged ["disable"]).isSome = false := hleave.1.enabled
  rw [StagedFlag, hun.2, henabled] at hflag
  exact absurd hflag (by simp)

/-- A disabled module with an enabled update. -/
def disabledUpdate : FileTree :=
  .ofFiles [(activeDir "m" ++ ["module.prop"], "id=m"), (activeDir "m" ++ ["disable"], ""),
    (stagedDir "m" ++ ["module.prop"], "id=m"), (librarySo (stagedDir "m") "arm64-v8a", "ELF")]

/-- The second rename fails, both directories are where they were, and the update is disabled. -/
theorem swap_leaves_flag : ¬ ∀ (fs : FileTree) (name : String) (moduleDir : FilePath) (bad : Op),
    SwapAtomic fs name moduleDir bad := by
  intro hall
  have hrun : (Prog.run exec (.failing (.rename (stagedDir "m") (activeDir "m")))
      (swapStagedModule "m" (stagedDir "m")) (.idle disabledUpdate)).any (fun z =>
        !z.1.toBool && z.2.fs.present (stagedDir "m" ++ ["disable"])) = true := by decide
  obtain ⟨⟨r, w'⟩, hw', hleft⟩ := (Option.any_eq_true _ _).1 hrun
  rw [Bool.and_eq_true] at hleft
  cases r with
  | ok p => exact absurd hleft.1 (by simp [Except.toBool])
  | error msg =>
    have hun := hall _ _ _ _ msg w' (Prog.run_sound (fun _ _ hne => failing_works hne) hw')
    have hflag := present_of_below (a := stagedDir "m") hun.2 ["disable"]
    rw [hleft.2] at hflag
    exact absurd hflag (by decide)

end OnyxZygisk.Daemon
