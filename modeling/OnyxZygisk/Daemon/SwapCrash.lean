import OnyxZygisk.Daemon.Copies

/-!
# Swaps that are cut short

Attempts at one swap follow each other; each can stop after any of its operations, and any operation of
it can fail. The old copy is in one of three places (`Kept`): in the active directory, in the backup
while the active directory is empty, or replaced by the new copy. An attempt that finds a backup deletes
it first, and nothing tells it that a cut attempt left the only copy there; as long as such a removal
happens over an existing active directory, `Kept` holds throughout.
-/

namespace OnyxZygisk.Daemon

/-! ### Attempts -/

/-- Attempts at swapping `name`, every operation within `adm`, each cut anywhere; a cut attempt's lock
is released by the kernel. -/
inductive Attempts (adm : Admissible) (name : String) : World → World → Prop where
  | none (w : World) : Attempts adm name w w
  | next {w w₁ w₂ : World} {rest : Program (Except String FilePath)} (prev : Attempts adm name w w₁)
      (cut : Prog.Steps (StepIn adm) (swapStagedModule name (stagedDir name))
        { w₁ with lock := Option.none } rest w₂) : Attempts adm name w w₂

/-- Any operation can fail. -/
def anyFault : Admissible := fun _ _ _ => True

/-- The backup is only removed while `modules/<name>` exists. -/
def backupSpare (name : String) : Admissible := fun _ op w =>
  op = .removeDirAll (backupDir name) → w.fs.present (activeDir name) = true

/-! ### Where the copies are -/

/-- The staged copy, possibly with the flag an attempt wrote into it. -/
def IsNew (new t : Tree) : Prop := t = new ∨ ∃ ino, t = withDisable new ino

theorem IsNew.withDisable {new t : Tree} (h : IsNew new t) (ino : Nat) :
    IsNew new (withDisable t ino) := by
  rcases h with rfl | ⟨i, rfl⟩
  · exact .inr ⟨ino, rfl⟩
  · refine .inr ⟨ino, funext fun q => ?_⟩
    by_cases hq : q = ["disable"] <;> simp [Daemon.withDisable, hq]

theorem IsNew.complete {new t : Tree} (h : IsNew new t) (hc : t.complete) : new.complete := by
  rcases h with rfl | ⟨ino, rfl⟩
  · exact hc
  · exact complete_withDisable.1 hc

/-- The place of the old copy. -/
inductive Kept (old new : Tree) : Copies → Prop where
  | active {b s : Tree} (hs : IsNew new s) : Kept old new ⟨old, s, b⟩
  | backup {s : Tree} (hs : IsNew new s) : Kept old new ⟨Tree.none, s, old⟩
  | replaced {a b : Tree} (ha : IsNew new a) (hc : new.complete) : Kept old new ⟨a, Tree.none, b⟩

variable {name : String} {old new : Tree} {R : Prog.Rules Resp World}

/-- The old copy is in place and the staged one complete. -/
def InPlace (old new : Tree) (c : Copies) : Prop :=
  ∃ s b, c = ⟨old, s, b⟩ ∧ IsNew new s ∧ s.complete

/-- The old copy is in the backup and the staged one complete. -/
def SetAside (old new : Tree) (c : Copies) : Prop :=
  ∃ s, c = ⟨Tree.none, s, old⟩ ∧ IsNew new s ∧ s.complete

variable {c : Copies}

theorem InPlace.kept (h : InPlace old new c) : Kept old new c := by
  obtain ⟨s, b, rfl, hs, -⟩ := h
  exact .active hs

theorem SetAside.kept (h : SetAside old new c) : Kept old new c := by
  obtain ⟨s, rfl, hs, -⟩ := h
  exact .backup hs

theorem Kept.cases_complete (h : Kept old new c) (hc : c.staged.complete) :
    InPlace old new c ∨ SetAside old new c := by
  cases h with
  | active hs => exact .inl ⟨_, _, rfl, hs, hc⟩
  | backup hs => exact .inr ⟨_, rfl, hs, hc⟩
  | replaced => simp [Tree.complete, Tree.none] at hc

/-- The rules of an attempt: `Kept` wherever an operation starts. -/
abbrev CrashRules (R : Prog.Rules Resp World) (name : String) (old new : Tree) : Prop :=
  Sound R (fun w => Kept old new (copies name w.fs)) (backupSpare name)

theorem present_active (w : World) :
    w.fs.present (activeDir name) = ((copies name w.fs).active []).isSome := by
  simp [FileTree.present, copies, FileTree.below]

theorem SetAside.not_present {w : World} (h : SetAside old new (copies name w.fs)) :
    w.fs.present (activeDir name) = false := by
  obtain ⟨s, hc, -⟩ := h
  rw [present_active, hc]
  rfl

/-- A stale backup is only removed over the old copy. -/
theorem crash_removeStaleBackup (hR : CrashRules R name old new) {w : World}
    (h : InPlace old new (copies name w.fs) ∨ SetAside old new (copies name w.fs)) :
    Prog.Spec R (removeStaleBackup name) w fun _ w' =>
      InPlace old new (copies name w'.fs) ∨ SetAside old new (copies name w'.fs) := by
  have hk : Kept old new (copies name w.fs) := h.elim InPlace.kept SetAside.kept
  rw [removeStaleBackup, Prog.spec_bind]
  refine hR.pathExists hk fun r _ _ => ?_
  cases r with
  | false => exact h
  | true =>
    simp only [if_true]
    refine hR.perform hk (by simp) fun e r w' hadm hx => ?_
    rcases h with ⟨s, b, hc, hs⟩ | h
    · obtain ⟨ha, hst, -⟩ := copies_removeBackup hx
      rw [hc] at ha hst
      exact .inl ⟨s, (copies name w'.fs).backup, Copies.ext ha hst rfl, hs⟩
    · -- the guard: there is an active directory
      have hact := hadm rfl
      rw [h.not_present] at hact
      exact absurd hact (by simp)

theorem crash_inheritDisable (hR : CrashRules R name old new) {w : World}
    (h : InPlace old new (copies name w.fs)) :
    Prog.Spec R (inheritDisable name) w fun _ w' => InPlace old new (copies name w'.fs) := by
  rw [inheritDisable, Prog.spec_bind]
  refine hR.pathExists h.kept fun r _ _ => ?_
  cases r with
  | false => exact h
  | true =>
    simp only [if_true]
    rw [Prog.spec_bind]
    refine hR.pathExists h.kept fun r _ _ => ?_
    cases r with
    | true => exact h
    | false =>
      simp only [Bool.false_eq_true, if_false, fsWrite]
      rw [Prog.spec_bind]
      refine hR.perform h.kept (by simp) fun e r w' _ hx => ?_
      rcases copies_inherit hx with ⟨ino, rfl, hc'⟩ | ⟨rfl, rfl⟩
      · obtain ⟨s, b, hc, hs, hcomp⟩ := h
        rw [hc] at hc'
        exact ⟨withDisable s ino, b, hc', hs.withDisable ino, complete_withDisable.2 hcomp⟩
      · exact h

/-- After `preserveActive` the old copy is in the backup, or where it was. -/
theorem crash_preserveActive (hR : CrashRules R name old new) {w : World}
    (h : InPlace old new (copies name w.fs)) :
    Prog.Spec R (preserveActive name) w fun r w' => match r with
      | .ok _ => SetAside old new (copies name w'.fs)
      | .error _ => InPlace old new (copies name w'.fs) := by
  rw [preserveActive, Prog.spec_bind]
  refine hR.look h.kept ?_ fun _ => h
  split
  · exact h
  · refine Prog.spec_seq (crash_inheritDisable hR h) fun r w₁ h₁ => ?_
    cases r with
    | false => exact h₁
    | true =>
      simp only [if_true]
      rw [Prog.spec_bind]
      refine hR.perform h₁.kept (by simp) fun e r w₂ _ hx => ?_
      rcases copies_preserve hx with ⟨rfl, hc₂⟩ | ⟨rfl, rfl⟩
      · obtain ⟨s, b, hc, hs⟩ := h₁
        rw [hc] at hc₂
        exact ⟨s, hc₂, hs⟩
      · exact h₁
  · exact h

/-- The second rename puts the new copy in place, or the old one comes back or stays in the backup. -/
theorem crash_moveIn (hR : CrashRules R name old new) {w : World} {hadActive : Bool}
    (h : SetAside old new (copies name w.fs) ∨
      hadActive = false ∧ InPlace old new (copies name w.fs)) :
    Prog.Spec R (moveIn name hadActive) w fun _ w' => Kept old new (copies name w'.fs) := by
  have hk : Kept old new (copies name w.fs) := h.elim SetAside.kept fun h => h.2.kept
  obtain ⟨s, hst, hs, hcomp⟩ : ∃ s, (copies name w.fs).staged = s ∧ IsNew new s ∧ s.complete := by
    rcases h with ⟨s, hc, hs⟩ | ⟨-, s, b, hc, hs⟩ <;> exact ⟨s, by rw [hc], hs⟩
  rw [moveIn, Prog.spec_bind]
  refine hR.perform hk (by simp) fun e r w₁ _ hx => ?_
  rcases copies_moveIn hx with ⟨rfl, hc₁⟩ | ⟨rfl, rfl⟩
  · -- the new copy is in place; what is left is cleaning up
    rw [hst] at hc₁
    have hrep : ∀ b, Kept old new ⟨s, Tree.none, b⟩ := fun b => .replaced hs (hs.complete hcomp)
    have hclean : ∀ {w₂ : World}, (∃ b, copies name w₂.fs = ⟨s, Tree.none, b⟩) →
        Prog.Spec R (do
          clearActivationMarkers name
          writeActivationMarker name "applying"
          pure (Except.ok (activeDir name))) w₂
          fun (_ : Except String FilePath) w' => Kept old new (copies name w'.fs) := by
      rintro w₂ ⟨b, hc₂⟩
      refine Prog.spec_seq (hR.inWork (markers_clearActivationMarkers name) (hc₂ ▸ hrep b))
        fun _ w₃ h₃ => ?_
      rw [hc₂] at h₃
      refine Prog.spec_seq (hR.inWork (markers_writeActivationMarker name _) (h₃ ▸ hrep b))
        fun _ w₄ h₄ => ?_
      simp only [Prog.pure_eq, Prog.spec_ret]
      rw [h₄, h₃]
      exact hrep b
    simp only [if_true]
    refine Prog.spec_seq (M := fun _ w₂ => ∃ b, copies name w₂.fs = ⟨s, Tree.none, b⟩) ?_
      fun _ w₂ h₂ => hclean h₂
    cases hadActive with
    | false => exact ⟨_, hc₁⟩
    | true =>
      simp only [onlyIf, if_true]
      rw [Prog.spec_bind]
      refine hR.perform (hc₁ ▸ hrep _) (by simp) fun e r w₂ _ hx => ?_
      obtain ⟨ha, hst, -⟩ := copies_removeBackup hx
      rw [hc₁] at ha hst
      exact ⟨(copies name w₂.fs).backup, Copies.ext ha hst rfl⟩
  · simp only [Bool.false_eq_true, if_false]
    refine Prog.spec_seq (M := fun _ w' => Kept old new (copies name w'.fs)) ?_
      fun _ w' (h : Kept old new (copies name w'.fs)) => h
    cases hadActive with
    | false => exact hk
    | true =>
      have haside : SetAside old new (copies name w₁.fs) := h.elim id fun h => absurd h.1 (by simp)
      simp only [onlyIf, if_true]
      rw [Prog.spec_bind]
      refine hR.perform hk (by simp) fun e r w₂ _ hx => ?_
      rcases copies_restore hx with ⟨rfl, hc₂⟩ | ⟨rfl, rfl⟩
      · obtain ⟨s, hc, hs, -⟩ := haside
        rw [hc] at hc₂
        simp only [Prog.pure_eq, Prog.spec_ret]
        rw [hc₂]
        exact .active hs
      · exact hk

theorem crash_swapDirs (hR : CrashRules R name old new) {w : World}
    (h : InPlace old new (copies name w.fs) ∨ SetAside old new (copies name w.fs)) :
    Prog.Spec R (swapDirs name) w fun _ w' => Kept old new (copies name w'.fs) := by
  refine Prog.spec_seq (crash_removeStaleBackup hR h) fun r w₁ h₁ => ?_
  have hk₁ : Kept old new (copies name w₁.fs) := h₁.elim InPlace.kept SetAside.kept
  cases r with
  | false => exact hk₁
  | true =>
    simp only [if_true]
    rw [Prog.spec_bind]
    refine hR.pathExists hk₁ fun r hr _ => ?_
    cases r with
    | false =>
      simp only [Bool.false_eq_true, if_false]
      exact crash_moveIn hR (h₁.symm.imp id fun h => ⟨rfl, h⟩)
    | true =>
      have hin : InPlace old new (copies name w₁.fs) := h₁.elim id fun h =>
        absurd (hr rfl) (by simp [h.not_present])
      simp only [if_true]
      refine Prog.spec_seq (crash_preserveActive hR hin) fun r w₂ h₂ => ?_
      cases r with
      | error msg => exact h₂.kept
      | ok u => exact crash_moveIn hR (.inl h₂)

theorem crash_swapStagedModule (hR : CrashRules R name old new) {w : World} (moduleDir : FilePath)
    (h : Kept old new (copies name w.fs)) (hlock : w.lock = none) :
    Prog.Spec R (swapStagedModule name moduleDir) w fun _ w' =>
      Kept old new (copies name w'.fs) := by
  rw [swapStagedModule]
  split_ifs
  · exact h
  · exact h
  · refine Prog.spec_seq (hR.stagedUpdateReady h) fun r w₁ h₁ => ?_
    obtain ⟨rfl, -⟩ := h₁
    cases r with
    | false => exact h
    | true =>
      simp only [if_true]
      refine hR.withHotplugLock (Q := fun _ c => Kept old new c) h hlock (fun _ => h)
        (fun _ _ hc => hc) fun w₂ h₂ _ => ?_
      have hk₂ : Kept old new (copies name w₂.fs) := h₂ ▸ h
      refine Prog.spec_seq (hR.stagedUpdateReady hk₂) fun r w₃ h₃ => ?_
      obtain ⟨rfl, hready⟩ := h₃
      cases r with
      | false => exact hk₂
      | true =>
        simp only [if_true]
        rw [Prog.spec_bind]
        refine hR.look hk₂ ?_ fun _ => hk₂
        split
        · exact hk₂
        · exact crash_swapDirs hR (hk₂.cases_complete (hready rfl))
        · exact hk₂

/-! ### Runs of attempts -/

/-- One attempt, cut anywhere, loses nothing if it spares a backup without an active copy. -/
theorem kept_cut {w w' : World} {rest : Program (Except String FilePath)}
    (h : Kept old new (copies name w.fs))
    (hcut : Prog.Steps (StepIn (backupSpare name)) (swapStagedModule name (stagedDir name))
      { w with lock := none } rest w') : Kept old new (copies name w'.fs) := by
  have hspec := crash_swapStagedModule (sound_always (backupSpare name) _)
    (w := { w with lock := none }) (stagedDir name) h rfl
  exact Prog.always_steps (I := fun w => Kept old new (copies name w.fs)) hspec
    (fun _ _ h => h) hcut

/-- Over any run of attempts that spares the backup, the old copy is in place or in the backup, or a
complete new copy is in place. -/
theorem attempts_kept {w w' : World} (h : Attempts (backupSpare name) name w w') :
    Kept (copies name w.fs).active (copies name w.fs).staged (copies name w'.fs) := by
  induction h with
  | none => exact Kept.active (.inl rfl)
  | next _ hcut ih => exact kept_cut ih hcut

/-- The copy in `modules/<name>` or its backup at the end of a run: old or new, and complete. -/
def NoCopyLost (name : String) (w w' : World) : Prop :=
  (copies name w'.fs).active = (copies name w.fs).active ∨
    (IsNew (copies name w.fs).staged (copies name w'.fs).active ∧
      (copies name w'.fs).active.complete) ∨
    (copies name w'.fs).backup = (copies name w.fs).active

theorem attempts_noCopyLost {w w' : World} (h : Attempts (backupSpare name) name w w') :
    NoCopyLost name w w' := by
  have hk := attempts_kept h
  unfold NoCopyLost
  generalize copies name w'.fs = c at hk ⊢
  cases hk with
  | active hs => exact .inl rfl
  | backup hs => exact .inr (.inr rfl)
  | replaced ha hc =>
    refine .inr (.inl ⟨ha, ?_⟩)
    rcases ha with rfl | ⟨ino, rfl⟩
    · exact hc
    · exact complete_withDisable.2 hc

/-! ### Two runs -/

theorem Attempts.mono {adm adm' : Admissible} (hadm : ∀ e op w, adm e op w → adm' e op w)
    {w w' : World} (h : Attempts adm name w w') : Attempts adm' name w w' := by
  induction h with
  | none => exact .none _
  | next _ hcut ih =>
    refine .next ih (Prog.steps_mono hcut ?_)
    rintro s op r s' ⟨e, he, hx⟩
    exact ⟨e, hadm e op s he, hx⟩

/-- An active copy and a complete staged update of it. -/
def updatePending : World :=
  .idle (.ofFiles [(activeDir "m" ++ ["module.prop"], "v1"), (librarySo (activeDir "m") "arm64-v8a", "a"),
    (stagedDir "m" ++ ["module.prop"], "v2"), (librarySo (stagedDir "m") "arm64-v8a", "b")])

/-- The world an attempt cut after `k` operations leaves, if each passes `adm`. -/
def cutAfter (adm : Env → Op → World → Bool) (k : Nat) (w : World) : Option World :=
  (Prog.steps exec adm (List.replicate k .fine) (swapStagedModule "m" (stagedDir "m"))
    { w with lock := none }).map Prod.snd

theorem attempts_cutAfter {adm : Env → Op → World → Bool} {k : Nat} {w w₁ w₂ : World}
    (hprev : Attempts (fun e op w => adm e op w = true) "m" w w₁) (h : cutAfter adm k w₁ = some w₂) :
    Attempts (fun e op w => adm e op w = true) "m" w w₂ := by
  obtain ⟨⟨rest, w'⟩, hsteps, rfl⟩ := Option.map_eq_some_iff.1 h
  exact .next hprev (Prog.steps_sound hsteps)

/-- The guard as a scheduler checks it. -/
def sparesBackup (_ : Env) (op : Op) (w : World) : Bool :=
  op != .removeDirAll (backupDir "m") || w.fs.present (activeDir "m")

theorem sparesBackup_spec (e : Env) (op : Op) (w : World) (h : sparesBackup e op w = true) :
    backupSpare "m" e op w := by
  intro hop
  simpa [sparesBackup, hop] using h

/-- Cut between its two renames, an attempt leaves the old copy in the backup. -/
theorem attempts_noCopyLost_cut : ∃ w', Attempts (backupSpare "m") "m" updatePending w' ∧
    w'.fs.present (activeDir "m") = false ∧ NoCopyLost "m" updatePending w' := by
  have hcut : (cutAfter sparesBackup 13 updatePending).any
      (fun w => !w.fs.present (activeDir "m")) = true := by decide
  obtain ⟨w', hw', hgone⟩ := (Option.any_eq_true _ _).1 hcut
  have hrun : Attempts (backupSpare "m") "m" updatePending w' :=
    (attempts_cutAfter (.none _) hw').mono sparesBackup_spec
  exact ⟨w', hrun, by simpa using hgone, attempts_noCopyLost hrun⟩

/-- The attempt after that one deletes the backup: with no restriction both copies can be gone. -/
theorem attempts_lose_copy : ¬ ∀ (name : String) (w w' : World), Attempts anyFault name w w' →
    (copies name w.fs).active.complete → NoCopyLost name w w' := by
  intro hall
  have hcut : ((cutAfter (fun _ _ _ => true) 13 updatePending).bind
      (cutAfter (fun _ _ _ => true) 10)).any (fun w =>
        w.fs.get (activeDir "m") == none && w.fs.get (backupDir "m") == none) = true := by decide
  obtain ⟨w₂, hw₂, hgone⟩ := (Option.any_eq_true _ _).1 hcut
  obtain ⟨w₁, hw₁, hw₂⟩ := Option.bind_eq_some_iff.1 hw₂
  have hrun : Attempts anyFault "m" updatePending w₂ :=
    (attempts_cutAfter (attempts_cutAfter (.none _) hw₁) hw₂).mono fun _ _ _ _ => trivial
  simp only [Bool.and_eq_true, beq_iff_eq] at hgone
  have hactive : (copies "m" w₂.fs).active [] = none := hgone.1
  have hbackup : (copies "m" w₂.fs).backup [] = none := hgone.2
  have hstart : (copies "m" updatePending.fs).active [] = some .dir := by decide
  have hstaged : (copies "m" updatePending.fs).staged [] = some .dir := by decide
  have hcomplete : (copies "m" updatePending.fs).active.complete :=
    ⟨by decide, "arm64-v8a", by simp, by decide⟩
  rcases hall "m" _ _ hrun hcomplete with h | ⟨h | ⟨ino, h⟩, -⟩ | h
  · rw [h, hstart] at hactive
    exact absurd hactive (by simp)
  · rw [h, hstaged] at hactive
    exact absurd hactive (by simp)
  · rw [h, withDisable, if_neg (by simp), hstaged] at hactive
    exact absurd hactive (by simp)
  · rw [h, hstart] at hbackup
    exact absurd hbackup (by simp)

end OnyxZygisk.Daemon
