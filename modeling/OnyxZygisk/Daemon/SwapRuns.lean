import OnyxZygisk.Daemon.Scope
import OnyxZygisk.Daemon.SwapCrash

/-!
# Runs of the swap

What a run of the swap that comes to its end without an error has done to the three trees: the staged
copy, with the flag it inherits, is the active one (`run_swapStagedModule_ok`). However a run ends, the old
copy is in place, in the backup or replaced (`run_swapStagedModule_kept`).
-/

namespace OnyxZygisk.Daemon

open Prog (Only)

variable {e : Env} {w w' : World} {name : String} {dir : FilePath}

/-! ### Steps of a run -/

theorem run_inert {α : Type} {p : Program α} {a : α} (h : Only Op.inert p)
    (hrun : Prog.run exec e p w = some (a, w')) : w' = w :=
  Prog.run_keep (I := fun s => s = w) h
    (fun _ hop _ _ _ hx hs => (exec_inert hop hx).trans hs) hrun rfl

theorem run_asks {α : Type} {p : Program α} {a : α} (h : Asks p)
    (hrun : Prog.run exec e p w = some (a, w')) : w' = w := run_inert (inert_asks h) hrun

theorem run_error {α : Type} {msg : String} {a : α} :
    Prog.run exec e (pure (.error msg) : Program (Except String α)) w ≠ some (.ok a, w') := by
  intro h
  exact absurd (Prog.run_ret_some h).1 (by simp)

theorem run_look {p : FilePath} {r : Option Node} (h : Prog.run exec e (perform (.look p)) w = some (r, w')) :
    r = (if e.works (.look p) then w.fs.get p else none) ∧ w' = w := by
  obtain ⟨hr, hw⟩ := Prod.mk.inj (Option.some.inj (Prog.run_perform_some h))
  exact ⟨hr.symm, hw.symm⟩

/-- What `exists()` answers. -/
def sees (e : Env) (fs : FileTree) (p : FilePath) : Bool := e.works (.look p) && fs.present p

theorem run_pathExists {p : FilePath} {r : Bool} (h : Prog.run exec e (pathExists p) w = some (r, w')) :
    r = sees e w.fs p ∧ w' = w := by
  obtain ⟨n, w₁, hlook, hret⟩ := Prog.run_bind_some h
  obtain ⟨rfl, rfl⟩ := run_look hlook
  obtain ⟨rfl, rfl⟩ := Prog.run_ret_some hret
  refine ⟨?_, rfl⟩
  rw [sees]
  cases e.works (.look p) <;> rfl

/-- A run within a scope leaves alone what the scope spares. -/
theorem run_within {α : Type} {S : Scope} {p : Program α} {a : α} {q : FilePath} (hq : S.Spares q)
    (hp : Only (Op.within S) p) (hrun : Prog.run exec e p w = some (a, w')) :
    w'.fs.get q = w.fs.get q :=
  Prog.run_keep (I := fun s => s.fs.get q = w.fs.get q) hp
    (fun _ hop _ _ _ hx hs => (get_within hop hx hq).trans hs) hrun rfl

theorem run_keeping {α : Type} {S : Scope} {p : Program α} {a : α} {q : FilePath}
    (hq : S.keeping.Spares q) (hp : Only (Op.within S) p) (hrun : Prog.run exec e p w = some (a, w')) :
    w'.fs.get q = w.fs.get q ∨ w'.fs.get q = none := by
  refine Prog.run_keep (I := fun s => s.fs.get q = w.fs.get q ∨ s.fs.get q = none) hp ?_ hrun (.inl rfl)
  intro op hop s r s' hx hs
  rcases get_keeping hop hx hq with hget | hget
  · rw [hget]
    exact hs
  · exact .inr hget

/-- Operations of the work directory keep the trees. -/
theorem run_inWork {α : Type} {p : Program α} {a : α} (h : Only Op.inWork p)
    (hrun : Prog.run exec e p w = some (a, w')) : copies name w'.fs = copies name w.fs :=
  Prog.run_keep (I := fun s => copies name s.fs = copies name w.fs) h
    (fun _ hop _ _ _ hx hs => (copies_inWork hx hop).trans hs) hrun rfl

theorem inWork_of_markers {α : Type} {p : Program α} (h : Only Op.markers p) : Only Op.inWork p :=
  Prog.only_mono h fun _ hop => hop.1

theorem inWork_acquireHotplugLock (use : LockUse) : Only Op.inWork (acquireHotplugLock use) := by
  refine Prog.only_bind (only_perform (List.prefix_refl _)) fun _ => Prog.only_ite ?_ trivial
  refine Prog.only_bind (only_perform (List.prefix_append _ _)) fun _ => Prog.only_ite ?_ trivial
  exact Prog.only_bind (only_perform trivial) fun _ => Prog.only_ite trivial trivial

/-- What runs under the lock runs on the same trees. -/
theorem run_withHotplugLock {α : Type} (name : String) {use : LockUse} {onError : String → α}
    {body : Program α} {a : α}
    (hrun : Prog.run exec e (withHotplugLock use onError body) w = some (a, w')) :
    (∃ msg, a = onError msg ∧ copies name w'.fs = copies name w.fs) ∨ ∃ w₁ w₂, copies name w₁.fs = copies name w.fs ∧
      Prog.run exec e body w₁ = some (a, w₂) ∧ w'.fs = w₂.fs := by
  obtain ⟨r, w₁, hacquire, hrun⟩ := Prog.run_bind_some hrun
  have h₁ : copies name w₁.fs = copies name w.fs := run_inWork (inWork_acquireHotplugLock use) hacquire
  cases r with
  | error msg =>
    obtain ⟨rfl, rfl⟩ := Prog.run_ret_some hrun
    exact .inl ⟨msg, rfl, h₁⟩
  | ok u =>
    obtain ⟨b, w₂, hbody, hrun⟩ := Prog.run_bind_some hrun
    obtain ⟨u, w₃, hunlock, hret⟩ := Prog.run_bind_some hrun
    obtain ⟨rfl, rfl⟩ := Prog.run_ret_some hret
    replace hunlock := Prog.run_perform_some hunlock
    rw [exec_unlock hunlock]
    exact .inr ⟨w₁, w₂, h₁, hbody, rfl⟩

/-! ### The swap -/

/-- The copy that is moved in: the staged one, with the flag of the active one. -/
def MovesIn (e : Env) (name : String) (w : World) (t : Tree) : Prop :=
  t = (copies name w.fs).staged ∨
    sees e w.fs (activeDir name ++ ["disable"]) = true ∧
      ∃ ino, t = withDisable (copies name w.fs).staged ino

theorem run_inheritDisable (hrun : Prog.run exec e (inheritDisable name) w = some (true, w')) :
    MovesIn e name w (copies name w'.fs).staged := by
  obtain ⟨disabled, w₁, hlook, hrun⟩ := Prog.run_bind_some hrun
  obtain ⟨hdisabled, rfl⟩ := run_pathExists hlook
  cases disabled with
  | false =>
    obtain ⟨-, rfl⟩ := Prog.run_ret_some hrun
    exact .inl rfl
  | true =>
    obtain ⟨has, w₁, hlook, hrun⟩ := Prog.run_bind_some hrun
    obtain ⟨-, rfl⟩ := run_pathExists hlook
    cases has with
    | true =>
      obtain ⟨-, rfl⟩ := Prog.run_ret_some hrun
      exact .inl rfl
    | false =>
      obtain ⟨r, w₂, hopen, hrun⟩ := Prog.run_bind_some hrun
      replace hopen := Prog.run_perform_some hopen
      rcases copies_inherit hopen with ⟨ino, rfl, hc⟩ | ⟨rfl, -⟩
      · obtain ⟨-, rfl⟩ := Prog.run_ret_some hrun
        rw [hc]
        exact .inr ⟨hdisabled.symm, ino, rfl⟩
      · obtain ⟨hfalse, -⟩ := Prog.run_ret_some hrun
        exact absurd hfalse Bool.false_ne_true

theorem run_preserveActive (hrun : Prog.run exec e (preserveActive name) w = some (.ok (), w')) :
    MovesIn e name w (copies name w'.fs).staged := by
  obtain ⟨node, w₁, hlook, hrun⟩ := Prog.run_bind_some hrun
  obtain ⟨-, rfl⟩ := run_look hlook
  rcases node with _ | ⟨_ | _ | _⟩
  · exact absurd hrun run_error
  · exact absurd hrun run_error
  · obtain ⟨inherited, w₂, hinherit, hrun⟩ := Prog.run_bind_some hrun
    cases inherited with
    | false => exact absurd hrun run_error
    | true =>
      have hmoves := run_inheritDisable hinherit
      obtain ⟨moved, w₃, hrename, hrun⟩ := Prog.run_bind_some hrun
      replace hrename := Prog.run_perform_some hrename
      cases moved with
      | false => exact absurd hrun run_error
      | true =>
        obtain ⟨-, rfl⟩ := Prog.run_ret_some hrun
        rcases copies_preserve hrename with ⟨-, hc⟩ | ⟨hfalse, -⟩
        · rw [hc]
          exact hmoves
        · exact absurd hfalse (Bool.noConfusion)
  · exact absurd hrun run_error

/-- What follows the second rename leaves the two copies alone. -/
theorem run_cleanUp {hadActive : Bool} {r : Except String FilePath}
    (hrun : Prog.run exec e (do
      onlyIf hadActive do
        let _ ← perform (.removeDirAll (backupDir name))
      clearActivationMarkers name
      writeActivationMarker name "applying"
      pure (Except.ok (activeDir name))) w = some (r, w')) :
    (copies name w'.fs).active = (copies name w.fs).active ∧
      (copies name w'.fs).staged = (copies name w.fs).staged ∧ r = .ok (activeDir name) := by
  obtain ⟨u, w₁, hclear, hrun⟩ := Prog.run_bind_some hrun
  obtain ⟨u, w₂, hmarkers, hrun⟩ := Prog.run_bind_some hrun
  obtain ⟨u, w₃, happlying, hrun⟩ := Prog.run_bind_some hrun
  obtain ⟨hd, rfl⟩ := Prog.run_ret_some hrun
  have h₁ : (copies name w₁.fs).active = (copies name w.fs).active ∧
      (copies name w₁.fs).staged = (copies name w.fs).staged := by
    cases hadActive with
    | false =>
      obtain ⟨-, rfl⟩ := Prog.run_ret_some hclear
      exact ⟨rfl, rfl⟩
    | true =>
      obtain ⟨removed, w₅, hremove, hret⟩ := Prog.run_bind_some hclear
      obtain ⟨-, rfl⟩ := Prog.run_ret_some hret
      obtain ⟨hactive, hstaged, -⟩ := copies_removeBackup (Prog.run_perform_some hremove)
      exact ⟨hactive, hstaged⟩
  have h₂ : copies name w₂.fs = copies name w₁.fs :=
    run_inWork (inWork_of_markers (markers_clearActivationMarkers name)) hmarkers
  have h₃ : copies name w₃.fs = copies name w₂.fs :=
    run_inWork (inWork_of_markers (markers_writeActivationMarker name _)) happlying
  rw [h₃, h₂]
  exact ⟨h₁.1, h₁.2, hd.symm⟩

theorem run_moveIn {hadActive : Bool} {d : FilePath}
    (hrun : Prog.run exec e (moveIn name hadActive) w = some (.ok d, w')) :
    (copies name w'.fs).active = (copies name w.fs).staged ∧ d = activeDir name := by
  obtain ⟨moved, w₁, hrename, hrun⟩ := Prog.run_bind_some hrun
  rcases copies_moveIn (Prog.run_perform_some hrename) with ⟨rfl, hc⟩ | ⟨rfl, -⟩
  · obtain ⟨hactive, -, hd⟩ := run_cleanUp hrun
    rw [hc] at hactive
    exact ⟨hactive, Except.ok.inj hd⟩
  · obtain ⟨u, w₂, -, hrun⟩ := Prog.run_bind_some hrun
    exact absurd hrun run_error

theorem MovesIn.congr {w₁ : World} {t : Tree} (h : MovesIn e name w₁ t)
    (hc : (copies name w₁.fs).staged = (copies name w.fs).staged ∧
      (copies name w₁.fs).active = (copies name w.fs).active) : MovesIn e name w t := by
  have hsees : sees e w₁.fs (activeDir name ++ ["disable"]) = sees e w.fs (activeDir name ++ ["disable"]) :=
    congrArg (fun t : Tree => e.works (.look (activeDir name ++ ["disable"])) && (t ["disable"]).isSome) hc.2
  rw [MovesIn, hc.1, hsees] at h
  exact h

theorem run_removeStaleBackup {r : Bool}
    (hrun : Prog.run exec e (removeStaleBackup name) w = some (r, w')) :
    (copies name w'.fs).staged = (copies name w.fs).staged ∧
      (copies name w'.fs).active = (copies name w.fs).active := by
  obtain ⟨stale, w₁, hlook, hrun⟩ := Prog.run_bind_some hrun
  obtain ⟨-, rfl⟩ := run_pathExists hlook
  cases stale with
  | false =>
    obtain ⟨-, rfl⟩ := Prog.run_ret_some hrun
    exact ⟨rfl, rfl⟩
  | true =>
    rw [if_pos rfl] at hrun
    obtain ⟨ha, hs, -⟩ := copies_removeBackup (Prog.run_perform_some hrun)
    exact ⟨hs, ha⟩

theorem run_swapDirs {d : FilePath} (hrun : Prog.run exec e (swapDirs name) w = some (.ok d, w')) :
    MovesIn e name w (copies name w'.fs).active ∧ d = activeDir name := by
  obtain ⟨removed, w₁, hremove, hrun⟩ := Prog.run_bind_some hrun
  have h₁ := run_removeStaleBackup hremove
  cases removed with
  | false => exact absurd hrun run_error
  | true =>
    obtain ⟨had, w₂, hlook, hrun⟩ := Prog.run_bind_some hrun
    obtain ⟨-, rfl⟩ := run_pathExists hlook
    cases had with
    | false =>
      obtain ⟨hactive, hd⟩ := run_moveIn hrun
      refine ⟨.inl ?_, hd⟩
      rw [hactive, h₁.1]
    | true =>
      obtain ⟨r, w₃, hpreserve, hrun⟩ := Prog.run_bind_some hrun
      cases r with
      | error msg => exact absurd hrun run_error
      | ok u =>
        obtain ⟨hactive, hd⟩ := run_moveIn hrun
        have hmoves := run_preserveActive hpreserve
        rw [← hactive] at hmoves
        exact ⟨hmoves.congr h₁, hd⟩

/-- A swap that reports success has moved the staged copy in. -/
theorem run_swapStagedModule_ok {d : FilePath}
    (hrun : Prog.run exec e (swapStagedModule name dir) w = some (.ok d, w')) :
    MovesIn e name w (copies name w'.fs).active ∧ d = activeDir name := by
  unfold swapStagedModule at hrun
  split_ifs at hrun
  · exact absurd hrun run_error
  · exact absurd hrun run_error
  · obtain ⟨ready, w₁, hready, hrun⟩ := Prog.run_bind_some hrun
    obtain rfl := run_asks (asks_stagedUpdateReady name) hready
    cases ready with
    | false => exact absurd hrun run_error
    | true =>
      rw [if_pos rfl] at hrun
      obtain ⟨msg, hmsg, -⟩ | ⟨w₂, w₃, hc, hbody, hfs⟩ := run_withHotplugLock name hrun
      · exact absurd hmsg (by simp)
      · obtain ⟨again, w₄, hagain, hbody⟩ := Prog.run_bind_some hbody
        obtain rfl := run_asks (asks_stagedUpdateReady name) hagain
        cases again with
        | false => exact absurd hbody run_error
        | true =>
          obtain ⟨node, w₅, hlook, hbody⟩ := Prog.run_bind_some hbody
          obtain ⟨-, rfl⟩ := run_look hlook
          rcases node with _ | ⟨_ | _ | _⟩
          · exact absurd hbody run_error
          · exact absurd hbody run_error
          · obtain ⟨hmoves, hd⟩ := run_swapDirs hbody
            rw [hfs]
            exact ⟨hmoves.congr ⟨congrArg Copies.staged hc, congrArg Copies.active hc⟩, hd⟩
          · exact absurd hbody run_error

/-! ### However it ends -/

section Kept

variable {old new : Tree}

theorem inPlace_inheritDisable {r : Bool} (h : InPlace old new (copies name w.fs))
    (hrun : Prog.run exec e (inheritDisable name) w = some (r, w')) : InPlace old new (copies name w'.fs) := by
  obtain ⟨disabled, w₁, hlook, hrun⟩ := Prog.run_bind_some hrun
  obtain ⟨-, rfl⟩ := run_pathExists hlook
  cases disabled with
  | false =>
    obtain ⟨-, rfl⟩ := Prog.run_ret_some hrun
    exact h
  | true =>
    obtain ⟨has, w₁, hlook, hrun⟩ := Prog.run_bind_some hrun
    obtain ⟨-, rfl⟩ := run_pathExists hlook
    cases has with
    | true =>
      obtain ⟨-, rfl⟩ := Prog.run_ret_some hrun
      exact h
    | false =>
      obtain ⟨node, w₂, hopen, hret⟩ := Prog.run_bind_some hrun
      rcases copies_inherit (Prog.run_perform_some hopen) with ⟨ino, rfl, hc⟩ | ⟨rfl, rfl⟩
      · obtain ⟨-, rfl⟩ := Prog.run_ret_some hret
        obtain ⟨s, b, hold, hs, hcomplete⟩ := h
        rw [hold] at hc
        exact ⟨withDisable s ino, b, hc, hs.withDisable ino, complete_withDisable.2 hcomplete⟩
      · obtain ⟨-, rfl⟩ := Prog.run_ret_some hret
        exact h

theorem placed_preserveActive {r : Except String Unit} (h : InPlace old new (copies name w.fs))
    (hrun : Prog.run exec e (preserveActive name) w = some (r, w')) :
    match r with
    | .ok _ => SetAside old new (copies name w'.fs)
    | .error _ => InPlace old new (copies name w'.fs) := by
  obtain ⟨node, w₁, hlook, hrun⟩ := Prog.run_bind_some hrun
  obtain ⟨-, rfl⟩ := run_look hlook
  rcases node with _ | ⟨_ | _ | _⟩
  · obtain ⟨rfl, rfl⟩ := Prog.run_ret_some hrun
    exact h
  · obtain ⟨rfl, rfl⟩ := Prog.run_ret_some hrun
    exact h
  · obtain ⟨inherited, w₂, hinherit, hrun⟩ := Prog.run_bind_some hrun
    have h₂ := inPlace_inheritDisable h hinherit
    cases inherited with
    | false =>
      obtain ⟨rfl, rfl⟩ := Prog.run_ret_some hrun
      exact h₂
    | true =>
      obtain ⟨moved, w₃, hrename, hret⟩ := Prog.run_bind_some hrun
      rcases copies_preserve (Prog.run_perform_some hrename) with ⟨rfl, hc⟩ | ⟨rfl, rfl⟩
      · obtain ⟨rfl, rfl⟩ := Prog.run_ret_some hret
        obtain ⟨s, b, hold, hs⟩ := h₂
        rw [hold] at hc
        exact ⟨s, hc, hs⟩
      · obtain ⟨rfl, rfl⟩ := Prog.run_ret_some hret
        exact h₂
  · obtain ⟨rfl, rfl⟩ := Prog.run_ret_some hrun
    exact h

/-- The new copy is in place, or the old one is back or stays in the backup. -/
theorem kept_moveIn {hadActive : Bool} {r : Except String FilePath}
    (h : SetAside old new (copies name w.fs) ∨ hadActive = false ∧ InPlace old new (copies name w.fs))
    (hrun : Prog.run exec e (moveIn name hadActive) w = some (r, w')) : Kept old new (copies name w'.fs) := by
  have hstaged : IsNew new (copies name w.fs).staged ∧ (copies name w.fs).staged.complete := by
    rcases h with ⟨s, hc, hs⟩ | ⟨-, s, b, hc, hs⟩ <;>
      · rw [hc]
        exact hs
  obtain ⟨moved, w₁, hrename, hrest⟩ := Prog.run_bind_some hrun
  rcases copies_moveIn (Prog.run_perform_some hrename) with ⟨rfl, hc⟩ | ⟨rfl, rfl⟩
  · obtain ⟨hin, hgone, -⟩ := run_cleanUp hrest
    rw [hc] at hin hgone
    have hcopies : copies name w'.fs = ⟨(copies name w.fs).staged, Tree.none, (copies name w'.fs).backup⟩ :=
      Copies.ext hin hgone rfl
    rw [hcopies]
    exact .replaced hstaged.1 (hstaged.1.complete hstaged.2)
  · obtain ⟨u, w₂, hback, hret⟩ := Prog.run_bind_some hrest
    obtain ⟨-, rfl⟩ := Prog.run_ret_some hret
    cases hadActive with
    | false =>
      obtain ⟨-, rfl⟩ := Prog.run_ret_some hback
      exact h.elim SetAside.kept fun h => h.2.kept
    | true =>
      have haside : SetAside old new (copies name w₁.fs) := h.elim id fun h => absurd h.1 (by simp)
      obtain ⟨restored, w₃, hrestore, hend⟩ := Prog.run_bind_some hback
      obtain ⟨-, rfl⟩ := Prog.run_ret_some hend
      rcases copies_restore (Prog.run_perform_some hrestore) with ⟨-, hc⟩ | ⟨-, rfl⟩
      · obtain ⟨s, hold, hs, -⟩ := haside
        rw [hold] at hc
        rw [hc]
        exact .active hs
      · exact haside.kept

theorem kept_swapDirs {r : Except String FilePath} (h : InPlace old new (copies name w.fs))
    (hrun : Prog.run exec e (swapDirs name) w = some (r, w')) : Kept old new (copies name w'.fs) := by
  obtain ⟨removed, w₁, hremove, hrun⟩ := Prog.run_bind_some hrun
  obtain ⟨hstaged, hactive⟩ := run_removeStaleBackup hremove
  have h₁ : InPlace old new (copies name w₁.fs) := by
    obtain ⟨s, b, hc, hs⟩ := h
    rw [hc] at hstaged hactive
    exact ⟨s, (copies name w₁.fs).backup, Copies.ext hactive hstaged rfl, hs⟩
  cases removed with
  | false =>
    obtain ⟨-, rfl⟩ := Prog.run_ret_some hrun
    exact h₁.kept
  | true =>
    obtain ⟨had, w₂, hlook, hrun⟩ := Prog.run_bind_some hrun
    obtain ⟨-, rfl⟩ := run_pathExists hlook
    cases had with
    | false => exact kept_moveIn (.inr ⟨rfl, h₁⟩) hrun
    | true =>
      obtain ⟨r, w₃, hpreserve, hrun⟩ := Prog.run_bind_some hrun
      have h₂ := placed_preserveActive h₁ hpreserve
      cases r with
      | error msg =>
        obtain ⟨-, rfl⟩ := Prog.run_ret_some hrun
        exact h₂.kept
      | ok u => exact kept_moveIn (.inl h₂) hrun

/-- A staged copy that is found complete is. -/
theorem complete_of_ready (hrun : Prog.run exec e (stagedUpdateReady name) w = some (true, w')) :
    (copies name w.fs).staged.complete := by
  have hspec : Prog.Spec (Prog.Rules.exact exec e) (stagedUpdateReady name) w fun r w' =>
      w' = w ∧ (r = true → (copies name w.fs).staged.complete) :=
    Sound.stagedUpdateReady (sound_exact e) trivial
  exact (Prog.of_spec hspec hrun).2 rfl

theorem run_swapStagedModule_kept {r : Except String FilePath}
    (hrun : Prog.run exec e (swapStagedModule name dir) w = some (r, w')) :
    Kept (copies name w.fs).active (copies name w.fs).staged (copies name w'.fs) := by
  have hstart : Kept (copies name w.fs).active (copies name w.fs).staged (copies name w.fs) :=
    .active (.inl rfl)
  unfold swapStagedModule at hrun
  split_ifs at hrun
  · obtain ⟨-, rfl⟩ := Prog.run_ret_some hrun
    exact hstart
  · obtain ⟨-, rfl⟩ := Prog.run_ret_some hrun
    exact hstart
  · obtain ⟨ready, w₁, hready, hrun⟩ := Prog.run_bind_some hrun
    obtain rfl := run_asks (asks_stagedUpdateReady name) hready
    cases ready with
    | false =>
      obtain ⟨-, rfl⟩ := Prog.run_ret_some hrun
      exact hstart
    | true =>
      rw [if_pos rfl] at hrun
      obtain ⟨msg, -, hc⟩ | ⟨w₂, w₃, hc, hbody, hfs⟩ := run_withHotplugLock name hrun
      · rw [hc]
        exact hstart
      · rw [hfs]
        rw [← hc] at hstart ⊢
        obtain ⟨again, w₄, hagain, hbody⟩ := Prog.run_bind_some hbody
        obtain rfl := run_asks (asks_stagedUpdateReady name) hagain
        cases again with
        | false =>
          obtain ⟨-, rfl⟩ := Prog.run_ret_some hbody
          exact hstart
        | true =>
          have hin : InPlace (copies name w₄.fs).active (copies name w₄.fs).staged (copies name w₄.fs) :=
            ⟨_, _, rfl, .inl rfl, complete_of_ready hagain⟩
          obtain ⟨node, w₅, hlook, hbody⟩ := Prog.run_bind_some hbody
          obtain ⟨-, rfl⟩ := run_look hlook
          rcases node with _ | ⟨_ | _ | _⟩
          · obtain ⟨-, rfl⟩ := Prog.run_ret_some hbody
            exact hstart
          · obtain ⟨-, rfl⟩ := Prog.run_ret_some hbody
            exact hstart
          · exact kept_swapDirs hin hbody
          · obtain ⟨-, rfl⟩ := Prog.run_ret_some hbody
            exact hstart

end Kept

end OnyxZygisk.Daemon
