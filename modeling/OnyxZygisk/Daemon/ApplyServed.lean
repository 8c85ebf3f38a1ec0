import OnyxZygisk.Daemon.SwapRuns

/-!
# What an applied switch serves

`apply_hotplug` takes the root solution's `disable` off the active directory before it swaps, and then
the staged copy brings its own flags along. So a request that reports success has the module served, if
the copy it leaves behind carries no flag (`applyHotplug_served_iff`).
-/

namespace OnyxZygisk.Daemon

open Prog (Only)

variable {e : Env} {w w' : World} {fs : FileTree} {name arch : String}

/-! ### What the request leaves alone -/

/-- The request itself, and its swap. -/
def applyScope (name : String) : Scope where
  writes p := p = hotplugLock ∨ (∃ suffix, p = activationMarker name suffix) ∨
    p = stagedDir name ++ ["disable"]
  removes p := (∃ suffix, p = activationMarker name suffix) ∨ p = activeDir name ++ ["disable"] ∨
    p = activeDir name ++ ["update"]
  clears p := p = backupDir name
  moves src dst := src = activeDir name ∧ dst = backupDir name ∨
    src = stagedDir name ∧ dst = activeDir name ∨ src = backupDir name ∧ dst = activeDir name

theorem applyScope_applies (name : String) : (applyScope name).Applies name where
  lock := .inl rfl
  write suffix _ := .inr (.inl ⟨suffix, rfl⟩)
  remove suffix _ := .inl ⟨suffix, rfl⟩
  inherit := .inr (.inr rfl)
  backup := rfl
  preserve := .inl ⟨rfl, rfl⟩
  moveIn := .inr (.inl ⟨rfl, rfl⟩)
  restore := .inr (.inr ⟨rfl, rfl⟩)
  enable := .inr (.inl rfl)
  updated := .inr (.inr rfl)

/-- What follows the swap. -/
def finishScope (name : String) : Scope where
  writes p := p = hotplugLock ∨ ∃ suffix, p = activationMarker name suffix
  removes p := (∃ suffix, p = activationMarker name suffix) ∨ p = activeDir name ++ ["update"]
  clears _ := False
  moves _ _ := False

theorem finishScope_markers (name : String) : (finishScope name).Markers name where
  lock := .inl rfl
  write suffix _ := .inr ⟨suffix, rfl⟩
  remove suffix _ := .inl ⟨suffix, rfl⟩

theorem finishScope_update (name : String) : (finishScope name).removes (activeDir name ++ ["update"]) :=
  .inr rfl

theorem applyScope_optIn (name : String) : (applyScope name).Spares (hotplugOptIn name) where
  dirs := by simp [hotplugOptIn, hotplugDir, activationMarkers]
  write := by
    rintro p (rfl | ⟨suffix, rfl⟩ | rfl) <;>
      simp [hotplugOptIn, hotplugDir, hotplugLock, activationMarker, activationMarkers, stagedDir]
  remove := by
    rintro p (⟨suffix, rfl⟩ | rfl | rfl) <;>
      simp [hotplugOptIn, hotplugDir, activationMarker, activationMarkers, activeDir]
  clear := by
    rintro p rfl
    simp [hotplugOptIn, hotplugDir, backupDir]
  move := by
    rintro src dst (⟨rfl, rfl⟩ | ⟨rfl, rfl⟩ | ⟨rfl, rfl⟩) <;>
      simp [hotplugOptIn, hotplugDir, backupDir, activeDir, stagedDir]

theorem finishScope_active (name : String) {q : FilePath} (hq : ¬ ["update"] <+: q) :
    (finishScope name).Spares (activeDir name ++ q) where
  dirs := by simp [activeDir, activationMarkers]
  write := by
    rintro p (rfl | ⟨suffix, rfl⟩) <;>
      simp [hotplugLock, activationMarker, activationMarkers, activeDir]
  remove := by
    rintro p (⟨suffix, rfl⟩ | rfl)
    · simp [activationMarker, activationMarkers, activeDir]
    · rwa [List.prefix_append_right_inj]
  clear _ hp := hp.elim
  move _ _ hp := hp.elim

/-- The flags and the libraries of the active copy. -/
def SameCopy (name : String) (fs fs' : FileTree) : Prop :=
  ∀ q, ¬ ["update"] <+: q → fs'.get (activeDir name ++ q) = fs.get (activeDir name ++ q)

theorem run_finish {α : Type} {p : Program α} {a : α} (hp : Only (Op.within (finishScope name)) p)
    (hrun : Prog.run exec e p w = some (a, w')) : SameCopy name w.fs w'.fs :=
  fun _ hq => run_within (finishScope_active name hq) hp hrun

/-! ### What it does to the copy -/

/-- The flags of a directory. -/
def flagsAt (t : Tree) : Bool := (t ["disable"]).isSome || (t ["remove"]).isSome

def stagedSeen (e : Env) (fs : FileTree) (name : String) : Bool :=
  sees e fs (stagedDir name ++ ["module.prop"]) &&
    (sees e fs (librarySo (stagedDir name) "arm64-v8a") ||
      sees e fs (librarySo (stagedDir name) "armeabi-v7a") ||
        sees e fs (librarySo (stagedDir name) "x86_64") || sees e fs (librarySo (stagedDir name) "x86"))

theorem stagedSeen_congr {fs' : FileTree} (h : (copies name fs').staged = (copies name fs).staged) :
    stagedSeen e fs' name = stagedSeen e fs name := by
  have hsees : ∀ q, sees e fs' (stagedDir name ++ q) = sees e fs (stagedDir name ++ q) := fun q =>
    congrArg (fun t : Tree => e.works (.look (stagedDir name ++ q)) && (t q).isSome) h
  simp only [stagedSeen, librarySo, hsees]

theorem run_stagedUpdateReady {r : Bool}
    (hrun : Prog.run exec e (stagedUpdateReady name) w = some (r, w')) :
    r = stagedSeen e w.fs name ∧ w' = w := by
  have hw := run_asks (asks_stagedUpdateReady name) hrun
  refine ⟨?_, hw⟩
  obtain ⟨prop, w₁, hlook, hrun⟩ := Prog.run_bind_some hrun
  obtain ⟨hprop, rfl⟩ := run_pathExists hlook
  rw [stagedSeen, ← hprop]
  cases prop with
  | false => exact (Prog.run_ret_some hrun).1.symm
  | true =>
    obtain ⟨lib, w₁, hlook, hrun⟩ := Prog.run_bind_some hrun
    obtain ⟨hlib, rfl⟩ := run_pathExists hlook
    rw [← hlib]
    cases lib with
    | true => exact (Prog.run_ret_some hrun).1.symm
    | false =>
      obtain ⟨lib, w₁, hlook, hrun⟩ := Prog.run_bind_some hrun
      obtain ⟨hlib, rfl⟩ := run_pathExists hlook
      rw [← hlib]
      cases lib with
      | true => exact (Prog.run_ret_some hrun).1.symm
      | false =>
        obtain ⟨lib, w₁, hlook, hrun⟩ := Prog.run_bind_some hrun
        obtain ⟨hlib, rfl⟩ := run_pathExists hlook
        rw [← hlib]
        cases lib with
        | true => exact (Prog.run_ret_some hrun).1.symm
        | false => exact (run_pathExists hrun).1

/-- The active copy, enabled. -/
def enabledCopy (e : Env) (fs : FileTree) (name : String) : Tree :=
  if sees e fs (activeDir name ++ ["disable"]) then
    fun q => if ["disable"] <+: q then none else (copies name fs).active q
  else (copies name fs).active

theorem run_reenable (hrun : Prog.run exec e (reenable name) w = some (true, w')) :
    (copies name w'.fs).staged = (copies name w.fs).staged ∧
      (copies name w'.fs).active = enabledCopy e w.fs name ∧
      sees e w'.fs (activeDir name ++ ["disable"]) = false := by
  obtain ⟨disabled, w₁, hlook, hrun⟩ := Prog.run_bind_some hrun
  obtain ⟨hdisabled, rfl⟩ := run_pathExists hlook
  rw [enabledCopy, ← hdisabled]
  cases disabled with
  | false =>
    obtain ⟨-, rfl⟩ := Prog.run_ret_some hrun
    exact ⟨rfl, rfl, hdisabled.symm⟩
  | true =>
    obtain ⟨removed, w₂, hremove, hrun⟩ := Prog.run_bind_some hrun
    rcases exec_removeFile (Prog.run_perform_some hremove) with ⟨rfl, fs, hfs, rfl⟩ | ⟨rfl, -⟩
    · obtain ⟨r, w₃, hmarker, hret⟩ := Prog.run_bind_some hrun
      obtain ⟨-, rfl⟩ := Prog.run_ret_some hret
      have hc : copies name w₃.fs = copies name { w₁ with fs := fs }.fs :=
        copies_inWork (Prog.run_perform_some hmarker) (prefix_activationMarker name "crash_blocked")
      have hget := FileTree.get_removeFile hfs
      have hapart := (apart_active_staged name name).append ["disable"] []
      rw [List.append_nil] at hapart
      have hstaged : (copies name fs).staged = (copies name w₁.fs).staged :=
        FileTree.below_congr hapart fun q hq => (hget q).trans (if_neg hq)
      have hactive : (copies name fs).active =
          fun q => if ["disable"] <+: q then none else (copies name w₁.fs).active q := by
        funext q
        show fs.get (activeDir name ++ q) = _
        rw [hget]
        simp only [List.prefix_append_right_inj]
        rfl
      have hgone : (copies name fs).active ["disable"] = none := by
        rw [hactive]
        exact if_pos (List.prefix_refl _)
      rw [hc]
      refine ⟨hstaged, hactive, ?_⟩
      have hsees : w₃.fs.present (activeDir name ++ ["disable"]) =
          ((copies name w₃.fs).active ["disable"]).isSome := rfl
      rw [sees, hsees, hc, hgone, Option.isSome_none, Bool.and_false]
    · exact absurd (Prog.run_ret_some hrun).1 Bool.false_ne_true

theorem run_swapIfReady {swapped : Bool} (hrun : Prog.run exec e (swapIfReady name) w = some (.ok swapped, w')) :
    swapped = stagedSeen e w.fs name ∧
      if swapped then MovesIn e name w (copies name w'.fs).active
      else (copies name w'.fs).active = (copies name w.fs).active := by
  obtain ⟨ready, w₁, hready, hrun⟩ := Prog.run_bind_some hrun
  obtain ⟨hseen, rfl⟩ := run_stagedUpdateReady hready
  rw [← hseen]
  cases ready with
  | false =>
    obtain ⟨hr, rfl⟩ := Prog.run_ret_some hrun
    obtain rfl := Except.ok.inj hr
    exact ⟨rfl, rfl⟩
  | true =>
    obtain ⟨r, w₂, hswap, hrun⟩ := Prog.run_bind_some hrun
    cases r with
    | error msg => exact absurd hrun run_error
    | ok d =>
      obtain ⟨hr, rfl⟩ := Prog.run_ret_some hrun
      obtain rfl := Except.ok.inj hr
      exact ⟨rfl, (run_swapStagedModule_ok hswap).1⟩

/-- The copy the request leaves behind: the staged one where it is ready, or the active one without its
`disable`. -/
def leftCopy (e : Env) (fs : FileTree) (name : String) : Tree :=
  if sees e fs (hotplugOptIn name) then
    if stagedSeen e fs name then (copies name fs).staged else enabledCopy e fs name
  else (copies name fs).active

/-- The rest of the request keeps the copy. -/
theorem run_applied {swapped : Bool}
    (hrun : Prog.run exec e (do
      if ← isDir (activeDir name) then
        if ← isFrameworkModule (activeDir name) then applyFramework name swapped
        else
          let ran ← (if swapped then applySwapped name else pure (.ok ()))
          match ran with
          | .error e => pure (.error e)
          | .ok () => applyPreference name true swapped
      else pure (.error ("module " ++ name ++ " is not installed in the active directory"))) w =
        some (.ok (), w')) : SameCopy name w.fs w'.fs := by
  refine run_finish ?_ hrun
  have hm := finishScope_markers name
  have hupdate := finishScope_update name
  refine Prog.only_bind (Prog.only_bind (only_perform trivial) fun _ => trivial) fun _ =>
    Prog.only_ite ?_ trivial
  refine Prog.only_bind (within_asks (asks_isFrameworkModule _)) fun _ =>
    Prog.only_ite (within_applyFramework hm hupdate _) ?_
  refine Prog.only_bind (Prog.only_ite (within_applySwapped hm) trivial) fun ran => ?_
  cases ran with
  | error msg => trivial
  | ok u => exact within_applyPreference hm hupdate _ _

theorem run_applyEnabled (hrun : Prog.run exec e (applyEnabled name) w = some (.ok (), w')) {q : FilePath}
    (hq : ¬ ["update"] <+: q) :
    (copies name w'.fs).active q =
      if stagedSeen e w.fs name then (copies name w.fs).staged q else enabledCopy e w.fs name q := by
  obtain ⟨on, w₁, hmaster, hrun⟩ := Prog.run_bind_some hrun
  obtain rfl := run_asks asks_hotplugMasterEnabled hmaster
  cases on with
  | false => exact absurd hrun run_error
  | true =>
    obtain ⟨remove, w₂, hlook, hrun⟩ := Prog.run_bind_some hrun
    obtain ⟨-, rfl⟩ := run_pathExists hlook
    cases remove with
    | true => exact absurd hrun run_error
    | false =>
      obtain ⟨enabled, w₃, hreenable, hrun⟩ := Prog.run_bind_some hrun
      cases enabled with
      | false => exact absurd hrun run_error
      | true =>
        obtain ⟨hstaged, hactive, hunseen⟩ := run_reenable hreenable
        obtain ⟨r, w₄, hswap, hrun⟩ := Prog.run_bind_some hrun
        cases r with
        | error msg => exact absurd hrun run_error
        | ok swapped =>
          obtain ⟨hseen, hcopy⟩ := run_swapIfReady hswap
          rw [stagedSeen_congr hstaged] at hseen
          have hfinish := run_applied hrun q hq
          have hleft : (copies name w₄.fs).active =
              if stagedSeen e w₂.fs name then (copies name w₂.fs).staged else enabledCopy e w₂.fs name := by
            rw [← hseen]
            cases swapped with
            | false => exact hcopy.trans hactive
            | true =>
              rcases hcopy with hcopy | ⟨hsees, -⟩
              · exact hcopy.trans hstaged
              · rw [hunseen] at hsees
                exact absurd hsees Bool.false_ne_true
          show w'.fs.get (activeDir name ++ q) = _
          rw [hfinish]
          show (copies name w₄.fs).active q = _
          rw [hleft]
          split_ifs <;> rfl

/-- What a request that reports success leaves behind. -/
theorem run_applyHotplug (hrun : Prog.run exec e (applyHotplug name) w = some (.ok (), w')) {q : FilePath}
    (hq : ¬ ["update"] <+: q) : (copies name w'.fs).active q = leftCopy e w.fs name q := by
  unfold applyHotplug at hrun
  split_ifs at hrun
  · obtain ⟨optIn, w₁, hlook, hrun⟩ := Prog.run_bind_some hrun
    obtain ⟨hoptIn, rfl⟩ := run_pathExists hlook
    rw [leftCopy, ← hoptIn]
    cases optIn with
    | false =>
      exact run_finish (within_applyPreference (finishScope_markers name) (finishScope_update name) _ _)
        hrun q hq
    | true =>
      rw [if_pos rfl]
      rw [run_applyEnabled hrun hq]
      split_ifs <;> rfl
  · exact absurd hrun run_error

/-! ### What is served -/

/-- With its switch on, an active copy is served if it carries no flag. -/
theorem served_iff_unflagged (hopt : optedIn fs name = true)
    (hcarries : carries fs (activeDir name) arch = true) :
    (∃ d, (name, d) ∈ eligibleIn fs arch) ↔ flagged fs (activeDir name) = false := by
  have hrec : activeRecorded fs arch name = true := by
    rw [activeRecorded, hcarries, unplugged, hopt, Bool.not_true, Bool.and_false]
    rfl
  constructor
  · rintro ⟨d, hmem⟩
    rcases (mem_eligibleIn fs arch).1 hmem with ⟨-, -, hnot⟩ | ⟨-, -, -, hflagged⟩
    · rw [hrec] at hnot
      exact Bool.eq_false_iff.2 fun hf => hnot ⟨rfl, hf⟩
    · exact hflagged
  · intro hflagged
    cases hs : stagedServed fs arch name with
    | true =>
      refine ⟨_, (mem_eligibleIn fs arch).2 (.inl ⟨hs, rfl, ?_⟩)⟩
      rw [hflagged]
      exact fun h => absurd h.2 Bool.false_ne_true
    | false => exact ⟨_, (mem_eligibleIn fs arch).2 (.inr ⟨hs, rfl, hrec, hflagged⟩)⟩

/-- The copy left behind carries no flag, or no library. -/
def LeavesServed (e : Env) (fs : FileTree) (name : String) : Prop :=
  flagsAt (leftCopy e fs name) = false ∨
    ∀ arch, (leftCopy e fs name ["zygisk", arch ++ ".so"]).isSome = false

/-- A request that reports success has the module served for every library it left in the active
directory, if the copy it took carries no flag. -/
theorem applyHotplug_served_iff (e : Env) (name : String) {w w' : World}
    (hopt : optedIn w.fs name = true)
    (hrun : Prog.run exec e (applyHotplug name) w = some (.ok (), w')) :
    (∀ arch, carries w'.fs (activeDir name) arch = true → ∃ d, (name, d) ∈ eligibleIn w'.fs arch) ↔
      LeavesServed e w.fs name := by
  have hopt' : optedIn w'.fs name = true := by
    have hget := run_within (applyScope_optIn name) (within_applyHotplug (applyScope_applies name)) hrun
    rw [optedIn, FileTree.present, hget]
    exact hopt
  have hleft : ∀ {q : FilePath}, ¬ ["update"] <+: q → (copies name w'.fs).active q = leftCopy e w.fs name q :=
    fun hq => run_applyHotplug hrun hq
  have hflags : flagged w'.fs (activeDir name) = flagsAt (leftCopy e w.fs name) := by
    rw [flagsAt, ← hleft (by decide), ← hleft (by decide)]
    rfl
  have hcarries : ∀ arch, carries w'.fs (activeDir name) arch =
      (leftCopy e w.fs name ["zygisk", arch ++ ".so"]).isSome := by
    intro arch
    rw [← hleft (by simp)]
    rfl
  constructor
  · intro h
    rw [LeavesServed, or_iff_not_imp_right]
    intro hlib
    obtain ⟨arch, harch⟩ := not_forall.1 hlib
    rw [Bool.not_eq_false, ← hcarries] at harch
    rw [← hflags]
    exact (served_iff_unflagged hopt' harch).1 (h arch harch)
  · rintro (hunflagged | hlib) arch harch
    · rw [← hflags] at hunflagged
      exact (served_iff_unflagged hopt' harch).2 hunflagged
    · rw [hcarries, hlib] at harch
      exact absurd harch Bool.false_ne_true

/-- The live loader of the system server waits for its signal. -/
def Env.waiting : Env := { Env.fine with caughtSignals := (1 : UInt64) <<< 39 }

/-- An update that is switched on, with one more file. -/
def stagedUpdate (extra : String) : FileTree :=
  .ofFiles [(hotplugOptIn "m", ""), (activeDir "m" ++ ["module.prop"], "id=m"),
    (librarySo (activeDir "m") "arm64-v8a", "old"), (stagedDir "m" ++ ["module.prop"], "id=m"),
    (librarySo (stagedDir "m") "arm64-v8a", "new"), (stagedDir "m" ++ [extra], "")]

/-- The world after the request, if it reports success. -/
def applied (e : Env) (name : String) (fs : FileTree) : Option World :=
  (Prog.run exec e (applyHotplug name) (.idle fs)).bind fun z => if z.1 = .ok () then some z.2 else none

theorem applied_eq_some (h : applied e name fs = some w') :
    Prog.run exec e (applyHotplug name) (.idle fs) = some (.ok (), w') := by
  obtain ⟨⟨r, w⟩, hrun, hr⟩ := Option.bind_eq_some_iff.1 h
  split_ifs at hr with hok
  obtain rfl : r = .ok () := hok
  obtain rfl := Option.some.inj hr
  exact hrun

theorem applyHotplug_served_update : ∃ w',
    Prog.run exec .waiting (applyHotplug "m") (.idle (stagedUpdate "action.sh")) = some (.ok (), w') ∧
      carries w'.fs (activeDir "m") "arm64-v8a" = true ∧
      ∀ arch, carries w'.fs (activeDir "m") arch = true → ∃ d, ("m", d) ∈ eligibleIn w'.fs arch := by
  have happlied : (applied .waiting "m" (stagedUpdate "action.sh")).any
      (fun w => carries w.fs (activeDir "m") "arm64-v8a") = true := by decide
  obtain ⟨w', hw, hlib⟩ := (Option.any_eq_true _ _).1 happlied
  have hrun := applied_eq_some hw
  refine ⟨w', hrun, hlib, (applyHotplug_served_iff .waiting "m" ?_ hrun).2 (.inl ?_)⟩
  · show optedIn (stagedUpdate "action.sh") "m" = true
    decide
  · show flagsAt (leftCopy .waiting (stagedUpdate "action.sh") "m") = false
    decide

/-- The update is disabled: it is swapped in, the request reports success, and no scan serves it. -/
theorem applyHotplug_disabledUpdate : ¬ ∀ (e : Env) (name : String) (w w' : World),
    optedIn w.fs name = true → Prog.run exec e (applyHotplug name) w = some (.ok (), w') →
      ∀ arch, carries w'.fs (activeDir name) arch = true → ∃ d, (name, d) ∈ eligibleIn w'.fs arch := by
  intro h
  have happlied : (applied .waiting "m" (stagedUpdate "disable")).any
      (fun w => carries w.fs (activeDir "m") "arm64-v8a" &&
        (eligibleIn w.fs "arm64-v8a").all fun m => m.1 ≠ "m") = true := by decide
  obtain ⟨w', hw, hlib⟩ := (Option.any_eq_true _ _).1 happlied
  rw [Bool.and_eq_true, List.all_eq_true] at hlib
  obtain ⟨d, hd⟩ := h .waiting "m" (.idle (stagedUpdate "disable")) w' (by decide) (applied_eq_some hw)
    "arm64-v8a" hlib.1
  exact absurd (hlib.2 _ hd) (by simp)

end OnyxZygisk.Daemon
