import OnyxZygisk.Loader.Fork

/-!
# The clean namespace and the loader's unmount

The daemon's `clean_mount_namespace` and the loader's `check_zygote_traces` choose what to unmount from a
mount table. With KernelSU both look for the loop device the modules are mounted from: the loader for the
first loop mount at the modules' directory, the daemon at the first mount there, whatever it is
(`traces_cleaned_iff`).
-/

namespace OnyxZygisk.Daemon

open Loader (MountInfo startsWith)

def rootSources : List String := ["magisk", "KSU", "APatch", "kpatch"]

/-- `mount_source`: a mount without a source is printed as `none`. -/
def mountSource (info : MountInfo) : Option String :=
  if info.source = "none" then none else some info.source

def ksuModuleSource (impl : RootImpl) (mounts : List MountInfo) : Option String :=
  if impl = .kernelSU then
    ((mounts.find? fun info => info.target = "/data/adb/modules").bind mountSource).filter fun source =>
      startsWith source "/dev/block/loop"
  else none

def shouldUnmount (impl : RootImpl) (mounts : List MountInfo) (info : MountInfo) : Bool :=
  startsWith info.root "/adb/modules" || startsWith info.target "/data/adb/modules" ||
    (mountSource info).any rootSources.contains ||
    ((ksuModuleSource impl mounts).isSome && mountSource info = ksuModuleSource impl mounts)

/-- What `clean_mount_namespace` unmounts, in its order. -/
def unmountTargets (impl : RootImpl) (mounts : List MountInfo) : List MountInfo :=
  (mounts.filter (shouldUnmount impl mounts)).insertionSort fun a b => b.id ≤ a.id

end OnyxZygisk.Daemon

namespace OnyxZygisk.Loader

open Daemon (RootImpl RootPolicy handleGetProcessFlags unmountTargets shouldUnmount ksuModuleSource
  mountSource rootSources)

/-- The first mount at the modules' directory. -/
def modulesMount (mounts : List MountInfo) : Option MountInfo :=
  mounts.find? fun info => info.target = "/data/adb/modules"

/-- The first loop mount there. -/
def modulesLoopMount (mounts : List MountInfo) : Option MountInfo :=
  mounts.find? fun info => info.target = "/data/adb/modules" && startsWith info.source "/dev/block/loop"

/-- A mount that is known as a module's by its paths. -/
def IsModulePath (info : MountInfo) : Prop :=
  startsWith info.root "/adb/modules" = true ∨ startsWith info.target "/data/adb/modules" = true

/-- The first mount at the modules' directory is a loop mount when there is one at all, or the paths tell
all the mounts of the loop device. -/
def LoopFirst (mounts : List MountInfo) : Prop :=
  ∀ first, modulesMount mounts = some first → ∀ loop, modulesLoopMount mounts = some loop →
    startsWith first.source "/dev/block/loop" = true ∨
      ∀ info ∈ mounts, info.source = loop.source → IsModulePath info

variable {impl : RootImpl} {mounts : List MountInfo} {info : MountInfo}

/-! ### The two selections -/

/-- The source by which the loader knows a root solution's own mounts. -/
def implSourceName : RootImpl → Option String
  | .aPatch => some "APatch"
  | .kernelSU => some "KSU"
  | .magisk => some "magisk"
  | _ => none

theorem mountSourceName_flags (root : RootPolicy) (mode : Option String) (uid : Nat) :
    mountSourceName (handleGetProcessFlags root mode uid) = implSourceName root.impl := by
  obtain ⟨impl, isManager, grantedRoot, shouldUmount⟩ := root
  cases impl <;> rfl

theorem kernelSuModuleSource_flags (root : RootPolicy) (mode : Option String) (uid : Nat) :
    kernelSuModuleSource (handleGetProcessFlags root mode uid) mounts =
      if root.impl = .kernelSU then (modulesLoopMount mounts).map MountInfo.source else none := by
  rw [kernelSuModuleSource, mountSourceName_flags]
  obtain ⟨impl, isManager, grantedRoot, shouldUmount⟩ := root
  cases impl <;> rfl

theorem mem_checkZygoteTraces (root : RootPolicy) (mode : Option String) (uid : Nat) :
    info ∈ checkZygoteTraces (handleGetProcessFlags root mode uid) mounts ↔
      info ∈ mounts ∧ ∃ name, implSourceName root.impl = some name ∧
        (IsModulePath info ∨ info.source = name ∨
          root.impl = .kernelSU ∧ ∃ loop, modulesLoopMount mounts = some loop ∧
            loop.source = info.source) := by
  rw [checkZygoteTraces, mountSourceName_flags, kernelSuModuleSource_flags]
  unfold IsModulePath
  cases implSourceName root.impl with
  | none => simp
  | some name =>
    by_cases hksu : root.impl = .kernelSU
    · simp [hksu, List.mem_insertionSort, or_assoc]
    · simp [hksu, List.mem_insertionSort, or_assoc]

theorem implSourceName_mem {name : String} (h : implSourceName impl = some name) :
    name ∈ rootSources := by
  cases impl with
  | aPatch | kernelSU | magisk =>
    obtain rfl := Option.some.inj h
    decide
  | none | tooOld | multiple => cases h

theorem ksuModuleSource_eq (impl : RootImpl) (mounts : List MountInfo) : ksuModuleSource impl mounts =
    if impl = .kernelSU then
      ((modulesMount mounts).map MountInfo.source).filter (startsWith · "/dev/block/loop")
    else none := by
  unfold ksuModuleSource
  split
  · show ((modulesMount mounts).bind mountSource).filter _ = _
    cases modulesMount mounts with
    | none => rfl
    | some first =>
      simp only [Option.bind_some, mountSource, Option.map_some]
      split
      · rename_i hnone
        rw [hnone]
        decide
      · rfl
  · rfl

theorem mem_unmountTargets : info ∈ unmountTargets impl mounts ↔
    info ∈ mounts ∧ (IsModulePath info ∨ info.source ∈ rootSources ∨
      impl = .kernelSU ∧ ∃ first, modulesMount mounts = some first ∧
        startsWith first.source "/dev/block/loop" = true ∧ first.source = info.source) := by
  rw [unmountTargets, List.mem_insertionSort, List.mem_filter, shouldUnmount, ksuModuleSource_eq]
  unfold IsModulePath mountSource
  by_cases hnone : info.source = "none"
  · have hsource : "none" ∉ rootSources := by decide
    have hloop : startsWith "none" "/dev/block/loop" = false := by decide
    simp [hnone, hsource]
    grind
  · by_cases hksu : impl = .kernelSU
    · cases hfirst : modulesMount mounts with
      | none => simp [hnone, hksu, or_assoc]
      | some first =>
        by_cases hloop : startsWith first.source "/dev/block/loop" = true
        · have hkeep : Option.filter (startsWith · "/dev/block/loop") (some first.source) =
              some first.source := if_pos hloop
          simp [hnone, hksu, hloop, hkeep, or_assoc, @eq_comm _ info.source first.source]
        · simp [hnone, hksu, hloop, or_assoc]
    · simp [hnone, hksu, or_assoc]

/-! ### Their agreement -/

theorem modulesMount_of_loop {loop : MountInfo} (h : modulesLoopMount mounts = some loop) :
    ∃ first, modulesMount mounts = some first := by
  rw [← Option.isSome_iff_exists, modulesMount, List.find?_isSome]
  have hloop := List.find?_some h
  simp only [Bool.and_eq_true] at hloop
  exact ⟨loop, List.mem_of_find?_eq_some h, hloop.1⟩

/-- A loop mount that comes first is the first loop mount. -/
theorem modulesLoopMount_of_first {first : MountInfo} (h : modulesMount mounts = some first)
    (hloop : startsWith first.source "/dev/block/loop" = true) : modulesLoopMount mounts = some first := by
  obtain ⟨htarget, before, after, rfl, hbefore⟩ := List.find?_eq_some_iff_append.1 h
  refine List.find?_eq_some_iff_append.2 ⟨by rw [htarget, hloop]; rfl, before, after, rfl, ?_⟩
  intro info hinfo
  have htarget := hbefore info hinfo
  simp only [Bool.not_eq_true'] at htarget
  rw [htarget]
  rfl

/-- Whatever the table and the root solution, the loader unmounts nothing but what the daemon unmounts too,
unless KernelSU has a loop mount at the modules' directory behind another mount there, and something from
that loop device shows no module path. -/
theorem traces_cleaned_iff (root : RootPolicy) (mode : Option String) (uid : Nat)
    (mounts : List MountInfo) :
    checkZygoteTraces (handleGetProcessFlags root mode uid) mounts ⊆ unmountTargets root.impl mounts ↔
      (root.impl = .kernelSU → LoopFirst mounts) := by
  constructor
  · intro hsub hksu first hfirst loop hloop
    by_cases hdev : startsWith first.source "/dev/block/loop" = true
    · exact .inl hdev
    · right
      intro info hinfo hsource
      have htrace : info ∈ checkZygoteTraces (handleGetProcessFlags root mode uid) mounts :=
        (mem_checkZygoteTraces root mode uid).2
          ⟨hinfo, "KSU", by rw [hksu]; rfl, .inr (.inr ⟨hksu, loop, hloop, hsource.symm⟩)⟩
      obtain ⟨_, hpath | hown | ⟨_, first', hfirst', hdev', _⟩⟩ := mem_unmountTargets.1 (hsub htrace)
      · exact hpath
      · have hstart := List.find?_some hloop
        simp only [Bool.and_eq_true] at hstart
        have hno : ∀ s ∈ rootSources, startsWith s "/dev/block/loop" = false := by decide
        rw [← hsource, hno _ hown] at hstart
        exact absurd hstart.2 (by decide)
      · obtain rfl := Option.some.inj (hfirst.symm.trans hfirst')
        exact absurd hdev' hdev
  · intro hfirst info htrace
    obtain ⟨hinfo, name, hname, hpath | hown | ⟨hksu, loop, hloop, hsource⟩⟩ :=
      (mem_checkZygoteTraces root mode uid).1 htrace
    · exact mem_unmountTargets.2 ⟨hinfo, .inl hpath⟩
    · exact mem_unmountTargets.2 ⟨hinfo, .inr (.inl (hown ▸ implSourceName_mem hname))⟩
    · obtain ⟨first, hmount⟩ := modulesMount_of_loop hloop
      rcases hfirst hksu first hmount loop hloop with hdev | hpath
      · have heq := modulesLoopMount_of_first hmount hdev
        obtain rfl := Option.some.inj (heq.symm.trans hloop)
        exact mem_unmountTargets.2 ⟨hinfo, .inr (.inr ⟨hksu, first, hmount, hdev, hsource⟩)⟩
      · exact mem_unmountTargets.2 ⟨hinfo, .inl (hpath info hinfo hsource.symm)⟩

/-- The modules' image is mounted over another mount at its directory, and a file of it elsewhere. -/
theorem traces_left_mounted :
    let mounts : List MountInfo :=
      [⟨40, "/data/modules", "/data/adb/modules", "/dev/block/dm-40"⟩,
        ⟨41, "/", "/data/adb/modules", "/dev/block/loop7"⟩,
        ⟨42, "/font/system/fonts", "/system/fonts", "/dev/block/loop7"⟩]
    let root : RootPolicy := ⟨.kernelSU, fun _ => false, fun _ => false, fun _ => true⟩
    ¬ checkZygoteTraces (handleGetProcessFlags root none 10123) mounts ⊆
      unmountTargets root.impl mounts := by
  decide

end OnyxZygisk.Loader
