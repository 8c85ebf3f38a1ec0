import OnyxZygisk.Loader.Fork

/-!
# The mount mode from fork to fork

The first fork in revert mode takes the module mounts out of the zygote's namespace for good. A later
fork in one of the other modes finds them gone: there a trusted app inherits the zygote's namespace as it
is, and only the revert branch of the `unshare` hook brings the mounts back (`mountMode_run_iff`).
-/

namespace OnyxZygisk.Loader

open Daemon (ProcessFlags RootImpl MountMode mountModeFlag handleGetProcessFlags)

/-! ### The unshare hook -/

inductive MountNamespace where
  | clean
  | root
  deriving DecidableEq

/-- `new_unshare` in an app that unshares its mount namespace: the namespace it enters first. -/
def newUnshare (zygoteUnmounted : Bool) (child : Child) : Option MountNamespace :=
  if child.infoFlags.mountModeGlobal then none
  else
    let shouldUnmount :=
      !(child.infoFlags.isManager || child.infoFlags.grantedRoot) && child.doRevertUnmount
    if child.infoFlags.mountModeSetns then
      if shouldUnmount then some .clean else none
    else if !shouldUnmount && zygoteUnmounted then some .root
    else none

/-- The root solution's flags. -/
def implFlags (impl : RootImpl) : ProcessFlags where
  rootIsApatch := impl = .aPatch
  rootIsKsu := impl = .kernelSU
  rootIsMagisk := impl = .magisk

/-- What the zygote's namespace holds at the start, and the namespaces the daemon has cached. The root
namespace has the module mounts. -/
structure Namespaces where
  impl : RootImpl
  zygote : List MountInfo
  root : List MountInfo
  clean : List MountInfo
  root_mounted : checkZygoteTraces (implFlags impl) zygote ⊆ root

def Namespaces.moduleMounts (ns : Namespaces) : List MountInfo :=
  checkZygoteTraces (implFlags ns.impl) ns.zygote

/-- A fork: the root solution's verdict on the app, the mount mode file at that time, and whether a module
of the app asks for `FORCE_DENYLIST_UNMOUNT`. -/
structure AppFork where
  app : AppArgs
  isManager : Bool
  grantedRoot : Bool
  shouldUmount : Bool
  mountMode : Option String
  forceUnmount : Bool

def AppFork.flags (impl : RootImpl) (f : AppFork) : ProcessFlags :=
  handleGetProcessFlags ⟨impl, fun _ => f.isManager, fun _ => f.grantedRoot, fun _ => f.shouldUmount⟩
    f.mountMode f.app.uid

/-- Where an app ended. -/
structure Outcome where
  fork : AppFork
  entered : Option MountNamespace
  mounts : List MountInfo

/-- A fork with the daemon there, every `umount2` succeeding and both namespaces cached. -/
def forkApp (ns : Namespaces) (z : Zygote) (f : AppFork) : Zygote × Outcome :=
  let pre := nativeForkAndSpecializePre (some fun _ => f.flags ns.impl) (fun _ => true) f.app z
  let child := { pre.2 with doRevertUnmount := pre.2.doRevertUnmount || f.forceUnmount }
  let entered := newUnshare pre.1.zygoteUnmounted child
  (pre.1, {
    fork := f
    entered := entered
    mounts := match entered with
      | some .clean => ns.clean
      | some .root => ns.root
      | none => pre.1.mounts })

def Namespaces.freshZygote (ns : Namespaces) : Zygote := ⟨false, [], ns.zygote⟩

def forkApps (ns : Namespaces) (z : Zygote) : List AppFork → List Outcome
  | [] => []
  | f :: fs => (forkApp ns z f).2 :: forkApps ns (forkApp ns z f).1 fs

/-! ### What the modes promise -/

def AppFork.mode (f : AppFork) : MountMode := mountModeFlag f.mountMode

/-- An app whose mounts are to be hidden. -/
def AppFork.toUnmount (impl : RootImpl) (f : AppFork) : Bool :=
  ((f.flags impl).onDenylist || f.forceUnmount) &&
    !((f.flags impl).isManager || (f.flags impl).grantedRoot)

/-- A trusted app sees every module mount, a hidden one that is forked in setns mode is in the clean
namespace. -/
def Outcome.Good (ns : Namespaces) (o : Outcome) : Prop :=
  (o.fork.toUnmount ns.impl = false → ns.moduleMounts ⊆ o.mounts) ∧
    (o.fork.toUnmount ns.impl = true → o.fork.mode = .setns → o.entered = some .clean)

/-- There are module mounts, and none of them keeps the zygote from being unmounted. -/
def Namespaces.Unmountable (ns : Namespaces) : Prop :=
  abortZygoteUnmount ns.moduleMounts (implFlags ns.impl) = false

variable {ns : Namespaces} {f : AppFork} {z : Zygote}

/-! ### One fork -/

theorem mountModeSetns_flags (impl : RootImpl) (f : AppFork) :
    (f.flags impl).mountModeSetns = decide (f.mode = .setns) := rfl

theorem mountModeGlobal_flags (impl : RootImpl) (f : AppFork) :
    (f.flags impl).mountModeGlobal = decide (f.mode = .global) := rfl

theorem checkZygoteTraces_flags (impl : RootImpl) (f : AppFork) (mounts : List MountInfo) :
    checkZygoteTraces (f.flags impl) mounts = checkZygoteTraces (implFlags impl) mounts := rfl

theorem abortZygoteUnmount_flags (impl : RootImpl) (f : AppFork) (traces : List MountInfo) :
    abortZygoteUnmount traces (f.flags impl) = abortZygoteUnmount traces (implFlags impl) := rfl

theorem infoFlags_fork (ns : Namespaces) (f : AppFork) (z : Zygote) :
    (nativeForkAndSpecializePre (some fun _ => f.flags ns.impl) (fun _ => true) f.app z).2.infoFlags =
      f.flags ns.impl := by
  rw [infoFlags_eq]
  split <;> rfl

theorem doRevertUnmount_fork (ns : Namespaces) (f : AppFork) (z : Zygote) :
    (nativeForkAndSpecializePre (some fun _ => f.flags ns.impl) (fun _ => true) f.app
      z).2.doRevertUnmount = (f.flags ns.impl).onDenylist :=
  congrArg ProcessFlags.onDenylist (infoFlags_fork ns f z)

/-- The namespace an app enters, by its mode. -/
theorem entered_forkApp (ns : Namespaces) (z : Zygote) (f : AppFork) :
    (forkApp ns z f).2.entered = match f.mode with
      | .global => none
      | .setns => if f.toUnmount ns.impl then some .clean else none
      | .revert => if !f.toUnmount ns.impl && (forkApp ns z f).1.zygoteUnmounted then some .root
        else none := by
  have hshould : (!((f.flags ns.impl).isManager || (f.flags ns.impl).grantedRoot) &&
      ((f.flags ns.impl).onDenylist || f.forceUnmount)) = f.toUnmount ns.impl :=
    Bool.and_comm _ _
  show newUnshare _ _ = _
  rw [newUnshare]
  dsimp only
  rw [infoFlags_fork, doRevertUnmount_fork, hshould, mountModeGlobal_flags, mountModeSetns_flags]
  cases hmode : f.mode <;> rfl

/-- The zygote after a fork in revert mode: without its module mounts, or as it was if they cannot be
unmounted. -/
def Namespaces.revertedZygote (ns : Namespaces) : Zygote :=
  if abortZygoteUnmount ns.moduleMounts (implFlags ns.impl) then ⟨false, ns.moduleMounts, ns.zygote⟩
  else ⟨true, [], ns.zygote.filter fun m => !(ns.moduleMounts.contains m && true)⟩

theorem zygote_forkApp (ns : Namespaces) (z : Zygote) (f : AppFork) :
    (forkApp ns z f).1 = (unmountZygote (some fun _ => f.flags ns.impl) (fun _ => true) f.app z).1 := rfl

theorem forkApp_fresh_revert (h : f.mode = .revert) :
    (forkApp ns ns.freshZygote f).1 = ns.revertedZygote := by
  have hpre : ns.freshZygote.prefetches = true := rfl
  have hnone : ns.moduleMounts.filter (fun _ => !true) = [] := by
    rw [List.filter_eq_nil_iff]
    exact fun _ _ => Bool.false_ne_true
  rw [zygote_forkApp, unmountZygote, if_pos hpre]
  dsimp only
  rw [getProcessFlags, mountModeSetns_flags, mountModeGlobal_flags, h, checkZygoteTraces_flags,
    abortZygoteUnmount_flags, Namespaces.revertedZygote]
  show (if abortZygoteUnmount ns.moduleMounts (implFlags ns.impl) then _ else _ : Zygote × _).1 = _
  split
  · rfl
  · show Zygote.mk true (ns.moduleMounts.filter fun _ => !true) _ = _
    rw [hnone]
    rfl

theorem forkApp_fresh_other (h : f.mode ≠ .revert) :
    (forkApp ns ns.freshZygote f).1 = ns.freshZygote := by
  have hpre : ns.freshZygote.prefetches = true := rfl
  have hmode : (decide (f.mode = .setns) || decide (f.mode = .global)) = true := by
    cases hmode : f.mode with
    | revert => exact absurd hmode h
    | setns => rfl
    | global => rfl
  rw [zygote_forkApp, unmountZygote, if_pos hpre]
  dsimp only
  rw [getProcessFlags, mountModeSetns_flags, mountModeGlobal_flags, if_pos hmode]

theorem forkApp_of_not_prefetches (h : z.prefetches = false) (f : AppFork) :
    (forkApp ns z f).1 = z := by
  rw [zygote_forkApp, unmountZygote, if_neg (by rw [h]; exact Bool.false_ne_true)]

/-- After a fork in revert mode the zygote does not change any more. -/
theorem forkApp_reverted (ns : Namespaces) (f : AppFork) :
    (forkApp ns ns.revertedZygote f).1 = ns.revertedZygote := by
  by_cases habort : abortZygoteUnmount ns.moduleMounts (implFlags ns.impl) = true
  · have hz : ns.revertedZygote = ⟨false, ns.moduleMounts, ns.zygote⟩ := if_pos habort
    by_cases hempty : ns.moduleMounts = []
    · have hfresh : ns.revertedZygote = ns.freshZygote := by
        rw [hz, hempty]
        rfl
      by_cases hmode : f.mode = .revert
      · conv_lhs => rw [hfresh]
        exact forkApp_fresh_revert hmode
      · rw [hfresh]
        exact forkApp_fresh_other hmode
    · apply forkApp_of_not_prefetches
      rw [hz, Zygote.prefetches, List.isEmpty_eq_false_iff.2 hempty]
      rfl
  · have hz : ns.revertedZygote = ⟨true, [], _⟩ := if_neg habort
    apply forkApp_of_not_prefetches
    rw [hz]
    rfl

/-! ### Outcomes -/

theorem mounts_forkApp_none (h : (forkApp ns z f).2.entered = none) :
    (forkApp ns z f).2.mounts = (forkApp ns z f).1.mounts := by
  have heq : newUnshare _ _ = none := h
  show (match newUnshare _ _ with
    | some .clean => ns.clean
    | some .root => ns.root
    | none => (forkApp ns z f).1.mounts) = _
  rw [heq]

theorem mounts_forkApp_root (h : (forkApp ns z f).2.entered = some .root) :
    (forkApp ns z f).2.mounts = ns.root := by
  have heq : newUnshare _ _ = some .root := h
  show (match newUnshare _ _ with
    | some .clean => ns.clean
    | some .root => ns.root
    | none => (forkApp ns z f).1.mounts) = _
  rw [heq]

theorem moduleMounts_subset (ns : Namespaces) : ns.moduleMounts ⊆ ns.zygote := by
  rw [Namespaces.moduleMounts, checkZygoteTraces]
  split
  · exact List.nil_subset _
  · intro m hm
    rw [List.mem_insertionSort] at hm
    exact List.mem_of_mem_filter hm

/-- An app to be hidden ends as promised whatever came before. -/
theorem good_of_toUnmount (h : f.toUnmount ns.impl = true) : (forkApp ns z f).2.Good ns := by
  refine ⟨fun hnot => ?_, fun _ hmode => ?_⟩
  · have hnot' : f.toUnmount ns.impl = false := hnot
    rw [h] at hnot'
    exact absurd hnot'.symm Bool.false_ne_true
  · have hmode' : f.mode = .setns := hmode
    rw [entered_forkApp, hmode']
    exact if_pos h

theorem good_iff_of_trusted (h : f.toUnmount ns.impl = false) :
    (forkApp ns z f).2.Good ns ↔ ns.moduleMounts ⊆ (forkApp ns z f).2.mounts := by
  refine ⟨fun hgood => hgood.1 h, fun hmounts => ⟨fun _ => hmounts, fun hun => ?_⟩⟩
  have hun' : f.toUnmount ns.impl = true := hun
  rw [h] at hun'
  exact absurd hun' Bool.false_ne_true

/-- While the zygote has its mounts, every app ends as promised. -/
theorem good_of_mounted (hz : ns.zygote ⊆ (forkApp ns z f).1.mounts) : (forkApp ns z f).2.Good ns := by
  cases htrust : f.toUnmount ns.impl with
  | true => exact good_of_toUnmount htrust
  | false =>
    rw [good_iff_of_trusted htrust]
    have hentered := entered_forkApp ns z f
    rw [htrust] at hentered
    cases hent : (forkApp ns z f).2.entered with
    | none =>
      rw [mounts_forkApp_none hent]
      exact fun m hm => hz (moduleMounts_subset ns hm)
    | some kind =>
      cases kind with
      | root =>
        rw [mounts_forkApp_root hent]
        exact ns.root_mounted
      | clean =>
        rw [hent] at hentered
        cases hmode : f.mode with
        | revert =>
          rw [hmode] at hentered
          dsimp only at hentered
          split at hentered <;> cases hentered
        | setns =>
          rw [hmode] at hentered
          cases hentered
        | global =>
          rw [hmode] at hentered
          cases hentered

/-- In revert mode a trusted app of an unmounted zygote enters the root namespace. -/
theorem good_of_revert (hmode : f.mode = .revert)
    (hz : (forkApp ns z f).1.zygoteUnmounted = true) : (forkApp ns z f).2.Good ns := by
  cases htrust : f.toUnmount ns.impl with
  | true => exact good_of_toUnmount htrust
  | false =>
    have hentered : (forkApp ns z f).2.entered = some .root := by
      rw [entered_forkApp, hmode, htrust, hz]
      rfl
    rw [good_iff_of_trusted htrust, mounts_forkApp_root hentered]
    exact ns.root_mounted

theorem revertedZygote_aborted (h : ¬ ns.Unmountable) :
    ns.revertedZygote = ⟨false, ns.moduleMounts, ns.zygote⟩ := by
  rw [Namespaces.Unmountable, Bool.not_eq_false] at h
  exact if_pos h

theorem revertedZygote_unmounted (h : ns.Unmountable) : ns.revertedZygote =
    ⟨true, [], ns.zygote.filter fun m => !(ns.moduleMounts.contains m && true)⟩ := by
  apply if_neg
  rw [h]
  exact Bool.false_ne_true

/-- A zygote that was unmounted lacks a module mount. -/
theorem not_subset_unmounted (h : ns.Unmountable) :
    ¬ ns.moduleMounts ⊆ ns.revertedZygote.mounts := by
  intro hsub
  rw [revertedZygote_unmounted h] at hsub
  cases hmounts : ns.moduleMounts with
  | nil =>
    rw [Namespaces.Unmountable, hmounts] at h
    exact absurd h.symm Bool.false_ne_true
  | cons m ms =>
    have hm : m ∈ ns.moduleMounts := by
      rw [hmounts]
      exact List.mem_cons_self
    have hkept := List.of_mem_filter (hsub hm)
    rw [List.contains_iff_mem.2 hm] at hkept
    exact Bool.false_ne_true hkept

/-- What becomes of an app that is forked after a fork in revert mode. -/
theorem good_reverted_iff (ns : Namespaces) (f : AppFork) :
    (forkApp ns ns.revertedZygote f).2.Good ns ↔
      (ns.Unmountable → f.mode = .revert ∨ f.toUnmount ns.impl = true) := by
  have hz := forkApp_reverted ns f
  by_cases hun : ns.Unmountable
  · constructor
    · intro hgood _
      by_contra hnot
      rw [not_or, Bool.not_eq_true] at hnot
      obtain ⟨hmode, htrust⟩ := hnot
      have hentered : (forkApp ns ns.revertedZygote f).2.entered = none := by
        rw [entered_forkApp, htrust]
        cases hm : f.mode with
        | revert => exact absurd hm hmode
        | setns => rfl
        | global => rfl
      rw [good_iff_of_trusted htrust, mounts_forkApp_none hentered, hz] at hgood
      exact not_subset_unmounted hun hgood
    · intro h
      obtain hmode | htrust := h hun
      · apply good_of_revert hmode
        rw [hz, revertedZygote_unmounted hun]
      · exact good_of_toUnmount htrust
  · refine ⟨fun _ h => absurd h hun, fun _ => good_of_mounted ?_⟩
    rw [hz, revertedZygote_aborted hun]
    exact List.Subset.refl _

theorem good_fresh (ns : Namespaces) (f : AppFork) : (forkApp ns ns.freshZygote f).2.Good ns := by
  by_cases hmode : f.mode = .revert
  · have hz : (forkApp ns ns.freshZygote f).1 = ns.revertedZygote := forkApp_fresh_revert hmode
    by_cases hun : ns.Unmountable
    · apply good_of_revert hmode
      rw [hz, revertedZygote_unmounted hun]
    · apply good_of_mounted
      rw [hz, revertedZygote_aborted hun]
      exact List.Subset.refl _
  · apply good_of_mounted
    rw [forkApp_fresh_other hmode]
    exact List.Subset.refl _

/-! ### Runs -/

/-- Behind a fork in revert mode, a fork in another mode hides its app. -/
def Keeps (impl : RootImpl) (g f : AppFork) : Prop :=
  g.mode = .revert → f.mode = .revert ∨ f.toUnmount impl = true

theorem good_forkApps_reverted (ns : Namespaces) (fs : List AppFork) :
    (∀ o ∈ forkApps ns ns.revertedZygote fs, o.Good ns) ↔
      (ns.Unmountable → ∀ f ∈ fs, f.mode = .revert ∨ f.toUnmount ns.impl = true) := by
  induction fs with
  | nil => exact ⟨fun _ _ f hf => absurd hf List.not_mem_nil, fun _ o ho => absurd ho List.not_mem_nil⟩
  | cons f fs ih =>
    rw [forkApps, List.forall_mem_cons, forkApp_reverted, ih, good_reverted_iff, ← imp_and,
      List.forall_mem_cons]

/-- Over every sequence of forks, all apps end as promised exactly if no fork of a trusted app in setns or
global mode comes after one in revert mode, or the zygote cannot be unmounted. -/
theorem mountMode_run_iff (ns : Namespaces) (fs : List AppFork) :
    (∀ o ∈ forkApps ns ns.freshZygote fs, o.Good ns) ↔
      (ns.Unmountable → fs.Pairwise (Keeps ns.impl)) := by
  induction fs with
  | nil => exact ⟨fun _ _ => List.Pairwise.nil, fun _ o ho => absurd ho List.not_mem_nil⟩
  | cons f fs ih =>
    rw [forkApps, List.forall_mem_cons, List.pairwise_cons]
    by_cases hmode : f.mode = .revert
    · have hrest : (∀ g ∈ fs, Keeps ns.impl f g) ↔
          ∀ g ∈ fs, g.mode = .revert ∨ g.toUnmount ns.impl = true := by
        constructor
        · exact fun h g hg => h g hg hmode
        · exact fun h g hg _ => h g hg
      have hpair : (∀ g ∈ fs, g.mode = .revert ∨ g.toUnmount ns.impl = true) →
          fs.Pairwise (Keeps ns.impl) := by
        intro h
        rw [List.pairwise_iff_forall_sublist]
        intro g g' hsub _
        exact h g' (hsub.subset (List.mem_cons_of_mem g List.mem_cons_self))
      rw [forkApp_fresh_revert hmode, good_forkApps_reverted, hrest]
      constructor
      · exact fun h hun => ⟨h.2 hun, hpair (h.2 hun)⟩
      · exact fun h => ⟨good_fresh ns f, fun hun => (h hun).1⟩
    · have hkeeps : ∀ g ∈ fs, Keeps ns.impl f g := fun _ _ h => absurd h hmode
      rw [forkApp_fresh_other hmode, ih]
      constructor
      · exact fun h hun => ⟨hkeeps, h.2 hun⟩
      · exact fun h => ⟨good_fresh ns f, fun hun => (h hun).2⟩

/-- A KernelSU device with one module mount. -/
def ksuNamespaces : Namespaces where
  impl := .kernelSU
  zygote := [⟨1, "/", "/", "rootfs"⟩, ⟨2, "/", "/system/etc", "KSU"⟩]
  root := [⟨1, "/", "/", "rootfs"⟩, ⟨2, "/", "/system/etc", "KSU"⟩]
  clean := [⟨1, "/", "/", "rootfs"⟩]
  root_mounted := by decide

/-- The first app is forked in revert mode, the second one after the user has changed to setns mode. It is
not on the denylist, and the module mount is gone. -/
theorem mountMode_changed :
    ¬ ∀ o ∈ forkApps ksuNamespaces ksuNamespaces.freshZygote
        [⟨⟨10001, none⟩, false, false, false, none, false⟩,
          ⟨⟨10002, none⟩, false, false, false, some "setns", false⟩],
      o.Good ksuNamespaces := by
  intro h
  have hsecond := (h _ (List.mem_cons_of_mem _ List.mem_cons_self)).1 (by decide)
  exact absurd hsecond (by decide)

end OnyxZygisk.Loader
