import Mathlib.Data.List.Sort
import OnyxZygisk.Daemon.ProcessFlags

/-!
# Forking an app

`nativeForkAndSpecialize_pre` runs in the zygote. Until the zygote was unmounted it asks the daemon for
the flags of the uid it was given, to learn the mount mode, and the child goes on with that answer:
`app_specialize_pre`, which knows the owner of an isolated process, asks only if the flags are still zero
(`isolated_flags_iff`).
-/

namespace OnyxZygisk.Loader

open Daemon (ProcessFlags)

/-! ### Mounts -/

/-- A line of mountinfo. -/
structure MountInfo where
  id : Nat
  root : String
  target : String
  source : String
  deriving DecidableEq

def startsWith (s start : String) : Bool := decide (start.toList <+: s.toList)

/-- The source the mounts of the root solution have. -/
def mountSourceName (info : ProcessFlags) : Option String :=
  if info.rootIsApatch then some "APatch"
  else if info.rootIsKsu then some "KSU"
  else if info.rootIsMagisk then some "magisk"
  else none

/-- The loop device KernelSU keeps its modules on. -/
def kernelSuModuleSource (info : ProcessFlags) (mounts : List MountInfo) : Option String :=
  if mountSourceName info = some "KSU" then
    (mounts.find? fun m => m.target = "/data/adb/modules" && startsWith m.source "/dev/block/loop").map
      MountInfo.source
  else none

def checkZygoteTraces (info : ProcessFlags) (mounts : List MountInfo) : List MountInfo :=
  match mountSourceName info with
  | none => []
  | some name =>
    (mounts.filter fun m => startsWith m.root "/adb/modules" || startsWith m.target "/data/adb/modules" ||
      m.source = name || kernelSuModuleSource info mounts = some m.source).insertionSort
        fun a b => b.id ≤ a.id

def abortZygoteUnmount (traces : List MountInfo) (info : ProcessFlags) : Bool :=
  traces.isEmpty || traces.any fun trace => startsWith trace.target "/product" &&
    !startsWith trace.target "/product/bin" && (info.rootIsMagisk || trace.target = "/product")

/-! ### The zygote -/

/-- What the zygote keeps between forks, with the mounts of its own namespace. -/
structure Zygote where
  zygoteUnmounted : Bool
  zygoteTraces : List MountInfo
  mounts : List MountInfo

structure AppArgs where
  uid : Nat
  /-- `app_data_dir`, and the owner `stat` finds there. -/
  appDataDir : Option (Option Nat)

/-- `zygiskd::GetProcessFlags`; without a daemon the answer is 0. -/
def getProcessFlags (daemon : Option (Nat → ProcessFlags)) (uid : Nat) : ProcessFlags :=
  match daemon with
  | none => .empty
  | some flags => flags uid

/-- The flags are asked for in the zygote. -/
def Zygote.prefetches (z : Zygote) : Bool := !z.zygoteUnmounted && z.zygoteTraces.isEmpty

/-- `nativeForkAndSpecialize_pre` up to the fork. `umount` says which mounts `umount2` takes away. -/
def unmountZygote (daemon : Option (Nat → ProcessFlags)) (umount : MountInfo → Bool) (app : AppArgs)
    (z : Zygote) : Zygote × ProcessFlags :=
  if z.prefetches then
    let info := getProcessFlags daemon app.uid
    if info.mountModeSetns || info.mountModeGlobal then (z, info)
    else
      let traces := checkZygoteTraces info z.mounts
      if abortZygoteUnmount traces info then ({ z with zygoteTraces := traces }, info)
      else
        ({ zygoteUnmounted := true
           zygoteTraces := traces.filter (!umount ·)
           mounts := z.mounts.filter fun m => !(traces.contains m && umount m) }, info)
  else (z, .empty)

/-! ### The child -/

def AID_ISOLATED_START : Nat := 90000

def AID_ISOLATED_END : Nat := 99999

def isIsolated (uid : Nat) : Bool := AID_ISOLATED_START ≤ uid && uid ≤ AID_ISOLATED_END

/-- The child's state when `app_specialize_pre` is over. -/
structure Child where
  infoFlags : ProcessFlags
  doRevertUnmount : Bool
  skipZygiskd : Bool

/-- The uid the process is judged by. -/
def judgedUid (app : AppArgs) : Nat :=
  if isIsolated app.uid then (app.appDataDir.bind id).getD app.uid else app.uid

def appSpecializePre (daemon : Option (Nat → ProcessFlags)) (app : AppArgs) (info : ProcessFlags) :
    Child :=
  let skipZygiskd := isIsolated app.uid && daemon.isNone
  let info :=
    if !skipZygiskd && info = .empty then getProcessFlags daemon (judgedUid app) else info
  { infoFlags := info
    doRevertUnmount := info.onDenylist
    skipZygiskd := skipZygiskd }

def nativeForkAndSpecializePre (daemon : Option (Nat → ProcessFlags)) (umount : MountInfo → Bool)
    (app : AppArgs) (z : Zygote) : Zygote × Child :=
  let pre := unmountZygote daemon umount app z
  (pre.1, appSpecializePre daemon app pre.2)

variable {daemon : Option (Nat → ProcessFlags)} {umount : MountInfo → Bool} {app : AppArgs} {z : Zygote}

theorem unmountZygote_info (daemon : Option (Nat → ProcessFlags)) (umount : MountInfo → Bool)
    (app : AppArgs) (z : Zygote) : (unmountZygote daemon umount app z).2 =
      if z.prefetches then getProcessFlags daemon app.uid else .empty := by
  rw [unmountZygote]
  by_cases h : z.prefetches
  · rw [if_pos h, if_pos h]
    dsimp only
    split
    · rfl
    · split <;> rfl
  · rw [if_neg h, if_neg h]

/-- The flags a child goes on with, the daemon being there. -/
theorem infoFlags_eq (flags : Nat → ProcessFlags) (umount : MountInfo → Bool) (app : AppArgs)
    (z : Zygote) : (nativeForkAndSpecializePre (some flags) umount app z).2.infoFlags =
      if z.prefetches ∧ flags app.uid ≠ .empty then flags app.uid else flags (judgedUid app) := by
  rw [nativeForkAndSpecializePre, appSpecializePre]
  dsimp only
  rw [unmountZygote_info, Option.isNone_some, Bool.and_false, Bool.not_false, Bool.true_and]
  by_cases hpre : z.prefetches
  · rw [if_pos hpre]
    show (if decide (flags app.uid = .empty) = true then flags (judgedUid app) else flags app.uid) = _
    by_cases hempty : flags app.uid = .empty
    · rw [if_pos (decide_eq_true hempty), if_neg (not_and_not_right.2 fun _ => hempty)]
    · rw [if_neg, if_pos ⟨hpre, hempty⟩]
      exact fun h => hempty (of_decide_eq_true h)
  · rw [if_neg hpre, if_pos (decide_eq_true rfl), if_neg fun h => hpre h.1]
    rfl

/-! ### Isolated processes -/

/-- An isolated process whose data directory has an owner. -/
structure IsolatedApp where
  uid : Nat
  isolated : isIsolated uid = true
  owner : Nat

def IsolatedApp.args (app : IsolatedApp) : AppArgs := ⟨app.uid, some (some app.owner)⟩

theorem IsolatedApp.judgedUid_args (app : IsolatedApp) : judgedUid app.args = app.owner :=
  if_pos app.isolated

/-- An isolated process is judged by its owner unless the zygote asked about its own uid before the fork
and got another answer than 0. -/
theorem isolated_flags_iff (flags : Nat → ProcessFlags) (umount : MountInfo → Bool) (app : IsolatedApp)
    (z : Zygote) :
    (nativeForkAndSpecializePre (some flags) umount app.args z).2.infoFlags = flags app.owner ↔
      (z.prefetches → flags app.uid = .empty ∨ flags app.uid = flags app.owner) := by
  rw [infoFlags_eq, app.judgedUid_args]
  show (if z.prefetches ∧ flags app.uid ≠ .empty then flags app.uid else flags app.owner) = _ ↔ _
  by_cases hpre : z.prefetches
  · by_cases hempty : flags app.uid = .empty
    · rw [if_neg fun h => h.2 hempty]
      exact ⟨fun _ _ => .inl hempty, fun _ => rfl⟩
    · rw [if_pos ⟨hpre, hempty⟩]
      constructor
      · exact fun h _ => .inr h
      · exact fun h => (h hpre).resolve_left hempty
  · rw [if_neg fun h => hpre h.1]
    exact ⟨fun _ h => absurd h hpre, fun _ => rfl⟩

/-- With KernelSU every uid has flags. The zygote asks about uid 90001, and its owner's place on the
denylist goes unseen. -/
theorem isolated_flags_prefetched :
    let flags := Daemon.handleGetProcessFlags
      ⟨.kernelSU, fun _ => false, fun _ => false, fun uid => uid = 10123⟩ none
    let child := (nativeForkAndSpecializePre (some flags) (fun _ => true) ⟨90001, some (some 10123)⟩
      ⟨false, [], []⟩).2
    child.infoFlags ≠ flags 10123 ∧ child.doRevertUnmount = false ∧ (flags 10123).onDenylist = true := by
  decide

end OnyxZygisk.Loader
