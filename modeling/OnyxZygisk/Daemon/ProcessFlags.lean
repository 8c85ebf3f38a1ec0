import OnyxZygisk.Lib.Text

/-!
# Process flags

What the daemon answers to `GetProcessFlags`: the root solution's verdict on a uid, the root solution,
and the mount mode, which is read anew for each answer.
-/

namespace OnyxZygisk.Daemon

structure ProcessFlags where
  grantedRoot : Bool := false
  onDenylist : Bool := false
  mountModeSetns : Bool := false
  mountModeGlobal : Bool := false
  isManager : Bool := false
  rootIsApatch : Bool := false
  rootIsKsu : Bool := false
  rootIsMagisk : Bool := false
  deriving DecidableEq

/-- The value 0. -/
def ProcessFlags.empty : ProcessFlags := {}

inductive RootImpl where
  | none
  | tooOld
  | multiple
  | aPatch
  | kernelSU
  | magisk
  deriving DecidableEq

/-- `root_impl`: the solution found at start and its answers for a uid. -/
structure RootPolicy where
  impl : RootImpl
  isManager : Nat → Bool
  grantedRoot : Nat → Bool
  shouldUmount : Nat → Bool

/-- A question only a usable root solution answers. -/
def RootImpl.ask (impl : RootImpl) (answer : Nat → Bool) (uid : Nat) : Bool :=
  match impl with
  | .aPatch | .kernelSU | .magisk => answer uid
  | _ => false

def uidIsManager (root : RootPolicy) (uid : Nat) : Bool := root.impl.ask root.isManager uid

def uidGrantedRoot (root : RootPolicy) (uid : Nat) : Bool := root.impl.ask root.grantedRoot uid

def uidShouldUmount (root : RootPolicy) (uid : Nat) : Bool := root.impl.ask root.shouldUmount uid

inductive MountMode where
  | revert
  | setns
  | global
  deriving DecidableEq

/-- `mount_mode_flag`, given what the file holds. -/
def mountModeFlag (file : Option String) : MountMode :=
  match file.map Text.trim with
  | some "setns" => .setns
  | some "global" => .global
  | _ => .revert

def handleGetProcessFlags (root : RootPolicy) (mountMode : Option String) (uid : Nat) : ProcessFlags where
  isManager := uidIsManager root uid
  grantedRoot := !uidIsManager root uid && uidGrantedRoot root uid
  onDenylist := !uidIsManager root uid && uidShouldUmount root uid
  rootIsApatch := root.impl = .aPatch
  rootIsKsu := root.impl = .kernelSU
  rootIsMagisk := root.impl = .magisk
  mountModeSetns := mountModeFlag mountMode = .setns
  mountModeGlobal := mountModeFlag mountMode = .global

end OnyxZygisk.Daemon
