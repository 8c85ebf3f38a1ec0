import OnyxZygisk.Daemon.FnScan

/-!
# Companion requests

`handle_request_companion_socket`: the index is looked up in a scan of its own, behind the modules in the
FN nodes, and the companion of what it names is taken from a cell of that name or spawned into it.
-/

namespace OnyxZygisk.Daemon

/-- What an index stands for. -/
inductive Target where
  | module (name : String) (dir : FilePath)
  | node (node : FnNode)
  | unknown

/-- The lookups of both handlers, and the disk after the scans. -/
def companionTarget (e : Env) (fs : FileTree) (arch : String) (index : Nat) : Target × FileTree :=
  let modules := eligibleIn fs arch
  match modules[index]? with
  | some m => (.module m.1 m.2, fs)
  | none =>
    let (nodes, fs) := activeNativeNodes e fs
    match nodes[index - modules.length]? with
    | some node => (.node node, fs)
    | none => (.unknown, fs)

/-- A companion process: the library it was handed, and whether its socket is alive. -/
structure Companion where
  library : Memfd
  alive : Bool
  deriving DecidableEq, Repr

/-- The cell of each name; `none` is a cell without a companion, or no cell yet. -/
abbrev Cells := String → Option Companion

/-- `module_companions` and `fn_companions` -/
structure Companions where
  modules : Cells
  nodes : Cells

/-- What a request meets. -/
structure CompanionCalls where
  env : Env
  /-- `spawn_companion`: whether the new process reports an entry point. -/
  spawn : String → Memfd → Except String Bool
  /-- Whether the descriptor can be sent to a companion. -/
  sends : Companion → Bool

/-- What the client gets: the companion at the other end, or the byte 0. -/
inductive Reply where
  | module (name : String) (companion : Companion)
  | node (id : String) (companion : Companion)
  | none

def createLibraryFd (e : Env) (fs : FileTree) (soPath : FilePath) : Option Memfd :=
  if e.works (.libraryFd soPath) && fs.isFile soPath then some ⟨soPath, fs⟩ else none

/-- The companion a cell holds, if its socket is alive. -/
def Cells.current (cells : Cells) (name : String) : Option Companion :=
  (cells name).filter Companion.alive

/-- The companion of a library that could be read, if it has an entry point. -/
def spawnCompanion (calls : CompanionCalls) (name : String) (libFd : Option Memfd) : Option Companion :=
  libFd.bind fun fd =>
    match calls.spawn name fd with
    | .ok true => some ⟨fd, true⟩
    | _ => none

/-- The cell after a request: a live companion stays, a dead one is replaced. -/
def Cells.refill (cells : Cells) (calls : CompanionCalls) (name : String) (libFd : Option Memfd) :
    Option Companion :=
  match cells.current name with
  | some companion => some companion
  | none => spawnCompanion calls name libFd

def handleRequestCompanionSocket (calls : CompanionCalls) (fs : FileTree) (arch : String) (index : Nat)
    (companions : Companions) : Except String Reply × FileTree × Companions :=
  match companionTarget calls.env fs arch index with
  | (.module name dir, fs) =>
    let cell := companions.modules.refill calls name (createLibraryFd calls.env fs (librarySo dir arch))
    (.ok (((cell.filter calls.sends).map (Reply.module name)).getD .none), fs,
      { companions with modules := Function.update companions.modules name cell })
  | (.node node, fs) =>
    -- an FN node's library is read whether or not it is needed
    match createLibraryFd calls.env fs node.libPath with
    | none => (.error calls.env.errorText, fs, companions)
    | some libFd =>
      let cell := companions.nodes.refill calls node.id (some libFd)
      (.ok (((cell.filter calls.sends).map (Reply.node node.id)).getD .none), fs,
        { companions with nodes := Function.update companions.nodes node.id cell })
  | (.unknown, fs) => (.ok .none, fs, companions)

variable {e : Env} {fs : FileTree} {arch : String} {index : Nat} {calls : CompanionCalls}
  {companions : Companions}

theorem companionTarget_module {m : String × FilePath} (h : (eligibleIn fs arch)[index]? = some m) :
    companionTarget e fs arch index = (.module m.1 m.2, fs) := by
  rw [companionTarget, h]

theorem companionTarget_fn (h : (eligibleIn fs arch)[index]? = none) :
    companionTarget e fs arch index =
      (match (activeNativeNodes e fs).1[index - (eligibleIn fs arch).length]? with
        | some node => .node node
        | none => .unknown, (activeNativeNodes e fs).2) := by
  rw [companionTarget, h]
  simp only
  cases (activeNativeNodes e fs).1[index - (eligibleIn fs arch).length]? <;> rfl

/-- A request for a module. -/
theorem handleRequest_module {m : String × FilePath} (h : (eligibleIn fs arch)[index]? = some m) :
    handleRequestCompanionSocket calls fs arch index companions =
      let cell := companions.modules.refill calls m.1 (createLibraryFd calls.env fs (librarySo m.2 arch))
      (.ok (((cell.filter calls.sends).map (Reply.module m.1)).getD .none), fs,
        { companions with modules := Function.update companions.modules m.1 cell }) := by
  rw [handleRequestCompanionSocket, companionTarget_module h]

/-- A request past the modules leaves their companions alone and sweeps the FN nodes. -/
theorem handleRequest_fn (h : (eligibleIn fs arch)[index]? = none) :
    (∀ name companion, (handleRequestCompanionSocket calls fs arch index companions).1 ≠
        .ok (.module name companion)) ∧
      (handleRequestCompanionSocket calls fs arch index companions).2.1 =
        (activeNativeNodes calls.env fs).2 ∧
      (handleRequestCompanionSocket calls fs arch index companions).2.2.modules = companions.modules := by
  rw [handleRequestCompanionSocket, companionTarget_fn h]
  cases (activeNativeNodes calls.env fs).1[index - (eligibleIn fs arch).length]? with
  | none => exact ⟨fun _ _ => by simp, rfl, rfl⟩
  | some node =>
    simp only
    cases createLibraryFd calls.env (activeNativeNodes calls.env fs).2 node.libPath with
    | none => exact ⟨fun _ _ => by simp, rfl, rfl⟩
    | some libFd =>
      refine ⟨fun name companion => ?_, rfl, rfl⟩
      simp only
      cases (companions.nodes.refill calls node.id (some libFd)).filter calls.sends <;> simp

end OnyxZygisk.Daemon
