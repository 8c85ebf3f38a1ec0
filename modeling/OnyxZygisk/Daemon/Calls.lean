import OnyxZygisk.Lib.FileTree
import OnyxZygisk.Lib.Prog
import OnyxZygisk.Lib.Text

/-!
# The operations of the daemon

Every system call `zygiskd` makes on the paths it shares with other processes is one operation, and so
is every question it asks of the rest of the system (a property, the process table, a memfd). `exec`
says what an operation does to the world in an environment `Env`: which operations fail, what the
system answers. What a script or a started daemon does is not part of the operation that starts it.

`fs::write` is two operations, the `open` that truncates and the `write`.
-/

namespace OnyxZygisk.Daemon

/-! ### Paths -/

/-- `PATH_MODULES_DIR` -/
abbrev pathModulesDir : FilePath := ["data", "adb", "modules"]

/-- `PATH_MODULES_UPDATE_DIR` -/
abbrev pathModulesUpdateDir : FilePath := ["data", "adb", "modules_update"]

/-- The work directory, `TMP_PATH`. -/
abbrev tmpPath : FilePath := ["data", "adb", "onyxzygisk"]

def activeDir (name : String) : FilePath := pathModulesDir ++ [name]

def stagedDir (name : String) : FilePath := pathModulesUpdateDir ++ [name]

def backupDir (name : String) : FilePath :=
  pathModulesUpdateDir ++ [".onyx-hotplug-backup-" ++ name]

def hotplugLock : FilePath := tmpPath ++ ["hotplug.lock"]

def hotplugOff : FilePath := tmpPath ++ ["hotplug_off"]

def hotplugDir : FilePath := tmpPath ++ ["hotplug"]

/-- `WORKDIR/hotplug/<name>` -/
def hotplugOptIn (name : String) : FilePath := hotplugDir ++ [name]

def hotplugRestartGuard : FilePath := tmpPath ++ ["hotplug_restart_guard"]

def activationMarkers : FilePath := tmpPath ++ ["hotplug_activated"]

def activationMarker (name suffix : String) : FilePath :=
  activationMarkers ++ [name ++ "." ++ suffix]

/-- `module_dir.join("zygisk/<arch>.so")` -/
def librarySo (moduleDir : FilePath) (arch : String) : FilePath := moduleDir ++ ["zygisk", arch ++ ".so"]

def display (p : FilePath) : String := "/" ++ "/".intercalate p

/-! ### Operations -/

/-- What `hotplug.lock` is taken for. -/
inductive LockUse where
  | swap (name : String)
  | restart (name : String)
  | signal (name : String)
  deriving DecidableEq, Repr

/-- The code a thread is started with. -/
inductive Job where
  | readModules
  | systemServerStarted
  | applyHotplug (name : String)
  | startup
  | activateStagedModule (name : String) (moduleDir : FilePath)
  | runPendingStagedServices
  | restartFrameworkOnce (name : String)
  | runFrameworkActivations
  | activation (name : String) (dir : FilePath)
  | frameworkActivation (name : String) (dir : FilePath)
  | pendingService (name : String) (dir : FilePath)
  | frameworkDaemon (name : String) (dir : FilePath)
  | confirmStability (name bootId : String) (pid : Int32)
  | hotplugWorker (hotplugLoaded : List String)
  deriving DecidableEq, Repr

/-- A library copied into memory. What it holds is fixed by the file and the moment of the copy, so it
stands here with the disk it was copied from. -/
structure Memfd where
  source : FilePath
  disk : FileTree
  deriving DecidableEq, Repr

inductive Op where
  | look (p : FilePath)
  | read (p : FilePath)
  | readDir (p : FilePath)
  | createDirAll (p : FilePath)
  | createNew (p : FilePath)
  | openKeep (p : FilePath)
  | openTrunc (p : FilePath)
  | writeData (p : FilePath) (ino : Nat) (data : String)
  | removeFile (p : FilePath)
  | removeDirAll (p : FilePath)
  | rename (src dst : FilePath)
  | flock (use : LockUse)
  | unlock
  | getProperty (key : String)
  | lp64
  | systemServerUp
  | setSystemServerUp
  | bootId
  | pidofSystemServer
  | moduleDaemonPids (moduleDir : FilePath) (niceName : Option String)
  | waitForDaemon (moduleDir : FilePath) (niceName : Option String)
  | stopModuleDaemon (moduleDir : FilePath) (niceName : Option String)
  | runModuleScript (moduleDir script : FilePath)
  | startDaemon (moduleDir : FilePath) (args : List String)
  | caughtSignals (pid : Int32)
  | kill (pid : Int32) (signal : Nat) (name : String)
  | libraryFd (soPath : FilePath)
  | errorText
  | sendStartupInfo (names : List String)
  | loadModuleFromMemfd (fd : Memfd)
  | onLoad (name : String) (fd : Memfd)
  | spawn (job : Job)
  deriving DecidableEq, Repr

/-- The answer of an operation; for one that can fail, whether it succeeded. -/
abbrev Resp : Op → Type
  | .look _ => Option Node
  | .read _ => Option String
  | .readDir _ => Option (List String)
  | .openTrunc _ => Option Nat
  | .unlock | .setSystemServerUp | .runModuleScript _ _ | .stopModuleDaemon _ _ | .onLoad _ _
  | .spawn _ => Unit
  | .getProperty _ | .errorText => String
  | .bootId => Option String
  | .pidofSystemServer => Option Int32
  | .moduleDaemonPids _ _ => List Int32
  | .caughtSignals _ => UInt64
  | .libraryFd _ => Option Memfd
  | _ => Bool

/-- What an operation meets: whether it works, and how the system answers. -/
structure Env where
  works : Op → Bool
  /-- The paths a failing `remove_dir_all` has not removed yet. -/
  kept : FilePath → Bool
  property : String → String
  lp64 : Bool
  /-- The process has seen the system server up before (`SYSTEM_SERVER_UP`). -/
  systemServerUp : Bool
  bootId : Option String
  systemServer : Option Int32
  daemonPids : FilePath → List Int32
  daemonAppears : FilePath → Bool
  caughtSignals : UInt64
  /-- The text of the error the last operation failed with. -/
  errorText : String
  /-- The linker accepts the library. -/
  loads : Memfd → Bool

/-- The file system, the holder of `hotplug.lock`, and what was renamed, run, signalled, started
and loaded so far, the latest first. -/
structure World where
  fs : FileTree
  lock : Option LockUse
  log : List Op

namespace World

/-- The world after an operation that gives `r`, or fails. -/
def become (w : World) : Option FileTree → Bool × World
  | some fs => (true, { w with fs := fs })
  | none => (false, w)

def note (w : World) (op : Op) : World := { w with log := op :: w.log }

end World

/-- One operation; `none` while it has to wait. -/
def exec : Prog.Exec Resp Env World := fun e op w =>
  match op with
  | .look p => some (if e.works (.look p) then w.fs.get p else none, w)
  | .read p => some (if e.works (.read p) then w.fs.read p else none, w)
  | .readDir p =>
    some (if e.works (.readDir p) && w.fs.isDir p then some (w.fs.children p) else none, w)
  | .createDirAll p =>
    if e.works (.createDirAll p) then
      some ((w.fs.mkdirAll p).2, { w with fs := (w.fs.mkdirAll p).1 })
    else some (false, w)
  | .createNew p =>
    some (w.become (if e.works (.createNew p) then w.fs.create p (.file w.fs.fresh "") else none))
  | .openKeep p => some (w.become (if e.works (.openKeep p) then w.fs.openKeep p else none))
  | .openTrunc p =>
    match (if e.works (.openTrunc p) then w.fs.openTrunc p else none) with
    | some (ino, fs) => some (some ino, { w with fs := fs })
    | none => some (none, w)
  | .writeData p ino data =>
    if e.works (.writeData p ino data) then
      some (true, { w with fs := w.fs.writeData p ino data })
    else some (false, w)
  | .removeFile p => some (w.become (if e.works (.removeFile p) then w.fs.removeFile p else none))
  | .removeDirAll p =>
    if e.works (.removeDirAll p) then some (w.become (w.fs.removeDirAll p))
    else if w.fs.isRealDir p then some (false, { w with fs := w.fs.removePartly p e.kept })
    else some (false, w)
  | .rename src dst =>
    match (if e.works (.rename src dst) then w.fs.rename src dst else none) with
    | some fs => some (true, { w with fs := fs }.note (.rename src dst))
    | none => some (false, w)
  | .flock use =>
    if e.works (.flock use) then
      match w.lock with
      | some _ => none
      | none => some (true, { w with lock := some use })
    else some (false, w)
  | .unlock => some ((), { w with lock := none })
  | .getProperty key => some (e.property key, w)
  | .lp64 => some (e.lp64, w)
  | .systemServerUp => some (e.systemServerUp, w)
  | .setSystemServerUp => some ((), w)
  | .bootId => some (e.bootId, w)
  | .pidofSystemServer => some (e.systemServer, w)
  | .moduleDaemonPids moduleDir _ => some (e.daemonPids moduleDir, w)
  | .waitForDaemon moduleDir _ => some (e.daemonAppears moduleDir, w)
  | .stopModuleDaemon _ _ => some ((), w)
  | .runModuleScript moduleDir script => some ((), w.note (.runModuleScript moduleDir script))
  | .startDaemon moduleDir args =>
    some (e.works (.startDaemon moduleDir args), w.note (.startDaemon moduleDir args))
  | .caughtSignals _ => some (e.caughtSignals, w)
  | .kill pid signal name =>
    some (e.works (.kill pid signal name), w.note (.kill pid signal name))
  | .libraryFd soPath =>
    some (if e.works (.libraryFd soPath) && w.fs.isFile soPath then some ⟨soPath, w.fs⟩ else none, w)
  | .errorText => some (e.errorText, w)
  | .sendStartupInfo names => some (e.works (.sendStartupInfo names), w)
  | .loadModuleFromMemfd fd => some (e.loads fd, w)
  | .onLoad name fd => some ((), w.note (.onLoad name fd))
  | .spawn job => some ((), w.note (.spawn job))

/-- Which environments an operation can meet in a world. -/
abbrev Admissible := Env → Op → World → Prop

/-- The steps of the machine in admissible environments. -/
abbrev StepIn (adm : Admissible) := Prog.StepBy exec adm

/-! ### Programs -/

abbrev Program := Prog Resp

def perform (op : Op) : Program (Resp op) := Prog.perform op

def onlyIf (c : Bool) (p : Program Unit) : Program Unit := if c then p else pure ()

def pathExists (p : FilePath) : Program Bool := do
  let n ← perform (.look p)
  pure n.isSome

def isDir (p : FilePath) : Program Bool := do
  let n ← perform (.look p)
  pure (n.any Node.isDir)

def isFile (p : FilePath) : Program Bool := do
  let n ← perform (.look p)
  pure (n.any Node.isFile)

def readDir (p : FilePath) : Program (Option (List String)) := perform (.readDir p)

def readToString (p : FilePath) : Program (Option String) := perform (.read p)

/-- `fs::write` -/
def fsWrite (p : FilePath) (data : String) : Program Bool := do
  match ← perform (.openTrunc p) with
  | none => pure false
  | some ino => if data = "" then pure true else perform (.writeData p ino data)

/-- The ABI directory name of the running daemon; fails on an architecture it does not support. -/
def getArch : Program (Except String String) := do
  let systemArch ← perform (.getProperty "ro.product.cpu.abi")
  let lp64 ← perform .lp64
  if Text.contains "arm" systemArch then
    pure (.ok (if lp64 then "arm64-v8a" else "armeabi-v7a"))
  else if Text.contains "x86" systemArch then
    pure (.ok (if lp64 then "x86_64" else "x86"))
  else if systemArch = "" then
    pure (.ok (if lp64 then "arm64-v8a" else "armeabi-v7a"))
  else pure (.error ("Unsupported system architecture: " ++ systemArch))

/-- Sticky within a process: once seen, the property is not read again. -/
def systemServerReady : Program Bool := do
  if ← perform .systemServerUp then pure true
  else
    let value ← perform (.getProperty "sys.boot_completed")
    if Text.trim value = "1" then
      perform .setSystemServerUp
      pure true
    else pure false

def pidofSystemServer : Program (Option Int32) := perform .pidofSystemServer

/-- A boot id that can stand in a marker. -/
def bootIdOf (value : Option String) : Option String :=
  (value.map Text.trim).filter fun v => v ≠ "" && !v.toList.contains ':'

def currentBootId : Program (Option String) := do
  let value ← perform .bootId
  pure (bootIdOf value)

theorem only_perform {ops : Op → Prop} {op : Op} (h : ops op) : Prog.Only ops (perform op) :=
  Prog.only_perform h

theorem only_onlyIf {ops : Op → Prop} {c : Bool} {p : Program Unit} (h : Prog.Only ops p) :
    Prog.Only ops (onlyIf c p) := by
  cases c
  · trivial
  · exact h

/-! ### Questions -/

/-- The operations that only ask the file system. -/
def Op.asks : Op → Prop
  | .look _ | .read _ | .readDir _ => True
  | _ => False

/-- Their answers on a disk where every operation works. -/
def answers (fs : FileTree) : (op : Op) → Resp op
  | .look p => fs.get p
  | .read p => fs.read p
  | .readDir p => if fs.isDir p then some (fs.children p) else none
  | .openTrunc _ => none
  | .unlock | .setSystemServerUp | .runModuleScript _ _ | .stopModuleDaemon _ _ | .onLoad _ _
  | .spawn _ => ()
  | .getProperty _ | .errorText => ""
  | .bootId => none
  | .pidofSystemServer => none
  | .moduleDaemonPids _ _ => []
  | .caughtSignals _ => 0
  | .libraryFd _ => none
  | .createDirAll _ | .createNew _ | .openKeep _ | .writeData _ _ _ | .removeFile _
  | .removeDirAll _ | .rename _ _ | .flock _ | .lp64 | .systemServerUp | .waitForDaemon _ _
  | .startDaemon _ _ | .kill _ _ _ | .sendStartupInfo _ | .loadModuleFromMemfd _ => false

/-- What a program that only asks finds out on a disk. -/
def askOf {α : Type} (fs : FileTree) (p : Program α) : α := Prog.eval (answers fs) p

section Asking

variable (fs : FileTree) {α β : Type}

@[simp] theorem askOf_bind (p : Program α) (f : α → Program β) :
    askOf fs (p >>= f) = askOf fs (f (askOf fs p)) := Prog.eval_bind _ p f

@[simp] theorem askOf_pure (a : α) : askOf fs (pure a) = a := (rfl)

@[simp] theorem askOf_gather (xs : List α) (body : α → Program (Option β)) :
    askOf fs (Prog.gather xs body) = xs.filterMap fun x => askOf fs (body x) :=
  Prog.eval_gather _ xs body

@[simp] theorem askOf_firstSome (xs : List α) (body : α → Program (Option β)) :
    askOf fs (Prog.firstSome xs body) = xs.findSome? fun x => askOf fs (body x) :=
  Prog.eval_firstSome _ xs body

@[simp] theorem askOf_ite (c : Prop) [Decidable c] (p q : Program α) :
    askOf fs (if c then p else q) = if c then askOf fs p else askOf fs q := by
  split_ifs <;> rfl

@[simp] theorem askOf_pathExists (p : FilePath) : askOf fs (pathExists p) = fs.present p := by
  rw [pathExists, askOf_bind]
  rfl

@[simp] theorem askOf_readDir (p : FilePath) :
    askOf fs (readDir p) = if fs.isDir p then some (fs.children p) else none := (rfl)

@[simp] theorem askOf_readToString (p : FilePath) : askOf fs (readToString p) = fs.read p := (rfl)

end Asking

/-- A program that only asks, and that changes nothing. -/
abbrev Asks {α : Type} (p : Program α) : Prop := Prog.Only Op.asks p

theorem asks_readDir (p : FilePath) : Asks (readDir p) := ⟨trivial, fun _ => trivial⟩

theorem asks_readToString (p : FilePath) : Asks (readToString p) := ⟨trivial, fun _ => trivial⟩

theorem asks_pathExists (p : FilePath) : Asks (pathExists p) := ⟨trivial, fun _ => trivial⟩

theorem asks_isFile (p : FilePath) : Asks (isFile p) := ⟨trivial, fun _ => trivial⟩

theorem exec_asks {op : Op} (hop : op.asks) {e : Env} (he : e.works op = true) (w : World) :
    exec e op w = some (answers w.fs op, w) := by
  cases op <;> simp_all [Op.asks, exec, answers]

/-- Every question about the disk is answered. -/
def Env.Answers (e : Env) : Prop := ∀ op : Op, op.asks → e.works op = true

theorem run_ask {α : Type} {p : Program α} (h : Asks p) {e : Env} (he : e.Answers) (w : World) :
    Prog.run exec e p w = some (askOf w.fs p, w) :=
  Prog.run_eval (answers w.fs) h fun op hop => exec_asks hop (he op hop) w

end OnyxZygisk.Daemon
