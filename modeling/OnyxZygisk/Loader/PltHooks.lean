import OnyxZygisk.Lib.Mappings
import Mathlib.Data.List.Pairwise
import Mathlib.Logic.Function.Basic

/-!
# PLT hooks

The library that patches the slots through which a loaded image calls into others. The first patch of a map
moves its pages aside, to the backup, and leaves a copy in their place; the patches go into the copy, and each slot
is recorded with what it held. When the last one is undone, the pages come back from the backup.
-/

namespace OnyxZygisk.Lsplt

open Mappings (PROT_READ PROT_WRITE)

/-- `MapInfo`; `stop` is its `end`. -/
structure MapInfo where
  start : Nat
  stop : Nat
  perms : BitVec 8
  isPrivate : Bool
  offset : Nat
  dev : Nat
  inode : Nat
  path : String

/-- `HookRequest`, with a variable of the caller for the backup. -/
structure HookRequest (Var : Type) where
  dev : Nat
  inode : Nat
  offsetRange : Nat × Nat
  symbol : String
  callback : Nat
  backup : Option Var

/-- `HookInfo`. The slots in `hooks` stand in the order of their addresses, each with what it held before. -/
structure HookInfo extends MapInfo where
  hooks : List (Nat × Nat)
  backup : Nat
  self : Bool

/-- `HookInfo::Match` -/
def HookInfo.matches {Var : Type} (info : HookInfo) (reg : HookRequest Var) : Bool :=
  reg.dev = info.dev && reg.inode = info.inode && reg.offsetRange.1 ≤ info.offset &&
    info.offset < reg.offsetRange.2

def MapInfo.range (m : MapInfo) : AddrRange := ⟨m.start, m.stop⟩

def HookInfo.range (info : HookInfo) : AddrRange := ⟨info.start, info.stop⟩

def HookInfo.len (info : HookInfo) : Nat := info.stop - info.start

/-- The addresses of the backup. -/
def HookInfo.copy (info : HookInfo) : AddrRange := ⟨info.backup, info.backup + info.len⟩

/-- What the kernel says to the system calls of one patch. -/
structure Answers where
  /-- The `mmap` that finds room for the backup. -/
  backupAddr : Option Nat
  /-- Either `mremap` to the backup. -/
  moves : Bool
  /-- The `mmap` over the range that was moved away, and what the range holds if it fails. -/
  maps : Bool
  leaves : Nat → Nat
  /-- The `mremap` back. -/
  movesBack : Bool

/-- The process as far as hooks go: the word at each address and the variables of the callers, `g_pending_hooks` and
`g_global_hook_state`, whose first entry is the highest. -/
structure Process (Var : Type) where
  word : Nat → Nat
  old : Var → Nat
  pending : List (HookRequest Var)
  infos : List HookInfo
  /-- `kSelfInode` and `kSelfDev` -/
  self : Nat × Nat
  /-- Calls of `PatchPLTEntry` so far. -/
  patches : Nat
  /-- Ranges nobody has the original words of: patched in place, or not mapped again. -/
  dirty : List AddrRange

variable {Var : Type}

/-! ### The maps -/

/-- An `r-?p` map of a file. -/
def MapInfo.hookable (m : MapInfo) : Bool :=
  m.isPrivate && m.perms &&& PROT_READ ≠ 0 && m.path ≠ "" && m.path.toList.head? ≠ some '['

/-- `std::map::emplace` -/
def emplace (info : HookInfo) : List HookInfo → List HookInfo
  | [] => [info]
  | i :: is =>
    if i.start < info.start then info :: i :: is
    else if i.start = info.start then i :: is
    else i :: emplace info is

def erase (infos : List HookInfo) (key : Nat) : List HookInfo := infos.filter (·.start ≠ key)

def find (infos : List HookInfo) (key : Nat) : Option HookInfo := infos.find? (·.start = key)

/-- The map that holds the address `pc` of the library's own code, once it was found. -/
def selfMap (pc : Nat) (maps : List MapInfo) (self : Nat × Nat) : Nat × Nat :=
  if self.1 = 0 then
    match maps.find? fun m => m.start ≤ pc && pc < m.stop with
    | some m => (m.inode, m.dev)
    | none => self
  else self

def MapInfo.target (self : Nat × Nat) (m : MapInfo) : HookInfo :=
  { m with hooks := [], backup := 0, self := m.inode = self.1 && m.dev = self.2 }

/-- `CreateTargetsFromMemoryMaps` -/
def createTargets (self : Nat × Nat) (maps : List MapInfo) : List HookInfo :=
  (maps.filter MapInfo.hookable).foldl (fun infos m => emplace (m.target self) infos) []

/-- `HookInfos::Filter` -/
def filterInfos (infos : List HookInfo) (pending : List (HookRequest Var)) : List HookInfo :=
  infos.filter fun info => pending.any info.matches

/-- One turn of the loop of `Merge`. -/
def mergeInfo (infos : List HookInfo) (info : HookInfo) : List HookInfo :=
  let infos := if info.backup ≠ 0 then erase infos info.backup else infos
  if (find infos info.start).isSome then infos.map fun i => if i.start = info.start then info else i
  else if info.backup ≠ 0 then emplace info infos
  else infos

/-- `HookInfos::Merge` -/
def merge (infos old : List HookInfo) : List HookInfo := old.foldl mergeInfo infos

/-! ### Patches -/

namespace Process

variable [DecidableEq Var] (page : Nat) (image : List AddrRange) (k : Answers) (p : Process Var)

def modify (key : Nat) (f : HookInfo → HookInfo) : Process Var :=
  { p with infos := p.infos.map fun i => if i.start = key then f i else i }

/-- The kernel gives no range that is in use. -/
def unused (r : AddrRange) : Bool :=
  r.start ≠ 0 && image.all (fun s => decide (r.Apart s)) &&
    p.infos.all fun i => decide (r.Apart i.range) && (i.backup = 0 || decide (r.Apart i.copy))

/-- Moves the pages of a map aside and copies them back into new ones. -/
def moveAside (info : HookInfo) : Process Var × Bool :=
  match k.backupAddr.filter fun addr => p.unused image ⟨addr, addr + info.len⟩ with
  | none => (p, false)
  | some addr =>
    if !k.moves then (p, false)
    else
      let moved := Moves.move p.word info.start addr info.len
      if !k.maps then
        ({ p with
          word := fun a => if a ∈ info.range then k.leaves a else moved a
          dirty := info.range :: p.dirty }, false)
      else
        let mapped := fun a => if a ∈ info.range then 0 else moved a
        let word := Moves.copyPages page ((info.len + page - 1) / page) addr info.start mapped
        ({ p with word }.modify info.start fun i => { i with backup := addr }, true)

/-- A slot that was no hook yet, at its place. -/
def insertSlot (slot : Nat × Nat) : List (Nat × Nat) → List (Nat × Nat)
  | [] => [slot]
  | h :: hs => if h.1 < slot.1 then h :: insertSlot slot hs else slot :: h :: hs

def backUp (info : HookInfo) : Process Var × Bool :=
  if info.backup = 0 && !info.self then p.moveAside page image k info else (p, true)

/-- `info.hooks` once the slot was written: a slot that holds what it held before is no hook any more. -/
def record (addr callback theBackup : Nat) (hooks : List (Nat × Nat)) : List (Nat × Nat) :=
  match hooks.find? (·.1 = addr) with
  | some hook => if hook.2 = callback then hooks.filter (·.1 ≠ addr) else hooks
  | none => insertSlot (addr, theBackup) hooks

/-- The slot is written and recorded. -/
def overwrite (info : HookInfo) (addr callback : Nat) (backup : Option Var) : Process Var :=
  let theBackup := p.word addr
  let q := p.modify info.start fun i => { i with hooks := record addr callback theBackup i.hooks }
  let q := if info.self then { q with dirty := ⟨addr, addr + 1⟩ :: q.dirty } else q
  if theBackup ≠ callback then
    { q with
      word := Function.update p.word addr callback
      old := match backup with
        | some v => Function.update p.old v theBackup
        | none => p.old }
  else q

/-- The pages of a map come back from the backup. -/
def moveBack (info : HookInfo) : Process Var × Bool :=
  if !k.movesBack then (p, false)
  else
    ({ p with word := Moves.move p.word info.backup info.start info.len }.modify info.start
      fun i => { i with backup := 0 }, true)

/-- Behind the last hook of a map its pages come back. -/
def settle (key : Nat) : Process Var × Bool :=
  match find p.infos key with
  | some info => if info.hooks.isEmpty && !info.self then p.moveBack k info else (p, true)
  | none => (p, true)

/-- The library's own map is patched in place. -/
def makeWritable (info : HookInfo) : Process Var :=
  if info.self then p.modify info.start fun i => { i with perms := i.perms ||| PROT_WRITE } else p

/-- `HookInfos::PatchPLTEntry` behind the search for the map. -/
def patchIn (info : HookInfo) (addr callback : Nat) (backup : Option Var) : Process Var × Bool :=
  let (p, ok) := p.backUp page image k info
  if !ok then (p, false)
  else ((p.makeWritable info).overwrite info addr callback backup).settle k info.start

/-- `HookInfos::PatchPLTEntry` -/
def patchPltEntry (kernel : Nat → Answers) (addr callback : Nat) (backup : Option Var) : Process Var × Bool :=
  let q := { p with patches := p.patches + 1 }
  match p.infos.find? (·.start ≤ addr) with
  | none => (q, false)
  | some info =>
    if info.stop ≤ addr then (q, false)
    else q.patchIn page image (kernel p.patches) info addr callback backup

end Process

/-! ### Requests -/

section Requests

variable [DecidableEq Var] (page : Nat) (image : List AddrRange) (kernel : Nat → Answers)
  (findPltAddr : Nat → String → Option (List Nat))

/-- `RegisterHook`, whose range of offsets is everything below `offsets`. -/
def registerHook (offsets : Nat) (p : Process Var) (dev inode : Nat) (symbol : String) (callback : Nat)
    (backup : Option Var) : Process Var × Bool :=
  if dev = 0 ∨ inode = 0 ∨ symbol = "" ∨ callback = 0 then (p, false)
  else ({ p with pending := p.pending ++ [⟨dev, inode, (0, offsets), symbol, callback, backup⟩] }, true)

/-- The maps for one request of `RestoreFunction`: the process, `restored` and `res`. -/
def restoreIn (reg : HookRequest Var) : List Nat → Process Var → Bool → Bool → Process Var × Bool × Bool
  | [], p, restored, res => (p, restored, res)
  | key :: keys, p, restored, res =>
    match (find p.infos key).filter fun info => info.dev = reg.dev && info.inode = reg.inode with
    | none => restoreIn reg keys p restored res
    | some info =>
      match info.hooks.find? (·.2 = reg.callback) with
      | none => restoreIn reg keys p restored res
      | some (addr, original) =>
        let (p, ok) := p.patchPltEntry page image kernel addr original none
        restoreIn reg keys p ok (ok && res)

/-- `HookInfos::RestoreFunction`: what it leaves of the requests, and `res`. -/
def restoreFunction (keys : List Nat) :
    List (HookRequest Var) → Process Var → Bool → Process Var × List (HookRequest Var) × Bool
  | [], p, res => (p, [], res)
  | reg :: regs, p, res =>
    let (p, restored, res) := restoreIn page image kernel reg keys p false res
    let (p, left, res) := restoreFunction keys regs p res
    (p, if restored then left else reg :: left, res)

def patchAll (callback : Nat) (backup : Option Var) : List Nat → Process Var → Bool → Process Var × Bool
  | [], p, res => (p, res)
  | addr :: addrs, p, res =>
    let (p, ok) := p.patchPltEntry page image kernel addr callback backup
    patchAll callback backup addrs p (ok && res)

/-- The requests for one map of `ProcessRequest`. `findPltAddr` is none for an image that is not valid. -/
def processInfo (info : HookInfo) :
    List (HookRequest Var) → Process Var → Bool → Process Var × List (HookRequest Var) × Bool
  | [], p, res => (p, [], res)
  | reg :: regs, p, res =>
    if info.offset ≠ reg.offsetRange.1 ∨ !info.matches reg then
      let (p, left, res) := processInfo info regs p res
      (p, reg :: left, res)
    else
      match findPltAddr info.start reg.symbol with
      | none => processInfo info regs p res
      | some [] => processInfo info regs p false
      | some addrs =>
        let (p, res) := patchAll page image kernel reg.callback reg.backup addrs p res
        processInfo info regs p res

/-- `HookInfos::ProcessRequest` -/
def processRequest :
    List HookInfo → List (HookRequest Var) → Process Var → Bool → Process Var × List (HookRequest Var) × Bool
  | [], regs, p, res => (p, regs, res)
  | info :: infos, regs, p, res =>
    let (p, regs, res) := processInfo page image kernel findPltAddr info regs p res
    processRequest infos regs p res

/-- The requests of a commit, once the maps are known. -/
def commitRequests (p : Process Var) (unhook : Bool) : Process Var × Bool :=
  let keys := (p.infos.map (·.start)).reverse
  let (p, regs, restored) := if unhook then restoreFunction page image kernel keys p.pending p true
    else (p, p.pending, false)
  if restored then ({ p with pending := regs }, true)
  else
    let (p, left, res) := processRequest page image kernel findPltAddr p.infos.reverse regs p true
    ({ p with pending := left }, res)

/-- `CommitHook` of the library at `pc`. -/
def commitHook (pc : Nat) (p : Process Var) (maps : List MapInfo) (unhook : Bool) : Process Var × Bool :=
  if p.pending.isEmpty then (p, true)
  else
    let self := selfMap pc maps p.self
    let targets := createTargets self maps
    if targets.isEmpty then ({ p with self }, false)
    else
      let infos := merge (filterInfos targets p.pending) p.infos
      commitRequests page image kernel findPltAddr { p with self, infos } unhook

end Requests

end OnyxZygisk.Lsplt
