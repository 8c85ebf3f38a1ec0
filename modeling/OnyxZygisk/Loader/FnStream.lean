import OnyxZygisk.Daemon.FnNodes
import OnyxZygisk.Daemon.Steps
import OnyxZygisk.Lib.Wire

/-!
# The stream of FN modules

`handle_read_fn_modules` sends the number of nodes first and then each node with its library. A library
that cannot be opened ends the handler there, and the reader, which sees no error, fills up the number it
was told with blank modules (`readFnModules_iff`).
-/

namespace OnyxZygisk.Loader

open Daemon (FnNode FnScope)
open Wire (Stream)

/-! ### The two ends -/

/-- The bytes of a Rust string. -/
def utf8 (s : String) : List UInt8 := s.toList.flatMap String.utf8EncodeChar

/-- `FnModule`; `memfd` is -1 without a descriptor. -/
structure FnModule where
  id : List UInt8
  triggers : List UInt8
  scope : Nat
  apps : List UInt8
  priority : Nat
  memfd : Int
  deriving DecidableEq

def scopeByte : FnScope → Nat
  | .all => 0
  | .allowlist => 1
  | .denylist => 2

/-- The fields of a node as they are sent. -/
def wireOf (node : FnNode) (fd : Nat) : FnModule where
  id := utf8 node.id
  triggers := utf8 (",".intercalate node.triggers)
  scope := scopeByte node.scope
  apps := utf8 (",".intercalate node.apps)
  priority := node.priority.toUInt32.toNat
  memfd := fd

def writeFnModule (usize : Nat) (m : FnModule) (fd : Nat) : Stream :=
  Wire.writeString usize m.id ++ (Wire.writeString usize m.triggers ++ (Wire.writeNat 1 m.scope ++
    (Wire.writeString usize m.apps ++ (Wire.writeNat 4 m.priority ++ Wire.sendFd fd))))

/-- The loop of `handle_read_fn_modules`; `libraryFd` is `create_library_fd`. -/
def writeNodes (usize : Nat) (libraryFd : FnNode → Option Nat) : List FnNode → Stream
  | [] => []
  | node :: nodes =>
    match libraryFd node with
    -- the error ends the handler, and with it the connection
    | none => []
    | some fd => writeFnModule usize (wireOf node fd) fd ++ writeNodes usize libraryFd nodes

def handleReadFnModules (usize : Nat) (libraryFd : FnNode → Option Nat) (nodes : List FnNode) : Stream :=
  Wire.writeNat usize nodes.length ++ writeNodes usize libraryFd nodes

def readFnModule (usize : Nat) (heap : Nat → List UInt8) (s : Stream) : FnModule × Stream :=
  let (id, s) := Wire.readString usize heap s
  let (triggers, s) := Wire.readString usize heap s
  let (scope, s) := Wire.readNat 1 s
  let (apps, s) := Wire.readString usize heap s
  let (priority, s) := Wire.readNat 4 s
  let (memfd, s) := Wire.recvFd s
  (⟨id, triggers, scope, apps, priority, memfd⟩, s)

def readCount (usize : Nat) (heap : Nat → List UInt8) : Nat → Stream → List FnModule
  | 0, _ => []
  | n + 1, s =>
    let (m, s) := readFnModule usize heap s
    m :: readCount usize heap n s

/-- `ReadFnModules` on what the daemon sends. -/
def readFnModules (usize : Nat) (heap : Nat → List UInt8) (s : Stream) : List FnModule :=
  let (len, s) := Wire.readNat usize s
  readCount usize heap len s

/-- The texts fit into the memory of a process. -/
def FitsNode (usize : Nat) (node : FnNode) : Prop :=
  (utf8 node.id).length < 256 ^ usize ∧
    (utf8 (",".intercalate node.triggers)).length < 256 ^ usize ∧
    (utf8 (",".intercalate node.apps)).length < 256 ^ usize

/-- A list of nodes that a process can hold. -/
structure FnNodes (usize : Nat) where
  nodes : List FnNode
  usize_pos : 0 < usize
  length_lt : nodes.length < 256 ^ usize
  fits : ∀ node ∈ nodes, FitsNode usize node

/-! ### One module -/

variable {usize : Nat} {heap : Nat → List UInt8} {libraryFd : FnNode → Option Nat} {node : FnNode}

/-- A module as the reader's C strings have it. -/
def FnModule.cut (m : FnModule) : FnModule :=
  { m with
    id := m.id.takeWhile (· ≠ 0)
    triggers := m.triggers.takeWhile (· ≠ 0)
    apps := m.apps.takeWhile (· ≠ 0) }

/-- What is read where the daemon has stopped. -/
def blank : FnModule := ⟨[], [], 0, [], 0, -1⟩

/-- The fields fit into their words. -/
structure FnModule.Fits (usize : Nat) (m : FnModule) : Prop where
  id : m.id.length < 256 ^ usize
  triggers : m.triggers.length < 256 ^ usize
  scope : m.scope < 256 ^ 1
  apps : m.apps.length < 256 ^ usize
  priority : m.priority < 256 ^ 4

theorem readFnModule_write {m : FnModule} (h : m.Fits usize) (fd : Nat) (rest : Stream) :
    readFnModule usize heap (writeFnModule usize m fd ++ rest) = ({ m.cut with memfd := fd }, rest) := by
  simp only [readFnModule, writeFnModule, List.append_assoc, Wire.readString_write h.id,
    Wire.readString_write h.triggers, Wire.readNat_write h.scope, Wire.readString_write h.apps,
    Wire.readNat_write h.priority, Wire.recvFd_send, FnModule.cut]

theorem fits_wireOf (h : FitsNode usize node) (fd : Nat) : (wireOf node fd).Fits usize where
  id := h.1
  triggers := h.2.1
  scope := by
    show scopeByte node.scope < 256 ^ 1
    cases node.scope <;> decide
  apps := h.2.2
  priority := node.priority.toUInt32.toNat_lt

theorem readFnModule_nil (h : 0 < usize) : readFnModule usize heap [] = (blank, []) := by
  rw [readFnModule, Wire.readString_nil h]
  dsimp only
  rw [Wire.readString_nil h]
  dsimp only
  rw [Wire.readNat_nil Nat.one_pos]
  dsimp only
  rw [Wire.readString_nil h]
  rfl

/-! ### The list -/

theorem length_readCount (n : Nat) (s : Stream) : (readCount usize heap n s).length = n := by
  induction n generalizing s with
  | zero => rfl
  | succ n ih => exact congrArg (· + 1) (ih _)

theorem readCount_nil (h : 0 < usize) (n : Nat) :
    readCount usize heap n [] = List.replicate n blank := by
  induction n with
  | zero => rfl
  | succ n ih =>
    rw [readCount, readFnModule_nil h]
    exact congrArg (blank :: ·) ih

/-- The library of the node can be opened. -/
def opens (libraryFd : FnNode → Option Nat) (node : FnNode) : Bool := (libraryFd node).isSome

theorem opens_of_some {node : FnNode} {fd : Nat} (h : libraryFd node = some fd) : opens libraryFd node := by
  rw [opens, h]
  rfl

theorem not_opens_of_none {node : FnNode} (h : libraryFd node = none) : ¬ opens libraryFd node := by
  rw [opens, h]
  exact Bool.false_ne_true

/-- The nodes in front of the first library that cannot be opened, and a blank for each other one. -/
theorem readCount_writeNodes (h : 0 < usize) {nodes : List FnNode}
    (hfits : ∀ node ∈ nodes, FitsNode usize node) :
    readCount usize heap nodes.length (writeNodes usize libraryFd nodes) =
      ((nodes.takeWhile (opens libraryFd)).filterMap fun node =>
        (libraryFd node).map fun fd => (wireOf node fd).cut) ++
          List.replicate (nodes.dropWhile (opens libraryFd)).length blank := by
  induction nodes with
  | nil => rfl
  | cons node nodes ih =>
    rw [List.forall_mem_cons] at hfits
    cases hfd : libraryFd node with
    | none =>
      have hopens := not_opens_of_none hfd
      rw [writeNodes, hfd, List.takeWhile_cons_of_neg hopens, List.dropWhile_cons_of_neg hopens]
      exact readCount_nil h _
    | some fd =>
      have hopens := opens_of_some hfd
      rw [writeNodes, hfd, List.takeWhile_cons_of_pos hopens, List.dropWhile_cons_of_pos hopens,
        List.length_cons, readCount, readFnModule_write (fits_wireOf hfits.1 fd)]
      dsimp only
      rw [ih hfits.2, List.filterMap_cons, hfd]
      rfl

/-- The modules that are to arrive: those that can be opened, as they are. -/
def openable (libraryFd : FnNode → Option Nat) (nodes : List FnNode) : List FnModule :=
  nodes.filterMap fun node => (libraryFd node).map (wireOf node)

/-- No zero byte in the texts that are sent. -/
def NulFree (node : FnNode) : Prop :=
  0 ∉ utf8 node.id ∧ 0 ∉ utf8 (",".intercalate node.triggers) ∧ 0 ∉ utf8 (",".intercalate node.apps)

theorem cut_eq_iff (node : FnNode) (fd : Nat) : (wireOf node fd).cut = wireOf node fd ↔ NulFree node := by
  rw [FnModule.cut, wireOf, FnModule.mk.injEq, NulFree]
  simp only [Wire.takeWhile_nul_iff, true_and, and_true]

theorem filterMap_cut_iff {nodes : List FnNode} (hopen : ∀ node ∈ nodes, opens libraryFd node) :
    (nodes.filterMap fun node => (libraryFd node).map fun fd => (wireOf node fd).cut) =
      openable libraryFd nodes ↔ ∀ node ∈ nodes, NulFree node := by
  induction nodes with
  | nil => exact ⟨fun _ node hnode => absurd hnode List.not_mem_nil, fun _ => rfl⟩
  | cons node nodes ih =>
    rw [List.forall_mem_cons] at hopen
    obtain ⟨fd, hfd⟩ := Option.isSome_iff_exists.1 hopen.1
    rw [openable, List.filterMap_cons, List.filterMap_cons, hfd, List.forall_mem_cons,
      ← cut_eq_iff node fd, ← ih hopen.2]
    show _ :: _ = _ :: _ ↔ _
    rw [List.cons.injEq]
    exact Iff.rfl

theorem length_openable (nodes : List FnNode) :
    (openable libraryFd nodes).length = (nodes.filter (opens libraryFd)).length := by
  induction nodes with
  | nil => rfl
  | cons node nodes ih =>
    cases hfd : libraryFd node with
    | none =>
      have hopens := not_opens_of_none hfd
      rw [openable, List.filterMap_cons, hfd, List.filter_cons_of_neg hopens]
      exact ih
    | some fd =>
      have hopens := opens_of_some hfd
      rw [openable, List.filterMap_cons, hfd, List.filter_cons_of_pos hopens]
      exact congrArg (· + 1) ih

/-- The loader decodes exactly the nodes that can be opened, with all their fields, if every library can
be opened and no text holds a zero byte, and in no other case: one library that cannot be opened leaves
the list as long as it was. -/
theorem readFnModules_iff (heap : Nat → List UInt8) (libraryFd : FnNode → Option Nat)
    (list : FnNodes usize) :
    readFnModules usize heap (handleReadFnModules usize libraryFd list.nodes) =
        openable libraryFd list.nodes ↔
      (∀ node ∈ list.nodes, opens libraryFd node) ∧ ∀ node ∈ list.nodes, NulFree node := by
  rw [readFnModules, handleReadFnModules, Wire.readNat_write list.length_lt]
  dsimp only
  by_cases hopen : ∀ node ∈ list.nodes, opens libraryFd node
  · have htake := List.takeWhile_eq_self_iff.2 hopen
    have hdrop := List.dropWhile_eq_nil_iff.2 hopen
    rw [readCount_writeNodes list.usize_pos list.fits, htake, hdrop, List.length_nil,
      List.replicate_zero, List.append_nil, filterMap_cut_iff hopen]
    exact ⟨fun h => ⟨hopen, h⟩, fun h => h.2⟩
  · constructor
    · intro h
      have hlen := congrArg List.length h
      rw [length_readCount, length_openable] at hlen
      exact absurd (List.length_filter_eq_length_iff.1 hlen.symm) hopen
    · exact fun h => absurd h.1 hopen

/-- Two nodes: the first one has a script, its library is missing. -/
def scriptNodeFs : FileTree := .ofFiles [
  (Daemon.fnRoot ++ ["a", "fn.prop"], "id=a\nname=A\nversion=1\nversionCode=1\nentry=lib.so\n"),
  (Daemon.fnRoot ++ ["a", "service.sh"], ""),
  (Daemon.fnRoot ++ ["b", "fn.prop"], "id=b\nname=B\nversion=1\nversionCode=1\nentry=lib.so\n"),
  (Daemon.fnRoot ++ ["b", "lib.so"], "elf")]

/-- The scan serves both nodes, the stream stops at the first, and the loader reads two blank modules. -/
theorem readFnModules_script :
    let nodes := (Daemon.activeNativeNodes Daemon.Env.fine scriptNodeFs).1
    let libraryFd := fun node : FnNode => if scriptNodeFs.isFile node.libPath then some 7 else none
    nodes.map FnNode.id = ["a", "b"] ∧ (openable libraryFd nodes).map FnModule.id = [utf8 "b"] ∧
      readFnModules 8 (fun _ => []) (handleReadFnModules 8 libraryFd nodes) = [blank, blank] ∧
      readFnModules 8 (fun _ => []) (handleReadFnModules 8 libraryFd nodes) ≠ openable libraryFd nodes := by
  decide

end OnyxZygisk.Loader
