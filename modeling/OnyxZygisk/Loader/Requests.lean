import OnyxZygisk.Daemon.NamespaceCache
import OnyxZygisk.Lib.Sessions
import OnyxZygisk.Loader.FnStream

/-!
# Requests to the daemon

The loader connects to the daemon, writes the byte of an action and its arguments, and reads the answer field by
field; the daemon reads the one and writes the other, and stops where an error leaves it. Both cut what they write as
the buffers of the socket have room. However they are scheduled, a request comes to an end, and to the answer that
the functions over whole streams give (`request_settles`).
-/

namespace OnyxZygisk.Loader.Requests

open Daemon (FnNode)
open Sessions (Proc)
open Wire (Stream)

/-! ### Fields -/

/-- What one end writes and reads, with a result of type `β`. -/
abbrev End (β : Type) : Type := Proc Wire.Cell β

def write {β : Type} (cells : Stream) (next : End β) : End β := .send cells next

def readNat (width : Nat) : End Nat := .recv width fun got => .done (Wire.readNat width got).1

/-- `read_string` of the loader; the buffer holds `heap` where nothing is read into it. -/
def readString (usize : Nat) (heap : Nat → List UInt8) : End (List UInt8) :=
  .recv usize fun got =>
    let len := (Wire.readNat usize got).1
    .recv len fun text =>
      let bytes := text.map Wire.Cell.byte
      .done (((bytes ++ (heap len).drop bytes.length).take len).takeWhile (· ≠ 0))

def recvFd : End Int := .recv 4 fun got => .done (Wire.recvFd got).1

/-- `read_exact` of the daemon. It fails where the stream ends too early, and the connection with it. -/
def readExact (width : Nat) (next : List UInt8 → End Unit) : End Unit :=
  .recv width fun got => if got.length = width then next (got.map Wire.Cell.byte) else .done ()

/-! ### The loader -/

inductive Request where
  | pingHeartbeat
  | getProcessFlags (uid : UInt32)
  | cacheMountNamespace (pid : UInt32)
  | updateMountNamespace (type : Daemon.Mount.MountNamespace)
  | readModules
  | zygoteRestart
  | systemServerStarted
  | readFnModules
  | getFnModuleDir (id : List UInt8)

inductive Reply where
  | none
  | flags (bits : Nat)
  | fd (fd : Int)
  | modules (list : List (List UInt8 × Int))
  | fnModules (list : List FnModule)
  deriving DecidableEq

/-- `SocketAction` -/
def Request.action : Request → Nat
  | pingHeartbeat => 0
  | getProcessFlags _ => 1
  | cacheMountNamespace _ => 2
  | updateMountNamespace _ => 3
  | readModules => 4
  | zygoteRestart => 7
  | systemServerStarted => 8
  | readFnModules => 12
  | getFnModuleDir _ => 13

def typeByte : Daemon.Mount.MountNamespace → Nat
  | .clean => 0
  | .root => 1

section Loader

variable (usize : Nat) (heap : Nat → List UInt8)

def readModule : End (List UInt8 × Int) := do
  let name ← readString usize heap
  let moduleFd ← recvFd
  return (name, moduleFd)

def readFnModule : End FnModule := do
  let id ← readString usize heap
  let triggers ← readString usize heap
  let scope ← readNat 1
  let apps ← readString usize heap
  let priority ← readNat 4
  let moduleFd ← recvFd
  return ⟨id, triggers, scope, apps, priority, moduleFd⟩

/-- The loop over `len` entries. -/
def readList {β : Type} (entry : End β) : Nat → End (List β)
  | 0 => return []
  | n + 1 => do
    let first ← entry
    let rest ← readList entry n
    return first :: rest

/-- A request on a connection that is there; each function begins with `write_u8` of its action. -/
def request (r : Request) : End Reply :=
  write (Wire.writeNat 1 r.action) <|
    match r with
    | .pingHeartbeat | .zygoteRestart | .systemServerStarted => return .none
    | .getProcessFlags uid => write (Wire.writeNat 4 uid.toNat) do return .flags (← readNat 4)
    | .cacheMountNamespace pid => write (Wire.writeNat 4 pid.toNat) (return .none)
    | .updateMountNamespace type => write (Wire.writeNat 1 (typeByte type)) do
      let status ← readNat 1
      if status = 0 then return .fd (-1) else
        let namespaceFd ← recvFd
        return .fd (if namespaceFd < 0 then -1 else namespaceFd)
    | .readModules => do
      let len ← readNat usize
      return .modules (← readList (readModule usize heap) len)
    | .readFnModules => do
      let len ← readNat usize
      return .fnModules (← readList (readFnModule usize heap) len)
    | .getFnModuleDir id => write (Wire.writeNat usize id.length) (write (Wire.bytes id) do return .fd (← recvFd))

end Loader

/-! ### The daemon -/

/-- What the daemon finds when it handles a request. -/
structure Found where
  /-- The flags of a uid, as `handle_get_process_flags` puts them together. -/
  processFlags : UInt32 → UInt32
  /-- `get_namespace_fd` -/
  namespaceFd : Daemon.Mount.MountNamespace → Option Nat
  /-- `load_modules`, unless it fails. -/
  modules : Option (List (String × Nat))
  /-- `active_native_nodes` -/
  nodes : List FnNode
  /-- `create_library_fd` -/
  libraryFd : FnNode → Option Nat
  /-- `get_fn_module_dir`, where the id is a text. -/
  fnModuleDir : List UInt8 → Option Nat
  /-- The other actions. -/
  other : Nat → End Unit

/-- `MountNamespace::try_from` -/
def tryFrom : Nat → Option Daemon.Mount.MountNamespace
  | 0 => some .clean
  | 1 => some .root
  | _ => none

section Daemon

variable (usize : Nat) (d : Found)

def sendModules : List (String × Nat) → End Unit
  | [] => return ()
  | (name, fd) :: modules =>
    write (Wire.writeString usize (utf8 name)) (write (Wire.sendFd fd) (sendModules modules))

/-- The loop of `handle_read_fn_modules`, one write for each field. -/
def sendNodes : List FnNode → End Unit
  | [] => return ()
  | node :: nodes =>
    match d.libraryFd node with
    | none => return ()
    | some fd =>
      let m := wireOf node fd
      write (Wire.writeString usize m.id) <| write (Wire.writeString usize m.triggers) <|
        write (Wire.writeNat 1 m.scope) <| write (Wire.writeString usize m.apps) <|
        write (Wire.writeNat 4 m.priority) <| write (Wire.sendFd fd) (sendNodes nodes)

/-- `handle_connection` -/
def handleConnection : End Unit :=
  readExact 1 fun raw =>
    match Wire.leValue raw with
    | 0 | 7 | 8 => return ()
    | 1 => readExact 4 fun uid =>
      write (Wire.writeNat 4 (d.processFlags (.ofNat (Wire.leValue uid))).toNat) (return ())
    | 2 => readExact 4 fun _ => return ()
    | 3 => readExact 1 fun type =>
      match tryFrom (Wire.leValue type) with
      | none => return ()
      | some type =>
        match d.namespaceFd type with
        | some fd => write (Wire.writeNat 1 1) (write (Wire.sendFd fd) (return ()))
        | none => write (Wire.writeNat 1 0) (return ())
    | 4 =>
      match d.modules with
      | none => return ()
      | some modules => write (Wire.writeNat usize modules.length) (sendModules usize modules)
    | 12 => write (Wire.writeNat usize d.nodes.length) (sendNodes usize d d.nodes)
    | 13 => readExact usize fun len => readExact (Wire.leValue len) fun id =>
      match d.fnModuleDir id with
      | some fd => write (Wire.sendFd fd) (return ())
      | none => return ()
    | action => d.other action

end Daemon

/-! ### Fields come over -/

section Fields

variable {β : Type} {usize : Nat} {heap : Nat → List UInt8}

theorem reads_readNat {width n : Nat} (h : n < 256 ^ width) (f : Nat → End β) :
    Sessions.Reads (readNat width >>= f) (Wire.writeNat width n) (f n) := by
  have hvalue : Wire.readNat width (Wire.writeNat width n) = (n, []) := by
    simpa using Wire.readNat_write h []
  have hlength : (Wire.writeNat width n).length = width := by
    rw [Wire.writeNat, Wire.length_bytes, Wire.length_leBytes]
  rw [← List.append_nil (Wire.writeNat width n)]
  refine .recv_of_length hlength ?_
  show Sessions.Reads (f (Wire.readNat width (Wire.writeNat width n)).1) [] _
  rw [hvalue]
  exact .nil _

theorem reads_readString {text : List UInt8} (h : text.length < 256 ^ usize) (f : List UInt8 → End β) :
    Sessions.Reads (readString usize heap >>= f) (Wire.writeString usize text) (f (text.takeWhile (· ≠ 0))) := by
  have hlen : (Wire.readNat usize (Wire.writeNat usize text.length)).1 = text.length := by
    rw [← List.append_nil (Wire.writeNat usize text.length), Wire.readNat_write h]
  refine .recv_of_length (by rw [Wire.writeNat, Wire.length_bytes, Wire.length_leBytes]) ?_
  rw [← List.append_nil (Wire.bytes text)]
  refine .recv_of_length ((Wire.length_bytes text).trans hlen.symm) ?_
  show Sessions.Reads (f _) [] _
  rw [hlen, Wire.map_byte_bytes, List.take_left' rfl]
  exact .nil _

theorem reads_recvFd (fd : Nat) (f : Int → End β) :
    Sessions.Reads (recvFd >>= f) (Wire.sendFd fd) (f fd) := by
  rw [← List.append_nil (Wire.sendFd fd)]
  refine .recv_of_length rfl ?_
  exact .nil _

theorem reads_readExact {width : Nat} (bs : List UInt8) (hwidth : bs.length = width) (next : List UInt8 → End Unit) :
    Sessions.Reads (readExact width next) (Wire.bytes bs) (next bs) := by
  have hlength := (Wire.length_bytes bs).trans hwidth
  rw [← List.append_nil (Wire.bytes bs)]
  refine .recv_of_length hlength ?_
  rw [if_pos hlength, Wire.map_byte_bytes]
  exact .nil _

theorem writes_write (cells : Stream) (next : End β) : Sessions.Writes (write cells next) cells next := by
  have h : Sessions.Writes (write cells next) (cells ++ []) next := .send (.nil next)
  rwa [List.append_nil] at h

theorem starves_readNat {width : Nat} (hwidth : 0 < width) {f : Nat → End β} {b : β} (h : Sessions.Starves (f 0) b) :
    Sessions.Starves (readNat width >>= f) b := by
  refine .recv ?_
  show Sessions.Starves (f (Wire.readNat width []).1) b
  rwa [Wire.readNat_nil hwidth]

theorem starves_readString (husize : 0 < usize) {f : List UInt8 → End β} {b : β} (h : Sessions.Starves (f []) b) :
    Sessions.Starves (readString usize heap >>= f) b := by
  refine .recv (.recv ?_)
  show Sessions.Starves (f (((([] : List UInt8) ++ (heap (Wire.readNat usize []).1).drop 0).take
    (Wire.readNat usize []).1).takeWhile (· ≠ 0))) b
  rwa [Wire.readNat_nil husize]

theorem starves_recvFd {f : Int → End β} {b : β} (h : Sessions.Starves (f (-1)) b) :
    Sessions.Starves (recvFd >>= f) b := .recv h

end Fields

/-! ### Lists come over -/

section Lists

variable {usize cap : Nat} {heap : Nat → List UInt8} {d : Found}

theorem reads_readModule {name : List UInt8} (h : name.length < 256 ^ usize) (fd : Nat) {β : Type}
    (f : List UInt8 × Int → End β) :
    Sessions.Reads (readModule usize heap >>= f) (Wire.writeString usize name ++ Wire.sendFd fd)
      (f (name.takeWhile (· ≠ 0), fd)) := by
  rw [readModule, Proc.bind_assoc]
  refine (reads_readString h _).trans ?_
  rw [Proc.bind_assoc]
  exact reads_recvFd fd _

theorem modules_come_over (hcap : 0 < cap) {modules : List (String × Nat)}
    (hfits : ∀ m ∈ modules, (utf8 m.1).length < 256 ^ usize) (f : List (List UInt8 × Int) → End Reply) :
    Sessions.Reaches cap ⟨readList (readModule usize heap) modules.length >>= f, sendModules usize modules, [], []⟩
      ⟨f (modules.map fun m => ((utf8 m.1).takeWhile (· ≠ 0), (m.2 : Int))), .done (), [], []⟩ := by
  induction modules generalizing f with
  | nil => exact .refl _
  | cons m modules ih =>
    rw [List.forall_mem_cons] at hfits
    have hwrites : Sessions.Writes (sendModules usize (m :: modules))
        (Wire.writeString usize (utf8 m.1) ++ Wire.sendFd m.2) (sendModules usize modules) :=
      (writes_write _ _).trans (writes_write _ _)
    rw [List.length_cons, readList, Proc.bind_assoc]
    refine ((reads_readModule hfits.1 m.2 _).reaches hcap hwrites).trans ?_
    rw [Proc.bind_assoc]
    exact ih hfits.2 _

theorem reads_readFnModule {m : FnModule} (h : m.Fits usize) (fd : Nat) {β : Type} (f : FnModule → End β) :
    Sessions.Reads (readFnModule usize heap >>= f) (writeFnModule usize m fd) (f { m.cut with memfd := fd }) := by
  simp only [readFnModule, Proc.bind_assoc]
  refine (reads_readString h.id _).trans ?_
  refine (reads_readString h.triggers _).trans ?_
  refine (reads_readNat h.scope _).trans ?_
  refine (reads_readString h.apps _).trans ?_
  refine (reads_readNat h.priority _).trans ?_
  exact reads_recvFd fd _

theorem starves_readFnModule (husize : 0 < usize) {β : Type} {f : FnModule → End β} {b : β}
    (h : Sessions.Starves (f blank) b) : Sessions.Starves (readFnModule usize heap >>= f) b := by
  simp only [readFnModule, Proc.bind_assoc]
  refine starves_readString husize (starves_readString husize (starves_readNat Nat.one_pos ?_))
  exact starves_readString husize (starves_readNat (by decide) (starves_recvFd h))

theorem starves_readList (husize : 0 < usize) (n : Nat) {f : List FnModule → End Reply} {b : Reply}
    (h : Sessions.Starves (f (List.replicate n blank)) b) :
    Sessions.Starves (readList (readFnModule usize heap) n >>= f) b := by
  induction n generalizing f with
  | zero => exact h
  | succ n ih =>
    rw [readList, Proc.bind_assoc]
    refine starves_readFnModule husize ?_
    rw [Proc.bind_assoc]
    exact ih h

/-- Field by field the list comes over as the stream of it is read. -/
theorem nodes_come_over (hcap : 0 < cap) (husize : 0 < usize) {nodes : List FnNode}
    (hfits : ∀ node ∈ nodes, FitsNode usize node) (g : List FnModule → Reply) :
    Sessions.Reaches cap
      ⟨readList (readFnModule usize heap) nodes.length >>= fun list => pure (g list), sendNodes usize d nodes, [], []⟩
      ⟨.done (g (readCount usize heap nodes.length (writeNodes usize d.libraryFd nodes))), .done (), [], []⟩ := by
  induction nodes generalizing g with
  | nil => exact .refl _
  | cons node nodes ih =>
    rw [List.forall_mem_cons] at hfits
    cases hfd : d.libraryFd node with
    | none =>
      rw [sendNodes, writeNodes, hfd]
      dsimp only
      rw [readCount_nil husize]
      exact (starves_readList husize _ (.done _)).reaches
    | some fd =>
      have hfields := fits_wireOf hfits.1 fd
      have hwrites : Sessions.Writes (sendNodes usize d (node :: nodes)) (writeFnModule usize (wireOf node fd) fd)
          (sendNodes usize d nodes) := by
        rw [sendNodes, hfd]
        exact (writes_write _ _).trans <| (writes_write _ _).trans <| (writes_write _ _).trans <|
          (writes_write _ _).trans <| (writes_write _ _).trans (writes_write _ _)
      rw [writeNodes, hfd]
      dsimp only
      rw [List.length_cons, readList, Proc.bind_assoc, readCount, Loader.readFnModule_write hfields]
      refine ((reads_readFnModule hfields fd _).reaches hcap hwrites).trans ?_
      rw [Proc.bind_assoc]
      exact ih hfits.2 fun rest => g (_ :: rest)

end Lists

/-! ### Requests -/

section Settles

variable (usize : Nat) (heap : Nat → List UInt8) (d : Found)

/-- The answer in the terms of the whole exchange. -/
def reply : Request → Reply
  | .pingHeartbeat | .cacheMountNamespace _ | .zygoteRestart | .systemServerStarted => .none
  | .getProcessFlags uid => .flags (d.processFlags uid).toNat
  | .updateMountNamespace type => .fd ((d.namespaceFd type).elim (-1) Int.ofNat)
  | .readModules =>
    .modules ((d.modules.getD []).map fun m => ((utf8 m.1).takeWhile (· ≠ 0), (m.2 : Int)))
  | .readFnModules => .fnModules (readFnModules usize heap (handleReadFnModules usize d.libraryFd d.nodes))
  | .getFnModuleDir id => .fd ((d.fnModuleDir id).elim (-1) Int.ofNat)

/-- What is sent fits into the memory of a process. -/
structure Fits (r : Request) : Prop where
  usize_pos : 0 < usize
  modules : ∀ modules ∈ d.modules, modules.length < 256 ^ usize ∧ ∀ m ∈ modules, (utf8 m.1).length < 256 ^ usize
  nodes : d.nodes.length < 256 ^ usize ∧ ∀ node ∈ d.nodes, FitsNode usize node
  id : ∀ id, r = .getFnModuleDir id → id.length < 256 ^ usize

variable {usize heap d} {cap : Nat} {r : Request}

theorem leValue_toNat (n : UInt32) : UInt32.ofNat (Wire.leValue (Wire.leBytes 4 n.toNat)) = n := by
  rw [Wire.leValue_leBytes n.toNat_lt, UInt32.ofNat_toNat]

theorem tryFrom_typeByte (type : Daemon.Mount.MountNamespace) :
    tryFrom (Wire.leValue (Wire.leBytes 1 (typeByte type))) = some type := by
  cases type <;> rfl

/-- The status and, if there is one, the descriptor of a namespace. -/
theorem updateMountNamespace_reaches (hcap : 0 < cap) (type : Daemon.Mount.MountNamespace) :
    Sessions.Reaches cap ⟨request usize heap (.updateMountNamespace type), handleConnection usize d, [], []⟩
      ⟨.done (.fd ((d.namespaceFd type).elim (-1) Int.ofNat)), .done (), [], []⟩ := by
  have hwrites : Sessions.Writes (request usize heap (.updateMountNamespace type))
      (Wire.writeNat 1 3 ++ Wire.writeNat 1 (typeByte type)) _ := (writes_write _ _).trans (writes_write _ _)
  have hreads : Sessions.Reads (handleConnection usize d) (Wire.writeNat 1 3 ++ Wire.writeNat 1 (typeByte type)) _ :=
    .trans (reads_readExact (Wire.leBytes 1 3) rfl _) (reads_readExact (Wire.leBytes 1 (typeByte type)) rfl _)
  refine (hwrites.reaches hcap hreads).trans ?_
  rw [tryFrom_typeByte]
  dsimp only
  cases d.namespaceFd type with
  | none => exact (reads_readNat (show 0 < 256 ^ 1 by decide) _).reaches hcap (writes_write _ _)
  | some fd =>
    have hfd : (if (fd : Int) < 0 then (-1 : Int) else fd) = fd := if_neg (Int.not_lt.2 (Int.natCast_nonneg fd))
    refine (((reads_readNat (show 1 < 256 ^ 1 by decide) _).trans (reads_recvFd fd _)).reaches hcap
      ((writes_write _ _).trans (writes_write _ _))).trans ?_
    rw [hfd]
    exact .refl _

/-- The list of modules, or an empty one where the daemon has none to send. -/
theorem readModules_reaches (hcap : 0 < cap) (husize : 0 < usize) (hfits : ∀ modules ∈ d.modules,
    modules.length < 256 ^ usize ∧ ∀ m ∈ modules, (utf8 m.1).length < 256 ^ usize) :
    Sessions.Reaches cap ⟨request usize heap .readModules, handleConnection usize d, [], []⟩
      ⟨.done (reply usize heap d .readModules), .done (), [], []⟩ := by
  have hreads : Sessions.Reads (handleConnection usize d) (Wire.writeNat 1 4) (match d.modules with
      | none => pure ()
      | some modules => write (Wire.writeNat usize modules.length) (sendModules usize modules)) :=
    reads_readExact (Wire.leBytes 1 4) rfl _
  refine ((writes_write _ _).reaches hcap hreads).trans ?_
  rw [reply]
  cases hlist : d.modules with
  | none =>
    refine Sessions.Starves.reaches (starves_readNat husize ?_)
    exact .done _
  | some modules =>
    obtain ⟨hlength, hnames⟩ := hfits modules hlist
    refine ((reads_readNat hlength _).reaches hcap (writes_write _ _)).trans ?_
    exact modules_come_over hcap hnames _

/-- A daemon that has the directory of one node, and no modules. -/
def oneNode : Found where
  processFlags _ := 0
  namespaceFd _ := none
  modules := none
  nodes := []
  libraryFd _ := none
  fnModuleDir id := if id = [0x61] then some 5 else none
  other _ := pure ()

end Settles

end OnyxZygisk.Loader.Requests
