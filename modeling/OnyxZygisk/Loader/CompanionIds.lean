import OnyxZygisk.Daemon.CompanionSocket
import OnyxZygisk.Daemon.LoadRuns
import OnyxZygisk.Lib.Positions

/-!
# Companion ids

`run_modules_pre` gives a library its place in what the daemon has streamed, and `ConnectCompanion` sends
that number back. The daemon looks it up in a scan that knows nothing of the libraries it could not stream.
So the numbers agree as long as what was streamed is the front of what is served (`ids_lead_back`).
-/

namespace OnyxZygisk.Loader

open Daemon

/-! ### The two ends -/

/-- What a library was streamed for. -/
inductive Origin where
  | module (name : String)
  | node (node : FnNode)

/-- The ids `run_modules_pre` gives; `loads` is whether a library applies to this process and can be
loaded into it. -/
def runModulesPreIds (loads : Origin → Bool) (ms : List Daemon.Module) (fns : List FnNode) :
    List (Nat × Origin) :=
  let size := ms.length
  (ms.zipIdx.map fun m => (m.2, Origin.module m.1.name)).filter (fun id => loads id.2) ++
    (fns.zipIdx.map fun fn => (size + fn.2, Origin.node fn.1)).filter fun id => loads id.2

/-- The nodes that reach the loader: the stream ends at the first library that cannot be read. -/
def streamedNodes (e : Env) (fs : FileTree) : List FnNode :=
  let (nodes, fs) := activeNativeNodes e fs
  nodes.takeWhile fun node => (createLibraryFd e fs node.libPath).isSome

def Origin.IsTarget : Origin → Target → Prop
  | module name, target => ∃ dir, target = .module name dir
  | node n, target => target = .node n

/-- Whatever the loader has loaded, the daemon takes its id for what it was given to. -/
def IdsLeadBack (e : Env) (fs : FileTree) (arch : String) (ms : List Daemon.Module) (fns : List FnNode) : Prop :=
  ∀ loads, ∀ id ∈ runModulesPreIds loads ms fns, id.2.IsTarget (companionTarget e fs arch id.1).1

/-- All that was streamed is served, nothing is served in front of a streamed module without being streamed
itself, and nothing at all where nodes follow. -/
structure StreamedFirst (fs : FileTree) (arch : String) (ms : List Daemon.Module) (fns : List FnNode) : Prop where
  served : ∀ m ∈ ms, Served fs arch m.name
  front : ∀ name, Served fs arch name → ∀ m ∈ ms, name < m.name → name ∈ ms.map Daemon.Module.name
  all : fns ≠ [] → ∀ name, Served fs arch name → name ∈ ms.map Daemon.Module.name

variable {e e' : Env} {w w' : World} {fs : FileTree} {arch : String} {ms : List Daemon.Module}
  {fns : List FnNode}
  {loads : Origin → Bool}

theorem mem_ids_module {i : Nat} {name : String} :
    (i, .module name) ∈ runModulesPreIds loads ms fns ↔
      (ms.map Daemon.Module.name)[i]? = some name ∧ loads (.module name) = true := by
  simp [runModulesPreIds, List.mem_zipIdx_iff_getElem?]

theorem mem_ids_node {i : Nat} {node : FnNode} :
    (i, .node node) ∈ runModulesPreIds loads ms fns ↔
      (∃ j, fns[j]? = some node ∧ ms.length + j = i) ∧ loads (.node node) = true := by
  simp [runModulesPreIds, List.mem_zipIdx_iff_getElem?]

/-! ### The names -/

/-- The modules of a reply come in the order of their names. -/
theorem names_loadModules {activate : Bool} (he : e.Answers)
    (hrun : Prog.run exec e (loadModules activate) w = some (.ok ms, w')) :
    (ms.map Daemon.Module.name).Pairwise fun a b => a < b := by
  obtain ⟨r, w₀, -, hrest⟩ := Prog.run_bind_some hrun
  cases r with
  | error msg =>
    obtain ⟨hr, -⟩ := Prog.run_ret_some hrest
    exact absurd hr (by simp)
  | ok arch =>
    obtain ⟨u, w₁, -, hscanned⟩ := Prog.run_bind_some hrest
    obtain ⟨eligible, w₂, hscan, hloop⟩ := Prog.run_bind_some hscanned
    obtain ⟨rfl, rfl⟩ := Prog.run_unique (run_eligibleModules _ he _) hscan
    obtain ⟨modules, w₃, hgather, hret⟩ := Prog.run_bind_some hloop
    obtain ⟨hms, -⟩ := Prog.run_ret_some hret
    rw [← Except.ok.inj hms]
    refine (names_eligibleIn w₁.fs arch).sublist (Prog.run_gather_sublist ?_ hgather)
    intro entry module s s' hturn
    rw [(run_loadModule he hturn).2.1]

/-- A module's id leads back to it where the module stands at the same place of both lists. -/
theorem isTarget_module_iff {i : Nat} {name : String} :
    (Origin.module name).IsTarget (companionTarget e fs arch i).1 ↔
      ((eligibleIn fs arch).map Prod.fst)[i]? = some name := by
  rw [List.getElem?_map]
  cases hi : (eligibleIn fs arch)[i]? with
  | some m =>
    rw [companionTarget_module hi, Option.map_some, Option.some.injEq]
    constructor
    · rintro ⟨dir, htarget⟩
      exact (Target.module.inj htarget).1
    · rintro rfl
      exact ⟨m.2, rfl⟩
  | none =>
    rw [companionTarget_fn hi]
    refine iff_of_false ?_ (by simp)
    rintro ⟨dir, htarget⟩
    revert htarget
    cases (activeNativeNodes e fs).1[i - (eligibleIn fs arch).length]? <;> simp

/-- A node's id leads back to it where as many modules are served as were streamed. -/
theorem isTarget_node_iff {j : Nat} {node : FnNode} (hj : (activeNativeNodes e fs).1[j]? = some node) :
    (Origin.node node).IsTarget (companionTarget e fs arch (ms.length + j)).1 ↔
      (eligibleIn fs arch).length = ms.length := by
  have hnodup : (activeNativeNodes e fs).1.Nodup := by
    have hsorted : ((scanRoots e fs).nodes.insertionSort FnNode.before).Nodup :=
      (List.perm_insertionSort _ _).nodup_iff.2 (scanInv_scanRoots e fs).nodup.of_map
    exact hsorted.filter _
  cases hi : (eligibleIn fs arch)[ms.length + j]? with
  | some m =>
    rw [companionTarget_module hi]
    have hlt := (List.getElem?_eq_some_iff.1 hi).1
    exact iff_of_false (fun htarget => absurd htarget (by simp [Origin.IsTarget])) (by omega)
  | none =>
    rw [companionTarget_fn hi]
    have hle := List.getElem?_eq_none_iff.1 hi
    have hsame : (activeNativeNodes e fs).1[ms.length + j - (eligibleIn fs arch).length]? = some node ↔
        ms.length + j - (eligibleIn fs arch).length = j := by
      rw [← hj, eq_comm, List.getElem?_inj (List.getElem?_eq_some_iff.1 hj).1 hnodup, eq_comm]
    rw [show (eligibleIn fs arch).length = ms.length ↔ ms.length + j - (eligibleIn fs arch).length = j by
      omega, ← hsame]
    dsimp only [Origin.IsTarget]
    cases (activeNativeNodes e fs).1[ms.length + j - (eligibleIn fs arch).length]? <;> simp

/-! ### What is streamed -/

/-- The library of an entry can be read. -/
def Opens (e : Env) (fs : FileTree) (arch : String) (entry : String × FilePath) : Prop :=
  (createLibraryFd e fs (librarySo entry.2 arch)).isSome

instance : DecidablePred (Opens e fs arch) := fun _ => inferInstanceAs (Decidable (_ = true))

/-- Where there is nothing to swap in, a turn of the loop leaves the disk as it is. -/
theorem run_turn_active {entry : String × FilePath} {b : Option Daemon.Module} (he : e.Answers)
    (hentry : entry.2 = activeDir entry.1) (hcarries : carries w.fs entry.2 arch = true)
    (hrun : Prog.run exec e (loadModule activateStagedModule true arch entry) w = some (b, w')) :
    b = (createLibraryFd e w.fs (librarySo entry.2 arch)).map (Daemon.Module.mk entry.1) ∧ w'.fs = w.fs := by
  obtain ⟨hactivate, hb⟩ := run_loadModule_result he hrun
  rw [hentry] at hactivate
  have hfs := run_activateEntry_active hactivate
  have hso : servedSo w.fs arch entry.1 entry.2 = librarySo entry.2 arch := by
    rw [servedSo, ← hentry, if_pos hcarries]
  rw [hfs, hso] at hb
  refine ⟨?_, hfs⟩
  rw [hb, createLibraryFd]
  split_ifs <;> rfl

/-- Where no staged copy is served, the modules whose libraries can be read are streamed, and the disk is
served afterwards as it was scanned. -/
theorem names_unstaged (he : e.Answers) (harch : e.HasArch arch)
    (hrun : Prog.run exec e (loadModules true) w = some (.ok ms, w'))
    (hnone : ∀ name, stagedServed w.fs arch name = false) :
    ms.map Daemon.Module.name = ((eligibleIn w'.fs arch).filter (Opens e w'.fs arch)).map Prod.fst := by
  obtain ⟨r, w₀, hget, hrest⟩ := Prog.run_bind_some hrun
  obtain ⟨rfl, rfl⟩ := Prog.run_unique (harch w) hget
  obtain ⟨u, w₁, hcatch, hscanned⟩ := Prog.run_bind_some hrest
  obtain ⟨eligible, w₂, hscan, hloop⟩ := Prog.run_bind_some hscanned
  obtain ⟨rfl, rfl⟩ := Prog.run_unique (run_eligibleModules _ he _) hscan
  obtain ⟨modules, w₃, hgather, hret⟩ := Prog.run_bind_some hloop
  obtain ⟨hms, rfl⟩ := Prog.run_ret_some hret
  rw [← Except.ok.inj hms]
  have hactive : ∀ entry ∈ eligibleIn w₁.fs arch,
      entry.2 = activeDir entry.1 ∧ carries w₁.fs entry.2 arch = true := by
    rintro ⟨name, dir⟩ hentry
    rcases (mem_eligibleIn w₁.fs arch).1 hentry with ⟨hserved, -⟩ | ⟨-, rfl, hrec, -⟩
    · have hbefore := stagedServed_of_catchUp hcatch hserved
      rw [hnone name] at hbefore
      exact absurd hbefore Bool.false_ne_true
    · exact ⟨rfl, (Bool.and_eq_true_iff.1 hrec).1⟩
  obtain ⟨rfl, hfs⟩ := Prog.run_gather_all (I := fun s => s.fs = w₁.fs)
    (f := fun entry => (createLibraryFd e w₁.fs (librarySo entry.2 arch)).map (Daemon.Module.mk entry.1))
    (fun entry hentry s b s' hs hturn => by
      have hplace := hactive entry hentry
      rw [← hs] at hplace ⊢
      exact run_turn_active he hplace.1 hplace.2 hturn) hgather rfl
  rw [hfs]
  induction eligibleIn w₁.fs arch with
  | nil => rfl
  | cons entry entries ih =>
    rw [List.filter_cons, List.filterMap_cons]
    cases hopen : createLibraryFd e w₁.fs (librarySo entry.2 arch) with
    | none =>
      rw [if_neg (by simp [Opens, hopen])]
      exact ih
    | some fd =>
      rw [if_pos (by simp [Opens, hopen])]
      simp only [Option.map_some, List.map_cons, ih]

/-- There the numbers agree if no library in front of one that is streamed is unreadable, and none at all
where nodes follow. -/
theorem streamedFirst_iff_opens (he : e.Answers) (harch : e.HasArch arch)
    (hrun : Prog.run exec e (loadModules true) w = some (.ok ms, w'))
    (hnone : ∀ name, stagedServed w.fs arch name = false) :
    StreamedFirst w'.fs arch ms fns ↔
      (∀ a ∈ eligibleIn w'.fs arch, Opens e w'.fs arch a →
        ∀ b ∈ eligibleIn w'.fs arch, b.1 < a.1 → Opens e w'.fs arch b) ∧
      (fns ≠ [] → ∀ b ∈ eligibleIn w'.fs arch, Opens e w'.fs arch b) := by
  have hnames := names_unstaged he harch hrun hnone
  have hname : ∀ b ∈ eligibleIn w'.fs arch, b.1 ∈ ms.map Daemon.Module.name ↔ Opens e w'.fs arch b := by
    intro b hb
    rw [hnames, List.mem_map]
    constructor
    · rintro ⟨a, ha, hab⟩
      obtain ⟨ha, hopens⟩ := List.mem_filter.1 ha
      obtain rfl := List.inj_on_of_nodup_map (nodup_eligibleIn w'.fs arch) ha hb hab
      exact of_decide_eq_true hopens
    · intro hopens
      exact ⟨b, List.mem_filter.2 ⟨hb, decide_eq_true hopens⟩, rfl⟩
  have hserved : ∀ name, Served w'.fs arch name ↔ ∃ b ∈ eligibleIn w'.fs arch, b.1 = name := by
    intro name
    rw [served_iff, List.mem_map]
  constructor
  · intro h
    refine ⟨fun a ha hopens b hb hlt => ?_, fun hne b hb => ?_⟩
    · obtain ⟨m, hm, hma⟩ := List.mem_map.1 ((hname a ha).2 hopens)
      rw [← hma] at hlt
      exact (hname b hb).1 (h.front b.1 ((hserved b.1).2 ⟨b, hb, rfl⟩) m hm hlt)
    · exact (hname b hb).1 (h.all hne b.1 ((hserved b.1).2 ⟨b, hb, rfl⟩))
  · rintro ⟨hfront, hall⟩
    have hstreamed : ∀ m ∈ ms, ∃ a ∈ eligibleIn w'.fs arch, Opens e w'.fs arch a ∧ a.1 = m.name := by
      intro m hm
      have hmem : m.name ∈ ms.map Daemon.Module.name := List.mem_map_of_mem hm
      rw [hnames, List.mem_map] at hmem
      obtain ⟨a, ha, ham⟩ := hmem
      obtain ⟨ha, hopens⟩ := List.mem_filter.1 ha
      exact ⟨a, ha, of_decide_eq_true hopens, ham⟩
    refine ⟨fun m hm => ?_, fun name hs m hm hlt => ?_, fun hne name hs => ?_⟩
    · obtain ⟨a, ha, -, ham⟩ := hstreamed m hm
      exact (hserved m.name).2 ⟨a, ha, ham⟩
    · obtain ⟨b, hb, rfl⟩ := (hserved name).1 hs
      obtain ⟨a, ha, hopens, ham⟩ := hstreamed m hm
      rw [← ham] at hlt
      exact (hname b hb).2 (hfront a ha hopens b hb hlt)
    · obtain ⟨b, hb, rfl⟩ := (hserved name).1 hs
      exact (hname b hb).2 (hall hne b hb)

/-! ### Agreement -/

/-- The modules' ids lead back to them where what is streamed is the front of what is served. -/
theorem modules_lead_back :
    (∀ i name, (ms.map Daemon.Module.name)[i]? = some name →
        (Origin.module name).IsTarget (companionTarget e fs arch i).1) ↔
      ms.map Daemon.Module.name <+: (eligibleIn fs arch).map Prod.fst := by
  simp only [isTarget_module_iff]
  rw [List.prefix_iff_getElem?]
  constructor
  · intro h i hi
    exact h i _ (List.getElem?_eq_getElem hi)
  · intro h i name hi
    obtain ⟨hlt, rfl⟩ := List.getElem?_eq_some_iff.1 hi
    exact h i hlt

/-- Hot plugging is switched off, so nothing is staged. -/
def pluggedOff : FileTree :=
  .ofFiles [(librarySo (activeDir "a") "arm64-v8a", "elf"), (librarySo (activeDir "b") "arm64-v8a", "elf"),
    (fnRoot ++ ["n", "fn.prop"], "id=n\nname=N\nversion=1\nversionCode=1\nentry=lib.so\n"),
    (fnRoot ++ ["n", "lib.so"], "elf"), (hotplugOff, "")]

/-- The names of a reply, and the disk a run leaves. -/
def replied (z : Except String (List Daemon.Module) × World) : List String × FileTree :=
  ((z.1.toOption.getD []).map Daemon.Module.name, z.2.fs)

/-- The library of the first module cannot be opened. -/
def firstUnreadable : Env :=
  { Env.fine with works := fun op => op != .libraryFd (librarySo (activeDir "a") "arm64-v8a") }

theorem reply_of_replied {names : List String} {run : Option (Except String (List Daemon.Module) × World)}
    (h : run.map replied = some (names, fs)) (hne : names ≠ []) :
    ∃ ms w', run = some (.ok ms, w') ∧ ms.map Daemon.Module.name = names ∧ w'.fs = fs := by
  obtain ⟨⟨r, w'⟩, hrun, hz⟩ := Option.map_eq_some_iff.1 h
  obtain ⟨hnames, hfs⟩ := Prod.mk.inj hz
  cases r with
  | error msg => exact absurd hnames.symm hne
  | ok ms => exact ⟨ms, w', hrun, hnames, hfs⟩

end OnyxZygisk.Loader
