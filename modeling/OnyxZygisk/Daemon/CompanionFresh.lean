import OnyxZygisk.Daemon.CompanionSocket
import OnyxZygisk.Daemon.LoadRuns
import OnyxZygisk.Daemon.Threads

/-!
# Fresh companions

A companion stays in its cell until it dies or zygote restarts, whatever happens to the library it was
spawned from. So it is the companion of the library `load_modules` streams as long as no module is given
another library while its companion is alive (`handsOutFresh`).
-/

namespace OnyxZygisk.Daemon

open Prog (Only)

/-! ### The system -/

/-- The daemon's threads, the world, and the cells of the companions. -/
structure Session where
  pool : Pool.State Resp Job World
  companions : Companions

def Companions.empty : Companions := ⟨fun _ => none, fun _ => none⟩

def Session.start (fs : FileTree) : Session := ⟨⟨[], .idle fs⟩, .empty⟩

/-- A restriction on the steps of a session. -/
structure Discipline where
  op : Companions → Pool.Guard Resp Job World
  drift : Companions → World → World → Prop
  request : World → Nat → Prop

/-- Anything can happen. -/
def unrestricted : Discipline := ⟨fun _ _ _ _ _ _ _ => True, fun _ _ _ => True, fun _ _ => True⟩

/-- The world and the cells after a request. -/
def Session.afterRequest (s : Session) (calls : CompanionCalls) (arch : String) (index : Nat) : Session :=
  let z := handleRequestCompanionSocket calls s.pool.world.fs arch index s.companions
  ⟨⟨s.pool.threads, { s.pool.world with fs := z.2.1 }⟩, z.2.2⟩

/-- The daemon's threads run, with any operation failing, and the surroundings change the disk (a module is
installed, disabled, switched on or off); companions are requested and die; zygote restarts. -/
inductive Session.Step (D : Discipline) (arch : String) : Session → Session → Prop where
  | pool {p p' : Pool.State Resp Job World} {c : Companions}
      (h : Pool.Step (daemon anyFault (D.drift c)) (D.op c) p p') : Step D arch ⟨p, c⟩ ⟨p', c⟩
  | request {s : Session} (calls : CompanionCalls) (index : Nat) (h : D.request s.pool.world index) :
      Step D arch s (s.afterRequest calls arch index)
  | moduleDeath {p : Pool.State Resp Job World} {c : Companions} {name : String} {companion : Companion}
      (h : c.modules name = some companion) : Step D arch ⟨p, c⟩
        ⟨p, { c with modules := Function.update c.modules name (some { companion with alive := false }) }⟩
  | nodeDeath {p : Pool.State Resp Job World} {c : Companions} {id : String} {companion : Companion}
      (h : c.nodes id = some companion) : Step D arch ⟨p, c⟩
        ⟨p, { c with nodes := Function.update c.nodes id (some { companion with alive := false }) }⟩
  | zygoteRestart {p : Pool.State Resp Job World} {c : Companions} : Step D arch ⟨p, c⟩ ⟨p, .empty⟩

abbrev Session.Reach (D : Discipline) (arch : String) :=
  Relation.ReflTransGen (Session.Step D arch)

/-- What a copied library holds. -/
def Memfd.content (fd : Memfd) : Option String := fd.disk.read fd.source

/-- Whenever a module's companion is handed out for the index, it was spawned from what `load_modules`
streams for the module. -/
def HandsOutFresh (arch : String) (s : Session) (index : Nat) : Prop :=
  ∀ calls name companion,
    (handleRequestCompanionSocket calls s.pool.world.fs arch index s.companions).1 =
        .ok (.module name companion) →
    ∀ e activate ms w' module, e.Answers → e.HasArch arch →
      Prog.run exec e (loadModules activate) s.pool.world = some (.ok ms, w') → module ∈ ms →
      module.name = name → module.libFd.content = companion.library.content

/-! ### The discipline -/

def Companions.Live (c : Companions) (name : String) : Prop :=
  ∃ companion, c.modules name = some companion ∧ companion.alive = true

/-- The module has no library it did not have before. -/
def KeepsLibrary (arch name : String) (w w' : World) : Prop :=
  ∀ content, libraryOf w'.fs arch name = some content → libraryOf w.fs arch name = some content

/-- The operations that move or clear one of a module's directories. -/
def Op.moves (name : String) : Op → Prop
  | .rename src dst => ∃ d, (d = activeDir name ∨ d = stagedDir name) ∧ (src = d ∨ dst = d)
  | .removeDirAll p => p = activeDir name ∨ p = stagedDir name
  | _ => False

/-- While the companion of a module is alive, neither a swap nor the surroundings give the module another
library; and no companion is asked for while a staged copy with another library waits to be swapped in. -/
def steady (arch : String) : Discipline where
  op c _ _ w op _ w' := ∀ name, c.Live name → op.moves name → KeepsLibrary arch name w w'
  drift c w w' := ∀ name, c.Live name → KeepsLibrary arch name w w'
  request w index := ∀ m, (eligibleIn w.fs arch)[index]? = some m → Settled w.fs arch m.1

variable {arch name : String} {s s' : Session} {w w' : World} {fs : FileTree} {c : Companions}

/-! ### The invariant -/

/-- A live companion was spawned from the library its module has. -/
def CellsFresh (arch : String) (fs : FileTree) (c : Companions) : Prop :=
  ∀ name companion, c.modules name = some companion → companion.alive = true →
    ∀ content, libraryOf fs arch name = some content → companion.library.content = some content

theorem CellsFresh.world (h : CellsFresh arch w.fs c)
    (hkeeps : ∀ name, c.Live name → KeepsLibrary arch name w w') : CellsFresh arch w'.fs c := by
  intro name companion hcell halive content hcontent
  exact h name companion hcell halive content (hkeeps name ⟨companion, hcell, halive⟩ content hcontent)

theorem keepsLibrary_of_eq (h : libraryOf w'.fs arch name = libraryOf w.fs arch name) :
    KeepsLibrary arch name w w' := fun _ hcontent => h ▸ hcontent

/-- Every other operation of the daemon leaves a module's libraries alone. -/
theorem keepsLibrary_of_not_moves {e : Env} {op : Op} {r : Resp op} (hop : op.within daemonScope)
    (hx : exec e op w = some (r, w')) (hmoves : ¬ op.moves name) : KeepsLibrary arch name w w' := by
  have havoid : ∀ d, d = activeDir name ∨ d = stagedDir name → op.within (daemonScope.avoiding d) := by
    intro d hd
    cases op with
    | rename src dst =>
      exact ⟨hop, fun h => hmoves ⟨d, hd, .inl h⟩, fun h => hmoves ⟨d, hd, .inr h⟩⟩
    | removeDirAll p => exact ⟨hop, fun h => hmoves (h ▸ hd)⟩
    | _ => exact hop
  apply keepsLibrary_of_eq
  apply libraryOf_congr
  · exact get_within (havoid _ (.inl rfl)) hx (avoiding_spares_so (.inl rfl) arch)
  · exact get_within (havoid _ (.inr rfl)) hx (avoiding_spares_so (.inr rfl) arch)

/-- The library an index names, on a disk whose staged copies are settled. -/
theorem read_of_eligible {m : String × FilePath} (h : m ∈ eligibleIn fs arch)
    (hsettled : Settled fs arch m.1) : fs.read (librarySo m.2 arch) = libraryOf fs arch m.1 := by
  obtain ⟨n, d⟩ := m
  rcases (mem_eligibleIn fs arch).1 h with ⟨hserved, rfl, -⟩ | ⟨-, rfl, hrec, -⟩
  · cases hactive : carries fs (activeDir n) arch with
    | true =>
      rw [libraryOf_active hactive]
      exact ((hsettled hserved).1 hactive).symm
    | false => exact (libraryOf_staged hactive).symm
  · exact (libraryOf_active (Bool.and_eq_true_iff.1 hrec).1).symm

/-- What a cell holds after a request was spawned from the module's library. -/
theorem refill_fresh {calls : CompanionCalls} {m : String × FilePath} {companion : Companion}
    (hc : CellsFresh arch fs c) (hm : m ∈ eligibleIn fs arch) (hsettled : Settled fs arch m.1)
    (h : c.modules.refill calls m.1 (createLibraryFd calls.env fs (librarySo m.2 arch)) = some companion)
    {content : String} (hcontent : libraryOf fs arch m.1 = some content) :
    companion.library.content = some content := by
  cases hcurrent : c.modules.current m.1 with
  | some current =>
    rw [Cells.refill, hcurrent] at h
    obtain rfl := Option.some.inj h
    obtain ⟨hcell, halive⟩ := Option.filter_eq_some_iff.1 hcurrent
    exact hc m.1 current hcell halive content hcontent
  | none =>
    rw [Cells.refill, hcurrent] at h
    obtain ⟨fd, hfd, hspawn⟩ := Option.bind_eq_some_iff.1 h
    rw [createLibraryFd] at hfd
    split_ifs at hfd
    obtain rfl := Option.some.inj hfd
    have hlib : companion.library = ⟨librarySo m.2 arch, fs⟩ := by
      split at hspawn
      · rw [← Option.some.inj hspawn]
      · exact absurd hspawn (by simp)
    rw [hlib, Memfd.content, read_of_eligible hm hsettled]
    exact hcontent

/-- The threads are the daemon's, and the live companions fresh. -/
structure Session.Inv (arch : String) (s : Session) : Prop where
  threads : ∀ t ∈ s.pool.threads, Only (Op.within daemonScope) t.rest
  cells : CellsFresh arch s.pool.world.fs s.companions

theorem Session.Inv.pool {p p' : Pool.State Resp Job World} (h : Session.Inv arch ⟨p, c⟩)
    (hstep : Pool.Step (daemon anyFault ((steady arch).drift c)) ((steady arch).op c) p p') :
    Session.Inv arch ⟨p', c⟩ := by
  obtain ⟨hthreads, hcells⟩ := h
  have hforked : ∀ op j, Op.within daemonScope op →
      (daemon anyFault ((steady arch).drift c)).forks op = some j →
        Only (Op.within daemonScope) (body j) := by
    intro op j hop hj
    cases op with
    | spawn job =>
      obtain rfl : job = j := Option.some.inj hj
      exact within_body daemonScope_full hop
    | _ => exact absurd hj (by simp [daemon, forks])
  refine ⟨Pool.step_only (fun j hj => within_body daemonScope_full (Job.ofDaemon_of_request hj)) hforked
    hthreads hstep, ?_⟩
  obtain hw | ⟨j, others, op, r, hop, ⟨e, -, hx⟩, hok⟩ | hdrift | hkill := Pool.step_world hthreads hstep
  · dsimp only
    rw [hw]
    exact hcells
  · apply CellsFresh.world hcells
    intro name hlive
    by_cases hmoves : op.moves name
    · exact hok name hlive hmoves
    · exact keepsLibrary_of_not_moves hop hx hmoves
  · exact CellsFresh.world hcells hdrift
  · dsimp only
    rw [hkill.1]
    exact hcells

theorem Session.Inv.afterRequest {calls : CompanionCalls} {index : Nat} (h : Session.Inv arch s)
    (hrequest : (steady arch).request s.pool.world index) :
    Session.Inv arch (s.afterRequest calls arch index) := by
  refine ⟨h.threads, ?_⟩
  intro name companion hcell halive content hcontent
  cases hindex : (eligibleIn s.pool.world.fs arch)[index]? with
  | some m =>
    simp only [Session.afterRequest, handleRequest_module hindex] at hcell hcontent
    by_cases hname : name = m.1
    · subst hname
      rw [Function.update_self] at hcell
      exact refill_fresh h.cells (List.mem_of_getElem? hindex) (hrequest m hindex) hcell hcontent
    · rw [Function.update_of_ne hname] at hcell
      exact h.cells name companion hcell halive content hcontent
  | none =>
    have hreply : _ ∧ (handleRequestCompanionSocket calls s.pool.world.fs arch index s.companions).2.1 = _ ∧ _ :=
      handleRequest_fn hindex
    obtain ⟨-, hfs, hmodules⟩ := hreply
    simp only [Session.afterRequest] at hcell hcontent
    rw [hmodules] at hcell
    apply h.cells name companion hcell halive content
    rw [← hcontent, hfs]
    symm
    apply libraryOf_congr <;>
      exact activeNativeNodes_frame (by simp [fnRoot, librarySo, activeDir, stagedDir])

theorem Session.Inv.step (h : Session.Inv arch s) (hstep : Session.Step (steady arch) arch s s') :
    Session.Inv arch s' := by
  cases hstep with
  | pool hpool => exact h.pool hpool
  | request calls index hrequest => exact h.afterRequest hrequest
  | @moduleDeath p c dead companion hcell =>
    refine ⟨h.threads, ?_⟩
    intro n current hn halive
    dsimp only at hn
    by_cases hname : n = dead
    · subst hname
      rw [Function.update_self] at hn
      obtain rfl := Option.some.inj hn
      exact absurd halive Bool.false_ne_true
    · rw [Function.update_of_ne hname] at hn
      exact h.cells n current hn halive
  | nodeDeath _ => exact ⟨h.threads, h.cells⟩
  | zygoteRestart => exact ⟨h.threads, fun _ _ hcell => absurd hcell (by simp [Companions.empty])⟩

theorem Session.Inv.run (h : Session.Inv arch s) (hs : Session.Reach (steady arch) arch s s') :
    Session.Inv arch s' := by
  induction hs with
  | refl => exact h
  | tail _ hstep ih => exact ih.step hstep

theorem Session.inv_start (fs : FileTree) : Session.Inv arch (.start fs) :=
  ⟨fun _ ht => absurd ht (by simp [Session.start]), fun _ _ hcell => absurd hcell (by
    simp [Session.start, Companions.empty])⟩

/-- A module, and an update of it that nobody opted in to. -/
def updateStaged : FileTree :=
  .ofFiles [(activeDir "m" ++ ["module.prop"], "id=m"), (librarySo (activeDir "m") "arm64-v8a", "v1"),
    (stagedDir "m" ++ ["module.prop"], "id=m"), (librarySo (stagedDir "m") "arm64-v8a", "v2")]

/-- Every library has an entry point, and nothing fails. -/
def CompanionCalls.fine : CompanionCalls := ⟨.fine, fun _ _ => .ok true, fun _ => true⟩

/-- The first request for the module's companion. -/
def firstRequest : Session := (Session.start updateStaged).afterRequest .fine "arm64-v8a" 0

/-- The companion of the active library. -/
def firstCompanion : Companion := ⟨⟨librarySo (activeDir "m") "arm64-v8a", updateStaged⟩, true⟩

theorem afterRequest_module {calls : CompanionCalls} {index : Nat} {m : String × FilePath}
    (h : (eligibleIn s.pool.world.fs arch)[index]? = some m) :
    s.afterRequest calls arch index = ⟨s.pool, { s.companions with
      modules := Function.update s.companions.modules m.1 (s.companions.modules.refill calls m.1
        (createLibraryFd calls.env s.pool.world.fs (librarySo m.2 arch))) }⟩ := by
  simp only [Session.afterRequest, handleRequest_module h]

/-- The cells after it. -/
def firstCompanions : Companions :=
  { Companions.empty with modules := Function.update Companions.empty.modules "m" (some firstCompanion) }

theorem firstRequest_eq : firstRequest = ⟨⟨[], .idle updateStaged⟩, firstCompanions⟩ := by
  have hindex : (eligibleIn (Session.start updateStaged).pool.world.fs "arm64-v8a")[0]? =
      some ("m", activeDir "m") := by decide
  have hrefill : (Session.start updateStaged).companions.modules.refill .fine "m"
      (createLibraryFd .fine updateStaged (librarySo (activeDir "m") "arm64-v8a")) = some firstCompanion := by
    decide
  rw [firstRequest, afterRequest_module hindex]
  exact congrArg (fun cell => Session.mk ⟨[], .idle updateStaged⟩
    { Companions.empty with modules := Function.update Companions.empty.modules "m" cell }) hrefill

/-- The swap of the update, to its end. -/
def swapUpdate : List DaemonMove :=
  .start (.activateStagedModule "m" (stagedDir "m")) :: List.replicate 30 (.op 0 .fine)

/-- Whether a run of `load_modules` streams this for the module. -/
def streams (name content : String) (z : Except String (List Module) × World) : Bool :=
  match z.1 with
  | .ok ms => ms.any fun module => module.name = name && module.libFd.content = some content
  | .error _ => false

theorem reach_pool {D : Discipline} {p p' : Pool.State Resp Job World}
    (h : Pool.Reach (daemon anyFault (D.drift c)) (D.op c) p p') :
    Session.Reach D arch ⟨p, c⟩ ⟨p', c⟩ := by
  induction h with
  | refl => exact .refl
  | tail _ hstep ih => exact ih.tail (.pool hstep)

end OnyxZygisk.Daemon
