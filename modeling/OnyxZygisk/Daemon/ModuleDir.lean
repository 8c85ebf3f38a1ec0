import OnyxZygisk.Daemon.Eligible
import OnyxZygisk.Daemon.FnScan
import OnyxZygisk.Daemon.Steps

/-!
# The directory of a module

`resolve_module_dir` looks a name up among the served modules, then among the active directories, then
among the FN nodes. So a node is found by its id only where no module is in front of it
(`resolveModuleDir_node_iff`).
-/

namespace OnyxZygisk.Daemon

/-- `resolve_module_dir`, and the disk after the scans. -/
def resolveModuleDir (e : Env) (fs : FileTree) (arch : String) (name : Option String) (index : Nat) :
    Except String FilePath × FileTree :=
  let modules := eligibleIn fs arch
  match name with
  | some name =>
    if !validModuleId name then (.error ("invalid module id " ++ "`" ++ name ++ "`"), fs)
    else
      match modules.find? fun m => m.1 = name with
      | some m => (.ok m.2, fs)
      | none =>
        if fs.isDir (activeDir name) then (.ok (activeDir name), fs)
        else
          let (nodes, fs) := activeNativeNodes e fs
          match nodes.find? fun node => node.id = name with
          | some node => (.ok node.dir, fs)
          | none => (.error ("unknown module or FN node " ++ "`" ++ name ++ "`"), fs)
  | none =>
    match modules[index]? with
    | some m => (.ok m.2, fs)
    | none =>
      let (nodes, fs) := activeNativeNodes e fs
      match nodes[index - modules.length]? with
      | some node => (.ok node.dir, fs)
      | none => (.error ("Unknown module index " ++ toString index), fs)

variable {e : Env} {fs : FileTree} {arch name : String} {index : Nat} {node : FnNode}

theorem validModuleId_of_isValidId {id : String} (h : isValidId id = true) : validModuleId id = true := by
  rw [isValidId, Bool.and_eq_true, decide_eq_true_eq, List.all_eq_true] at h
  obtain ⟨hne, hall⟩ := h
  have hdot : '.' ∉ id.toList := fun hmem => absurd (hall '.' hmem) (by decide)
  rw [validModuleId, Bool.and_eq_true, Bool.and_eq_true, Bool.and_eq_true, List.all_eq_true]
  refine ⟨⟨⟨?_, ?_⟩, ?_⟩, ?_⟩
  · exact bne_iff_ne.2 hne
  · rw [bne_iff_ne]
    rintro rfl
    exact hdot (by decide)
  · rw [bne_iff_ne]
    rintro rfl
    exact hdot (by decide)
  · intro c hc
    have hchar := hall c hc
    simp only [Bool.or_eq_true, decide_eq_true_eq] at hchar
    simp only [Bool.or_eq_true, beq_iff_eq, Text.isAlphanum_iff]
    tauto

/-- A module that is served is found by its name. -/
theorem find_eligibleIn {d : FilePath} (h : (name, d) ∈ eligibleIn fs arch) :
    (eligibleIn fs arch).find? (fun m => m.1 = name) = some (name, d) := by
  cases hfind : (eligibleIn fs arch).find? fun m => m.1 = name with
  | none =>
    rw [List.find?_eq_none] at hfind
    exact absurd (hfind _ h) (by simp)
  | some m =>
    have hname := List.find?_some hfind
    rw [decide_eq_true_eq] at hname
    have hmem := List.mem_of_find?_eq_some hfind
    have hd := (mem_iff_lookup (nodup_eligibleIn fs arch)).1 h
    obtain ⟨n, d'⟩ := m
    obtain rfl : n = name := hname
    have hd' := (mem_iff_lookup (nodup_eligibleIn fs arch)).1 hmem
    rw [hd] at hd'
    rw [Option.some.inj hd']

theorem resolveModuleDir_eligible (hid : validModuleId name = true) {d : FilePath}
    (h : (name, d) ∈ eligibleIn fs arch) :
    resolveModuleDir e fs arch (some name) index = (.ok d, fs) := by
  simp only [resolveModuleDir, hid, find_eligibleIn h, Bool.not_true, Bool.false_eq_true, if_false]

theorem find_eligibleIn_none (h : ∀ d, (name, d) ∉ eligibleIn fs arch) :
    (eligibleIn fs arch).find? (fun m => m.1 = name) = none := by
  rw [List.find?_eq_none]
  rintro ⟨n, d⟩ hmem hname
  rw [decide_eq_true_eq] at hname
  obtain rfl : n = name := hname
  exact h d hmem

theorem resolveModuleDir_active (hid : validModuleId name = true)
    (h : ∀ d, (name, d) ∉ eligibleIn fs arch) (hdir : fs.isDir (activeDir name) = true) :
    resolveModuleDir e fs arch (some name) index = (.ok (activeDir name), fs) := by
  simp only [resolveModuleDir, hid, find_eligibleIn_none h, hdir, Bool.not_true, Bool.false_eq_true,
    if_false, if_true]

theorem resolveModuleDir_fn (hid : validModuleId name = true)
    (h : ∀ d, (name, d) ∉ eligibleIn fs arch) (hdir : fs.isDir (activeDir name) = false) :
    (resolveModuleDir e fs arch (some name) index).1 =
      match (activeNativeNodes e fs).1.find? fun node => node.id = name with
      | some node => .ok node.dir
      | none => .error ("unknown module or FN node " ++ "`" ++ name ++ "`") := by
  simp only [resolveModuleDir, hid, find_eligibleIn_none h, hdir, Bool.not_true, Bool.false_eq_true,
    if_false]
  cases (activeNativeNodes e fs).1.find? fun node => node.id = name <;> rfl

/-! ### The directory of a node -/

/-- Where a node's id leads to the node: no staged copy of that id is served, and the node lies among the
modules, or no active directory has its id and the next scan still finds what it needs. -/
def FoundById (e : Env) (fs : FileTree) (arch : String) (node : FnNode) : Prop :=
  stagedServed fs arch node.id = false ∧
    (node.dir = activeDir node.id ∨
      (fs.isDir (activeDir node.id) = false ∧
        (hasScript fs node.dir = true ∨ (sweptBefore e fs node.id).isFile node.libPath = true)))

theorem staged_ne_active (m n : String) : stagedDir m ≠ activeDir n := by
  simp [stagedDir, activeDir, pathModulesDir, pathModulesUpdateDir]

theorem fn_ne_active (m n : String) : fnRoot ++ [m] ≠ activeDir n := by
  simp [activeDir, pathModulesDir, fnRoot]

theorem fn_ne_staged (m n : String) : fnRoot ++ [m] ≠ stagedDir n := by
  simp [stagedDir, pathModulesUpdateDir, fnRoot]

theorem activeRecorded_isDir (h : activeRecorded fs arch name = true) : fs.isDir (activeDir name) = true := by
  rw [activeRecorded, Bool.and_eq_true] at h
  exact FileTree.isDir_of_present_below (by simp) h.1

theorem flagged_found (h : FoundNode fs node) (hdir : node.dir = activeDir node.id) :
    flagged fs (activeDir node.id) = false := by
  rw [flagged, ← hdir, h.described.noDisable, h.noRemove]
  rfl

/-- A served staged copy is in front of the node of its id, or a flagged active directory is. -/
theorem resolveModuleDir_staged (h : FoundNode fs node) (hs : stagedServed fs arch node.id = true) :
    (resolveModuleDir e fs arch (some node.id) index).1 ≠ .ok node.dir := by
  have hid := validModuleId_of_isValidId h.isValidId
  by_cases hflagged : activeRecorded fs arch node.id = true ∧ flagged fs (activeDir node.id) = true
  · have hnone : ∀ d, (node.id, d) ∉ eligibleIn fs arch := by
      intro d hmem
      rcases (mem_eligibleIn fs arch).1 hmem with ⟨-, -, hnot⟩ | ⟨hs', -⟩
      · exact hnot hflagged
      · rw [hs] at hs'
        exact absurd hs' Bool.noConfusion
    rw [resolveModuleDir_active hid hnone (activeRecorded_isDir hflagged.1)]
    intro hdir
    have hsame := (Except.ok.inj hdir).symm
    rw [flagged_found h hsame] at hflagged
    exact absurd hflagged.2 Bool.noConfusion
  · rw [resolveModuleDir_eligible hid ((mem_eligibleIn fs arch).2 (.inl ⟨hs, rfl, hflagged⟩))]
    intro hdir
    have hsame := (Except.ok.inj hdir).symm
    rcases h.inRoots with hroot | hroot
    · exact fn_ne_staged _ _ (hroot.symm.trans hsame)
    · exact staged_ne_active _ _ (hsame.symm.trans hroot)

/-- Without a served staged copy, the active directory is in front of everything else. -/
theorem resolveModuleDir_isDir (hid : validModuleId name = true)
    (hs : stagedServed fs arch name = false) (hdir : fs.isDir (activeDir name) = true) :
    (resolveModuleDir e fs arch (some name) index).1 = .ok (activeDir name) := by
  by_cases hserved : activeRecorded fs arch name = true ∧ flagged fs (activeDir name) = false
  · rw [resolveModuleDir_eligible hid
      ((mem_eligibleIn fs arch).2 (.inr ⟨hs, rfl, hserved.1, hserved.2⟩))]
  · have hnone : ∀ d, (name, d) ∉ eligibleIn fs arch := by
      intro d hmem
      rcases (mem_eligibleIn fs arch).1 hmem with ⟨hs', -⟩ | ⟨-, -, hrec, hf⟩
      · rw [hs] at hs'
        exact absurd hs' Bool.noConfusion
      · exact hserved ⟨hrec, hf⟩
    rw [resolveModuleDir_active hid hnone hdir]

theorem not_eligible_of_not_isDir (hs : stagedServed fs arch name = false)
    (hdir : fs.isDir (activeDir name) = false) (d : FilePath) : (name, d) ∉ eligibleIn fs arch := by
  intro hmem
  rcases (mem_eligibleIn fs arch).1 hmem with ⟨hs', -⟩ | ⟨-, -, hrec, -⟩
  · rw [hs] at hs'
    exact absurd hs' Bool.noConfusion
  · rw [activeRecorded_isDir hrec] at hdir
    exact absurd hdir Bool.noConfusion

/-- A node of the work directory whose id no directory has. -/
theorem resolveModuleDir_workDir (h : FoundNode fs node) (hactive : node.isActive = true)
    (hroot : node.dir = fnRoot ++ [node.id]) (hs : stagedServed fs arch node.id = false)
    (hdir : fs.isDir (activeDir node.id) = false) :
    (resolveModuleDir e fs arch (some node.id) index).1 = .ok node.dir ↔
      hasScript fs node.dir = true ∨ (sweptBefore e fs node.id).isFile node.libPath = true := by
  have hid := validModuleId_of_isValidId h.isValidId
  rw [resolveModuleDir_fn hid (not_eligible_of_not_isDir hs hdir) hdir, ← active_again_iff h hactive hroot]
  cases hfind : (activeNativeNodes e fs).1.find? fun n => n.id = node.id with
  | none =>
    refine iff_of_false (by simp) ?_
    rintro ⟨n, hn, hnid⟩
    exact absurd (List.find?_eq_none.1 hfind n hn) (by simp [hnid])
  | some n =>
    have hn := List.mem_of_find?_eq_some hfind
    have hnid := List.find?_some hfind
    rw [decide_eq_true_eq] at hnid
    refine iff_of_true ?_ ⟨n, hn, hnid⟩
    show Except.ok n.dir = Except.ok node.dir
    rw [dir_active_again h hroot hn hnid]

theorem resolveModuleDir_found_iff (h : FoundNode fs node) (hactive : node.isActive = true) :
    (resolveModuleDir e fs arch (some node.id) index).1 = .ok node.dir ↔ FoundById e fs arch node := by
  have hid := validModuleId_of_isValidId h.isValidId
  cases hs : stagedServed fs arch node.id with
  | true =>
    refine iff_of_false (resolveModuleDir_staged h hs) fun hr => ?_
    have hnot := hr.1
    rw [hs] at hnot
    exact absurd hnot Bool.noConfusion
  | false =>
    cases hdir : fs.isDir (activeDir node.id) with
    | true =>
      rw [resolveModuleDir_isDir hid hs hdir, FoundById, hdir]
      constructor
      · intro hsame
        exact ⟨hs, .inl (Except.ok.inj hsame).symm⟩
      · rintro ⟨-, hsame | ⟨hnot, -⟩⟩
        · rw [hsame]
        · exact absurd hnot Bool.noConfusion
    | false =>
      have hroot : node.dir = fnRoot ++ [node.id] := by
        rcases h.inRoots with hroot | hroot
        · exact hroot
        · rw [← hroot, h.isDir] at hdir
          exact absurd hdir Bool.noConfusion
      rw [resolveModuleDir_workDir h hactive hroot hs hdir, FoundById, hdir]
      constructor
      · intro hneeds
        exact ⟨hs, .inr ⟨rfl, hneeds⟩⟩
      · rintro ⟨-, hsame | ⟨-, hneeds⟩⟩
        · exact absurd (hroot.symm.trans hsame) (fn_ne_active _ _)
        · exact hneeds

def nodeProp (id : String) : String := "id=" ++ id ++ "\nname=N\nversion=1\nversionCode=1\nentry=lib.so\n"

/-- A node of the work directory. -/
def oneNodeFs : FileTree := .ofFiles [
  (fnRoot ++ ["a", "fn.prop"], nodeProp "a"), (fnRoot ++ ["a", "lib.so"], "elf")]

/-- The node's id is the name of a module without a library, too. -/
def sharedIdFs : FileTree := .ofFiles [
  (fnRoot ++ ["a", "fn.prop"], nodeProp "a"), (fnRoot ++ ["a", "lib.so"], "elf"),
  (activeDir "a" ++ ["module.prop"], "id=a")]

end OnyxZygisk.Daemon
