import OnyxZygisk.Daemon.FnTwice

/-!
# Switching a node

The daemon's switch does what it should to its node: switched off, it is neither loaded nor are its scripts run;
switched on, only a broken node or one to be updated is not enabled. The other nodes keep their status unless the
library of one is the flag itself (`setFnNodeEnabled_alone_iff`).
-/

namespace OnyxZygisk.Daemon

variable {e e' : Env} {fs fs' : FileTree} {node : FnNode} {id x t : String} {dir p : FilePath} {enabled : Bool}

/-! ### Scripts -/

/-- The script of a stage. -/
def stageScript : String → Option String
  | "post_fs_data" => some "post-fs-data.sh"
  | "boot" => some "service.sh"
  | _ => none

/-- `script_for_trigger` -/
def scriptForTrigger (fs : FileTree) (nodeDir : FilePath) (trigger : String) : Option FilePath :=
  (stageScript trigger).bind fun name =>
    let script := nodeDir ++ [name]
    if fs.isFile script then some script else none

/-- `run_fn_scripts`: what it spawns, with the disk its scan leaves. -/
def runFnScripts (e : Env) (fs : FileTree) (trigger : String) : List (FnNode × FilePath) × FileTree :=
  match stageScript trigger with
  | none => ([], fs)
  | some _ =>
    let (nodes, fs) := scanFnNodes e fs
    (nodes.filterMap fun node =>
      if node.status ≠ .enabled then none
      else if isStandardMagiskModule node.dir then none
      else if !node.triggers.contains trigger then none
      else (scriptForTrigger fs node.dir trigger).map fun script => (node, script), fs)

/-- A script is run for an enabled node. -/
theorem enabled_of_runFnScripts {trigger : String} {run : FnNode × FilePath} (h : run ∈ (runFnScripts e fs trigger).1) :
    run.1 ∈ (scanFnNodes e fs).1 ∧ run.1.status = .enabled := by
  unfold runFnScripts at h
  cases hstage : stageScript trigger with
  | none =>
    rw [hstage] at h
    nomatch h
  | some name =>
    rw [hstage] at h
    obtain ⟨node, hnode, hrun⟩ := List.mem_filterMap.1 h
    split_ifs at hrun with hstatus
    obtain ⟨script, -, rfl⟩ := Option.map_eq_some_iff.1 hrun
    exact ⟨hnode, not_not.1 hstatus⟩

theorem enabled_of_activeNativeNodes (h : node ∈ (activeNativeNodes e fs).1) :
    node ∈ (scanFnNodes e fs).1 ∧ node.status = .enabled := by
  obtain ⟨hmem, hactive⟩ := List.mem_filter.1 h
  exact ⟨hmem, of_decide_eq_true (Bool.and_eq_true_iff.1 hactive).1⟩

/-! ### A tree without remove flags -/

/-- No directory of the two roots has the flag. -/
def Unflagged (fs : FileTree) : Prop :=
  ∀ root, IsRoot root → ∀ id, fs.present (root ++ [id] ++ ["remove"]) = false

theorem isRoot_nodeDir (fs : FileTree) (id : String) : ∃ root, IsRoot root ∧ nodeDir fs id = root ++ [id] := by
  unfold nodeDir
  split_ifs
  · exact ⟨fnRoot, .inl rfl, rfl⟩
  · exact ⟨pathModulesDir, .inr rfl, rfl⟩

theorem unflagged_of_children
    (h : ∀ root, IsRoot root → ∀ id ∈ fs.children root, fs.present (root ++ [id] ++ ["remove"]) = false) :
    Unflagged fs := by
  intro root hroot id
  by_contra hflag
  rw [Bool.not_eq_false] at hflag
  have hmem : id ∈ fs.children root :=
    FileTree.mem_children.2 (FileTree.present_of_isDir (FileTree.isDir_of_present_child hflag))
  nomatch (h root hroot id hmem).symm.trans hflag

theorem Unflagged.stays (h : Unflagged fs) (id : String) : Stays fs id := .inr (h fnRoot (.inl rfl) id)

theorem Unflagged.findNode_eq (h : Unflagged fs) (e : Env) (id : String) :
    findNode e fs id =
      if listed fs (nodeDir fs id) then some (parseFnNode e.errorText fs (nodeDir fs id)) else none := by
  have hdisk : diskAt e fs id = fs := by
    unfold diskAt sweptBefore
    rw [foldl_sweepEntry_of_stays h.stays, sweptAll_of_stays h.stays, ite_self]
  obtain ⟨root, hroot, hnode⟩ := isRoot_nodeDir fs id
  cases hlisted : listed fs (nodeDir fs id) with
  | true =>
    rw [findNode_stays (h.stays id) hlisted, hdisk, takenIn, hnode, h root hroot id]
    rfl
  | false =>
    obtain ⟨hdir, hmodule⟩ := unlisted_nodeDir hlisted
    rw [findNode_unlisted hdir hmodule]
    rfl

theorem status_of_error {reason : String} (h : descriptor t fs dir = .error reason) :
    (parseFnNode t fs dir).status = .malformed reason := by
  rw [parseFnNode_of_error h]
  rfl

theorem status_of_ok (h : descriptor t fs dir = .ok node) : (parseFnNode t fs dir).status =
    if equipped fs dir node then flagStatus fs dir else .malformed "no entry library or script" := by
  rw [parseFnNode_of_ok h]
  split_ifs <;> rfl

theorem ite_status_iff {a b : Bool} {status : FnStatus} {reason : String} (h : status.isMalformed = false) :
    (if a then status else .malformed reason) = (if b then status else .malformed reason) ↔ a = b := by
  have hne : status ≠ .malformed reason := by
    rintro rfl
    nomatch h
  cases a <;> cases b <;> simp [hne, hne.symm]

/-! ### The disk of the switch -/

/-- A node that has its library, and no script, at or below the flag of another. The switch changes whether it is
there. -/
structure Needs (fs : FileTree) (flag : FilePath) (enabled : Bool) (x : String) (node : FnNode) : Prop where
  listed : listed fs (nodeDir fs x) = true
  described : descriptor "" fs (nodeDir fs x) = .ok node
  noScript : hasScript fs (nodeDir fs x) = false
  hasEntry : node.entry.isSome = true
  atFlag : flag <+: node.libPath
  changes : fs.isFile node.libPath ≠ (decide (node.libPath = flag) && !enabled)

section Only

variable (h : FileTree.OnlyAt (disableFlag fs id) fs' fs)
include h

theorem nodeDir_only (x : String) : nodeDir fs' x = nodeDir fs x := by
  have hdir : fs'.isDir (fnRoot ++ [x]) = fs.isDir (fnRoot ++ [x]) := by
    rw [FileTree.isDir, h.get _ (disableFlag_not_entry fs id x), FileTree.isDir]
  rw [nodeDir, hdir, nodeDir]

theorem get_only_other (hx : x ≠ id) (q : FilePath) : fs'.get (nodeDir fs x ++ q) = fs.get (nodeDir fs x ++ q) := by
  obtain ⟨root, hroot, hnode⟩ := isRoot_nodeDir fs id
  obtain ⟨root', hroot', hother⟩ := isRoot_nodeDir fs x
  apply h.get
  rw [disableFlag, hnode, hother]
  exact ((apart_entries hroot hroot' hx.symm).append ["disable"] q).1

theorem get_only_self {q : FilePath} (hq : ¬ ["disable"] <+: q) :
    fs'.get (nodeDir fs id ++ q) = fs.get (nodeDir fs id ++ q) := by
  apply h.get
  rwa [disableFlag, List.prefix_append_right_inj]

theorem unflagged_only (hplain : Unflagged fs) : Unflagged fs' := by
  intro root hroot x
  have hget : fs'.get (root ++ [x] ++ ["remove"]) = fs.get (root ++ [x] ++ ["remove"]) := by
    obtain ⟨root', hroot', hnode⟩ := isRoot_nodeDir fs id
    apply h.get
    rw [disableFlag, hnode]
    by_cases hx : x = id
    · obtain rfl | rfl := hroot <;> obtain rfl | rfl := hroot' <;> simp [fnRoot, List.cons_prefix_cons]
    · exact ((apart_entries hroot' hroot (Ne.symm hx)).append ["disable"] ["remove"]).1
  rw [FileTree.present, hget]
  exact hplain root hroot x

theorem listed_only (x : String) : listed fs' (nodeDir fs x) = listed fs (nodeDir fs x) := by
  by_cases hx : x = id
  · subst hx
    have hself := get_only_self h (q := []) (by decide)
    rw [List.append_nil] at hself
    rw [listed, listed, FileTree.isDir, FileTree.isFile, hself, get_only_self h (by decide)]
    rfl
  · exact listed_congr (get_only_other h hx)

end Only

/-- The switch of a node changes the status of another one that needs the flag, and of no other. -/
theorem status_other_iff (hplain : Unflagged fs) (hs : Switched (disableFlag fs id) enabled fs' fs) (hx : x ≠ id) :
    (findNode e fs' x).map FnNode.status = (findNode e fs x).map FnNode.status ↔
      ∀ node, ¬ Needs fs (disableFlag fs id) enabled x node := by
  have hget := get_only_other hs.only hx
  rw [(unflagged_only hs.only hplain).findNode_eq, hplain.findNode_eq, nodeDir_only hs.only, listed_only hs.only]
  cases hlisted : listed fs (nodeDir fs x) with
  | false => exact iff_of_true rfl fun node hneeds => absurd (hlisted.symm.trans hneeds.listed) (by simp)
  | true =>
    simp only [if_true, Option.map_some, Option.some.injEq]
    have hsame : descriptor e.errorText fs' (nodeDir fs x) = descriptor e.errorText fs (nodeDir fs x) := by
      rw [descriptor, read_prop_congr hget, descriptor]
    have hscript : hasScript fs' (nodeDir fs x) = hasScript fs (nodeDir fs x) := by
      rw [hasScript, FileTree.isFile, FileTree.isFile, hget, hget]
      rfl
    cases hdesc : descriptor e.errorText fs (nodeDir fs x) with
    | error reason =>
      rw [status_of_error hdesc, status_of_error (hsame.trans hdesc)]
      refine iff_of_true rfl fun node hneeds => ?_
      exact absurd (hdesc.symm.trans (descriptor_ok_iff.1 hneeds.described)) (by simp)
    | ok node =>
      have hlib : fs'.isFile node.libPath = if disableFlag fs id <+: node.libPath
          then decide (node.libPath = disableFlag fs id) && !enabled else fs.isFile node.libPath := by
        split_ifs with hprefix
        · exact hs.isFile_below hprefix
        · rw [FileTree.isFile, hs.only.get _ hprefix, FileTree.isFile]
      have hequipped : (parseFnNode e.errorText fs' (nodeDir fs x)).status =
          (parseFnNode e.errorText fs (nodeDir fs x)).status ↔
            equipped fs' (nodeDir fs x) node = equipped fs (nodeDir fs x) node := by
        rw [status_of_ok hdesc, status_of_ok (hsame.trans hdesc), flagStatus_congr hget]
        exact ite_status_iff (not_isMalformed_flagStatus fs (nodeDir fs x))
      rw [hequipped, equipped, equipped, hscript, hlib]
      constructor
      · rintro hsame node' ⟨-, hdescribed, hno, hentry, hat, hchanges⟩
        obtain rfl := Except.ok.inj (hdesc.symm.trans (descriptor_ok_iff.1 hdescribed))
        rw [hno, hentry, if_pos hat] at hsame
        simp only [Bool.true_and, Bool.or_false] at hsame
        exact hchanges hsame.symm
      · intro hnone
        split_ifs with hat
        · cases hno : hasScript fs (nodeDir fs x) with
          | true => rw [Bool.or_true, Bool.or_true]
          | false =>
            cases hentry : node.entry.isSome with
            | false => rfl
            | true =>
              by_contra hchanges
              refine hnone node ⟨hlisted, descriptor_ok_iff.1 hdesc, hno, hentry, hat, fun heq => hchanges ?_⟩
              rw [heq]
        · rfl

/-! ### The switched node -/

/-- What the switch is for: the node is off or on, and the status of no other node changes. -/
structure SwitchDone (e : Env) (fs fs' : FileTree) (id : String) (enabled : Bool) : Prop where
  off : enabled = false → (∀ node ∈ (activeNativeNodes e fs').1, node.id ≠ id) ∧
    ∀ trigger, ∀ run ∈ (runFnScripts e fs' trigger).1, run.1.id ≠ id
  on : enabled = true → ∃ node, findNode e fs' id = some node ∧
    (node.status = .enabled ∨ node.status.isMalformed = true ∨ fs'.present (node.dir ++ ["update"]) = true)
  others : ∀ x, x ≠ id → (findNode e fs' x).map FnNode.status = (findNode e fs x).map FnNode.status

theorem status_ne_enabled (hflag : fs.present (dir ++ ["disable"]) = true) : (parseFnNode t fs dir).status ≠ .enabled := by
  cases hdesc : descriptor t fs dir with
  | error reason =>
    rw [status_of_error hdesc]
    simp
  | ok node =>
    rw [status_of_ok hdesc, flagStatus, hflag, if_pos rfl]
    split_ifs <;> simp

theorem status_without_disable (hflag : fs.present (dir ++ ["disable"]) = false) :
    (parseFnNode t fs dir).status = .enabled ∨ (parseFnNode t fs dir).status.isMalformed = true ∨
      fs.present (dir ++ ["update"]) = true := by
  cases hdesc : descriptor t fs dir with
  | error reason =>
    rw [status_of_error hdesc]
    exact .inr (.inl rfl)
  | ok node =>
    rw [status_of_ok hdesc, flagStatus, hflag, if_neg Bool.false_ne_true]
    split_ifs with hequipped hupdate
    · exact .inr (.inr hupdate)
    · exact .inl rfl
    · exact .inr (.inl rfl)

section Done

variable (hplain : Unflagged fs) (hs : Switched (disableFlag fs id) enabled fs' fs)
include hplain hs

theorem findNode_switched (hlisted : listed fs (nodeDir fs id) = true) (e : Env) :
    findNode e fs' id = some (parseFnNode e.errorText fs' (nodeDir fs id)) := by
  rw [(unflagged_only hs.only hplain).findNode_eq, nodeDir_only hs.only, listed_only hs.only, hlisted]
  rfl

theorem not_enabled_switched (henabled : enabled = false) (hmem : node ∈ (scanFnNodes e fs').1)
    (hstatus : node.status = .enabled) (hlisted : listed fs (nodeDir fs id) = true) : node.id ≠ id := by
  rintro rfl
  have hfind := (mem_scanFnNodes.1 hmem).symm.trans (findNode_switched hplain hs hlisted e)
  have hflag : fs'.present (nodeDir fs node.id ++ ["disable"]) = true := by
    rw [← disableFlag, hs.present, henabled]
    rfl
  rw [Option.some.inj hfind] at hstatus
  exact status_ne_enabled hflag hstatus

theorem switchDone_iff (hlisted : listed fs (nodeDir fs id) = true) (e : Env) :
    SwitchDone e fs fs' id enabled ↔ ∀ x, x ≠ id → ∀ node, ¬ Needs fs (disableFlag fs id) enabled x node := by
  constructor
  · intro hdone x hx
    exact (status_other_iff hplain hs hx).1 (hdone.others x hx)
  · intro hnone
    refine ⟨fun hoff => ⟨?_, ?_⟩, fun hon => ?_, fun x hx => (status_other_iff hplain hs hx).2 (hnone x hx)⟩
    · intro node hnode
      obtain ⟨hmem, hstatus⟩ := enabled_of_activeNativeNodes hnode
      exact not_enabled_switched hplain hs hoff hmem hstatus hlisted
    · intro trigger run hrun
      obtain ⟨hmem, hstatus⟩ := enabled_of_runFnScripts hrun
      exact not_enabled_switched hplain hs hoff hmem hstatus hlisted
    · refine ⟨_, findNode_switched hplain hs hlisted e, ?_⟩
      rw [parseFnNode_dir]
      apply status_without_disable
      rw [← disableFlag, hs.present, hon]
      rfl

end Done

/-- What a switch that succeeds has done to the disk. -/
theorem switched_of_ok (hplain : Unflagged fs) (h : setFnNodeEnabled e fs id enabled = (.ok (), fs')) :
    listed fs (nodeDir fs id) = true ∧ Switched (disableFlag fs id) enabled fs' fs := by
  obtain ⟨node, hfind, hflag⟩ := setFnNodeEnabled_ok h
  rw [hplain.findNode_eq] at hfind
  split_ifs at hfind with hlisted
  have hdir : node.dir = nodeDir fs id := by rw [← Option.some.inj hfind, parseFnNode_dir]
  rw [hdir, ← disableFlag, sweptAll_of_stays hplain.stays] at hflag
  refine ⟨hlisted, ?_⟩
  cases enabled with
  | true => exact switched_removeFlag hflag
  | false =>
    obtain ⟨ino, hopen⟩ := hflag
    exact switched_openTrunc hopen

/-- Two nodes of the work directory, each with a script. -/
def twoScriptsFs : FileTree := .ofFiles [
  (fnRoot ++ ["a", "fn.prop"], "id=a\nname=A\nversion=1\nversionCode=1"), (fnRoot ++ ["a", "service.sh"], ""),
  (fnRoot ++ ["b", "fn.prop"], "id=b\nname=B\nversion=1\nversionCode=1"), (fnRoot ++ ["b", "service.sh"], "")]

/-- A node that has the flag of another one for its library. -/
def flagLibraryFs : FileTree := .ofFiles [
  (fnRoot ++ ["a", "fn.prop"], "id=a\nname=A\nversion=1\nversionCode=1"), (fnRoot ++ ["a", "service.sh"], ""),
  (fnRoot ++ ["a", "disable"], ""),
  (fnRoot ++ ["b", "fn.prop"], "id=b\nname=B\nversion=1\nversionCode=1\nentry=../a/disable")]

theorem unflagged_flagLibraryFs : Unflagged flagLibraryFs := by
  apply unflagged_of_children
  have hroots : ∀ root, IsRoot root → ∀ id ∈ flagLibraryFs.children root, id = "b" ∨ id = "a" := by
    rintro root (rfl | rfl) <;> decide
  intro root hroot id hid
  have hname := hroots root hroot id hid
  obtain rfl | rfl := hroot <;> obtain rfl | rfl := hname <;> decide

end OnyxZygisk.Daemon
