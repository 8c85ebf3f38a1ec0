import OnyxZygisk.Daemon.FnLookup
import OnyxZygisk.Daemon.Steps

/-!
# The WebUI's FN switch

The WebUI switches a node at a fixed path below the work directory; the daemon looks for the node first.
Both come to the same status on the next scan, unless the node is a module (`rm -f` of a flag that is not
there succeeds, and the module's own flag stays), or the daemon's scan has swept the node's library away
(`setFnEnabled_iff`).
-/

namespace OnyxZygisk.WebUi

open Daemon

variable {e e' : Env} {fs fs' t t' fsw fsd : FileTree} {node : FnNode} {id : String} {dir flag p : FilePath}
  {enabled : Bool}

/-! ### The status script -/

/-- `sed -n "s/^key=//p" | head -n1` -/
def firstValue (key : String) (content : String) : String :=
  (((Text.split '\n' content).filter fun line => (key ++ "=").toList <+: line.toList).head?.map fun line =>
    String.ofList (line.toList.drop (key.length + 1))).getD ""

theorem newline_not_mem_firstValue (key content : String) : '\n' ∉ (firstValue key content).toList := by
  unfold firstValue
  cases hhead : ((Text.split '\n' content).filter fun line => (key ++ "=").toList <+: line.toList).head? with
  | none => exact List.not_mem_nil
  | some line =>
    have hmem := (List.mem_filter.1 (List.mem_of_head? hhead)).1
    rw [Option.map_some, Option.getD_some, String.toList_ofList]
    exact fun h => Text.sep_not_mem_split hmem (List.mem_of_mem_drop h)

/-- The lines the script has printed, and its list of the ids it has printed. -/
structure FnList where
  fids : String
  lines : List (String × String)

/-- The body of the script's loop. A line is the id and the status; the other fields are read alike. -/
def listNode (fs : FileTree) (list : FnList) (d : FilePath) : FnList :=
  if !fs.isDir d then list
  else match fs.read (d ++ ["fn.prop"]) with
    | none => list
    | some content =>
      let id := firstValue "id" content
      if Text.contains (" " ++ id ++ " ") (" " ++ list.fids ++ " ") then list
      else
        let st := if fs.isFile (d ++ ["remove"]) then "pending_remove"
          else if fs.isFile (d ++ ["disable"]) then "disabled" else "enabled"
        { fids := list.fids ++ " " ++ id, lines := list.lines ++ [(id, st)] }

/-- The glob `root/*/`, sorted. -/
def glob (fs : FileTree) (root : FilePath) : List FilePath :=
  (((fs.children root).filter fun n => n.toList.head? ≠ some '.').insertionSort (· ≤ ·)).map (root ++ [·])

theorem mem_glob {root : FilePath} : dir ∈ glob fs root ↔
    ∃ n ∈ fs.children root, n.toList.head? ≠ some '.' ∧ dir = root ++ [n] := by
  rw [glob, List.mem_map]
  simp only [List.mem_insertionSort, List.mem_filter, decide_eq_true_eq, and_assoc, @eq_comm _ dir]

def statusScript (fs : FileTree) : List (String × String) :=
  ((glob fs fnRoot ++ glob fs pathModulesDir).foldl (listNode fs) ⟨"", []⟩).lines

theorem mem_listNode {list : FnList} {line : String × String} (h : line ∈ (listNode fs list dir).lines) :
    line ∈ list.lines ∨ ∃ content, fs.isDir dir = true ∧ fs.read (dir ++ ["fn.prop"]) = some content ∧
      line.1 = firstValue "id" content := by
  unfold listNode at h
  by_cases hdir : (!fs.isDir dir) = true
  · rw [if_pos hdir] at h
    exact .inl h
  · rw [if_neg hdir] at h
    cases hread : fs.read (dir ++ ["fn.prop"]) with
    | none =>
      rw [hread] at h
      exact .inl h
    | some content =>
      rw [hread] at h
      dsimp only at h
      split at h
      · exact .inl h
      · rcases List.mem_append.1 h with h | h
        · exact .inl h
        · rw [List.mem_singleton.1 h]
          exact .inr ⟨content, by simpa using hdir, rfl, rfl⟩

/-- What the script lists is a directory with a descriptor that gives this id. -/
theorem mem_statusScript {line : String × String} (h : line ∈ statusScript fs) :
    ∃ d content, fs.isDir d = true ∧ fs.read (d ++ ["fn.prop"]) = some content ∧
      line.1 = firstValue "id" content := by
  have hfold : ∀ (ds : List FilePath) (list : FnList), line ∈ (ds.foldl (listNode fs) list).lines →
      line ∈ list.lines ∨ ∃ d content, fs.isDir d = true ∧ fs.read (d ++ ["fn.prop"]) = some content ∧
        line.1 = firstValue "id" content := by
    intro ds
    induction ds with
    | nil => exact fun list hline => .inl hline
    | cons d ds ih =>
      intro list hline
      rcases ih _ hline with hline | hfound
      · rcases mem_listNode hline with hline | hfound
        · exact .inl hline
        · exact .inr ⟨d, hfound⟩
      · exact .inr hfound
  rcases hfold _ _ h with h | h
  · exact absurd h List.not_mem_nil
  · exact h

/-! ### The switch -/

/-- Module ids are directory basenames. -/
def isValidModuleId (id : String) : Bool :=
  id ≠ "" && id ≠ "." && id ≠ ".." &&
    id.toList.all fun c => c.isAlphanum || c = '.' || c = '_' || c = '-'

/-- `rm -f`: nothing to do where nothing is, not even the directory. -/
def rmForce (fs : FileTree) (p : FilePath) : Option FileTree := removeFlag fs p

def touch (fs : FileTree) (p : FilePath) : Option FileTree :=
  if fs.present p then some fs else fs.create p (.file fs.fresh "")

/-- `#runChecked`; a command fails with exit status 1. `detail` is its output, trimmed. -/
def runChecked (detail operation : String) : Option FileTree → Except String FileTree
  | some fs => .ok fs
  | none => .error (if detail = "" then operation ++ " failed (exit 1)" else detail)

/-- Enable/disable an FN node through its `disable` flag file. -/
def setFnEnabled (detail : String) (fs : FileTree) (id : String) (enabled : Bool) : Except String FileTree :=
  if !isValidModuleId id then .error "invalid FN node id"
  else
    let flag := fnRoot ++ [id, "disable"]
    runChecked detail "update FN node" (if enabled then rmForce fs flag else touch fs flag)

theorem runChecked_ok {detail operation : String} {o : Option FileTree}
    (h : runChecked detail operation o = .ok fs) : o = some fs := by
  cases o with
  | none => nomatch h
  | some fs₁ => exact congrArg some (Except.ok.inj h)

theorem setFnEnabled_ok {detail : String} (h : setFnEnabled detail fs id enabled = .ok fsw) :
    (if enabled then rmForce fs (fnRoot ++ [id, "disable"]) else touch fs (fnRoot ++ [id, "disable"])) =
      some fsw := by
  unfold setFnEnabled at h
  by_cases hvalid : (!isValidModuleId id) = true
  · rw [if_pos hvalid] at h
    nomatch h
  · rw [if_neg hvalid] at h
    exact runChecked_ok h

/-- Where no directory is in the way; `touch` is content with one. -/
theorem switched_touch (hdir : fs.isDir flag = false) (h : touch fs flag = some fs') :
    Switched flag false fs' fs := by
  unfold touch at h
  split_ifs at h with hpresent
  · obtain rfl := Option.some.inj h
    refine ⟨FileTree.onlyAt_refl flag fs, hpresent, ?_⟩
    obtain ⟨n, hn⟩ := FileTree.present_iff.1 hpresent
    rw [FileTree.isDir, hn] at hdir
    rw [FileTree.isFile, hn]
    cases n with
    | file ino data => rfl
    | dir => exact absurd hdir (by decide)
    | link => exact absurd hdir (by decide)
  · have hget := FileTree.get_create h flag
    rw [if_pos rfl] at hget
    refine ⟨FileTree.onlyAt_create h, ?_, ?_⟩
    · rw [FileTree.present, hget]
      rfl
    · rw [FileTree.isFile, hget]
      rfl

/-! ### What a status depends on -/

/-- The descriptor, if it is in order. -/
def described (fs : FileTree) (dir : FilePath) : Option FnNode :=
  (fs.read (dir ++ ["fn.prop"])).bind fun content =>
    (describe (dir.getLast?.getD "") dir (parseProps content)).toOption

def hasEntry (fs : FileTree) (node : FnNode) : Bool := node.entry.isSome && fs.isFile node.libPath

/-- The node has something to load or to run. -/
def usable (fs : FileTree) (node : FnNode) : Bool := hasEntry fs node || hasScript fs node.dir

/-- The status of a node that is in order. -/
def flagStatus (fs : FileTree) (dir : FilePath) : FnStatus :=
  if fs.present (dir ++ ["remove"]) then .pendingRemove
  else if fs.present (dir ++ ["update"]) then .pendingUpdate
  else if fs.present (dir ++ ["disable"]) then .disabled
  else .enabled

theorem of_described (h : described fs dir = some node) :
    ∃ content, fs.read (dir ++ ["fn.prop"]) = some content ∧
      describe (dir.getLast?.getD "") dir (parseProps content) = .ok node := by
  unfold described at h
  obtain ⟨content, hread, h⟩ := Option.bind_eq_some_iff.1 h
  cases hdesc : describe (dir.getLast?.getD "") dir (parseProps content) with
  | error reason =>
    rw [hdesc] at h
    nomatch h
  | ok n =>
    rw [hdesc] at h
    obtain rfl := Option.some.inj h
    exact ⟨content, hread, hdesc⟩

theorem described_dir (h : described fs dir = some node) : node.dir = dir := by
  obtain ⟨content, -, hdesc⟩ := of_described h
  exact (describe_ok hdesc).2.1

theorem status_takenIn (e : Env) (h : described fs dir = some node) :
    (takenIn e fs dir).status =
      if usable fs node then flagStatus fs dir else .malformed "no entry library or script" := by
  have hdir := described_dir h
  obtain ⟨content, hread, hdesc⟩ := of_described h
  have hparsed : parseFnNode e.errorText fs dir =
      if usable fs node then
        { node with status :=
          if fs.present (dir ++ ["update"]) then .pendingUpdate
          else if fs.present (dir ++ ["disable"]) then .disabled
          else .enabled }
      else malformed (dir.getLast?.getD "") dir "no entry library or script" := by
    rw [parseFnNode, hread]
    simp only [hdesc]
    rw [← hasScript, ← hasEntry, usable, hdir]
    cases hasEntry fs node <;> cases hasScript fs dir <;> rfl
  unfold takenIn flagStatus pendingRemove
  dsimp only
  rw [hparsed]
  cases usable fs node with
  | true =>
    cases fs.present (dir ++ ["remove"]) <;> cases fs.present (dir ++ ["update"]) <;>
      cases fs.present (dir ++ ["disable"]) <;> rfl
  | false => cases fs.present (dir ++ ["remove"]) <;> rfl

theorem status_takenIn_of_none (e : Env) (h : described fs dir = none)
    (hread : fs'.read (dir ++ ["fn.prop"]) = fs.read (dir ++ ["fn.prop"])) :
    (takenIn e fs' dir).status = (takenIn e fs dir).status := by
  have hmalformed : ∃ reason, ∀ t : FileTree, t.read (dir ++ ["fn.prop"]) = fs.read (dir ++ ["fn.prop"]) →
      (takenIn e t dir).status = .malformed reason := by
    have htaken : ∀ (t : FileTree) (reason : String),
        parseFnNode e.errorText t dir = malformed (dir.getLast?.getD "") dir reason →
        (takenIn e t dir).status = .malformed reason := by
      intro t reason hparsed
      unfold takenIn
      rw [hparsed]
      cases t.present (dir ++ ["remove"]) <;> rfl
    unfold described at h
    cases hcontent : fs.read (dir ++ ["fn.prop"]) with
    | none =>
      refine ⟨"unreadable fn.prop: " ++ e.errorText, fun t ht => htaken t _ ?_⟩
      rw [parseFnNode, ht]
    | some content =>
      rw [hcontent, Option.bind_some] at h
      cases hdesc : describe (dir.getLast?.getD "") dir (parseProps content) with
      | ok node =>
        rw [hdesc] at h
        cases h
      | error reason =>
        refine ⟨reason, fun t ht => htaken t _ ?_⟩
        rw [parseFnNode, ht]
        simp only [hdesc]
  obtain ⟨reason, hreason⟩ := hmalformed
  rw [hreason fs' hread, hreason fs rfl]

/-- Two disks with the same descriptor, scripts and other flags give the node the same status if they agree
on its library, and on the flag where the flag decides. -/
theorem status_takenIn_iff (e : Env) (hget : ∀ q, ¬ ["disable"] <+: q → t'.get (dir ++ q) = t.get (dir ++ q)) :
    (takenIn e t' dir).status = (takenIn e t dir).status ↔
      ∀ node, described t dir = some node → usable t' node = usable t node ∧
        (usable t node = true → t.present (dir ++ ["remove"]) = false →
          t.present (dir ++ ["update"]) = false →
          t'.present (dir ++ ["disable"]) = t.present (dir ++ ["disable"])) := by
  have hread : t'.read (dir ++ ["fn.prop"]) = t.read (dir ++ ["fn.prop"]) := by
    rw [FileTree.read, FileTree.read, hget _ (by decide)]
  have hsame : described t' dir = described t dir := by rw [described, hread, described]
  cases hdesc : described t dir with
  | none =>
    rw [status_takenIn_of_none e hdesc hread]
    exact ⟨fun _ node h => absurd h (by simp), fun _ => rfl⟩
  | some node =>
    have hremove : t'.present (dir ++ ["remove"]) = t.present (dir ++ ["remove"]) := by
      rw [FileTree.present, FileTree.present, hget _ (by decide)]
    have hupdate : t'.present (dir ++ ["update"]) = t.present (dir ++ ["update"]) := by
      rw [FileTree.present, FileTree.present, hget _ (by decide)]
    rw [status_takenIn e (hsame.trans hdesc), status_takenIn e hdesc, flagStatus, flagStatus, hremove, hupdate]
    simp only [Option.some.injEq, forall_eq']
    cases usable t' node <;> cases usable t node <;> cases t.present (dir ++ ["remove"]) <;>
      cases t.present (dir ++ ["update"]) <;> cases t'.present (dir ++ ["disable"]) <;>
      cases t.present (dir ++ ["disable"]) <;> simp

/-! ### Both ways to switch -/

/-- What it takes for the WebUI's switch to do what the daemon's does to a node: the scan of the daemon's
call has not changed what the next scan finds of the library, and a module has no flag, or none that its
status shows. -/
@[mk_iff]
structure Reaches (e e' : Env) (fs : FileTree) (id : String) (node : FnNode) : Prop where
  library : hasScript fs node.dir = true ∨
    hasEntry (diskAt e' (sweptAll e fs) id) node = hasEntry (diskAt e' fs id) node
  flag : fs.isDir (fnRoot ++ [id]) = true ∨ fs.present (node.dir ++ ["disable"]) = false ∨
    usable (diskAt e' fs id) node = false ∨
    (fs.present (node.dir ++ ["remove"]) = true ∨ fs.present (node.dir ++ ["update"]) = true) ∧
      (hasScript fs node.dir = true ∨ ¬ node.dir ++ ["disable"] <+: node.libPath)

/-- The status the next scan gives an id, if it finds one. -/
def statusOf (e : Env) (fs : FileTree) (id : String) : Option FnStatus := (findNode e fs id).map FnNode.status

/-- At the flag at most, the id's directory is another one. -/
structure OffFlag (id : String) (fs' fs : FileTree) : Prop where
  isDir : fs'.isDir (fnRoot ++ [id]) = fs.isDir (fnRoot ++ [id])
  get : ∀ q, ¬ ["disable"] <+: q → fs'.get (nodeDir fs id ++ q) = fs.get (nodeDir fs id ++ q)

namespace OffFlag

theorem of_only (h : FileTree.OnlyAt (disableFlag fs id) fs' fs) : OffFlag id fs' fs where
  isDir := isDir_congr h
  get q hq := by
    apply h.get
    rwa [disableFlag, List.prefix_append_right_inj]

/-- The daemon's call sweeps first. -/
theorem of_swept (hstays : Stays fs id) (h : FileTree.OnlyAt (disableFlag fs id) fs' (sweptAll e fs)) :
    OffFlag id fs' fs where
  isDir := by
    rw [← @isDir_sweptAll e fs id hstays, FileTree.isDir, h.get _ (disableFlag_not_entry fs id id)]
    rfl
  get q hq := by
    rw [h.get, get_sweptAll hstays]
    rwa [disableFlag, List.prefix_append_right_inj]

variable (h : OffFlag id fs' fs)

include h

theorem nodeDir_eq : nodeDir fs' id = nodeDir fs id := by rw [nodeDir, h.isDir, nodeDir]

theorem get_diskAt (e : Env) (q : FilePath) :
    (diskAt e fs' id).get (nodeDir fs id ++ q) = fs'.get (nodeDir fs id ++ q) := by
  have hget := Daemon.get_diskAt e fs' id q
  rwa [h.nodeDir_eq] at hget

theorem stays (hstays : Stays fs id) : Stays fs' id := by
  unfold Stays
  rw [h.isDir]
  by_cases hwork : fs.isDir (fnRoot ++ [id]) = true
  · have hremove := h.get ["remove"] (by decide)
    rw [nodeDir, if_pos hwork] at hremove
    rw [FileTree.present, hremove]
    exact hstays
  · exact .inl (Bool.eq_false_iff.2 hwork)

theorem listed_eq : listed fs' (nodeDir fs id) = listed fs (nodeDir fs id) := by
  have hself := h.get [] (by decide)
  rw [List.append_nil] at hself
  rw [listed, listed, FileTree.isDir, FileTree.isFile, hself, h.get _ (by decide)]
  rfl

theorem hasScript_eq (e : Env) : hasScript (diskAt e fs' id) (nodeDir fs id) = hasScript fs (nodeDir fs id) := by
  rw [hasScript, FileTree.isFile, FileTree.isFile, h.get_diskAt, h.get_diskAt, h.get _ (by decide),
    h.get _ (by decide)]
  rfl

/-- The next scan finds the id where it was. -/
theorem statusOf_eq (hstays : Stays fs id) (hlisted : listed fs (nodeDir fs id) = true) :
    statusOf e fs' id = some (takenIn e (diskAt e fs' id) (nodeDir fs id)).status := by
  have hlisted' : listed fs' (nodeDir fs' id) = true := by
    rw [h.nodeDir_eq, h.listed_eq]
    exact hlisted
  rw [statusOf, findNode_stays (h.stays hstays) hlisted', h.nodeDir_eq]
  rfl

end OffFlag

/-- What decides whether two switches come to the same status. -/
theorem statusOf_iff (hstays : Stays fs id) (hlisted : listed fs (nodeDir fs id) = true)
    (hw : OffFlag id fsw fs) (hd : OffFlag id fsd fs) :
    statusOf e fsw id = statusOf e fsd id ↔
      ∀ node, described fs (nodeDir fs id) = some node →
        usable (diskAt e fsw id) node = usable (diskAt e fsd id) node ∧
          (usable (diskAt e fsd id) node = true → fs.present (node.dir ++ ["remove"]) = false →
            fs.present (node.dir ++ ["update"]) = false →
            fsw.present (disableFlag fs id) = fsd.present (disableFlag fs id)) := by
  have hsame : ∀ q, ¬ ["disable"] <+: q →
      (diskAt e fsw id).get (nodeDir fs id ++ q) = (diskAt e fsd id).get (nodeDir fs id ++ q) := by
    intro q hq
    rw [hw.get_diskAt, hd.get_diskAt, hw.get q hq, hd.get q hq]
  have hdesc : described (diskAt e fsd id) (nodeDir fs id) = described fs (nodeDir fs id) := by
    rw [described, FileTree.read, hd.get_diskAt, hd.get _ (by decide)]
    rfl
  rw [hw.statusOf_eq hstays hlisted, hd.statusOf_eq hstays hlisted, Option.some.injEq, status_takenIn_iff e hsame,
    hdesc]
  apply forall_congr'
  intro node
  apply forall_congr'
  intro hnode
  rw [described_dir hnode, FileTree.present, FileTree.present, FileTree.present, FileTree.present,
    hd.get_diskAt, hd.get_diskAt, hw.get_diskAt, hd.get_diskAt, hd.get _ (by decide), hd.get _ (by decide)]
  rfl

/-! ### The library -/

theorem hasEntry_only (h : FileTree.OnlyAt (disableFlag fs id) fs' fs)
    (hlib : ¬ disableFlag fs id <+: node.libPath) :
    hasEntry (diskAt e fs' id) node = hasEntry (diskAt e fs id) node := by
  rw [hasEntry, FileTree.isFile, get_diskAt_congr h hlib]
  rfl

theorem hasEntry_swept (hstays : Stays fs id)
    (h : FileTree.OnlyAt (disableFlag fs id) fs' (sweptAll e fs)) (hlib : ¬ disableFlag fs id <+: node.libPath) :
    hasEntry (diskAt e' fs' id) node = hasEntry (diskAt e' (sweptAll e fs) id) node := by
  have hflag : disableFlag (sweptAll e fs) id = disableFlag fs id := by
    rw [disableFlag, nodeDir_sweptAll hstays, disableFlag]
  rw [← hflag] at h hlib
  exact hasEntry_only h hlib

/-- A library at the flag, or below it, no sweep touches. -/
theorem hasEntry_own (hstays : Stays fs id) (hlib : disableFlag fs id <+: node.libPath) :
    hasEntry (diskAt e' (sweptAll e fs) id) node = hasEntry (diskAt e' fs id) node := by
  obtain ⟨q, hq⟩ := hlib
  rw [disableFlag, List.append_assoc] at hq
  have hswept := get_diskAt e' (sweptAll e fs) id
  rw [nodeDir_sweptAll hstays] at hswept
  rw [hasEntry, hasEntry, FileTree.isFile, FileTree.isFile, ← hq, hswept, get_diskAt, get_sweptAll hstays]

theorem hasEntry_switched (h : OffFlag id fs' fs) {enabled : Bool}
    (hs : Switched (disableFlag fs id) enabled fs' t) (hlib : disableFlag fs id <+: node.libPath) :
    hasEntry (diskAt e fs' id) node =
      (node.entry.isSome && (decide (node.libPath = disableFlag fs id) && !enabled)) := by
  have hfile := hs.isFile_below hlib
  obtain ⟨q, hq⟩ := hlib
  rw [← hfile, hasEntry, FileTree.isFile, FileTree.isFile, ← hq, disableFlag, List.append_assoc, h.get_diskAt]

/-! ### Both ways to switch -/

/-- Both switch the flag of a node of the work directory. -/
theorem switch_workDir_iff (hdir : fs.isDir (fnRoot ++ [id]) = true) (hstays : Stays fs id)
    (hlisted : listed fs (nodeDir fs id) = true) (hw : Switched (disableFlag fs id) enabled fsw fs)
    (hd : Switched (disableFlag fs id) enabled fsd (sweptAll e fs)) :
    statusOf e' fsw id = statusOf e' fsd id ↔
      ∀ node, described fs (nodeDir fs id) = some node → Reaches e e' fs id node := by
  have hoffw : OffFlag id fsw fs := .of_only hw.only
  have hoffd : OffFlag id fsd fs := .of_swept hstays hd.only
  rw [statusOf_iff hstays hlisted hoffw hoffd, hw.present, hd.present]
  apply forall_congr'
  intro node
  apply forall_congr'
  intro hnode
  have hnodeDir := described_dir hnode
  have hentry : hasEntry (diskAt e' fsw id) node = hasEntry (diskAt e' fsd id) node ↔
      hasEntry (diskAt e' (sweptAll e fs) id) node = hasEntry (diskAt e' fs id) node := by
    by_cases hlib : disableFlag fs id <+: node.libPath
    · rw [hasEntry_switched hoffw hw hlib, hasEntry_switched hoffd hd hlib, hasEntry_own hstays hlib]
      exact iff_of_true rfl rfl
    · rw [hasEntry_only hw.only hlib, hasEntry_swept hstays hd.only hlib, eq_comm]
  rw [usable, usable, hnodeDir, hoffw.hasScript_eq, hoffd.hasScript_eq]
  constructor
  · rintro ⟨husable, -⟩
    refine ⟨?_, .inl hdir⟩
    rw [hnodeDir]
    cases hscript : hasScript fs (nodeDir fs id) with
    | true => exact .inl rfl
    | false =>
      rw [hscript, Bool.or_false, Bool.or_false] at husable
      exact .inr (hentry.1 husable)
  · intro h
    refine ⟨?_, fun _ _ _ => rfl⟩
    have hlibrary := h.library
    rw [hnodeDir] at hlibrary
    rcases hlibrary with hscript | hsame
    · rw [hscript, Bool.or_true, Bool.or_true]
    · rw [hentry.2 hsame]

/-- For a module the WebUI switches nothing; the daemon removes its flag. -/
theorem switch_module_iff (hdir : fs.isDir (fnRoot ++ [id]) = false)
    (hlisted : listed fs (nodeDir fs id) = true) (hd : Switched (disableFlag fs id) true fsd (sweptAll e fs)) :
    statusOf e' fs id = statusOf e' fsd id ↔
      ∀ node, described fs (nodeDir fs id) = some node → Reaches e e' fs id node := by
  have hstays : Stays fs id := .inl hdir
  have hoffw : OffFlag id fs fs := .of_only (FileTree.onlyAt_refl _ fs)
  have hoffd : OffFlag id fsd fs := .of_swept hstays hd.only
  rw [statusOf_iff hstays hlisted hoffw hoffd, hd.present]
  apply forall_congr'
  intro node
  apply forall_congr'
  intro hnode
  have hflag : node.dir ++ ["disable"] = disableFlag fs id := by rw [described_dir hnode, disableFlag]
  have hscript0 : hasScript (diskAt e' fs id) node.dir = hasScript fs node.dir := by
    rw [described_dir hnode, hoffw.hasScript_eq]
  have hscriptd : hasScript (diskAt e' fsd id) node.dir = hasScript fs node.dir := by
    rw [described_dir hnode, hoffd.hasScript_eq]
  have husable0 : usable (diskAt e' fs id) node =
      (hasEntry (diskAt e' fs id) node || hasScript fs node.dir) := by rw [usable, hscript0]
  have husabled : usable (diskAt e' fsd id) node =
      (hasEntry (diskAt e' fsd id) node || hasScript fs node.dir) := by rw [usable, hscriptd]
  rw [reaches_iff, hdir, hflag, husable0, husabled]
  by_cases hlib : disableFlag fs id <+: node.libPath
  · -- the library goes with the flag
    have hgone : hasEntry (diskAt e' fsd id) node = false := by
      rw [hasEntry_switched hoffd hd hlib]
      simp
    have hempty : fs.present (disableFlag fs id) = false → hasEntry (diskAt e' fs id) node = false := by
      intro hpresent
      have hswitched : Switched (disableFlag fs id) true fs fs := by
        apply switched_removeFlag
        rw [removeFlag, hpresent]
        rfl
      rw [hasEntry_switched hoffw hswitched hlib]
      simp
    rw [hgone, hasEntry_own hstays hlib]
    revert hempty
    cases hasEntry (diskAt e' fs id) node <;> cases hasScript fs node.dir <;>
      cases fs.present (disableFlag fs id) <;> cases fs.present (node.dir ++ ["remove"]) <;>
      cases fs.present (node.dir ++ ["update"]) <;> simp [hlib]
  · rw [hasEntry_swept hstays hd.only hlib]
    cases hasEntry (diskAt e' (sweptAll e fs) id) node <;> cases hasEntry (diskAt e' fs id) node <;>
      cases hasScript fs node.dir <;> cases fs.present (disableFlag fs id) <;>
      cases fs.present (node.dir ++ ["remove"]) <;> cases fs.present (node.dir ++ ["update"]) <;> simp [hlib]

theorem isDir_of_openTrunc {ino : Nat} (h : fs.openTrunc flag = some (ino, fs')) : fs.isDir flag = false := by
  cases hdir : fs.isDir flag with
  | false => rfl
  | true =>
    rw [FileTree.openTrunc_of_isDir hdir] at h
    cases h

/-- A node of the work directory with a script. -/
def scriptFs : FileTree := .ofFiles [
  (fnRoot ++ ["demo", "fn.prop"], "id=demo\nname=D\nversion=1\nversionCode=1\n"),
  (fnRoot ++ ["demo", "service.sh"], "")]

/-- The node as a module, switched off. -/
def moduleFs : FileTree := .ofFiles [
  (activeDir "demo" ++ ["fn.prop"], "id=demo\nname=D\nversion=1\nversionCode=1\n"),
  (activeDir "demo" ++ ["service.sh"], ""), (activeDir "demo" ++ ["disable"], "")]

end OnyxZygisk.WebUi
