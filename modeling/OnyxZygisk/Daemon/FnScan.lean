import Mathlib.Data.List.TakeWhile
import OnyxZygisk.Daemon.FnNodes

/-!
# What a scan of the FN nodes finds

A node the scan returns as active is found as it is described, in a directory of its own id, and no sweep
of the same scan touches it (`found_activeNativeNodes`). A second scan comes to the same descriptor; it
finds the node active unless the sweep of another node took its library along (`active_again_iff`).
-/

namespace OnyxZygisk.Daemon

variable {e : Env} {fs fs' : FileTree} {node : FnNode} {id : String} {dir root path : FilePath}

/-! ### Steps that can fail -/

section Results

variable {ε α β : Type} {x : Except ε α} {f : α → Except ε β} {o : Option α} {err r : ε} {a : α} {b : β}

theorem of_bind_ok (h : x >>= f = .ok b) : ∃ a, x = .ok a ∧ f a = .ok b := by
  cases x with
  | error _ => nomatch h
  | ok a => exact ⟨a, rfl, h⟩

theorem of_bind_error (h : x >>= f = .error r) : x = .error r ∨ ∃ a, x = .ok a ∧ f a = .error r := by
  cases x with
  | error _ => exact .inl (congrArg Except.error (Except.error.inj h))
  | ok a => exact .inr ⟨a, rfl, h⟩

theorem of_elim_ok (h : o.elim (.error err) .ok = Except.ok a) : o = some a := by
  cases o with
  | none => nomatch h
  | some _ => exact congrArg some (Except.ok.inj h)

theorem of_elim_error (h : o.elim (.error err) .ok = (.error r : Except ε α)) : r = err := by
  cases o with
  | none => exact (Except.error.inj h).symm
  | some _ => nomatch h

end Results

/-! ### The descriptor -/

/-- The node of a descriptor that is in order. -/
theorem describe_shape {props : List (String × String)} (h : describe id dir props = .ok node) :
    isValidId id = true ∧ ∃ name version versionCode scope, required props "name" = some name ∧
      required props "version" = some version ∧ node = {
      id := id
      dir := dir
      name := name
      version := version
      versionCode := versionCode
      author := (props.lookup "author").getD ""
      description := (props.lookup "description").getD ""
      entry := required props "entry"
      triggers := match props.lookup "trigger" with
        | some value => parseList (some value)
        | none => ["app"]
      scope := scope
      apps := parseList (props.lookup "apps")
      priority := ((props.lookup "priority").bind Text.parseI32).getD 100
      capabilities := parseList (props.lookup "capabilities")
      uiSummary := required props "ui.summary"
      status := .enabled } := by
  unfold describe at h
  obtain ⟨declaredId, -, h⟩ := of_bind_ok h
  split_ifs at h with hvalid hsame
  rw [ne_eq, not_not] at hsame
  subst hsame
  rw [Bool.not_eq_true', Bool.not_eq_false] at hvalid
  obtain ⟨name, hname, h⟩ := of_bind_ok h
  obtain ⟨version, hversion, h⟩ := of_bind_ok h
  obtain ⟨code, -, h⟩ := of_bind_ok h
  obtain ⟨scope, -, h⟩ := of_bind_ok h
  exact ⟨hvalid, name, version, code, scope, of_elim_ok hname, of_elim_ok hversion, (Except.ok.inj h).symm⟩

theorem describe_ok {props : List (String × String)} (h : describe id dir props = .ok node) :
    node.id = id ∧ node.dir = dir ∧ isValidId id = true ∧ node.status = .enabled := by
  obtain ⟨hvalid, name, version, code, scope, -, -, rfl⟩ := describe_shape h
  exact ⟨rfl, rfl, hvalid, rfl⟩

def hasScript (fs : FileTree) (dir : FilePath) : Bool :=
  fs.isFile (dir ++ ["service.sh"]) || fs.isFile (dir ++ ["post-fs-data.sh"])

/-- An active node was described so, has what it needs, and carries no flag. -/
structure Described (fs : FileTree) (dir : FilePath) (node : FnNode) : Prop where
  content : ∃ content, fs.read (dir ++ ["fn.prop"]) = some content ∧
    describe (dir.getLast?.getD "") dir (parseProps content) = .ok node
  noUpdate : fs.present (dir ++ ["update"]) = false
  noDisable : fs.present (dir ++ ["disable"]) = false

/-- A node has the id and the directory it was looked for under, whatever is wrong with it. -/
theorem parseFnNode_place (errorText : String) (fs : FileTree) (dir : FilePath) :
    (parseFnNode errorText fs dir).id = dir.getLast?.getD "" ∧ (parseFnNode errorText fs dir).dir = dir := by
  cases hread : fs.read (dir ++ ["fn.prop"]) with
  | none => simp only [parseFnNode, hread, malformed, and_self]
  | some content =>
    cases hdesc : describe (dir.getLast?.getD "") dir (parseProps content) with
    | error reason => simp only [parseFnNode, hread, hdesc, malformed, and_self]
    | ok node =>
      obtain ⟨hid, hdir, -, -⟩ := describe_ok hdesc
      simp only [parseFnNode, hread, hdesc]
      split_ifs
      · exact ⟨rfl, rfl⟩
      · exact ⟨hid, hdir⟩
      · exact ⟨hid, hdir⟩
      · exact ⟨hid, hdir⟩

theorem parseFnNode_id (errorText : String) (fs : FileTree) (dir : FilePath) :
    (parseFnNode errorText fs dir).id = dir.getLast?.getD "" := (parseFnNode_place errorText fs dir).1

theorem parseFnNode_of (h : Described fs dir node) (errorText : String) :
    parseFnNode errorText fs dir =
      if (node.entry.isSome && fs.isFile node.libPath) || hasScript fs dir then node
      else malformed (dir.getLast?.getD "") dir "no entry library or script" := by
  obtain ⟨⟨content, hread, hdesc⟩, hupdate, hdisable⟩ := h
  have hstatus := (describe_ok hdesc).2.2.2
  rw [parseFnNode, hread]
  simp only [hdesc, hupdate, hdisable, Bool.false_eq_true, if_false]
  rw [← hasScript, ← hstatus]
  cases node.entry.isSome && fs.isFile node.libPath <;> cases hasScript fs dir <;> rfl

theorem described_parseFnNode {errorText : String}
    (h : (parseFnNode errorText fs dir).isActive = true) :
    Described fs dir (parseFnNode errorText fs dir) := by
  cases hread : fs.read (dir ++ ["fn.prop"]) with
  | none => exact absurd h (by simp [parseFnNode, hread, malformed, FnNode.isActive])
  | some content =>
    cases hdesc : describe (dir.getLast?.getD "") dir (parseProps content) with
    | error reason => exact absurd h (by simp [parseFnNode, hread, hdesc, malformed, FnNode.isActive])
    | ok node =>
      have hnot : fs.present (dir ++ ["update"]) = false ∧ fs.present (dir ++ ["disable"]) = false := by
        rw [parseFnNode, hread] at h
        simp only [hdesc] at h
        split_ifs at h with hneeds hupdate hdisable
        · exact absurd h (by simp [malformed, FnNode.isActive])
        · exact absurd h (by simp [FnNode.isActive])
        · exact absurd h (by simp [FnNode.isActive])
        · exact ⟨Bool.eq_false_iff.2 hupdate, Bool.eq_false_iff.2 hdisable⟩
      have hdescribed : Described fs dir node := ⟨⟨content, hread, hdesc⟩, hnot.1, hnot.2⟩
      rw [parseFnNode_of hdescribed] at h ⊢
      split_ifs at h ⊢ with hneeds
      · exact hdescribed
      · exact absurd h (by simp [malformed, FnNode.isActive])

theorem pendingRemove_id (node : FnNode) : (pendingRemove node).id = node.id := by
  unfold pendingRemove
  split_ifs <;> rfl

theorem not_isActive_pendingRemove (node : FnNode) : (pendingRemove node).isActive = false := by
  unfold pendingRemove
  split_ifs with h
  · cases hs : node.status with
    | malformed reason => simp [FnNode.isActive, hs]
    | _ => simp [FnStatus.isMalformed, hs] at h
  · simp [FnNode.isActive]

/-! ### One entry -/

theorem isStandardMagiskModule_active (id : String) : isStandardMagiskModule (pathModulesDir ++ [id]) = true := by
  simp [isStandardMagiskModule, pathModulesDir]

theorem isStandardMagiskModule_fnRoot (id : String) : isStandardMagiskModule (fnRoot ++ [id]) = false := by
  simp [isStandardMagiskModule, fnRoot]

theorem removeNode_frame (hdir : dir ≠ []) {q : FilePath} (hq : ¬ dir <+: q) :
    (removeNode e fs dir).2.get q = fs.get q := by
  unfold removeNode
  split_ifs
  · cases hrm : fs.removeDirAll dir with
    | none => rfl
    | some fs' =>
      show fs'.get q = fs.get q
      rw [FileTree.get_removeDirAll hdir hrm, if_neg hq]
  · exact fs.get_removePartly_of_not_prefix e.kept hq
  · rfl

/-- What the scan does with an entry: nothing, or it takes the descriptor in, or it comes to a node that
is to be removed. Only below that node does the disk change. -/
inductive Scanned (e : Env) (path : FilePath) (scan : FnScan) (id : String) : FnScan → Prop
  | skipped : Scanned e path scan id scan
  | parsed : id ∉ scan.seenIds → scan.fs.isDir path = true → scan.fs.present (path ++ ["remove"]) = false →
      Scanned e path scan id
        ⟨scan.fs, id :: scan.seenIds, scan.nodes ++ [parseFnNode e.errorText scan.fs path]⟩
  | removing (fs : FileTree) (nodes : List FnNode) : id ∉ scan.seenIds →
      (∀ q, ¬ path <+: q → fs.get q = scan.fs.get q) →
      (nodes = [] ∨ nodes = [pendingRemove (parseFnNode e.errorText fs path)]) →
      Scanned e path scan id ⟨fs, id :: scan.seenIds, scan.nodes ++ nodes⟩

theorem scanned_scanEntry (e : Env) (root : FilePath) (scan : FnScan) (id : String) :
    Scanned e (root ++ [id]) scan id (scanEntry e root scan id) := by
  unfold scanEntry
  dsimp only
  split_ifs with hentry hseen hremove hstandard
  · exact .skipped
  · exact .skipped
  · rw [List.contains_iff_mem] at hseen
    exact .removing scan.fs _ hseen (fun q _ => rfl) (.inr rfl)
  · rw [List.contains_iff_mem] at hseen
    have hframe : ∀ q, ¬ root ++ [id] <+: q →
        (removeNode e scan.fs (root ++ [id])).2.get q = scan.fs.get q := fun q hq =>
      removeNode_frame (by simp) hq
    cases hrm : removeNode e scan.fs (root ++ [id]) with
    | mk removed fs =>
      rw [hrm] at hframe
      cases removed with
      | true =>
        have hgone : Scanned e (root ++ [id]) scan id ⟨fs, id :: scan.seenIds, scan.nodes ++ []⟩ :=
          .removing fs [] hseen hframe (.inl rfl)
        rwa [List.append_nil] at hgone
      | false => exact .removing fs _ hseen hframe (.inr rfl)
  · rw [List.contains_iff_mem] at hseen
    rw [Bool.or_eq_true, not_or, Bool.not_eq_true', Bool.not_eq_false] at hentry
    exact .parsed hseen hentry.1 (Bool.eq_false_iff.2 hremove)

/-- A node of its own id in one of the two roots. -/
def InRoots (node : FnNode) : Prop := node.dir = fnRoot ++ [node.id] ∨ node.dir = activeDir node.id

/-- An active node, as it was found and still is. -/
structure FoundNode (fs : FileTree) (node : FnNode) : Prop where
  inRoots : InRoots node
  isDir : fs.isDir node.dir = true
  noRemove : fs.present (node.dir ++ ["remove"]) = false
  described : Described fs node.dir node

def IsRoot (root : FilePath) : Prop := root = fnRoot ∨ root = pathModulesDir

theorem apart_entries {a b : FilePath} (ha : IsRoot a) (hb : IsRoot b) {m n : String} (h : m ≠ n) :
    FileTree.Apart (a ++ [m]) (b ++ [n]) := by
  obtain rfl | rfl := ha <;> obtain rfl | rfl := hb <;>
    simp [FileTree.Apart, fnRoot, List.cons_prefix_cons, h, h.symm]

theorem InRoots.exists_root (h : InRoots node) : ∃ root, IsRoot root ∧ node.dir = root ++ [node.id] := by
  obtain h | h := h
  · exact ⟨fnRoot, .inl rfl, h⟩
  · exact ⟨pathModulesDir, .inr rfl, h⟩

theorem inRoots_of {root : FilePath} (hroot : IsRoot root) (h : node.dir = root ++ [node.id]) :
    InRoots node := by
  obtain rfl | rfl := hroot
  · exact .inl h
  · exact .inr h

/-- What only differs below another entry is the same below the node. -/
theorem InRoots.get_frame (h : InRoots node) (hroot : IsRoot root) (hne : id ≠ node.id)
    (hfs : ∀ q, ¬ root ++ [id] <+: q → fs'.get q = fs.get q) (q : FilePath) :
    fs'.get (node.dir ++ q) = fs.get (node.dir ++ q) := by
  obtain ⟨r, hr, hdir⟩ := h.exists_root
  apply hfs
  rw [hdir]
  exact (apart_entries hroot hr hne).not_below q

theorem FoundNode.congr (h : FoundNode fs node)
    (hget : ∀ q, fs'.get (node.dir ++ q) = fs.get (node.dir ++ q)) : FoundNode fs' node := by
  have hget_nil : fs'.get node.dir = fs.get node.dir := by
    have := hget []
    rwa [List.append_nil] at this
  obtain ⟨⟨content, hread, hdesc⟩, hupdate, hdisable⟩ := h.described
  refine ⟨h.inRoots, ?_, ?_, ⟨content, ?_, hdesc⟩, ?_, ?_⟩
  · rw [FileTree.isDir, hget_nil]
    exact h.isDir
  · rw [FileTree.present, hget]
    exact h.noRemove
  · rw [FileTree.read, hget]
    exact hread
  · rw [FileTree.present, hget]
    exact hupdate
  · rw [FileTree.present, hget]
    exact hdisable

/-- The state of a scan: the ids of its nodes are seen, each once, and the active nodes are found. -/
structure ScanInv (scan : FnScan) : Prop where
  seen : ∀ node ∈ scan.nodes, node.id ∈ scan.seenIds
  nodup : (scan.nodes.map FnNode.id).Nodup
  found : ∀ node ∈ scan.nodes, node.isActive = true → FoundNode scan.fs node

theorem found_parseFnNode {errorText : String} (hroot : IsRoot root)
    (hdir : fs.isDir (root ++ [id]) = true) (hremove : fs.present (root ++ [id] ++ ["remove"]) = false)
    (h : (parseFnNode errorText fs (root ++ [id])).isActive = true) :
    FoundNode fs (parseFnNode errorText fs (root ++ [id])) := by
  have hdesc := described_parseFnNode h
  obtain ⟨content, hread, hok⟩ := hdesc.content
  have hsame := (describe_ok hok).2.1
  have hid : (parseFnNode errorText fs (root ++ [id])).id = id := by
    rw [parseFnNode_id]
    simp
  refine ⟨inRoots_of hroot ?_, ?_, ?_, ?_⟩
  · rw [hid, hsame]
  · rw [hsame]
    exact hdir
  · rw [hsame]
    exact hremove
  · rw [hsame]
    exact hdesc

/-- Another node of an id that was not seen before, on a disk that differs below it only. -/
theorem ScanInv.add {scan : FnScan} (h : ScanInv scan) (hroot : IsRoot root) (hid : id ∉ scan.seenIds)
    (hfs : ∀ q, ¬ root ++ [id] <+: q → fs.get q = scan.fs.get q) (hnode : node.id = id)
    (hfound : node.isActive = true → FoundNode fs node) :
    ScanInv ⟨fs, id :: scan.seenIds, scan.nodes ++ [node]⟩ := by
  have hfresh : ∀ n ∈ scan.nodes, id ≠ n.id := by
    rintro n hn rfl
    exact hid (h.seen n hn)
  constructor
  · intro n hn
    rcases List.mem_append.1 hn with hn | hn
    · exact List.mem_cons_of_mem _ (h.seen n hn)
    · obtain rfl := List.mem_singleton.1 hn
      rw [hnode]
      exact List.mem_cons_self
  · rw [List.map_append, List.map_singleton, List.nodup_append]
    refine ⟨h.nodup, List.nodup_singleton _, ?_⟩
    intro a ha b hb hab
    obtain ⟨n, hn, rfl⟩ := List.mem_map.1 ha
    obtain rfl := List.mem_singleton.1 hb
    rw [hnode] at hab
    exact hfresh n hn hab.symm
  · intro n hn hactive
    rcases List.mem_append.1 hn with hn | hn
    · have hold := h.found n hn hactive
      exact hold.congr (hold.inRoots.get_frame hroot (hfresh n hn) hfs)
    · obtain rfl := List.mem_singleton.1 hn
      exact hfound hactive

theorem ScanInv.left {seenIds : List String} {nodes more : List FnNode}
    (h : ScanInv ⟨fs, seenIds, nodes ++ more⟩) : ScanInv ⟨fs, seenIds, nodes⟩ where
  seen node hnode := h.seen node (List.mem_append_left more hnode)
  nodup := h.nodup.sublist ((List.sublist_append_left nodes more).map FnNode.id)
  found node hnode := h.found node (List.mem_append_left more hnode)

theorem ScanInv.step {scan : FnScan} (h : ScanInv scan) (e : Env) (hroot : IsRoot root) (id : String) :
    ScanInv (scanEntry e root scan id) := by
  have hlast : (root ++ [id]).getLast?.getD "" = id := by simp
  have hs := scanned_scanEntry e root scan id
  generalize scanEntry e root scan id = scan' at hs ⊢
  cases hs with
  | skipped => exact h
  | parsed hid hdir hremove =>
    apply h.add hroot hid (fun q _ => rfl)
    · rw [parseFnNode_id, hlast]
    · exact found_parseFnNode hroot hdir hremove
  | removing fs nodes hid hfs hnodes =>
    have hpending : ScanInv ⟨fs, id :: scan.seenIds,
        scan.nodes ++ [pendingRemove (parseFnNode e.errorText fs (root ++ [id]))]⟩ := by
      apply h.add hroot hid hfs
      · rw [pendingRemove_id, parseFnNode_id, hlast]
      · intro hactive
        rw [not_isActive_pendingRemove] at hactive
        exact absurd hactive Bool.false_ne_true
    rcases hnodes with rfl | rfl
    · rw [List.append_nil]
      exact hpending.left
    · exact hpending

theorem scanInv_foldl {scan : FnScan} (h : ScanInv scan) (e : Env) (hroot : IsRoot root)
    (ids : List String) : ScanInv (ids.foldl (scanEntry e root) scan) := by
  induction ids generalizing scan with
  | nil => exact h
  | cons id ids ih => exact ih (h.step e hroot id)

theorem ScanInv.scanRoot {scan : FnScan} (h : ScanInv scan) (e : Env) (hroot : IsRoot root) :
    ScanInv (Daemon.scanRoot e scan root) := by
  unfold Daemon.scanRoot
  split_ifs
  · exact scanInv_foldl h e hroot _
  · exact h

/-- The scan of both roots. -/
def scanRoots (e : Env) (fs : FileTree) : FnScan := scanRoot e (scanRoot e ⟨fs, [], []⟩ fnRoot) pathModulesDir

theorem scanInv_empty (fs : FileTree) : ScanInv ⟨fs, [], []⟩ where
  seen _ hn := absurd hn List.not_mem_nil
  nodup := List.nodup_nil
  found _ hn := absurd hn List.not_mem_nil

theorem scanInv_scanRoots (e : Env) (fs : FileTree) : ScanInv (scanRoots e fs) :=
  ((scanInv_empty fs).scanRoot e (.inl rfl)).scanRoot e (.inr rfl)

theorem mem_activeNativeNodes :
    node ∈ (activeNativeNodes e fs).1 ↔ node ∈ (scanRoots e fs).nodes ∧ node.isActive = true := by
  show node ∈ (List.insertionSort FnNode.before (scanRoots e fs).nodes).filter FnNode.isActive ↔ _
  rw [List.mem_filter, List.mem_insertionSort]

/-- The scan sweeps the work directory only. -/
theorem scanEntry_frame (hroot : IsRoot root) {scan : FnScan} {q : FilePath} (hq : ¬ fnRoot <+: q) :
    (scanEntry e root scan id).fs.get q = scan.fs.get q := by
  rcases hroot with rfl | rfl
  · have hs := scanned_scanEntry e fnRoot scan id
    generalize scanEntry e fnRoot scan id = scan' at hs
    cases hs with
    | skipped => rfl
    | parsed => rfl
    | removing fs nodes _ hfs _ => exact hfs q fun h => hq ((List.prefix_append _ _).trans h)
  · unfold scanEntry
    simp only [isStandardMagiskModule_active, if_true]
    split_ifs <;> rfl

theorem activeNativeNodes_frame {q : FilePath} (hq : ¬ fnRoot <+: q) :
    (activeNativeNodes e fs).2.get q = fs.get q := by
  have hfold : ∀ {root : FilePath} {ids : List String} {scan : FnScan}, IsRoot root →
      (ids.foldl (scanEntry e root) scan).fs.get q = scan.fs.get q := by
    intro root ids scan hroot
    induction ids generalizing scan with
    | nil => rfl
    | cons id ids ih => rw [List.foldl_cons, ih, scanEntry_frame hroot hq]
  have hscan : ∀ {root : FilePath} {scan : FnScan}, IsRoot root →
      (scanRoot e scan root).fs.get q = scan.fs.get q := by
    intro root scan hroot
    unfold scanRoot
    split_ifs
    · exact hfold hroot
    · rfl
  exact (hscan (.inr rfl)).trans (hscan (.inl rfl))

/-- Every node the scan returns is still as it was described when the scan is over. -/
theorem found_activeNativeNodes (h : node ∈ (activeNativeNodes e fs).1) :
    FoundNode (activeNativeNodes e fs).2 node := by
  obtain ⟨hnode, hactive⟩ := mem_activeNativeNodes.1 h
  exact (scanInv_scanRoots e fs).found node hnode hactive

theorem FoundNode.isValidId (h : FoundNode fs node) : isValidId node.id = true := by
  obtain ⟨content, -, hdesc⟩ := h.described.content
  have hok := describe_ok hdesc
  rw [hok.1]
  exact hok.2.2.1

/-! ### The next scan -/

/-- The sweep, as far as one entry of the work directory goes. -/
def sweepEntry (e : Env) (fs : FileTree) (id : String) : FileTree :=
  if fs.isDir (fnRoot ++ [id]) && fs.present (fnRoot ++ [id] ++ ["remove"]) then
    (removeNode e fs (fnRoot ++ [id])).2
  else fs

/-- The disk when a scan comes to the node: what is listed in front of it is swept. -/
def sweptBefore (e : Env) (fs : FileTree) (id : String) : FileTree :=
  ((fs.children fnRoot).takeWhile (· ≠ id)).foldl (sweepEntry e) fs

theorem sweepEntry_frame {q : FilePath} (hq : ¬ fnRoot ++ [id] <+: q) :
    (sweepEntry e fs id).get q = fs.get q := by
  unfold sweepEntry
  split_ifs
  · exact removeNode_frame (by simp) hq
  · rfl

/-- The entry of a directory of the work directory whose id is new. -/
theorem scanEntry_workDir (e : Env) {scan : FnScan} (hdir : scan.fs.isDir (fnRoot ++ [id]) = true)
    (hid : id ∉ scan.seenIds) :
    scanEntry e fnRoot scan id =
      if scan.fs.present (fnRoot ++ [id] ++ ["remove"]) then
        let swept := removeNode e scan.fs (fnRoot ++ [id])
        ⟨swept.2, id :: scan.seenIds, scan.nodes ++
          if swept.1 then [] else [pendingRemove (parseFnNode e.errorText swept.2 (fnRoot ++ [id]))]⟩
      else ⟨scan.fs, id :: scan.seenIds,
        scan.nodes ++ [parseFnNode e.errorText scan.fs (fnRoot ++ [id])]⟩ := by
  have hseen : ¬ scan.seenIds.contains id = true := by
    rw [List.contains_iff_mem]
    exact hid
  simp only [scanEntry, isStandardMagiskModule_fnRoot, hdir, if_neg hseen, Bool.not_true, Bool.false_and,
    Bool.or_self, Bool.false_eq_true, if_false]
  cases removeNode e scan.fs (fnRoot ++ [id]) with
  | mk removed fs => cases removed <;> simp

theorem scanEntry_fs {scan : FnScan} (hid : id ∉ scan.seenIds) :
    (scanEntry e fnRoot scan id).fs = sweepEntry e scan.fs id := by
  unfold sweepEntry
  cases hdir : scan.fs.isDir (fnRoot ++ [id]) with
  | false =>
    unfold scanEntry
    simp only [hdir, Bool.not_false, Bool.true_or, if_true]
    rfl
  | true =>
    rw [scanEntry_workDir e hdir hid, Bool.true_and]
    cases scan.fs.present (fnRoot ++ [id] ++ ["remove"]) with
    | false => rfl
    | true => rfl

theorem seenIds_scanEntry {scan : FnScan} {x : String} (h : x ∈ (scanEntry e root scan id).seenIds) :
    x = id ∨ x ∈ scan.seenIds := by
  have hs := scanned_scanEntry e root scan id
  generalize scanEntry e root scan id = scan' at hs h
  cases hs with
  | skipped => exact .inr h
  | parsed => exact List.mem_cons.1 h
  | removing => exact List.mem_cons.1 h

/-- In front of a node, the scan only sweeps. -/
theorem foldl_scanEntry_fs {ids : List String} (hids : ids.Nodup) {scan : FnScan}
    (hseen : ∀ x ∈ ids, x ∉ scan.seenIds) :
    (ids.foldl (scanEntry e fnRoot) scan).fs = ids.foldl (sweepEntry e) scan.fs := by
  induction ids generalizing scan with
  | nil => rfl
  | cons id ids ih =>
    obtain ⟨hid, hids⟩ := List.nodup_cons.1 hids
    rw [List.forall_mem_cons] at hseen
    rw [List.foldl_cons, List.foldl_cons, ih hids, scanEntry_fs hseen.1]
    intro x hx hmem
    rcases seenIds_scanEntry hmem with rfl | hmem
    · exact hid hx
    · exact hseen.2 x hx hmem

theorem foldl_scanEntry_seenIds {ids : List String} {scan : FnScan} {x : String}
    (h : x ∈ (ids.foldl (scanEntry e root) scan).seenIds) : x ∈ ids ∨ x ∈ scan.seenIds := by
  induction ids generalizing scan with
  | nil => exact .inr h
  | cons id ids ih =>
    rcases ih h with hx | hx
    · exact .inl (List.mem_cons_of_mem _ hx)
    · rcases seenIds_scanEntry hx with rfl | hx
      · exact .inl List.mem_cons_self
      · exact .inr hx

theorem nodes_scanEntry (e : Env) (root : FilePath) (scan : FnScan) (id : String) :
    scan.nodes <+: (scanEntry e root scan id).nodes := by
  have hs := scanned_scanEntry e root scan id
  generalize scanEntry e root scan id = scan' at hs ⊢
  cases hs with
  | skipped => exact List.prefix_refl _
  | parsed => exact List.prefix_append _ _
  | removing => exact List.prefix_append _ _

theorem nodes_foldl_scanEntry (e : Env) (root : FilePath) (scan : FnScan) (ids : List String) :
    scan.nodes <+: (ids.foldl (scanEntry e root) scan).nodes := by
  induction ids generalizing scan with
  | nil => exact List.prefix_refl _
  | cons id ids ih => exact (nodes_scanEntry e root scan id).trans (ih _)

theorem nodes_scanRoot (e : Env) (scan : FnScan) (root : FilePath) :
    scan.nodes <+: (scanRoot e scan root).nodes := by
  unfold scanRoot
  split_ifs
  · exact nodes_foldl_scanEntry e root scan _
  · exact List.prefix_refl _

theorem get_foldl_sweepEntry {ids : List String} (hroot : IsRoot root) (hids : id ∉ ids) (q : FilePath) :
    (ids.foldl (sweepEntry e) fs).get (root ++ [id] ++ q) = fs.get (root ++ [id] ++ q) := by
  induction ids generalizing fs with
  | nil => rfl
  | cons x ids ih =>
    rw [List.mem_cons, not_or] at hids
    rw [List.foldl_cons, ih hids.2]
    exact sweepEntry_frame ((apart_entries (.inl rfl) hroot (Ne.symm hids.1)).not_below q)

theorem get_sweptBefore (hroot : IsRoot root) (q : FilePath) :
    (sweptBefore e fs id).get (root ++ [id] ++ q) = fs.get (root ++ [id] ++ q) := by
  apply get_foldl_sweepEntry hroot
  intro hmem
  exact absurd (List.mem_takeWhile_imp hmem) (by simp)

theorem InRoots.get_sweptBefore (h : InRoots node) (q : FilePath) :
    (sweptBefore e fs node.id).get (node.dir ++ q) = fs.get (node.dir ++ q) := by
  obtain ⟨root, hroot, hdir⟩ := h.exists_root
  rw [hdir]
  exact Daemon.get_sweptBefore hroot q

theorem takeWhile_ne_append {ids post : List String} (h : id ∉ ids) :
    (ids ++ id :: post).takeWhile (· ≠ id) = ids := by
  rw [List.takeWhile_append_of_pos, List.takeWhile_cons_of_neg, List.append_nil]
  · simp
  · intro x hx
    rw [decide_eq_true_eq]
    rintro rfl
    exact h hx

/-- The scan of a root comes to each of its directories once. -/
theorem scanRoot_visits (e : Env) {scan : FnScan} (hdir : scan.fs.isDir (root ++ [id]) = true) :
    ∃ ids post : List String, scan.fs.children root = ids ++ id :: post ∧ id ∉ ids ∧
      scanRoot e scan root = post.foldl (scanEntry e root)
        (scanEntry e root (ids.foldl (scanEntry e root) scan) id) := by
  have hpresent := FileTree.present_of_isDir hdir
  have hroot : scan.fs.isDir root = true := FileTree.isDir_of_present_child hpresent
  obtain ⟨ids, post, hsplit, hids⟩ := List.eq_append_cons_of_mem (FileTree.mem_children.2 hpresent)
  refine ⟨ids, post, hsplit, hids, ?_⟩
  rw [scanRoot, if_pos hroot, hsplit, List.foldl_append, List.foldl_cons]

theorem not_mem_foldl_seenIds {ids : List String} {scan : FnScan} (hids : id ∉ ids)
    (hseen : id ∉ scan.seenIds) : id ∉ (ids.foldl (scanEntry e root) scan).seenIds := by
  intro hmem
  rcases foldl_scanEntry_seenIds hmem with hmem | hmem
  · exact hids hmem
  · exact hseen hmem

/-- Up to a directory of the work directory, the scan has swept what stands in front of it. -/
theorem scanRoot_workDir (e : Env) (hdir : fs.isDir (fnRoot ++ [id]) = true) :
    ∃ (scan : FnScan) (post : List String), scan.fs = sweptBefore e fs id ∧
      scan.fs.isDir (fnRoot ++ [id]) = true ∧
      scan.fs.present (fnRoot ++ [id] ++ ["remove"]) = fs.present (fnRoot ++ [id] ++ ["remove"]) ∧
      id ∉ scan.seenIds ∧ ScanInv scan ∧
      scanRoot e ⟨fs, [], []⟩ fnRoot = post.foldl (scanEntry e fnRoot) (scanEntry e fnRoot scan id) := by
  obtain ⟨ids, post, hsplit, hids, hscan⟩ := @scanRoot_visits id fnRoot e ⟨fs, [], []⟩ hdir
  have hnodup := fs.nodup_children fnRoot
  rw [hsplit] at hnodup
  have hfs : (ids.foldl (scanEntry e fnRoot) ⟨fs, [], []⟩).fs = sweptBefore e fs id := by
    rw [sweptBefore, hsplit, takeWhile_ne_append hids]
    exact foldl_scanEntry_fs (List.nodup_append.1 hnodup).1 (fun x _ => List.not_mem_nil)
  refine ⟨_, post, hfs, ?_, ?_, not_mem_foldl_seenIds hids List.not_mem_nil,
    scanInv_foldl (scanInv_empty fs) e (.inl rfl) ids, hscan⟩
  · have hget := @get_sweptBefore e fs id fnRoot (.inl rfl) []
    rw [List.append_nil] at hget
    rw [hfs, FileTree.isDir, hget]
    exact hdir
  · rw [hfs, FileTree.present, get_sweptBefore (.inl rfl)]
    rfl

/-- A directory that is not to be removed has its descriptor taken in, on the disk as it is swept so
far. -/
theorem parsed_workDir (hdir : fs.isDir (fnRoot ++ [id]) = true)
    (hremove : fs.present (fnRoot ++ [id] ++ ["remove"]) = false) :
    parseFnNode e.errorText (sweptBefore e fs id) (fnRoot ++ [id]) ∈ (scanRoots e fs).nodes := by
  obtain ⟨scan, post, hfs, hd, hr, hseen, -, hscan⟩ := scanRoot_workDir e hdir
  have hnode : parseFnNode e.errorText (sweptBefore e fs id) (fnRoot ++ [id]) ∈
      (scanEntry e fnRoot scan id).nodes := by
    rw [scanEntry_workDir e hd hseen, hr, hremove, ← hfs]
    exact List.mem_append_right _ (List.mem_singleton.2 rfl)
  have hpost := (nodes_foldl_scanEntry e fnRoot (scanEntry e fnRoot scan id) post).subset hnode
  rw [← hscan] at hpost
  exact (nodes_scanRoot e _ pathModulesDir).subset hpost

/-- A scan parses a node of the work directory again. -/
theorem parsed_again (h : FoundNode fs node) (hdir : node.dir = fnRoot ++ [node.id]) :
    parseFnNode e.errorText (sweptBefore e fs node.id) node.dir ∈ (scanRoots e fs).nodes := by
  have hisDir := h.isDir
  have hremove := h.noRemove
  rw [hdir] at hisDir hremove ⊢
  exact parsed_workDir hisDir hremove

/-- The next scan has one node of an id. -/
theorem eq_parsed_again (h : FoundNode fs node) (hdir : node.dir = fnRoot ++ [node.id]) {n : FnNode}
    (hn : n ∈ (activeNativeNodes e fs).1) (hid : n.id = node.id) :
    n = parseFnNode e.errorText (sweptBefore e fs node.id) node.dir := by
  have hnode := (mem_activeNativeNodes.1 hn).1
  apply List.inj_on_of_nodup_map (scanInv_scanRoots e fs).nodup hnode (parsed_again h hdir)
  rw [hid, parseFnNode_id, hdir]
  simp

theorem dir_active_again (h : FoundNode fs node) (hdir : node.dir = fnRoot ++ [node.id]) {n : FnNode}
    (hn : n ∈ (activeNativeNodes e fs).1) (hid : n.id = node.id) : n.dir = node.dir := by
  have hactive := (mem_activeNativeNodes.1 hn).2
  rw [eq_parsed_again h hdir hn hid] at hactive ⊢
  obtain ⟨content, -, hdesc⟩ := (described_parseFnNode hactive).content
  exact (describe_ok hdesc).2.1

/-- The next scan finds a node of the work directory active, if it has a script or its library is still
there when the scan comes to it. -/
theorem active_again_iff (h : FoundNode fs node) (hactive : node.isActive = true)
    (hdir : node.dir = fnRoot ++ [node.id]) :
    (∃ n ∈ (activeNativeNodes e fs).1, n.id = node.id) ↔
      hasScript fs node.dir = true ∨ (sweptBefore e fs node.id).isFile node.libPath = true := by
  have hget : ∀ q, (sweptBefore e fs node.id).get (node.dir ++ q) = fs.get (node.dir ++ q) :=
    h.inRoots.get_sweptBefore
  have hscript : hasScript (sweptBefore e fs node.id) node.dir = hasScript fs node.dir := by
    simp only [hasScript, FileTree.isFile, hget]
  have hparsed := parsed_again (e := e) h hdir
  have hlast : node.dir.getLast?.getD "" = node.id := by
    rw [hdir]
    simp
  have hentry : node.entry.isSome = true := by
    rw [FnNode.isActive, Bool.and_eq_true] at hactive
    exact hactive.2
  have heq := parseFnNode_of (h.congr hget).described e.errorText
  rw [hlast, hscript, hentry, Bool.true_and] at heq
  rw [or_comm, ← Bool.or_eq_true]
  constructor
  · rintro ⟨n, hn, hid⟩
    have hnactive := (mem_activeNativeNodes.1 hn).2
    have hsame := eq_parsed_again h hdir hn hid
    by_contra hneeds
    rw [heq, if_neg hneeds] at hsame
    rw [hsame] at hnactive
    exact absurd hnactive (by simp [malformed, FnNode.isActive])
  · intro hneeds
    rw [if_pos hneeds] at heq
    rw [heq] at hparsed
    exact ⟨node, mem_activeNativeNodes.2 ⟨hparsed, hactive⟩, rfl⟩

/-! ### A scan that changes nothing -/

theorem shrunk_removeNode (e : Env) (fs : FileTree) (dir : FilePath) : (removeNode e fs dir).2.Shrunk fs := by
  unfold removeNode
  split_ifs
  · cases hrm : fs.removeDirAll dir with
    | none => exact fs.shrunk_refl
    | some fs' => exact fs.shrunk_removeDirAll hrm
  · exact fs.shrunk_restrict (FileTree.leaves dir e.kept) fun _ => FileTree.leaves_dropLast
  · exact fs.shrunk_refl

/-- Where the sweep of a node changes nothing, the node is still there. -/
theorem removeNode_still (hne : dir ≠ []) (hdir : fs.isDir dir = true) (h : (removeNode e fs dir).2 = fs) :
    removeNode e fs dir = (false, fs) := by
  unfold removeNode at h ⊢
  split_ifs at h ⊢ with hworks hreal
  · cases hrm : fs.removeDirAll dir with
    | none => rfl
    | some fs' =>
      rw [hrm] at h
      obtain rfl : fs' = fs := h
      exact absurd hrm (fs'.removeDirAll_ne_self hne hdir)
  · exact Prod.ext rfl h
  · rfl

theorem shrunk_scanEntry (e : Env) (root : FilePath) (scan : FnScan) (id : String) :
    (scanEntry e root scan id).fs.Shrunk scan.fs := by
  have hsweep := shrunk_removeNode e scan.fs (root ++ [id])
  unfold scanEntry
  dsimp only
  split_ifs
  · exact scan.fs.shrunk_refl
  · exact scan.fs.shrunk_refl
  · exact scan.fs.shrunk_refl
  · cases hrm : removeNode e scan.fs (root ++ [id]) with
    | mk removed fs =>
      rw [hrm] at hsweep
      cases removed <;> exact hsweep
  · exact scan.fs.shrunk_refl

theorem shrunk_foldl (e : Env) (root : FilePath) (ids : List String) (scan : FnScan) :
    (ids.foldl (scanEntry e root) scan).fs.Shrunk scan.fs := by
  induction ids generalizing scan with
  | nil => exact scan.fs.shrunk_refl
  | cons id ids ih => exact (shrunk_scanEntry e root scan id).trans (ih _)

theorem shrunk_scanRoot (e : Env) (scan : FnScan) (root : FilePath) :
    (scanRoot e scan root).fs.Shrunk scan.fs := by
  unfold scanRoot
  split_ifs
  · exact shrunk_foldl e root _ scan
  · exact scan.fs.shrunk_refl

/-- A node without the text of what is wrong with it. -/
def silent (node : FnNode) : FnNode :=
  if node.status.isMalformed then { node with status := .malformed "" } else node

theorem silent_parseFnNode (text text' : String) (fs : FileTree) (dir : FilePath) :
    silent (parseFnNode text fs dir) = silent (parseFnNode text' fs dir) := by
  unfold parseFnNode
  cases fs.read (dir ++ ["fn.prop"]) <;> rfl

theorem silent_pendingRemove {node node' : FnNode} (h : silent node = silent node') :
    silent (pendingRemove node) = silent (pendingRemove node') := by
  unfold silent at h
  unfold pendingRemove
  split_ifs at h ⊢ with hm hm' hm'
  · rw [silent, silent, if_pos hm, if_pos hm', h]
  · rw [← h] at hm'
    exact absurd rfl hm'
  · rw [h] at hm
    exact absurd rfl hm
  · rw [h]

/-- Two scans that come to the same, each with its own errors. -/
structure Alike (scan scan' : FnScan) : Prop where
  fs : scan.fs = scan'.fs
  seenIds : scan.seenIds = scan'.seenIds
  nodes : scan.nodes.map silent = scan'.nodes.map silent

/-- A scan that leaves the disk alone has removed nothing. -/
theorem removeNode_of_still (e : Env) (root : FilePath) (scan : FnScan) (id : String)
    (hdir : scan.fs.isDir (root ++ [id]) = true)
    (hentry : (!scan.fs.isDir (root ++ [id]) ||
      (isStandardMagiskModule (root ++ [id]) && !scan.fs.isFile (root ++ [id] ++ ["fn.prop"]))) = false)
    (hseen : scan.seenIds.contains id = false) (hremove : scan.fs.present (root ++ [id] ++ ["remove"]) = true)
    (hstandard : isStandardMagiskModule (root ++ [id]) = false)
    (hstill : (scanEntry e root scan id).fs = scan.fs) : removeNode e scan.fs (root ++ [id]) = (false, scan.fs) := by
  apply removeNode_still (by simp) hdir
  rw [scanEntry, if_neg (Bool.not_eq_true _ ▸ hentry), if_neg (Bool.not_eq_true _ ▸ hseen), if_pos hremove,
    if_neg (Bool.not_eq_true _ ▸ hstandard)] at hstill
  cases hrm : removeNode e scan.fs (root ++ [id]) with
  | mk removed fs' =>
    rw [hrm] at hstill
    cases removed <;> exact hstill

theorem Alike.step {e' : Env} {scan scan' : FnScan} (h : Alike scan scan')
    (hstill : (scanEntry e root scan id).fs = scan.fs)
    (hstill' : (scanEntry e' root scan' id).fs = scan'.fs) :
    Alike (scanEntry e root scan id) (scanEntry e' root scan' id) := by
  obtain ⟨fs, seenIds, nodes⟩ := scan
  obtain ⟨fs', seenIds', nodes'⟩ := scan'
  obtain ⟨hfs, hseen, hnodes⟩ := h
  dsimp only at hfs hseen hnodes
  subst hfs hseen
  have hparsed := silent_parseFnNode e.errorText e'.errorText fs (root ++ [id])
  have hpending := silent_pendingRemove hparsed
  unfold scanEntry
  dsimp only
  split_ifs with hentry hseen hremove hstandard
  · exact ⟨rfl, rfl, hnodes⟩
  · exact ⟨rfl, rfl, hnodes⟩
  · exact ⟨rfl, rfl, by simp only [List.map_append, hnodes, List.map_singleton, hpending]⟩
  · have hdir : fs.isDir (root ++ [id]) = true := by
      rw [Bool.or_eq_true, not_or, Bool.not_eq_true', Bool.not_eq_false] at hentry
      exact hentry.1
    rw [Bool.not_eq_true] at hentry hseen hstandard
    rw [removeNode_of_still e root ⟨fs, seenIds, nodes⟩ id hdir hentry hseen hremove hstandard hstill,
      removeNode_of_still e' root ⟨fs, seenIds, nodes'⟩ id hdir hentry hseen hremove hstandard hstill']
    exact ⟨rfl, rfl, by simp only [List.map_append, hnodes, List.map_singleton, hpending]⟩
  · exact ⟨rfl, rfl, by simp only [List.map_append, hnodes, List.map_singleton, hparsed]⟩

theorem Alike.foldl {e' : Env} {ids : List String} {scan scan' : FnScan} (h : Alike scan scan')
    (hstill : (ids.foldl (scanEntry e root) scan).fs = scan.fs)
    (hstill' : (ids.foldl (scanEntry e' root) scan').fs = scan'.fs) :
    Alike (ids.foldl (scanEntry e root) scan) (ids.foldl (scanEntry e' root) scan') := by
  induction ids generalizing scan scan' with
  | nil => exact h
  | cons id ids ih =>
    rw [List.foldl_cons] at hstill hstill' ⊢
    have hfirst := (shrunk_scanEntry e root scan id).eq_of_eq (shrunk_foldl e root ids _) hstill
    have hfirst' := (shrunk_scanEntry e' root scan' id).eq_of_eq (shrunk_foldl e' root ids _) hstill'
    exact ih (h.step hfirst hfirst') (hstill.trans hfirst.symm) (hstill'.trans hfirst'.symm)

theorem Alike.scanRoot {e' : Env} {scan scan' : FnScan} (h : Alike scan scan')
    (hstill : (Daemon.scanRoot e scan root).fs = scan.fs)
    (hstill' : (Daemon.scanRoot e' scan' root).fs = scan'.fs) :
    Alike (Daemon.scanRoot e scan root) (Daemon.scanRoot e' scan' root) := by
  unfold Daemon.scanRoot at hstill hstill' ⊢
  rw [h.fs] at hstill ⊢
  split_ifs at hstill hstill' ⊢
  · exact h.foldl (hstill.trans h.fs.symm) hstill'
  · exact h

/-- On a disk that its sweep leaves as it is, every scan finds the same nodes. -/
theorem activeNativeNodes_still {e' : Env} (hstill : (activeNativeNodes e fs).2 = fs)
    (hstill' : (activeNativeNodes e' fs).2 = fs) : (activeNativeNodes e fs).1 = (activeNativeNodes e' fs).1 := by
  have hscan : Alike (scanRoots e fs) (scanRoots e' fs) := by
    have hstart : Alike ⟨fs, [], []⟩ ⟨fs, [], []⟩ := ⟨rfl, rfl, rfl⟩
    have hfirst := (shrunk_scanRoot e ⟨fs, [], []⟩ fnRoot).eq_of_eq (shrunk_scanRoot e _ pathModulesDir) hstill
    have hfirst' :=
      (shrunk_scanRoot e' ⟨fs, [], []⟩ fnRoot).eq_of_eq (shrunk_scanRoot e' _ pathModulesDir) hstill'
    exact (hstart.scanRoot hfirst hfirst').scanRoot (hstill.trans hfirst.symm) (hstill'.trans hfirst'.symm)
  have hsorted : ∀ nodes : List FnNode, (nodes.insertionSort FnNode.before).map silent =
      (nodes.map silent).insertionSort FnNode.before := by
    intro nodes
    apply List.map_insertionSort
    intro a _ b _
    unfold silent
    split_ifs <;> rfl
  have hactive : ∀ nodes : List FnNode, nodes.filter FnNode.isActive =
      (nodes.map silent).filter FnNode.isActive := by
    intro nodes
    induction nodes with
    | nil => rfl
    | cons node nodes ih =>
      rw [List.map_cons, List.filter_cons, List.filter_cons, ih]
      cases hs : node.status <;> simp [silent, FnNode.isActive, FnStatus.isMalformed, hs]
  calc ((scanRoots e fs).nodes.insertionSort FnNode.before).filter FnNode.isActive
      = (((scanRoots e fs).nodes.map silent).insertionSort FnNode.before).filter FnNode.isActive := by
        rw [hactive, hsorted]
    _ = (((scanRoots e' fs).nodes.map silent).insertionSort FnNode.before).filter FnNode.isActive := by
        rw [hscan.nodes]
    _ = ((scanRoots e' fs).nodes.insertionSort FnNode.before).filter FnNode.isActive := by
        rw [← hsorted, ← hactive]

end OnyxZygisk.Daemon
