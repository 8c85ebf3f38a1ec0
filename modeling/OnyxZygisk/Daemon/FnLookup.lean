import OnyxZygisk.Daemon.FnScan

/-!
# The node of an id

What a scan makes of one id, whichever of the two roots has it: a directory of the work directory shadows
the module of the same name, and is swept if it is flagged (`findNode_workDir`, `findNode_swept`); behind
the work directory, a module that carries a descriptor is never swept (`findNode_module`).
-/

namespace OnyxZygisk.Daemon

variable {e : Env} {fs fs' : FileTree} {node : FnNode} {id x : String} {root p : FilePath} {scan : FnScan}
  {ids : List String}

/-- The node the daemon finds under an id. -/
def findNode (e : Env) (fs : FileTree) (id : String) : Option FnNode :=
  (scanFnNodes e fs).1.find? (·.id = id)

theorem findNode_eq_some : findNode e fs id = some node ↔ node ∈ (scanRoots e fs).nodes ∧ node.id = id := by
  have hmem : ∀ n, n ∈ (scanFnNodes e fs).1 ↔ n ∈ (scanRoots e fs).nodes := fun n =>
    List.mem_insertionSort _
  constructor
  · intro h
    exact ⟨(hmem node).1 (List.mem_of_find?_eq_some h), by simpa using List.find?_some h⟩
  · rintro ⟨hnode, rfl⟩
    cases hfind : findNode e fs node.id with
    | none =>
      have hnone := List.find?_eq_none.1 hfind node ((hmem node).2 hnode)
      exact absurd hnone (by simp)
    | some n =>
      have hn := (hmem n).1 (List.mem_of_find?_eq_some hfind)
      have hid : n.id = node.id := by simpa using List.find?_some hfind
      rw [List.inj_on_of_nodup_map (scanInv_scanRoots e fs).nodup hn hnode hid]

theorem findNode_eq_none (h : id ∉ (scanRoots e fs).seenIds) : findNode e fs id = none := by
  cases hfind : findNode e fs id with
  | none => rfl
  | some node =>
    obtain ⟨hnode, rfl⟩ := findNode_eq_some.1 hfind
    exact absurd ((scanInv_scanRoots e fs).seen node hnode) h

theorem parseFnNode_dir (errorText : String) (fs : FileTree) (dir : FilePath) :
    (parseFnNode errorText fs dir).dir = dir := (parseFnNode_place errorText fs dir).2

theorem pendingRemove_dir (node : FnNode) : (pendingRemove node).dir = node.dir := by
  unfold pendingRemove
  split_ifs <;> rfl

/-! ### What the scan passes by -/

/-- The scan looks at an entry. -/
def listed (fs : FileTree) (path : FilePath) : Bool :=
  fs.isDir path && (!isStandardMagiskModule path || fs.isFile (path ++ ["fn.prop"]))

theorem listed_congr (h : ∀ q, fs'.get (p ++ q) = fs.get (p ++ q)) : listed fs' p = listed fs p := by
  have hself := h []
  rw [List.append_nil] at hself
  rw [listed, listed, FileTree.isDir, FileTree.isFile, hself, h]
  rfl

theorem scanEntry_unlisted (h : listed scan.fs (root ++ [id]) = false) : scanEntry e root scan id = scan := by
  unfold listed at h
  unfold scanEntry
  dsimp only
  rw [if_pos]
  revert h
  cases scan.fs.isDir (root ++ [id]) <;> cases isStandardMagiskModule (root ++ [id]) <;>
    cases scan.fs.isFile (root ++ [id] ++ ["fn.prop"]) <;> simp

theorem scanEntry_get (hroot : IsRoot root) (hne : x ≠ id) (q : FilePath) :
    (scanEntry e root scan x).fs.get (root ++ [id] ++ q) = scan.fs.get (root ++ [id] ++ q) := by
  have hs := scanned_scanEntry e root scan x
  generalize scanEntry e root scan x = scan' at hs
  cases hs with
  | skipped => rfl
  | parsed => rfl
  | removing fs nodes _ hfs _ => exact hfs _ ((apart_entries hroot hroot hne).not_below q)

theorem not_seen_foldl (hroot : IsRoot root) (h : listed scan.fs (root ++ [id]) = false)
    (hseen : id ∉ scan.seenIds) : id ∉ (ids.foldl (scanEntry e root) scan).seenIds := by
  induction ids generalizing scan with
  | nil => exact hseen
  | cons x ids ih =>
    rw [List.foldl_cons]
    by_cases hx : x = id
    · subst hx
      rw [scanEntry_unlisted h]
      exact ih h hseen
    · apply ih
      · rw [listed_congr (scanEntry_get hroot hx)]
        exact h
      · intro hmem
        rcases seenIds_scanEntry hmem with hsame | hmem
        · exact hx hsame.symm
        · exact hseen hmem

theorem not_seen_scanRoot (e : Env) (hroot : IsRoot root) (h : listed scan.fs (root ++ [id]) = false)
    (hseen : id ∉ scan.seenIds) : id ∉ (scanRoot e scan root).seenIds := by
  unfold scanRoot
  split_ifs
  · exact not_seen_foldl hroot h hseen
  · exact hseen

/-! ### What the scan has seen -/

theorem seen_scanEntry (h : id ∈ scan.seenIds) : id ∈ (scanEntry e root scan x).seenIds := by
  have hs := scanned_scanEntry e root scan x
  generalize scanEntry e root scan x = scan' at hs ⊢
  cases hs with
  | skipped => exact h
  | parsed => exact List.mem_cons_of_mem _ h
  | removing => exact List.mem_cons_of_mem _ h

/-- An id that was seen gets no other node. -/
theorem mem_nodes_scanEntry (h : id ∈ scan.seenIds) (hid : node.id = id)
    (hnode : node ∈ (scanEntry e root scan x).nodes) : node ∈ scan.nodes := by
  have hs := scanned_scanEntry e root scan x
  generalize scanEntry e root scan x = scan' at hs hnode
  have hfresh : ∀ {fs : FileTree}, x ∉ scan.seenIds →
      (parseFnNode e.errorText fs (root ++ [x])).id ≠ node.id := by
    intro fs hx hsame
    rw [parseFnNode_id, hid] at hsame
    apply hx
    have hxid : x = id := by simpa using hsame
    rwa [hxid]
  cases hs with
  | skipped => exact hnode
  | parsed hx =>
    rcases List.mem_append.1 hnode with hnode | hnode
    · exact hnode
    · exact absurd (congrArg FnNode.id (List.mem_singleton.1 hnode)).symm (hfresh hx)
  | removing fs nodes hx _ hnodes =>
    rcases List.mem_append.1 hnode with hnode | hnode
    · exact hnode
    · rcases hnodes with rfl | rfl
      · exact absurd hnode List.not_mem_nil
      · have hsame := congrArg FnNode.id (List.mem_singleton.1 hnode)
        rw [pendingRemove_id] at hsame
        exact absurd hsame.symm (hfresh hx)

theorem seen_foldl (h : id ∈ scan.seenIds) : id ∈ (ids.foldl (scanEntry e root) scan).seenIds := by
  induction ids generalizing scan with
  | nil => exact h
  | cons x ids ih => exact ih (seen_scanEntry h)

theorem mem_nodes_foldl (h : id ∈ scan.seenIds) (hid : node.id = id)
    (hnode : node ∈ (ids.foldl (scanEntry e root) scan).nodes) : node ∈ scan.nodes := by
  induction ids generalizing scan with
  | nil => exact hnode
  | cons x ids ih => exact mem_nodes_scanEntry h hid (ih (seen_scanEntry h) hnode)

theorem mem_nodes_scanRoot (h : id ∈ scan.seenIds) (hid : node.id = id)
    (hnode : node ∈ (scanRoot e scan root).nodes) : node ∈ scan.nodes := by
  unfold scanRoot at hnode
  split_ifs at hnode
  · exact mem_nodes_foldl h hid hnode
  · exact hnode

/-! ### The disk -/

/-- The disk when the work directory is swept. -/
def sweptAll (e : Env) (fs : FileTree) : FileTree := (fs.children fnRoot).foldl (sweepEntry e) fs

theorem scanRoot_fnRoot_fs (e : Env) (fs : FileTree) : (scanRoot e ⟨fs, [], []⟩ fnRoot).fs = sweptAll e fs := by
  unfold scanRoot sweptAll
  split_ifs with hdir
  · exact foldl_scanEntry_fs (fs.nodup_children fnRoot) (fun x _ => List.not_mem_nil)
  · have hnone : fs.children fnRoot = [] := by
      apply List.eq_nil_iff_forall_not_mem.2
      intro x hx
      exact hdir (FileTree.isDir_of_present_child (FileTree.mem_children.1 hx))
    rw [hnone]
    rfl

/-- Modules are not swept. -/
theorem foldl_scanEntry_modules (e : Env) (ids : List String) (scan : FnScan) :
    (ids.foldl (scanEntry e pathModulesDir) scan).fs = scan.fs := by
  induction ids generalizing scan with
  | nil => rfl
  | cons x ids ih =>
    rw [List.foldl_cons, ih]
    unfold scanEntry
    simp only [isStandardMagiskModule_active, if_true]
    split_ifs <;> rfl

theorem scanFnNodes_fs (e : Env) (fs : FileTree) : (scanFnNodes e fs).2 = sweptAll e fs := by
  show (scanRoot e (scanRoot e ⟨fs, [], []⟩ fnRoot) pathModulesDir).fs = sweptAll e fs
  rw [← scanRoot_fnRoot_fs]
  generalize scanRoot e ⟨fs, [], []⟩ fnRoot = scan
  unfold scanRoot
  split_ifs
  · exact foldl_scanEntry_modules e _ scan
  · rfl

/-- The sweep leaves the id's own directory alone. -/
def Stays (fs : FileTree) (id : String) : Prop :=
  fs.isDir (fnRoot ++ [id]) = false ∨ fs.present (fnRoot ++ [id] ++ ["remove"]) = false

theorem sweepEntry_stays (h : Stays fs id) : sweepEntry e fs id = fs := by
  unfold sweepEntry
  rw [if_neg]
  rw [Bool.and_eq_true]
  rintro ⟨hdir, hremove⟩
  rcases h with h | h
  · rw [h] at hdir
    exact Bool.false_ne_true hdir
  · rw [h] at hremove
    exact Bool.false_ne_true hremove

/-- Where no node is to be removed a sweep does nothing. -/
theorem foldl_sweepEntry_of_stays (h : ∀ id, Stays fs id) (ids : List String) : ids.foldl (sweepEntry e) fs = fs := by
  induction ids with
  | nil => rfl
  | cons x ids ih => rw [List.foldl_cons, sweepEntry_stays (h x), ih]

theorem sweptAll_of_stays (h : ∀ id, Stays fs id) : sweptAll e fs = fs := foldl_sweepEntry_of_stays h _

theorem get_foldl_stays (h : Stays fs id) (ids : List String) (q : FilePath) :
    (ids.foldl (sweepEntry e) fs).get (fnRoot ++ [id] ++ q) = fs.get (fnRoot ++ [id] ++ q) := by
  induction ids generalizing fs with
  | nil => rfl
  | cons x ids ih =>
    rw [List.foldl_cons]
    by_cases hx : x = id
    · rw [hx, sweepEntry_stays h]
      exact ih h
    · have hget : ∀ q, (sweepEntry e fs x).get (fnRoot ++ [id] ++ q) = fs.get (fnRoot ++ [id] ++ q) := fun q =>
        sweepEntry_frame ((apart_entries (.inl rfl) (.inl rfl) hx).not_below q)
      have hself := hget []
      rw [List.append_nil] at hself
      have hstays : Stays (sweepEntry e fs x) id := by
        rw [Stays, FileTree.isDir, FileTree.present, hself, hget]
        exact h
      rw [ih hstays, hget]

theorem get_foldl_active (ids : List String) (q : FilePath) :
    (ids.foldl (sweepEntry e) fs).get (activeDir id ++ q) = fs.get (activeDir id ++ q) := by
  induction ids generalizing fs with
  | nil => rfl
  | cons x ids ih =>
    rw [List.foldl_cons, ih]
    apply sweepEntry_frame
    show ¬ _ <+: pathModulesDir ++ [id] ++ q
    simp [fnRoot, List.cons_prefix_cons]

/-! ### What is found -/

theorem findNode_workDir (hdir : fs.isDir (fnRoot ++ [id]) = true)
    (hremove : fs.present (fnRoot ++ [id] ++ ["remove"]) = false) :
    findNode e fs id = some (parseFnNode e.errorText (sweptBefore e fs id) (fnRoot ++ [id])) := by
  apply findNode_eq_some.2
  refine ⟨parsed_workDir hdir hremove, ?_⟩
  rw [parseFnNode_id]
  simp

/-- A flagged node is gone with the sweep, and shadows the module all the same. -/
theorem findNode_swept (hdir : fs.isDir (fnRoot ++ [id]) = true)
    (hremove : fs.present (fnRoot ++ [id] ++ ["remove"]) = true)
    (hworks : e.works (.removeDirAll (fnRoot ++ [id])) = true) : findNode e fs id = none := by
  obtain ⟨scan, post, -, hd, hr, hseen, hinv, hscan⟩ := scanRoot_workDir e hdir
  have hentry : (scanEntry e fnRoot scan id).nodes = scan.nodes ∧
      id ∈ (scanEntry e fnRoot scan id).seenIds := by
    have hrm : removeNode e scan.fs (fnRoot ++ [id]) = (true, scan.fs.remove (fnRoot ++ [id])) := by
      rw [removeNode, if_pos hworks, FileTree.removeDirAll, if_pos hd]
    rw [scanEntry_workDir e hd hseen, hr, hremove, hrm]
    exact ⟨List.append_nil _, List.mem_cons_self⟩
  cases hfind : findNode e fs id with
  | none => rfl
  | some node =>
    obtain ⟨hnode, hid⟩ := findNode_eq_some.1 hfind
    have hroot : id ∈ (scanRoot e ⟨fs, [], []⟩ fnRoot).seenIds := by
      rw [hscan]
      exact seen_foldl hentry.2
    have hfirst := mem_nodes_scanRoot hroot hid hnode
    rw [hscan] at hfirst
    have hbefore := mem_nodes_foldl hentry.2 hid hfirst
    rw [hentry.1] at hbefore
    have hmem := hinv.seen node hbefore
    rw [hid] at hmem
    exact absurd hmem hseen

/-- The id of a module that nothing shadows is not seen in the work directory. -/
theorem not_seen_fnRoot (e : Env) (hshadow : fs.isDir (fnRoot ++ [id]) = false) :
    id ∉ (scanRoot e ⟨fs, [], []⟩ fnRoot).seenIds := by
  apply not_seen_scanRoot e (.inl rfl)
  · rw [listed, hshadow]
    rfl
  · exact List.not_mem_nil

theorem listed_sweptAll (e : Env) (fs : FileTree) (id : String) :
    listed (sweptAll e fs) (activeDir id) = listed fs (activeDir id) :=
  listed_congr (get_foldl_active _)

/-- What the scan takes in of a directory that it does not sweep. -/
def takenIn (e : Env) (fs : FileTree) (dir : FilePath) : FnNode :=
  let node := parseFnNode e.errorText fs dir
  if fs.present (dir ++ ["remove"]) then pendingRemove node else node

theorem takenIn_id (e : Env) (fs : FileTree) (dir : FilePath) : (takenIn e fs dir).id = dir.getLast?.getD "" := by
  unfold takenIn
  dsimp only
  split_ifs
  · rw [pendingRemove_id, parseFnNode_id]
  · exact parseFnNode_id _ _ _

theorem takenIn_dir (e : Env) (fs : FileTree) (dir : FilePath) : (takenIn e fs dir).dir = dir := by
  unfold takenIn
  dsimp only
  split_ifs
  · rw [pendingRemove_dir, parseFnNode_dir]
  · exact parseFnNode_dir _ _ _

theorem mem_scanEntry_module (hlisted : listed scan.fs (activeDir id) = true) (hseen : id ∉ scan.seenIds) :
    takenIn e scan.fs (activeDir id) ∈ (scanEntry e pathModulesDir scan id).nodes := by
  rw [listed, Bool.and_eq_true, activeDir, isStandardMagiskModule_active, Bool.not_true, Bool.false_or] at hlisted
  have hcontains : ¬ scan.seenIds.contains id = true := by
    rw [List.contains_iff_mem]
    exact hseen
  by_cases hremove : scan.fs.present (activeDir id ++ ["remove"]) = true
  · rw [takenIn, if_pos hremove]
    rw [activeDir] at hremove
    simp only [scanEntry, hlisted.1, hlisted.2, hremove, isStandardMagiskModule_active, if_neg hcontains,
      Bool.not_true, Bool.and_false, Bool.or_self, Bool.false_eq_true, if_false, if_true]
    exact List.mem_append_right _ (List.mem_singleton.2 rfl)
  · rw [takenIn, if_neg hremove]
    rw [activeDir] at hremove
    simp only [scanEntry, hlisted.1, hlisted.2, if_neg hremove, isStandardMagiskModule_active, if_neg hcontains,
      Bool.not_true, Bool.and_false, Bool.or_self, Bool.false_eq_true, if_false]
    exact List.mem_append_right _ (List.mem_singleton.2 rfl)

/-- A module that no directory of the work directory shadows is found as the sweep leaves it. -/
theorem findNode_module (hshadow : fs.isDir (fnRoot ++ [id]) = false)
    (hlisted : listed fs (activeDir id) = true) :
    findNode e fs id = some (takenIn e (sweptAll e fs) (activeDir id)) := by
  have hid : (takenIn e (sweptAll e fs) (activeDir id)).id = id := by
    rw [takenIn_id, activeDir]
    simp
  apply findNode_eq_some.2
  refine ⟨?_, hid⟩
  have hseen := not_seen_fnRoot e hshadow
  rw [← listed_sweptAll e, ← scanRoot_fnRoot_fs] at hlisted
  rw [← scanRoot_fnRoot_fs, scanRoots]
  generalize scanRoot e ⟨fs, [], []⟩ fnRoot = scan at hseen hlisted
  have hdir : scan.fs.isDir (activeDir id) = true := by
    rw [listed, Bool.and_eq_true] at hlisted
    exact hlisted.1
  obtain ⟨ids, post, -, hids, hscan⟩ := scanRoot_visits e hdir
  have hbefore := @not_mem_foldl_seenIds e id pathModulesDir ids scan hids hseen
  have hfs := foldl_scanEntry_modules e ids scan
  generalize ids.foldl (scanEntry e pathModulesDir) scan = before at hbefore hfs hscan
  rw [← hfs] at hlisted ⊢
  rw [hscan]
  exact (nodes_foldl_scanEntry e pathModulesDir _ post).subset (mem_scanEntry_module hlisted hbefore)

theorem findNode_unlisted (hshadow : fs.isDir (fnRoot ++ [id]) = false)
    (hlisted : listed fs (activeDir id) = false) : findNode e fs id = none := by
  apply findNode_eq_none
  apply not_seen_scanRoot e (.inr rfl)
  · rw [scanRoot_fnRoot_fs]
    exact (listed_sweptAll e fs id).trans hlisted
  · exact not_seen_fnRoot e hshadow

/-- Where the scan looks for an id. -/
def nodeDir (fs : FileTree) (id : String) : FilePath :=
  if fs.isDir (fnRoot ++ [id]) then fnRoot ++ [id] else activeDir id

/-- The disk when the scan comes to an id: a module is looked at when the work directory is swept. -/
def diskAt (e : Env) (fs : FileTree) (id : String) : FileTree :=
  if fs.isDir (fnRoot ++ [id]) then sweptBefore e fs id else sweptAll e fs

theorem nodeDir_getLast (fs : FileTree) (id : String) : (nodeDir fs id).getLast?.getD "" = id := by
  unfold nodeDir activeDir
  split_ifs <;> simp

theorem get_diskAt (e : Env) (fs : FileTree) (id : String) (q : FilePath) :
    (diskAt e fs id).get (nodeDir fs id ++ q) = fs.get (nodeDir fs id ++ q) := by
  unfold diskAt nodeDir
  split_ifs
  · exact get_sweptBefore (.inl rfl) q
  · exact get_foldl_active _ q

theorem get_sweptAll (hstays : Stays fs id) (q : FilePath) :
    (sweptAll e fs).get (nodeDir fs id ++ q) = fs.get (nodeDir fs id ++ q) := by
  unfold nodeDir
  split_ifs
  · exact get_foldl_stays hstays _ q
  · exact get_foldl_active _ q

theorem isDir_sweptAll (hstays : Stays fs id) :
    (sweptAll e fs).isDir (fnRoot ++ [id]) = fs.isDir (fnRoot ++ [id]) := by
  have hget := @get_foldl_stays e fs id hstays (fs.children fnRoot) []
  rw [List.append_nil] at hget
  rw [FileTree.isDir, sweptAll, hget, ← FileTree.isDir]

theorem nodeDir_sweptAll (hstays : Stays fs id) : nodeDir (sweptAll e fs) id = nodeDir fs id := by
  rw [nodeDir, isDir_sweptAll hstays, nodeDir]

theorem findNode_stays (hstays : Stays fs id) (hlisted : listed fs (nodeDir fs id) = true) :
    findNode e fs id = some (takenIn e (diskAt e fs id) (nodeDir fs id)) := by
  unfold nodeDir at hlisted
  unfold diskAt nodeDir
  by_cases hdir : fs.isDir (fnRoot ++ [id]) = true
  · have hremove : fs.present (fnRoot ++ [id] ++ ["remove"]) = false := by
      rcases hstays with hstays | hstays
      · rw [hdir] at hstays
        exact absurd hstays Bool.noConfusion
      · exact hstays
    have htaken : takenIn e (sweptBefore e fs id) (fnRoot ++ [id]) =
        parseFnNode e.errorText (sweptBefore e fs id) (fnRoot ++ [id]) := by
      apply if_neg
      rw [FileTree.present, get_sweptBefore (.inl rfl), ← FileTree.present, hremove]
      exact Bool.false_ne_true
    rw [if_pos hdir, if_pos hdir, htaken]
    exact findNode_workDir hdir hremove
  · rw [if_neg hdir] at hlisted
    rw [if_neg hdir, if_neg hdir]
    exact findNode_module (Bool.eq_false_iff.2 hdir) hlisted

/-- The daemon finds an id only where it stays, if a flagged node can be swept. -/
theorem findNode_found (hsweep : fs.present (fnRoot ++ [id] ++ ["remove"]) = true →
      e.works (.removeDirAll (fnRoot ++ [id])) = true) (h : findNode e fs id = some node) :
    Stays fs id ∧ listed fs (nodeDir fs id) = true := by
  by_cases hdir : fs.isDir (fnRoot ++ [id]) = true
  · have hlisted : listed fs (nodeDir fs id) = true := by
      rw [nodeDir, if_pos hdir, listed, hdir, isStandardMagiskModule_fnRoot]
      rfl
    refine ⟨.inr ?_, hlisted⟩
    rw [← Bool.not_eq_true]
    intro hremove
    rw [findNode_swept hdir hremove (hsweep hremove)] at h
    exact absurd h (by simp)
  · rw [Bool.not_eq_true] at hdir
    refine ⟨.inl hdir, ?_⟩
    rw [← Bool.not_eq_false]
    intro hlisted
    rw [nodeDir, if_neg (Bool.eq_false_iff.1 hdir)] at hlisted
    rw [findNode_unlisted hdir hlisted] at h
    exact absurd h (by simp)

/-! ### The sweeps of two disks -/

theorem removeNode_congr (e : Env) {dir : FilePath} (hne : dir ≠ []) (hap : FileTree.Apart p dir)
    (h : ∀ q, ¬ p <+: q → fs'.get q = fs.get q) {q : FilePath} (hq : ¬ p <+: q) :
    (removeNode e fs' dir).2.get q = (removeNode e fs dir).2.get q := by
  have hself := h dir hap.1
  have hdir : fs'.isDir dir = fs.isDir dir := by rw [FileTree.isDir, hself, FileTree.isDir]
  have hreal : fs'.isRealDir dir = fs.isRealDir dir := by rw [FileTree.isRealDir, hself, FileTree.isRealDir]
  unfold removeNode FileTree.removeDirAll
  rw [hdir, hreal]
  cases e.works (.removeDirAll dir) with
  | true =>
    cases fs.isDir dir with
    | true =>
      show (fs'.remove dir).get q = (fs.remove dir).get q
      rw [FileTree.get_remove _ hne, FileTree.get_remove _ hne, h q hq]
    | false => exact h q hq
  | false =>
    cases fs.isRealDir dir with
    | true =>
      show (fs'.removePartly dir e.kept).get q = (fs.removePartly dir e.kept).get q
      rw [FileTree.removePartly, FileTree.removePartly, FileTree.get_restrict, FileTree.get_restrict, h q hq]
    | false => exact h q hq

theorem sweepEntry_congr (hap : FileTree.Apart p (fnRoot ++ [x])) (h : ∀ q, ¬ p <+: q → fs'.get q = fs.get q)
    {q : FilePath} (hq : ¬ p <+: q) : (sweepEntry e fs' x).get q = (sweepEntry e fs x).get q := by
  unfold sweepEntry
  rw [FileTree.isDir, FileTree.present, h _ hap.1, h _ (hap.not_below _), ← FileTree.isDir, ← FileTree.present]
  split_ifs
  · exact removeNode_congr e (by simp) hap h hq
  · exact h q hq

/-- Sweeping entries that lie apart from where two disks differ leaves them differing there only. -/
theorem foldl_sweepEntry_congr (hap : ∀ x ∈ ids, FileTree.Apart p (fnRoot ++ [x]))
    (h : ∀ q, ¬ p <+: q → fs'.get q = fs.get q) {q : FilePath} (hq : ¬ p <+: q) :
    (ids.foldl (sweepEntry e) fs').get q = (ids.foldl (sweepEntry e) fs).get q := by
  induction ids generalizing fs fs' with
  | nil => exact h q hq
  | cons x ids ih =>
    rw [List.forall_mem_cons] at hap
    exact ih hap.2 fun q hq => sweepEntry_congr hap.1 h hq

/-- The flag the daemon would switch. -/
def disableFlag (fs : FileTree) (id : String) : FilePath := nodeDir fs id ++ ["disable"]

theorem disableFlag_not_entry (fs : FileTree) (id n : String) : ¬ disableFlag fs id <+: fnRoot ++ [n] := by
  unfold disableFlag nodeDir activeDir
  split_ifs
  · intro h
    have hlen := h.length_le
    simp at hlen
  · simp [fnRoot, List.cons_prefix_cons]

theorem isDir_congr (h : FileTree.OnlyAt (disableFlag fs id) fs' fs) :
    fs'.isDir (fnRoot ++ [id]) = fs.isDir (fnRoot ++ [id]) := by
  rw [FileTree.isDir, h.get _ (disableFlag_not_entry fs id id), ← FileTree.isDir]

/-- The scan of a disk that only differs in the flag comes to the id on a disk that only differs there. -/
theorem get_diskAt_congr (h : FileTree.OnlyAt (disableFlag fs id) fs' fs) {q : FilePath}
    (hq : ¬ disableFlag fs id <+: q) : (diskAt e fs' id).get q = (diskAt e fs id).get q := by
  have hchildren := h.children fnRoot (disableFlag_not_entry fs id)
  unfold diskAt
  rw [isDir_congr h]
  split_ifs with hdir
  · unfold sweptBefore
    rw [hchildren]
    apply foldl_sweepEntry_congr _ h.get hq
    intro x hx
    have hne : id ≠ x := by
      have hx := List.mem_takeWhile_imp hx
      rw [decide_eq_true_eq] at hx
      exact Ne.symm hx
    have hap := (apart_entries (.inl rfl) (.inl rfl) hne).append ["disable"] []
    rw [List.append_nil] at hap
    rw [disableFlag, nodeDir, if_pos hdir]
    exact hap
  · unfold sweptAll
    rw [hchildren]
    apply foldl_sweepEntry_congr _ h.get hq
    intro x _
    rw [disableFlag, nodeDir, if_neg hdir]
    constructor <;> simp [fnRoot, activeDir, List.cons_prefix_cons]

/-! ### The switch -/

/-- `remove_file` of a flag; it may be missing. -/
def removeFlag (fs : FileTree) (flag : FilePath) : Option FileTree :=
  if fs.present flag then fs.removeFile flag else some fs

/-- `set_fn_node_enabled`, with the disk it leaves. -/
def setFnNodeEnabled (e : Env) (fs : FileTree) (id : String) (enabled : Bool) : Except String Unit × FileTree :=
  if !isValidId id then (.error ("Invalid FN node id: `" ++ id ++ "`"), fs)
  else
    let fs' := (scanFnNodes e fs).2
    match findNode e fs id with
    | none => (.error ("FN node `" ++ id ++ "` does not exist"), fs')
    | some node =>
      let flag := node.dir ++ ["disable"]
      if enabled then
        match removeFlag fs' flag with
        | some fs' => (.ok (), fs')
        | none => (.error "Failed to remove disable flag", fs')
      else
        match fs'.openTrunc flag with
        | some (_, fs') => (.ok (), fs')
        | none => (.error "Failed to create disable flag", fs')

theorem setFnNodeEnabled_ok {enabled : Bool} (h : setFnNodeEnabled e fs id enabled = (.ok (), fs')) :
    ∃ node, findNode e fs id = some node ∧
      if enabled then removeFlag (sweptAll e fs) (node.dir ++ ["disable"]) = some fs'
      else ∃ ino, (sweptAll e fs).openTrunc (node.dir ++ ["disable"]) = some (ino, fs') := by
  unfold setFnNodeEnabled at h
  rw [scanFnNodes_fs] at h
  by_cases hvalid : (!isValidId id) = true
  · rw [if_pos hvalid] at h
    exact absurd (congrArg Prod.fst h) (by simp)
  · rw [if_neg hvalid] at h
    cases hfind : findNode e fs id with
    | none =>
      rw [hfind] at h
      exact absurd (congrArg Prod.fst h) (by simp)
    | some node =>
      rw [hfind] at h
      refine ⟨node, rfl, ?_⟩
      dsimp only at h
      cases enabled with
      | true =>
        rw [if_pos rfl] at h ⊢
        cases hflag : removeFlag (sweptAll e fs) (node.dir ++ ["disable"]) with
        | none =>
          rw [hflag] at h
          exact absurd (congrArg Prod.fst h) (by simp)
        | some fs₁ =>
          rw [hflag] at h
          exact congrArg some (congrArg Prod.snd h)
      | false =>
        rw [if_neg Bool.false_ne_true] at h ⊢
        cases hflag : (sweptAll e fs).openTrunc (node.dir ++ ["disable"]) with
        | none =>
          rw [hflag] at h
          exact absurd (congrArg Prod.fst h) (by simp)
        | some opened =>
          obtain ⟨ino, fs₁⟩ := opened
          rw [hflag] at h
          obtain rfl : fs₁ = fs' := congrArg Prod.snd h
          exact ⟨ino, rfl⟩

/-! ### What a switch leaves -/

section Switch

variable {flag : FilePath} {enabled : Bool}

/-- The flag is there, or it is not, and the rest is as it was. -/
structure Switched (flag : FilePath) (enabled : Bool) (fs' fs : FileTree) : Prop where
  only : FileTree.OnlyAt flag fs' fs
  present : fs'.present flag = !enabled
  isFile : fs'.isFile flag = !enabled

theorem switched_removeFlag (h : removeFlag fs flag = some fs') : Switched flag true fs' fs := by
  unfold removeFlag at h
  split_ifs at h with hpresent
  · have hget := FileTree.get_removeFile h flag
    rw [if_pos (List.prefix_refl flag)] at hget
    refine ⟨FileTree.onlyAt_removeFile h, ?_, ?_⟩
    · rw [FileTree.present, hget]
      rfl
    · rw [FileTree.isFile, hget]
      rfl
  · obtain rfl := Option.some.inj h
    rw [FileTree.present, Option.not_isSome_iff_eq_none] at hpresent
    refine ⟨FileTree.onlyAt_refl flag fs, ?_, ?_⟩
    · rw [FileTree.present, hpresent]
      rfl
    · rw [FileTree.isFile, hpresent]
      rfl

theorem switched_openTrunc {ino : Nat} (h : fs.openTrunc flag = some (ino, fs')) :
    Switched flag false fs' fs := by
  have hget := FileTree.get_openTrunc_self h
  refine ⟨FileTree.onlyAt_openTrunc h, ?_, ?_⟩
  · rw [FileTree.present, hget]
    rfl
  · rw [FileTree.isFile, hget]
    rfl

theorem Switched.isDir (h : Switched flag enabled fs' fs) : fs'.isDir flag = false := by
  have hpresent := h.present
  have hfile := h.isFile
  unfold FileTree.isDir
  unfold FileTree.isFile at hfile
  unfold FileTree.present at hpresent
  cases hget : fs'.get flag with
  | none => rfl
  | some n =>
    rw [hget] at hpresent hfile
    cases n with
    | file ino data => rfl
    | dir => exact absurd (hpresent.trans hfile.symm) (by decide)
    | link => exact absurd (hpresent.trans hfile.symm) (by decide)

/-- Below the flag there is nothing. -/
theorem Switched.isFile_below (h : Switched flag enabled fs' fs) (hp : flag <+: p) :
    fs'.isFile p = (decide (p = flag) && !enabled) := by
  obtain ⟨q, rfl⟩ := hp
  by_cases hq : q = []
  · subst hq
    rw [List.append_nil, h.isFile]
    simp
  · rw [FileTree.isFile, FileTree.get_below_of_not_isDir hq h.isDir]
    simp [hq]

end Switch

end OnyxZygisk.Daemon
