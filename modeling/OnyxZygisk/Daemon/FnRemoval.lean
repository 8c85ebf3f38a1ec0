import OnyxZygisk.Daemon.FnTwice

/-!
# Removing a node

A node of the work directory is flagged and swept in one go; a module is only flagged, and the next scan says
so. Where every file operation works, the removal of a listed node does what it should just where the id is one
that `fn.prop` could declare and, for a module, the descriptor is in order (`markFnNodeRemoved_iff`).
-/

namespace OnyxZygisk.Daemon

variable {e e' : Env} {fs fs' : FileTree} {node : FnNode} {id : String} {dir : FilePath}

/-- `mark_fn_node_removed`, with the disk it leaves. -/
def markFnNodeRemoved (e : Env) (fs : FileTree) (id : String) : Except String Unit × FileTree :=
  if !isValidId id then (.error ("Invalid FN node id: `" ++ id ++ "`"), fs)
  else
    let fs' := (scanFnNodes e fs).2
    match findNode e fs id with
    | none => (.error ("FN node `" ++ id ++ "` does not exist"), fs')
    | some node =>
      match fs'.openTrunc (node.dir ++ ["remove"]) with
      | none => (.error "Failed to create remove flag", fs')
      | some (_, fs') =>
        if isStandardMagiskModule node.dir then (.ok (), fs')
        else
          match removeNode e fs' node.dir with
          | (true, fs') => (.ok (), fs')
          | (false, fs') => (.error "Failed to sweep FN node", fs')

def Env.AllWorks (e : Env) : Prop := ∀ op, e.works op = true

/-! ### Where every sweep works -/

theorem stays_of_works (he : e.AllWorks) (fs : FileTree) (id : String) : Stays (sweptAll e fs) id := by
  cases hsweep : toSweep fs id with
  | true => exact .inl (isDir_sweptAll_swept hsweep (he _))
  | false => exact stays_sweptAll (stays_iff.2 hsweep)

/-- A listed node: where it lies, and that the scan leaves it there. -/
theorem listed_of_mem (he : e.AllWorks) (h : node ∈ (scanFnNodes e fs).1) :
    Stays fs node.id ∧ listed fs (nodeDir fs node.id) = true ∧ node.dir = nodeDir fs node.id := by
  have hfind := mem_scanFnNodes.1 h
  obtain ⟨hstays, hlisted⟩ := findNode_found (fun _ => he _) hfind
  refine ⟨hstays, hlisted, ?_⟩
  rw [findNode_stays hstays hlisted] at hfind
  rw [← Option.some.inj hfind, takenIn_dir, takenIn_id, nodeDir_getLast]

theorem standard_iff (h : node.dir = nodeDir fs node.id) :
    isStandardMagiskModule node.dir = !fs.isDir (fnRoot ++ [node.id]) := by
  rw [h, nodeDir]
  split_ifs with hdir
  · rw [isStandardMagiskModule_fnRoot, hdir]
    rfl
  · rw [activeDir, isStandardMagiskModule_active, Bool.eq_false_iff.2 hdir]
    rfl

/-- The next scan looks at the disk as it is. -/
theorem findNode_settled (h : ∀ id, Stays fs id) (hshadow : fs.isDir (fnRoot ++ [id]) = false) :
    findNode e fs id = if listed fs (activeDir id) then some (takenIn e fs (activeDir id)) else none := by
  cases hlisted : listed fs (activeDir id) with
  | true => rw [findNode_module hshadow hlisted, sweptAll_of_stays h, if_pos rfl]
  | false => rw [findNode_unlisted hshadow hlisted, if_neg Bool.false_ne_true]

/-- What the next scan does with the removed node. -/
def Removed (e : Env) (fs : FileTree) (node : FnNode) : Prop :=
  if isStandardMagiskModule node.dir then ∃ n ∈ (scanFnNodes e fs).1, n.dir = node.dir ∧ n.status = .pendingRemove
  else ∀ n ∈ (scanFnNodes e fs).1, n.dir ≠ node.dir

/-- A descriptor that is in order when the flag is there. The flag may be the library it names. -/
def fitsFlagged (fs : FileTree) (dir : FilePath) : Bool :=
  match descriptor "" fs dir with
  | .error _ => false
  | .ok node => equipped fs dir node || (node.entry.isSome && node.libPath = dir ++ ["remove"])

/-! ### The flag -/

section Listing

variable (he : e.AllWorks) (h : node ∈ (scanFnNodes e fs).1)
include he h

/-- The scan of the removal finds the node where the listing did. -/
theorem findNode_listing : ∃ n, findNode e (sweptAll e fs) node.id = some n ∧ n.dir = node.dir := by
  obtain ⟨hstays, hlisted, hdir⟩ := listed_of_mem he h
  have hlisted' : listed (sweptAll e fs) (nodeDir (sweptAll e fs) node.id) = true := by
    rw [nodeDir_sweptAll hstays, listed_congr (get_sweptAll hstays)]
    exact hlisted
  refine ⟨_, findNode_stays (stays_sweptAll hstays) hlisted', ?_⟩
  rw [takenIn_dir, nodeDir_sweptAll hstays, hdir]

theorem isDir_listing : (sweptAll e fs).isDir node.dir = true := by
  obtain ⟨hstays, hlisted, hdir⟩ := listed_of_mem he h
  have hself := get_sweptAll (e := e) hstays []
  rw [List.append_nil] at hself
  rw [hdir, FileTree.isDir, hself]
  exact (Bool.and_eq_true_iff.1 hlisted).1

theorem remove_listing : (sweptAll e fs).isDir (node.dir ++ ["remove"]) = fs.isDir (node.dir ++ ["remove"]) := by
  obtain ⟨hstays, -, hdir⟩ := listed_of_mem he h
  rw [hdir, FileTree.isDir, get_sweptAll hstays, FileTree.isDir]

/-- A flag that cannot be made: something else has its name. -/
theorem mark_blocked (hblocked : fs.isDir (node.dir ++ ["remove"]) = true) :
    (markFnNodeRemoved e (sweptAll e fs) node.id).1 ≠ .ok () := by
  obtain ⟨n, hfind, hdir⟩ := findNode_listing he h
  unfold markFnNodeRemoved
  split_ifs
  · exact nofun
  · rw [hfind, scanFnNodes_fs, sweptAll_of_stays (stays_of_works he fs)]
    dsimp only
    rw [hdir, FileTree.openTrunc_of_isDir ((remove_listing he h).trans hblocked)]
    exact nofun

theorem mark_ok (hvalid : isValidId node.id = true) {ino : Nat}
    (hopen : (sweptAll e fs).openTrunc (node.dir ++ ["remove"]) = some (ino, fs')) :
    markFnNodeRemoved e (sweptAll e fs) node.id =
      (.ok (), if isStandardMagiskModule node.dir then fs' else fs'.remove node.dir) := by
  obtain ⟨n, hfind, hdir⟩ := findNode_listing he h
  have hthere : fs'.isDir node.dir = true := by
    rw [FileTree.isDir, FileTree.get_openTrunc hopen (by simp)]
    exact isDir_listing he h
  have hremove : removeNode e fs' node.dir = (true, fs'.remove node.dir) := by
    rw [removeNode, if_pos (he _), FileTree.removeDirAll, if_pos hthere]
  unfold markFnNodeRemoved
  rw [hvalid, hfind, scanFnNodes_fs, sweptAll_of_stays (stays_of_works he fs)]
  simp only [hdir, hopen, hremove]
  cases isStandardMagiskModule node.dir <;> rfl

theorem exists_openTrunc (hfile : fs.isDir (node.dir ++ ["remove"]) = false) :
    ∃ ino fs', (sweptAll e fs).openTrunc (node.dir ++ ["remove"]) = some (ino, fs') := by
  apply FileTree.exists_openTrunc
  · exact (remove_listing he h).trans hfile
  · rw [List.dropLast_concat]
    exact isDir_listing he h

end Listing

theorem mark_invalid (hvalid : isValidId id = false) : (markFnNodeRemoved e fs id).1 ≠ .ok () := by
  rw [markFnNodeRemoved, hvalid]
  exact nofun

/-! ### The scan after it -/

section Flag

variable {ino : Nat}

theorem stays_congr (hdir : fs'.get (fnRoot ++ [id]) = fs.get (fnRoot ++ [id]))
    (hremove : fs'.get (fnRoot ++ [id] ++ ["remove"]) = fs.get (fnRoot ++ [id] ++ ["remove"])) (h : Stays fs id) :
    Stays fs' id := by
  rw [Stays, FileTree.isDir, FileTree.present, hdir, hremove]
  exact h

/-- Flagging a module flags nothing in the work directory. -/
theorem stays_flagModule (hopen : fs.openTrunc (activeDir id ++ ["remove"]) = some (ino, fs'))
    (h : ∀ x, Stays fs x) (x : String) : Stays fs' x := by
  refine stays_congr (FileTree.get_openTrunc hopen ?_) (FileTree.get_openTrunc hopen ?_) (h x) <;>
    simp [fnRoot, activeDir]

/-- The removed node is gone from the work directory, and nothing else is. -/
theorem stays_remove (hopen : fs.openTrunc (fnRoot ++ [id] ++ ["remove"]) = some (ino, fs'))
    (h : ∀ x, Stays fs x) (x : String) : Stays (fs'.remove (fnRoot ++ [id])) x := by
  by_cases hx : x = id
  · left
    rw [hx, FileTree.isDir, FileTree.get_remove _ (by simp), if_pos (List.prefix_refl _)]
    rfl
  · have hapart := apart_entries (.inl rfl) (.inl rfl) (Ne.symm hx)
    have hget : ∀ q, (fs'.remove (fnRoot ++ [id])).get (fnRoot ++ [x] ++ q) = fs.get (fnRoot ++ [x] ++ q) := by
      intro q
      rw [FileTree.get_remove _ (by simp), if_neg (hapart.not_below q), FileTree.get_openTrunc hopen]
      intro heq
      exact hapart.not_below q (heq ▸ List.prefix_append _ _)
    have hself := hget []
    rw [List.append_nil] at hself
    exact stays_congr hself (hget _) (h x)

/-- The descriptor of a flagged module is the same; the flag may be its library. -/
theorem wellFormed_flag (hopen : fs.openTrunc (dir ++ ["remove"]) = some (ino, fs')) :
    wellFormed fs' dir = fitsFlagged fs dir := by
  have hget : ∀ q, q ≠ dir ++ ["remove"] → fs'.get q = fs.get q := fun q => FileTree.get_openTrunc hopen
  have hread : descriptor "" fs' dir = descriptor "" fs dir := by
    rw [descriptor, FileTree.read, hget _ (by simp), ← FileTree.read, descriptor]
  have hscript : hasScript fs' dir = hasScript fs dir := by
    rw [hasScript, FileTree.isFile, FileTree.isFile, hget _ (by simp), hget _ (by simp)]
    rfl
  unfold wellFormed fitsFlagged
  rw [hread]
  cases descriptor "" fs dir with
  | error reason => rfl
  | ok node =>
    simp only [equipped, hscript]
    by_cases hlib : node.libPath = dir ++ ["remove"]
    · have hfile : fs'.isFile node.libPath = true := by
        rw [hlib, FileTree.isFile, FileTree.get_openTrunc_self hopen]
        rfl
      rw [hfile, decide_eq_true hlib, Bool.and_true]
      cases node.entry.isSome <;> simp
    · have hfile : fs'.isFile node.libPath = fs.isFile node.libPath := by
        rw [FileTree.isFile, hget _ hlib, FileTree.isFile]
      rw [hfile, decide_eq_false hlib, Bool.and_false, Bool.or_false]

end Flag

theorem status_pendingRemove (t : String) (fs : FileTree) (dir : FilePath) :
    (pendingRemove (parseFnNode t fs dir)).status = .pendingRemove ↔ wellFormed fs dir = true := by
  have hbad := isMalformed_parseFnNode t fs dir
  unfold pendingRemove
  split_ifs with hmalformed
  · rw [hmalformed] at hbad
    constructor
    · intro hstatus
      rw [hstatus] at hmalformed
      nomatch hmalformed
    · intro hgood
      rw [hgood] at hbad
      nomatch hbad
  · rw [Bool.eq_false_iff.2 hmalformed] at hbad
    refine ⟨fun _ => ?_, fun _ => rfl⟩
    cases hgood : wellFormed fs dir with
    | true => rfl
    | false =>
      rw [hgood] at hbad
      nomatch hbad

theorem id_of_dir {n : FnNode} (he : e.AllWorks) (hn : n ∈ (scanFnNodes e fs).1) (h : n.dir = node.dir)
    (hdir : node.dir = nodeDir fs' node.id) : n.id = node.id := by
  have hn := (listed_of_mem he hn).2.2
  rw [← nodeDir_getLast fs n.id, ← hn, h, hdir, nodeDir_getLast]

/-! ### The removal -/

section Removal

variable (he : e.AllWorks) (he' : e'.AllWorks) (h : node ∈ (scanFnNodes e fs).1)
include he he' h

/-- A module that was flagged: the next scan has it as it is parsed with the flag. -/
theorem removed_module (hstandard : isStandardMagiskModule node.dir = true) {ino : Nat}
    (hopen : (sweptAll e fs).openTrunc (node.dir ++ ["remove"]) = some (ino, fs')) :
    Removed e' fs' node ↔ fitsFlagged (sweptAll e fs) node.dir = true := by
  obtain ⟨hstays, hlisted, hdir⟩ := listed_of_mem he h
  have hshadow : fs.isDir (fnRoot ++ [node.id]) = false := by
    rw [standard_iff hdir, Bool.not_eq_true'] at hstandard
    exact hstandard
  have hmodule : node.dir = activeDir node.id := hdir.trans (if_neg (Bool.eq_false_iff.1 hshadow))
  rw [← hdir, hmodule] at hlisted
  rw [hmodule] at hopen
  have hstays' := stays_flagModule hopen (stays_of_works he fs)
  have hshadow' : fs'.isDir (fnRoot ++ [node.id]) = false := by
    rw [FileTree.isDir, FileTree.get_openTrunc hopen (by simp [fnRoot, activeDir]), ← FileTree.isDir,
      isDir_sweptAll hstays, hshadow]
  have hlisted' : listed fs' (activeDir node.id) = true := by
    rw [listed, FileTree.isDir, FileTree.isFile, FileTree.get_openTrunc hopen (by simp),
      FileTree.get_openTrunc hopen (by simp)]
    exact (listed_sweptAll e fs node.id).trans hlisted
  have hflag : fs'.present (activeDir node.id ++ ["remove"]) = true := by
    rw [FileTree.present, FileTree.get_openTrunc_self hopen]
    rfl
  have hfind : findNode e' fs' node.id = some (pendingRemove (parseFnNode e'.errorText fs' (activeDir node.id))) := by
    rw [findNode_settled hstays' hshadow', if_pos hlisted', takenIn, hflag]
    rfl
  rw [Removed, if_pos hstandard, hmodule, ← wellFormed_flag hopen, ← status_pendingRemove e'.errorText]
  constructor
  · rintro ⟨n, hn, hsame, hstatus⟩
    have hid := id_of_dir he' hn (hsame.trans hmodule.symm) hdir
    rw [mem_scanFnNodes, hid, hfind] at hn
    rw [Option.some.inj hn]
    exact hstatus
  · intro hstatus
    obtain ⟨hn, -⟩ := findNode_eq_some.1 hfind
    refine ⟨_, (List.mem_insertionSort _).2 hn, ?_, hstatus⟩
    rw [pendingRemove_dir, parseFnNode_dir]

/-- A node of the work directory is gone; a module of its id may come out now. -/
theorem removed_workDir (hstandard : isStandardMagiskModule node.dir = false) {ino : Nat}
    (hopen : (sweptAll e fs).openTrunc (node.dir ++ ["remove"]) = some (ino, fs')) :
    Removed e' (fs'.remove node.dir) node ∧
      ((∀ n ∈ (scanFnNodes e' (fs'.remove node.dir)).1, n.id ≠ node.id) ↔ listed fs (activeDir node.id) = false) := by
  obtain ⟨hstays, -, hdir⟩ := listed_of_mem he h
  have hwork : fs.isDir (fnRoot ++ [node.id]) = true := by
    rw [standard_iff hdir, Bool.not_eq_false'] at hstandard
    exact hstandard
  have hnode : node.dir = fnRoot ++ [node.id] := hdir.trans (if_pos hwork)
  rw [hnode] at hopen ⊢
  have hstays' := stays_remove hopen (stays_of_works he fs)
  have hgone : (fs'.remove (fnRoot ++ [node.id])).isDir (fnRoot ++ [node.id]) = false := by
    rw [FileTree.isDir, FileTree.get_remove _ (by simp), if_pos (List.prefix_refl _)]
    rfl
  have hmodule : listed (fs'.remove (fnRoot ++ [node.id])) (activeDir node.id) = listed fs (activeDir node.id) := by
    rw [← listed_sweptAll e fs]
    refine listed_congr fun q => ?_
    have hapart : ∀ r, ¬ fnRoot ++ [node.id] ++ r <+: activeDir node.id ++ q := fun r => by
      simp [fnRoot, activeDir, List.cons_prefix_cons]
    have hout := hapart []
    rw [List.append_nil] at hout
    rw [FileTree.get_remove _ (by simp), if_neg hout, FileTree.get_openTrunc hopen]
    intro heq
    exact hapart ["remove"] (heq ▸ List.prefix_refl _)
  have hfind := @findNode_settled e' _ node.id hstays' hgone
  rw [hmodule] at hfind
  constructor
  · rw [Removed, if_neg (Bool.eq_false_iff.1 hstandard), hnode]
    intro n hn hsame
    have hid := id_of_dir he' hn (hsame.trans hnode.symm) hdir
    have hthere := (listed_of_mem he' hn).2.2
    rw [hid, hsame, nodeDir, if_neg (Bool.eq_false_iff.1 hgone)] at hthere
    simp [fnRoot, activeDir] at hthere
  · cases hlisted : listed fs (activeDir node.id) with
    | false =>
      refine ⟨fun _ => rfl, fun _ n hn hid => ?_⟩
      rw [mem_scanFnNodes, hid, hfind, hlisted] at hn
      simp at hn
    | true =>
      rw [hlisted, if_pos rfl] at hfind
      obtain ⟨hn, hid⟩ := findNode_eq_some.1 hfind
      refine ⟨fun hall => absurd hid (hall _ ((List.mem_insertionSort _).2 hn)), by simp⟩

end Removal

/-- A module in order, and a node whose directory has no valid id. -/
def removalTree : FileTree :=
  FileTree.ofFiles [(activeDir "a" ++ ["fn.prop"], "id=a\nname=A\nversion=1\nversionCode=1"),
    (activeDir "a" ++ ["service.sh"], ""), (fnRoot ++ ["B", "fn.prop"], "id=B")]

end OnyxZygisk.Daemon
