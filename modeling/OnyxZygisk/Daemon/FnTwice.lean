import OnyxZygisk.Daemon.FnLookup
import OnyxZygisk.Daemon.Steps

/-!
# Two scans in a row

The second scan finds the disk the first one has swept. It returns the same list just where no id comes out
differently (`scan_again_iff`): a node that was swept shadows no module any more, a removal that failed may
work now or may have taken part of the node along, and a sweep may have taken the library of another node.
-/

namespace OnyxZygisk.Daemon

variable {e e' : Env} {fs fs' : FileTree} {node : FnNode} {id : String} {dir : FilePath}

/-! ### One node for each id -/

theorem before_iff {a b : FnNode} : a.before b ↔
    a.priority.toInt < b.priority.toInt ∨ a.priority.toInt = b.priority.toInt ∧ a.id ≤ b.id := by
  rw [FnNode.before, Int32.lt_iff_toInt_lt, Int32.toInt_inj]

theorem before_total (a b : FnNode) : a.before b ∨ b.before a := by
  rw [before_iff, before_iff]
  rcases lt_trichotomy a.priority.toInt b.priority.toInt with h | h | h
  · exact .inl (.inl h)
  · rcases String.le_total a.id b.id with hid | hid
    · exact .inl (.inr ⟨h, hid⟩)
    · exact .inr (.inr ⟨h.symm, hid⟩)
  · exact .inr (.inl h)

theorem before_trans {a b c : FnNode} (hab : a.before b) (hbc : b.before c) : a.before c := by
  rw [before_iff] at *
  rcases hab with hab | ⟨hab, hidab⟩
  · left
    omega
  · rcases hbc with hbc | ⟨hbc, hidbc⟩
    · left
      omega
    · exact .inr ⟨hab.trans hbc, String.le_trans hidab hidbc⟩

theorem before_antisymm {a b : FnNode} (hab : a.before b) (hba : b.before a) : a.id = b.id := by
  rw [before_iff] at *
  rcases hab with hab | ⟨hab, hidab⟩
  · omega
  · rcases hba with hba | ⟨-, hidba⟩
    · omega
    · exact String.le_antisymm hidab hidba

theorem mem_scanFnNodes : node ∈ (scanFnNodes e fs).1 ↔ findNode e fs node.id = some node := by
  rw [findNode_eq_some, and_iff_left rfl]
  exact List.mem_insertionSort _

theorem pairwise_scanFnNodes (e : Env) (fs : FileTree) : (scanFnNodes e fs).1.Pairwise FnNode.before := by
  have htotal : Std.Total FnNode.before := ⟨before_total⟩
  have htrans : IsTrans FnNode FnNode.before := ⟨fun _ _ _ => before_trans⟩
  exact List.pairwise_insertionSort _ _

theorem nodup_scanFnNodes (e : Env) (fs : FileTree) : (scanFnNodes e fs).1.Nodup :=
  (List.perm_insertionSort _ _).nodup_iff.2 (scanInv_scanRoots e fs).nodup.of_map

/-- The list is what is found under each id. -/
theorem scanFnNodes_eq_iff :
    (scanFnNodes e fs).1 = (scanFnNodes e' fs').1 ↔ ∀ id, findNode e fs id = findNode e' fs' id := by
  constructor
  · intro h id
    rw [findNode, h, findNode]
  · intro h
    have hmem : ∀ n, n ∈ (scanFnNodes e fs).1 ↔ n ∈ (scanFnNodes e' fs').1 := fun n => by
      rw [mem_scanFnNodes, mem_scanFnNodes, h]
    have hperm := (List.perm_ext_iff_of_nodup (nodup_scanFnNodes e fs) (nodup_scanFnNodes e' fs')).2 hmem
    refine hperm.eq_of_pairwise ?_ (pairwise_scanFnNodes e fs) (pairwise_scanFnNodes e' fs')
    intro a b ha hb hab hba
    have hfound := mem_scanFnNodes.1 ha
    rw [before_antisymm hab hba, mem_scanFnNodes.1 ((hmem b).2 hb)] at hfound
    exact (Option.some.inj hfound).symm

/-! ### What a parse comes to -/

/-- The descriptor of a directory, or what is wrong with it. -/
def descriptor (errorText : String) (fs : FileTree) (dir : FilePath) : Except String FnNode :=
  match fs.read (dir ++ ["fn.prop"]) with
  | none => .error ("unreadable fn.prop: " ++ errorText)
  | some content => describe (dir.getLast?.getD "") dir (parseProps content)

/-- A node needs its library or a script. -/
def equipped (fs : FileTree) (dir : FilePath) (node : FnNode) : Bool :=
  (node.entry.isSome && fs.isFile node.libPath) || hasScript fs dir

def wellFormed (fs : FileTree) (dir : FilePath) : Bool :=
  match descriptor "" fs dir with
  | .error _ => false
  | .ok node => equipped fs dir node

def flagStatus (fs : FileTree) (dir : FilePath) : FnStatus :=
  if fs.present (dir ++ ["update"]) then .pendingUpdate
  else if fs.present (dir ++ ["disable"]) then .disabled
  else .enabled

theorem parseFnNode_of_error {t reason : String} (h : descriptor t fs dir = .error reason) :
    parseFnNode t fs dir = malformed (dir.getLast?.getD "") dir reason := by
  unfold descriptor at h
  unfold parseFnNode
  cases hread : fs.read (dir ++ ["fn.prop"]) with
  | none =>
    rw [hread] at h
    rw [← Except.error.inj h]
  | some content =>
    rw [hread] at h
    simp only [h]

theorem of_descriptor_ok {t : String} (h : descriptor t fs dir = .ok node) :
    ∃ content, fs.read (dir ++ ["fn.prop"]) = some content ∧
      describe (dir.getLast?.getD "") dir (parseProps content) = .ok node := by
  unfold descriptor at h
  cases hread : fs.read (dir ++ ["fn.prop"]) with
  | none =>
    rw [hread] at h
    nomatch h
  | some content =>
    rw [hread] at h
    exact ⟨content, rfl, h⟩

theorem parseFnNode_of_ok {t : String} (h : descriptor t fs dir = .ok node) :
    parseFnNode t fs dir = if equipped fs dir node then { node with status := flagStatus fs dir }
      else malformed (dir.getLast?.getD "") dir "no entry library or script" := by
  obtain ⟨content, hread, hdesc⟩ := of_descriptor_ok h
  have hneeds : (!(node.entry.isSome && fs.isFile node.libPath) && !hasScript fs dir) = !equipped fs dir node :=
    (Bool.not_or _ _).symm
  unfold parseFnNode
  simp only [hread, hdesc]
  rw [← hasScript, hneeds]
  cases equipped fs dir node <;> rfl

theorem descriptor_ok_iff {t t' : String} : descriptor t fs dir = .ok node ↔ descriptor t' fs dir = .ok node := by
  unfold descriptor
  cases fs.read (dir ++ ["fn.prop"]) with
  | none => exact ⟨nofun, nofun⟩
  | some content => exact Iff.rfl

theorem wellFormed_of_ok {t : String} (h : descriptor t fs dir = .ok node) : wellFormed fs dir = equipped fs dir node := by
  unfold wellFormed
  rw [descriptor_ok_iff.1 h]

theorem wellFormed_of_error {t reason : String} (h : descriptor t fs dir = .error reason) : wellFormed fs dir = false := by
  unfold wellFormed
  cases hdesc : descriptor "" fs dir with
  | error reason => rfl
  | ok node => nomatch h.symm.trans (descriptor_ok_iff.1 hdesc)

theorem not_isMalformed_flagStatus (fs : FileTree) (dir : FilePath) : (flagStatus fs dir).isMalformed = false := by
  unfold flagStatus
  split_ifs <;> rfl

/-- A node is malformed where its descriptor or what it needs is not there. -/
theorem isMalformed_parseFnNode (t : String) (fs : FileTree) (dir : FilePath) :
    (parseFnNode t fs dir).status.isMalformed = !wellFormed fs dir := by
  cases h : descriptor t fs dir with
  | error reason =>
    rw [parseFnNode_of_error h, wellFormed_of_error h]
    rfl
  | ok node =>
    rw [parseFnNode_of_ok h, wellFormed_of_ok h]
    split_ifs with hneeds
    · rw [hneeds]
      exact not_isMalformed_flagStatus fs dir
    · rw [Bool.eq_false_iff.2 hneeds]
      rfl

theorem isMalformed_pendingRemove (node : FnNode) : (pendingRemove node).status.isMalformed = node.status.isMalformed := by
  unfold pendingRemove
  split_ifs with h
  · rfl
  · exact (Bool.eq_false_iff.2 h).symm

theorem parseFnNode_status_ne (t : String) (fs : FileTree) (dir : FilePath) :
    (parseFnNode t fs dir).status ≠ .pendingRemove := by
  cases h : descriptor t fs dir with
  | error reason =>
    rw [parseFnNode_of_error h]
    exact nofun
  | ok node =>
    rw [parseFnNode_of_ok h]
    split_ifs
    · unfold flagStatus
      dsimp only
      split_ifs <;> exact nofun
    · exact nofun

theorem read_eq_none {p : FilePath} (h : fs.isFile p = false) : fs.read p = none := by
  unfold FileTree.isFile at h
  unfold FileTree.read
  cases hget : fs.get p with
  | none => rfl
  | some n =>
    rw [hget] at h
    cases n with
    | file ino data => nomatch h
    | dir => rfl
    | link => rfl

theorem head_unreadable (t : String) : ("unreadable fn.prop: " ++ t).toList.head? = some 'u' := by
  rw [String.toList_append]
  rfl

/-- What can be wrong with a descriptor that was read. -/
theorem describe_error {reason : String} {props : List (String × String)} (h : describe id dir props = .error reason) :
    reason ∈ ["missing id", "invalid id", "id does not match directory name", "missing name", "missing version",
      "invalid versionCode"] ∨
      ∃ other, props.lookup "scope" = some other ∧ reason = "invalid scope `" ++ other ++ "`" := by
  unfold describe at h
  rcases of_bind_error h with h | ⟨declaredId, -, h⟩
  · rw [of_elim_error h]
    exact .inl (by decide)
  split_ifs at h
  · rw [← Except.error.inj h]
    exact .inl (by decide)
  · rw [← Except.error.inj h]
    exact .inl (by decide)
  rcases of_bind_error h with h | ⟨name, -, h⟩
  · rw [of_elim_error h]
    exact .inl (by decide)
  rcases of_bind_error h with h | ⟨version, -, h⟩
  · rw [of_elim_error h]
    exact .inl (by decide)
  rcases of_bind_error h with h | ⟨code, -, h⟩
  · rw [of_elim_error h]
    exact .inl (by decide)
  rcases of_bind_error h with hscope | ⟨scope, -, h⟩
  · unfold parseScope at hscope
    split at hscope
    · nomatch hscope
    · nomatch hscope
    · nomatch hscope
    · nomatch hscope
    · next other _ _ _ hlookup => exact .inr ⟨other, hlookup, (Except.error.inj hscope).symm⟩
  · nomatch h

theorem head_describe_error {reason : String} {props : List (String × String)}
    (h : describe id dir props = .error reason) : reason.toList.head? ≠ some 'u' := by
  rcases describe_error h with hmem | ⟨other, -, rfl⟩
  · have hall : ∀ reason ∈ ["missing id", "invalid id", "id does not match directory name", "missing name",
        "missing version", "invalid versionCode"], reason.toList.head? ≠ some 'u' := by decide
    exact hall reason hmem
  · rw [String.append_assoc, String.toList_append]
    show some 'i' ≠ some 'u'
    decide

theorem parseFnNode_unreadable (t : String) (h : fs.isFile (dir ++ ["fn.prop"]) = false) :
    parseFnNode t fs dir = malformed (dir.getLast?.getD "") dir ("unreadable fn.prop: " ++ t) := by
  apply parseFnNode_of_error
  rw [descriptor, read_eq_none h]

/-! ### The next parse

It comes when the disk is swept further: files may be gone, none is new. -/

section Again

variable {t : String}

theorem equipped_of_within (h : fs'.Within fs) (hneeds : equipped fs' dir node = true) :
    equipped fs dir node = true := by
  unfold equipped hasScript at *
  simp only [Bool.or_eq_true, Bool.and_eq_true] at *
  rcases hneeds with ⟨hentry, hlib⟩ | hscript | hscript
  · exact .inl ⟨hentry, h.isFile hlib⟩
  · exact .inr (.inl (h.isFile hscript))
  · exact .inr (.inr (h.isFile hscript))

/-- The descriptor says the same, and what it needs is still there: only the flags are read again. -/
theorem parse_again (hread : fs'.read (dir ++ ["fn.prop"]) = fs.read (dir ++ ["fn.prop"])) (hwithin : fs'.Within fs)
    (hkeeps : wellFormed fs dir = true → wellFormed fs' dir = true) :
    parseFnNode t fs' dir = parseFnNode t fs dir ∧ wellFormed fs dir = false ∨
      ∃ node : FnNode, parseFnNode t fs dir = { node with status := flagStatus fs dir } ∧
        parseFnNode t fs' dir = { node with status := flagStatus fs' dir } := by
  have hsame : descriptor t fs' dir = descriptor t fs dir := by rw [descriptor, hread, descriptor]
  cases h : descriptor t fs dir with
  | error reason =>
    left
    rw [parseFnNode_of_error h, parseFnNode_of_error (hsame.trans h)]
    exact ⟨rfl, wellFormed_of_error h⟩
  | ok node =>
    have h' := hsame.trans h
    rw [parseFnNode_of_ok h, parseFnNode_of_ok h']
    rw [wellFormed_of_ok h, wellFormed_of_ok h'] at hkeeps
    rw [wellFormed_of_ok h]
    by_cases hneeds : equipped fs dir node = true
    · rw [if_pos hneeds, if_pos (hkeeps hneeds)]
      exact .inr ⟨node, rfl, rfl⟩
    · have hless : ¬ equipped fs' dir node = true := fun hneeds' => hneeds (equipped_of_within hwithin hneeds')
      rw [if_neg hneeds, if_neg hless]
      exact .inl ⟨rfl, Bool.eq_false_iff.2 hneeds⟩

theorem pendingRemove_flagged (node : FnNode) (fs : FileTree) (dir : FilePath) :
    pendingRemove { node with status := flagStatus fs dir } = { node with status := .pendingRemove } := by
  unfold pendingRemove
  rw [if_neg]
  rw [Bool.not_eq_true]
  exact not_isMalformed_flagStatus fs dir

theorem flagStatus_congr (h : ∀ q, fs'.get (dir ++ q) = fs.get (dir ++ q)) : flagStatus fs' dir = flagStatus fs dir := by
  rw [flagStatus, FileTree.present, FileTree.present, h, h]
  rfl

theorem read_prop_congr (h : ∀ q, fs'.get (dir ++ q) = fs.get (dir ++ q)) :
    fs'.read (dir ++ ["fn.prop"]) = fs.read (dir ++ ["fn.prop"]) := by
  rw [FileTree.read, h, FileTree.read]

theorem not_wellFormed_of_eq {f : FnNode → FnNode} (hf : ∀ n, (f n).status.isMalformed = n.status.isMalformed)
    (h : f (parseFnNode t fs dir) = f (parseFnNode t fs' dir)) : wellFormed fs dir = wellFormed fs' dir := by
  have hstatus := congrArg (fun n => n.status.isMalformed) h
  simp only [hf, isMalformed_parseFnNode, Bool.not_inj_iff] at hstatus
  exact hstatus

/-- Nothing at or below the directory has changed. -/
theorem takenIn_again (hget : ∀ q, fs'.get (dir ++ q) = fs.get (dir ++ q)) (hwithin : fs'.Within fs)
    (ht : e'.errorText = e.errorText) :
    takenIn e fs dir = takenIn e' fs' dir ↔ (wellFormed fs dir = true → wellFormed fs' dir = true) := by
  have hremove : fs'.present (dir ++ ["remove"]) = fs.present (dir ++ ["remove"]) := by
    rw [FileTree.present, hget, FileTree.present]
  constructor
  · intro h hgood
    have hsame : wellFormed fs dir = wellFormed fs' dir := by
      unfold takenIn at h
      dsimp only at h
      rw [ht, hremove] at h
      split_ifs at h
      · exact not_wellFormed_of_eq isMalformed_pendingRemove h
      · exact not_wellFormed_of_eq (fun _ => rfl) h
    exact hsame ▸ hgood
  · intro hkeeps
    have hparse : parseFnNode e.errorText fs' dir = parseFnNode e.errorText fs dir := by
      rcases parse_again (t := e.errorText) (read_prop_congr hget) hwithin hkeeps with ⟨h, -⟩ | ⟨node, h, h'⟩
      · exact h
      · rw [h, h', flagStatus_congr hget]
    rw [takenIn, takenIn, ht, hparse, hremove]

theorem read_of_within (hwithin : fs'.Within fs) {p : FilePath} (h : fs'.isFile p = true) :
    fs'.read p = fs.read p := by
  rw [FileTree.isFile, Option.any_eq_true] at h
  obtain ⟨n, hn, -⟩ := h
  rw [FileTree.read, hn, FileTree.read, hwithin p n hn]

theorem pendingRemove_readable (h : fs.isFile (dir ++ ["fn.prop"]) = true) :
    pendingRemove (parseFnNode t fs dir) ≠ malformed (dir.getLast?.getD "") dir ("unreadable fn.prop: " ++ t) := by
  intro heq
  have hstatus := congrArg FnNode.status heq
  obtain ⟨content, hcontent⟩ := FileTree.read_of_isFile h
  cases hdesc : descriptor t fs dir with
  | error reason =>
    rw [parseFnNode_of_error hdesc] at hstatus
    rw [descriptor, hcontent] at hdesc
    have hreason : reason = "unreadable fn.prop: " ++ t := FnStatus.malformed.inj hstatus
    exact head_describe_error hdesc (hreason ▸ head_unreadable t)
  | ok node =>
    rw [parseFnNode_of_ok hdesc] at hstatus
    split_ifs at hstatus with hneeds
    · rw [pendingRemove_flagged] at hstatus
      nomatch hstatus
    · have hreason : "no entry library or script" = "unreadable fn.prop: " ++ t := FnStatus.malformed.inj hstatus
      have hhead := head_unreadable t
      rw [← hreason] at hhead
      exact absurd hhead (by decide)

/-- The removal has stopped half way again, or for the first time. -/
theorem pendingRemove_again (hwithin : fs'.Within fs) :
    pendingRemove (parseFnNode t fs dir) = pendingRemove (parseFnNode t fs' dir) ↔
      (fs.isFile (dir ++ ["fn.prop"]) = true → fs'.isFile (dir ++ ["fn.prop"]) = true) ∧
        (wellFormed fs dir = true → wellFormed fs' dir = true) := by
  constructor
  · intro h
    refine ⟨fun hread => ?_, fun hgood => not_wellFormed_of_eq isMalformed_pendingRemove h ▸ hgood⟩
    by_contra hread'
    rw [Bool.not_eq_true] at hread'
    rw [parseFnNode_unreadable t hread'] at h
    exact pendingRemove_readable hread h
  · rintro ⟨hreads, hkeeps⟩
    cases hread : fs.isFile (dir ++ ["fn.prop"]) with
    | false =>
      have hread' : fs'.isFile (dir ++ ["fn.prop"]) = false := by
        rw [← Bool.not_eq_true]
        intro hread'
        nomatch hread.symm.trans (hwithin.isFile hread')
      rw [parseFnNode_unreadable t hread, parseFnNode_unreadable t hread']
    | true =>
      rcases parse_again (t := t) (read_of_within hwithin (hreads hread)) hwithin hkeeps with ⟨h, -⟩ | ⟨node, h, h'⟩
      · rw [h]
      · rw [h, h', pendingRemove_flagged, pendingRemove_flagged]

/-- The flag went with the removal. -/
theorem unflagged_again (hget : ∀ q, fs'.get (dir ++ q) = fs.get (dir ++ q)) (hwithin : fs'.Within fs) :
    pendingRemove (parseFnNode t fs dir) = parseFnNode t fs' dir ↔ wellFormed fs dir = false := by
  constructor
  · intro h
    by_contra hgood
    rw [Bool.not_eq_false] at hgood
    have hplain : (parseFnNode t fs dir).status.isMalformed = false := by rw [isMalformed_parseFnNode, hgood]; rfl
    have hstatus := congrArg FnNode.status h
    rw [pendingRemove, if_neg (Bool.eq_false_iff.1 hplain)] at hstatus
    exact parseFnNode_status_ne t fs' dir hstatus.symm
  · intro hbad
    have hmalformed : (parseFnNode t fs dir).status.isMalformed = true := by rw [isMalformed_parseFnNode, hbad]; rfl
    rw [pendingRemove, if_pos hmalformed]
    have hkeeps : wellFormed fs dir = true → wellFormed fs' dir = true := fun hgood => nomatch hbad.symm.trans hgood
    rcases parse_again (t := t) (read_prop_congr hget) hwithin hkeeps with ⟨h, -⟩ | ⟨node, h, -⟩
    · exact h.symm
    · rw [h, not_isMalformed_flagStatus] at hmalformed
      nomatch hmalformed

end Again

/-! ### What a scan leaves -/

theorem within_removeNode (e : Env) (fs : FileTree) (dir : FilePath) : (removeNode e fs dir).2.Within fs := by
  unfold removeNode FileTree.removeDirAll
  split_ifs
  · exact fs.within_restrict _ _
  · exact fs.within_refl
  · exact fs.within_restrict (FileTree.leaves dir e.kept) fun _ => FileTree.leaves_dropLast
  · exact fs.within_refl

theorem within_sweepEntry (e : Env) (fs : FileTree) (id : String) : (sweepEntry e fs id).Within fs := by
  unfold sweepEntry
  split_ifs
  · exact within_removeNode e fs _
  · exact fs.within_refl

theorem within_foldl (e : Env) (ids : List String) (fs : FileTree) : (ids.foldl (sweepEntry e) fs).Within fs := by
  induction ids generalizing fs with
  | nil => exact fs.within_refl
  | cons x ids ih => exact (within_sweepEntry e fs x).trans (ih _)

theorem within_sweptAll (e : Env) (fs : FileTree) : (sweptAll e fs).Within fs := within_foldl e _ fs

/-- The disk when the scan has dealt with an id. -/
def visited (e : Env) (fs : FileTree) (id : String) : FileTree :=
  if fs.isDir (fnRoot ++ [id]) then sweepEntry e (sweptBefore e fs id) id else sweptAll e fs

/-- The rest of the sweep is below other nodes. -/
theorem sweptAll_after (hdir : fs.isDir (fnRoot ++ [id]) = true) :
    ∃ post : List String, id ∉ post ∧ sweptAll e fs = post.foldl (sweepEntry e) (visited e fs id) := by
  obtain ⟨ids, post, hsplit, hids⟩ := List.eq_append_cons_of_mem (FileTree.mem_children.2 (FileTree.present_of_isDir hdir))
  have hnodup := fs.nodup_children fnRoot
  rw [hsplit, List.nodup_append] at hnodup
  refine ⟨post, (List.nodup_cons.1 hnodup.2.1).1, ?_⟩
  rw [sweptAll, visited, if_pos hdir, sweptBefore, hsplit, takeWhile_ne_append hids, List.foldl_append, List.foldl_cons]

theorem within_visited (e : Env) (fs : FileTree) (id : String) : (visited e fs id).Within fs := by
  unfold visited
  split_ifs
  · exact (within_foldl e _ fs).trans (within_sweepEntry e _ id)
  · exact within_sweptAll e fs

theorem sweptAll_within_visited (e : Env) (fs : FileTree) (id : String) : (sweptAll e fs).Within (visited e fs id) := by
  by_cases hdir : fs.isDir (fnRoot ++ [id]) = true
  · obtain ⟨post, -, heq⟩ := @sweptAll_after e fs id hdir
    rw [heq]
    exact within_foldl e post _
  · rw [visited, if_neg hdir]
    exact (sweptAll e fs).within_refl

theorem get_sweptAll_visited (hdir : fs.isDir (fnRoot ++ [id]) = true) (q : FilePath) :
    (sweptAll e fs).get (fnRoot ++ [id] ++ q) = (visited e fs id).get (fnRoot ++ [id] ++ q) := by
  obtain ⟨post, hpost, heq⟩ := @sweptAll_after e fs id hdir
  rw [heq]
  exact get_foldl_sweepEntry (.inl rfl) hpost q

/-- A node of the work directory that is to be removed. -/
def toSweep (fs : FileTree) (id : String) : Bool :=
  fs.isDir (fnRoot ++ [id]) && fs.present (fnRoot ++ [id] ++ ["remove"])

theorem stays_iff : Stays fs id ↔ toSweep fs id = false := by
  rw [Stays, toSweep, Bool.and_eq_false_iff]

theorem toSweep_sweptBefore (e : Env) (fs : FileTree) (id : String) : toSweep (sweptBefore e fs id) id = toSweep fs id := by
  have hself := @get_sweptBefore e fs id fnRoot (.inl rfl) []
  rw [List.append_nil] at hself
  rw [toSweep, FileTree.isDir, hself, FileTree.present, get_sweptBefore (.inl rfl)]
  rfl

theorem visited_stays (hstays : Stays fs id) : visited e fs id = diskAt e fs id := by
  have hstays' : Stays (sweptBefore e fs id) id := by
    rw [stays_iff, toSweep_sweptBefore, ← stays_iff]
    exact hstays
  rw [visited, diskAt, sweepEntry_stays hstays']

theorem visited_flagged (hflag : toSweep fs id = true) :
    visited e fs id = (removeNode e (sweptBefore e fs id) (fnRoot ++ [id])).2 := by
  have hdir := (Bool.and_eq_true_iff.1 hflag).1
  rw [visited, if_pos hdir, sweepEntry, if_pos]
  exact (toSweep_sweptBefore e fs id).trans hflag

/-- A flagged node whose removal fails is listed, as far as it is still there. -/
theorem findNode_fails (hflag : toSweep fs id = true) (hworks : e.works (.removeDirAll (fnRoot ++ [id])) = false) :
    findNode e fs id = some (pendingRemove (parseFnNode e.errorText (visited e fs id) (fnRoot ++ [id]))) := by
  have hid : (pendingRemove (parseFnNode e.errorText (visited e fs id) (fnRoot ++ [id]))).id = id := by
    rw [pendingRemove_id, parseFnNode_id]
    simp
  obtain ⟨hdir, hremove⟩ := Bool.and_eq_true_iff.1 hflag
  obtain ⟨scan, post, hfs, hd, hr, hseen, -, hscan⟩ := scanRoot_workDir e hdir
  have hfailed : (removeNode e (sweptBefore e fs id) (fnRoot ++ [id])).1 = false := by
    unfold removeNode
    rw [hworks]
    simp only [Bool.false_eq_true, if_false]
    split_ifs <;> rfl
  have hnode : pendingRemove (parseFnNode e.errorText (visited e fs id) (fnRoot ++ [id])) ∈
      (scanEntry e fnRoot scan id).nodes := by
    rw [scanEntry_workDir e hd hseen, hr, hremove, if_pos rfl, hfs]
    dsimp only
    rw [hfailed, ← visited_flagged hflag]
    exact List.mem_append_right _ (List.mem_singleton.2 rfl)
  have hpost := (nodes_foldl_scanEntry e fnRoot (scanEntry e fnRoot scan id) post).subset hnode
  rw [← hscan] at hpost
  exact findNode_eq_some.2 ⟨(nodes_scanRoot e _ pathModulesDir).subset hpost, hid⟩

theorem listed_workDir (hdir : fs.isDir (fnRoot ++ [id]) = true) : listed fs (nodeDir fs id) = true := by
  rw [nodeDir, if_pos hdir, listed, hdir, isStandardMagiskModule_fnRoot]
  rfl

theorem unlisted_nodeDir (h : listed fs (nodeDir fs id) = false) :
    fs.isDir (fnRoot ++ [id]) = false ∧ listed fs (activeDir id) = false := by
  have hdir : fs.isDir (fnRoot ++ [id]) = false := by
    rw [← Bool.not_eq_true]
    intro hdir
    nomatch h.symm.trans (listed_workDir hdir)
  rw [nodeDir, if_neg (Bool.eq_false_iff.1 hdir)] at h
  exact ⟨hdir, h⟩

/-- The scan returns a node for the id. -/
def survives (e : Env) (fs : FileTree) (id : String) : Bool :=
  listed fs (nodeDir fs id) && !(toSweep fs id && e.works (.removeDirAll (fnRoot ++ [id])))

theorem survives_iff : survives e fs id = true ↔ listed fs (nodeDir fs id) = true ∧
    (toSweep fs id = true → e.works (.removeDirAll (fnRoot ++ [id])) = false) := by
  rw [survives, Bool.and_eq_true, Bool.not_eq_true', Bool.and_eq_false_imp]

theorem findNode_survives (h : survives e fs id = true) : ∃ node, findNode e fs id = some node := by
  obtain ⟨hlisted, hkept⟩ := survives_iff.1 h
  cases hsweep : toSweep fs id with
  | false => exact ⟨_, findNode_stays (stays_iff.2 hsweep) hlisted⟩
  | true => exact ⟨_, findNode_fails hsweep (hkept hsweep)⟩

theorem survives_of_findNode {node : FnNode} (h : findNode e fs id = some node) : survives e fs id = true := by
  rw [survives, Bool.and_eq_true, Bool.not_eq_true']
  constructor
  · by_contra hlisted
    rw [Bool.not_eq_true] at hlisted
    obtain ⟨hdir, hmodule⟩ := unlisted_nodeDir hlisted
    rw [findNode_unlisted hdir hmodule] at h
    nomatch h
  · by_contra hswept
    rw [Bool.not_eq_false, Bool.and_eq_true] at hswept
    obtain ⟨hdir, hremove⟩ := Bool.and_eq_true_iff.1 hswept.1
    rw [findNode_swept hdir hremove hswept.2] at h
    nomatch h

theorem isMalformed_takenIn (e : Env) (fs : FileTree) (dir : FilePath) :
    (takenIn e fs dir).status.isMalformed = !wellFormed fs dir := by
  unfold takenIn
  dsimp only
  split_ifs
  · rw [isMalformed_pendingRemove, isMalformed_parseFnNode]
  · exact isMalformed_parseFnNode _ _ _

/-- A node is malformed if it is where the scan parses it. -/
theorem isMalformed_findNode (h : findNode e fs id = some node) :
    node.status.isMalformed = !wellFormed (visited e fs id) (nodeDir fs id) := by
  obtain ⟨hlisted, hkept⟩ := survives_iff.1 (survives_of_findNode h)
  cases hsweep : toSweep fs id with
  | false =>
    have hstays := stays_iff.2 hsweep
    rw [findNode_stays hstays hlisted] at h
    rw [visited_stays hstays, ← Option.some.inj h]
    exact isMalformed_takenIn _ _ _
  | true =>
    have hnode : nodeDir fs id = fnRoot ++ [id] := if_pos (Bool.and_eq_true_iff.1 hsweep).1
    rw [findNode_fails hsweep (hkept hsweep)] at h
    rw [hnode, ← Option.some.inj h, isMalformed_pendingRemove, isMalformed_parseFnNode]

theorem mem_children_of_survives (h : survives e fs id = true) :
    id ∈ fs.children fnRoot ++ fs.children pathModulesDir := by
  rw [survives, listed, Bool.and_eq_true, Bool.and_eq_true] at h
  have hdir := h.1.1
  rw [List.mem_append]
  unfold nodeDir at hdir
  split_ifs at hdir
  · exact .inl (FileTree.mem_children.2 (FileTree.present_of_isDir hdir))
  · exact .inr (FileTree.mem_children.2 (FileTree.present_of_isDir hdir))

theorem get_removeNode_fails (hworks : e.works (.removeDirAll dir) = false) : (removeNode e fs dir).2.get dir = fs.get dir := by
  unfold removeNode
  rw [hworks]
  simp only [Bool.false_eq_true, if_false]
  split_ifs
  · exact fs.get_removePartly_self dir e.kept
  · rfl

theorem isDir_sweptAll_swept (hsweep : toSweep fs id = true) (hworks : e.works (.removeDirAll (fnRoot ++ [id])) = true) :
    (sweptAll e fs).isDir (fnRoot ++ [id]) = false := by
  have hdir := (Bool.and_eq_true_iff.1 hsweep).1
  have hd := (Bool.and_eq_true_iff.1 ((toSweep_sweptBefore e fs id).trans hsweep)).1
  have hget := @get_sweptAll_visited e fs id hdir []
  rw [List.append_nil, visited_flagged hsweep, removeNode, if_pos hworks, FileTree.removeDirAll, if_pos hd] at hget
  rw [FileTree.isDir, hget]
  show ((sweptBefore e fs id).remove (fnRoot ++ [id])).isDir (fnRoot ++ [id]) = false
  rw [FileTree.isDir, FileTree.get_remove _ (by simp), if_pos (List.prefix_refl _)]
  rfl

theorem isDir_sweptAll_fails (hsweep : toSweep fs id = true) (hworks : e.works (.removeDirAll (fnRoot ++ [id])) = false) :
    (sweptAll e fs).isDir (fnRoot ++ [id]) = true := by
  have hdir := (Bool.and_eq_true_iff.1 hsweep).1
  have hd := (Bool.and_eq_true_iff.1 ((toSweep_sweptBefore e fs id).trans hsweep)).1
  have hget := @get_sweptAll_visited e fs id hdir []
  rw [List.append_nil, visited_flagged hsweep, get_removeNode_fails hworks] at hget
  rw [FileTree.isDir, hget]
  exact hd

theorem stays_sweptAll (hstays : Stays fs id) : Stays (sweptAll e fs) id := by
  have hself := @isDir_sweptAll e fs id hstays
  rcases hstays with hdir | hremove
  · exact .inl (hself.trans hdir)
  · right
    rw [FileTree.present, sweptAll, get_foldl_stays (.inr hremove)]
    exact hremove

/-! ### The second scan -/

/-- What the second scan has to find the same of an id. Removals may work or fail in each of the two. -/
def SameAgain (e e' : Env) (fs : FileTree) (id : String) : Prop :=
  let dir := fnRoot ++ [id]
  let first := visited e fs id
  let second := visited e' (sweptAll e fs) id
  if toSweep fs id then
    -- what was swept shadowed the module in the first scan only
    if e.works (.removeDirAll dir) then listed fs (activeDir id) = false
    else if first.present (dir ++ ["remove"]) then
      e'.works (.removeDirAll dir) = false ∧
        (first.isFile (dir ++ ["fn.prop"]) = true → second.isFile (dir ++ ["fn.prop"]) = true) ∧
        (wellFormed first dir = true → wellFormed second dir = true)
    -- the removal took the flag, so that what is left is a node like any other
    else wellFormed first dir = false
  else
    -- only its library can lie in a node that is swept
    listed fs (nodeDir fs id) = true → wellFormed first (nodeDir fs id) = true →
      wellFormed second (nodeDir fs id) = true

theorem sameAgain_swept (ht : e'.errorText = e.errorText) (hsweep : toSweep fs id = true) :
    findNode e fs id = findNode e' (sweptAll e fs) id ↔ SameAgain e e' fs id := by
  obtain ⟨hdir, hremove⟩ := Bool.and_eq_true_iff.1 hsweep
  have hwithin : (visited e' (sweptAll e fs) id).Within (visited e fs id) :=
    (sweptAll_within_visited e fs id).trans (within_visited e' _ id)
  unfold SameAgain
  dsimp only
  rw [if_pos hsweep]
  cases hworks : e.works (.removeDirAll (fnRoot ++ [id])) with
  | true =>
    rw [if_pos rfl, findNode_swept hdir hremove hworks]
    have hgone := isDir_sweptAll_swept hsweep hworks
    have hmodule := listed_sweptAll e fs id
    cases hlisted : listed fs (activeDir id) with
    | false => simp [findNode_unlisted hgone (hmodule.trans hlisted)]
    | true => simp [findNode_module hgone (hmodule.trans hlisted)]
  | false =>
    have hthere := isDir_sweptAll_fails hsweep hworks
    have hflag : (sweptAll e fs).present (fnRoot ++ [id] ++ ["remove"]) =
        (visited e fs id).present (fnRoot ++ [id] ++ ["remove"]) := by
      rw [FileTree.present, get_sweptAll_visited hdir, FileTree.present]
    rw [if_neg Bool.false_ne_true, findNode_fails hsweep hworks]
    split_ifs with hstill
    · have hsweep' : toSweep (sweptAll e fs) id = true := by
        rw [toSweep, hthere, hflag, hstill]
        rfl
      cases hworks' : e'.works (.removeDirAll (fnRoot ++ [id])) with
      | true => simp [findNode_swept hthere (hflag.trans hstill) hworks']
      | false =>
        rw [findNode_fails hsweep' hworks', ht, Option.some_inj, pendingRemove_again hwithin]
        simp
    · have hnone : (sweptAll e fs).present (fnRoot ++ [id] ++ ["remove"]) = false :=
        hflag.trans (Bool.eq_false_iff.2 hstill)
      have hstays : Stays (sweptAll e fs) id := .inr hnone
      have hnode : nodeDir (sweptAll e fs) id = fnRoot ++ [id] := if_pos hthere
      have hget : ∀ q, (visited e' (sweptAll e fs) id).get (fnRoot ++ [id] ++ q) =
          (visited e fs id).get (fnRoot ++ [id] ++ q) := fun q => by
        rw [visited_stays hstays, ← hnode, get_diskAt, hnode, get_sweptAll_visited hdir]
      have htaken : takenIn e' (visited e' (sweptAll e fs) id) (fnRoot ++ [id]) =
          parseFnNode e.errorText (visited e' (sweptAll e fs) id) (fnRoot ++ [id]) := by
        rw [takenIn, ht, if_neg]
        rw [FileTree.present, hget]
        exact hstill
      rw [findNode_stays hstays (listed_workDir hthere), ← visited_stays hstays, hnode, htaken, Option.some_inj,
        unflagged_again hget hwithin]

theorem sameAgain_stays (ht : e'.errorText = e.errorText) (hstays : Stays fs id) :
    findNode e fs id = findNode e' (sweptAll e fs) id ↔ SameAgain e e' fs id := by
  have hstays' := stays_sweptAll (e := e) hstays
  have hwithin : (visited e' (sweptAll e fs) id).Within (visited e fs id) :=
    (sweptAll_within_visited e fs id).trans (within_visited e' _ id)
  have hget : ∀ q, (sweptAll e fs).get (nodeDir fs id ++ q) = fs.get (nodeDir fs id ++ q) := get_sweptAll hstays
  have hsame : ∀ q, (visited e' (sweptAll e fs) id).get (nodeDir fs id ++ q) =
      (visited e fs id).get (nodeDir fs id ++ q) := fun q => by
    rw [visited_stays hstays', visited_stays hstays, get_diskAt, ← nodeDir_sweptAll hstays, get_diskAt,
      nodeDir_sweptAll hstays, hget]
  unfold SameAgain
  dsimp only
  rw [if_neg (Bool.eq_false_iff.1 (stays_iff.1 hstays))]
  cases hlisted : listed fs (nodeDir fs id) with
  | true =>
    have hlisted' : listed (sweptAll e fs) (nodeDir (sweptAll e fs) id) = true := by
      rw [nodeDir_sweptAll hstays, listed_congr hget]
      exact hlisted
    rw [findNode_stays hstays hlisted, findNode_stays hstays' hlisted', nodeDir_sweptAll hstays,
      ← visited_stays hstays, ← visited_stays hstays', Option.some_inj, takenIn_again hsame hwithin ht]
    simp
  | false =>
    obtain ⟨hdir, hmodule⟩ := unlisted_nodeDir hlisted
    have hdir' := (isDir_sweptAll (e := e) hstays).trans hdir
    rw [findNode_unlisted hdir hmodule, findNode_unlisted hdir' ((listed_sweptAll e fs id).trans hmodule)]
    simp

/-- The next scan: the removals have outcomes of their own. -/
def Env.again (e : Env) (works : Op → Bool) (kept : FilePath → Bool) : Env := { e with works, kept }

/-- A node that is to be removed, and a module of the same id. -/
def shadowedTree : FileTree :=
  FileTree.ofFiles [(fnRoot ++ ["a", "remove"], ""), (activeDir "a" ++ ["fn.prop"], "id=a\nname=A\nversion=1\nversionCode=1"),
    (activeDir "a" ++ ["service.sh"], "")]

end OnyxZygisk.Daemon
