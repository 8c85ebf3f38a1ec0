import OnyxZygisk.Daemon.FnTwice
import OnyxZygisk.Lib.Words
import OnyxZygisk.WebUi.FnSwitch
import OnyxZygisk.WebUi.Status

/-!
# The status script's node rows

The script prints a row for each directory with an `fn.prop`, under the id that the first `id=` line gives; the
status is taken from two flags. The daemon goes by the name of the directory, by four flags and by whether the
descriptor is in order. `fn_rows_agree` says when the WebUI has the daemon's list of nodes.
-/

namespace OnyxZygisk.WebUi

open Daemon

/-- What the script prints of a node, and the directory it has it from. -/
structure FnRow where
  dir : FilePath
  id : String
  nm : String
  ver : String
  tr : String
  sc : String
  st : String

variable {e : Env} {fs : FileTree} {id : String} {dir root : FilePath} {row r : FnRow} {rows rs : List FnRow}

/-! ### The script -/

/-- `F|$id|$nm|$ver|$tr|$sc|$st` -/
def FnRow.line (row : FnRow) : String :=
  "|".intercalate ["F", row.id, row.nm, row.ver, row.tr, row.sc, row.st]

/-- The section of the nodes. -/
def fnSection (rows : List FnRow) : String := Words.echoed ("@@fn" :: rows.map FnRow.line)

/-- `$st`: a `remove` flag counts more than a `disable` flag. -/
def shownStatus (fs : FileTree) (d : FilePath) : String :=
  if fs.isFile (d ++ ["remove"]) then "pending_remove"
  else if fs.isFile (d ++ ["disable"]) then "disabled" else "enabled"

/-- What the body of the loop reads of a directory with a descriptor. -/
def fnRow (fs : FileTree) (d : FilePath) : Option FnRow :=
  if !fs.isDir d then none
  else (fs.read (d ++ ["fn.prop"])).map fun content => {
    dir := d
    id := firstValue "id" content
    nm := firstValue "name" content
    ver := firstValue "version" content
    tr := firstValue "trigger" content
    sc := firstValue "scope" content
    st := shownStatus fs d }

/-- The rows the loop has printed, and its list of their ids. -/
structure FnPass where
  fids : String
  rows : List FnRow

def FnPass.has (pass : FnPass) (id : String) : Bool := Text.contains (" " ++ id ++ " ") (" " ++ pass.fids ++ " ")

def printRow (pass : FnPass) (row : FnRow) : FnPass :=
  if pass.has row.id then pass else { fids := pass.fids ++ " " ++ row.id, rows := pass.rows ++ [row] }

/-- What the loop comes to in one of the two roots. -/
def candidates (fs : FileTree) (root : FilePath) : List FnRow := (glob fs root).filterMap (fnRow fs)

def fnRows (fs : FileTree) : List FnRow :=
  ((candidates fs fnRoot ++ candidates fs pathModulesDir).foldl printRow ⟨"", []⟩).rows

theorem mem_candidates : row ∈ candidates fs root ↔
    ∃ n : String, n.toList.head? ≠ some '.' ∧ fnRow fs (root ++ [n]) = some row := by
  rw [candidates, List.mem_filterMap]
  constructor
  · rintro ⟨d, hd, hrow⟩
    obtain ⟨n, -, hdot, rfl⟩ := mem_glob.1 hd
    exact ⟨n, hdot, hrow⟩
  · rintro ⟨n, hdot, hrow⟩
    refine ⟨_, mem_glob.2 ⟨n, ?_, hdot, rfl⟩, hrow⟩
    unfold fnRow at hrow
    by_cases hdir : fs.isDir (root ++ [n]) = true
    · exact FileTree.mem_children.2 (FileTree.present_of_isDir hdir)
    · rw [Bool.not_eq_true] at hdir
      rw [hdir] at hrow
      nomatch hrow

theorem fnRow_eq_some (h : fnRow fs dir = some row) : row.dir = dir ∧ row.st = shownStatus fs dir ∧
    fs.isDir dir = true ∧ fs.isFile (dir ++ ["fn.prop"]) = true := by
  unfold fnRow at h
  by_cases hdir : fs.isDir dir = true
  · rw [hdir, Bool.not_true, if_neg Bool.false_ne_true, Option.map_eq_some_iff] at h
    obtain ⟨content, hread, rfl⟩ := h
    refine ⟨rfl, rfl, hdir, ?_⟩
    by_contra hprop
    rw [read_eq_none (Bool.eq_false_iff.2 hprop)] at hread
    nomatch hread
  · rw [Bool.not_eq_true] at hdir
    rw [hdir] at h
    nomatch h

theorem exists_fnRow (hdir : fs.isDir dir = true) (hprop : fs.isFile (dir ++ ["fn.prop"]) = true) :
    ∃ row, fnRow fs dir = some row := by
  obtain ⟨content, hread⟩ := FileTree.read_of_isFile hprop
  rw [fnRow, hdir, hread]
  exact ⟨_, rfl⟩

/-! ### What is printed -/

variable {pass : FnPass}

theorem has_printRow (row : FnRow) (h : pass.has id = true) : (printRow pass row).has id = true := by
  unfold printRow
  split_ifs
  · exact h
  · unfold FnPass.has Text.contains at *
    rw [decide_eq_true_eq] at *
    refine h.trans ?_
    refine List.IsPrefix.isInfix ⟨(row.id ++ " ").toList, ?_⟩
    simp

theorem has_printed (pass : FnPass) (row : FnRow) : (printRow pass row).has row.id = true := by
  unfold printRow
  split_ifs with h
  · exact h
  · rw [FnPass.has, Text.contains, decide_eq_true_eq]
    refine List.IsSuffix.isInfix ⟨(" " ++ pass.fids).toList, ?_⟩
    simp

theorem has_foldl (h : pass.has id = true) (rows : List FnRow) : (rows.foldl printRow pass).has id = true := by
  induction rows generalizing pass with
  | nil => exact h
  | cons row rows ih => exact ih (has_printRow row h)

theorem has_of_mem (hr : r ∈ rows) : (rows.foldl printRow pass).has r.id = true := by
  induction rows generalizing pass with
  | nil => exact absurd hr List.not_mem_nil
  | cons row rows ih =>
    rcases List.mem_cons.1 hr with rfl | hr
    · exact has_foldl (has_printed pass r) rows
    · exact ih hr

theorem mem_printRow (h : r ∈ (printRow pass row).rows) : r ∈ pass.rows ∨ r = row ∧ pass.has row.id = false := by
  unfold printRow at h
  split_ifs at h with hhas
  · exact .inl h
  · rcases List.mem_append.1 h with h | h
    · exact .inl h
    · exact .inr ⟨List.mem_singleton.1 h, Bool.eq_false_iff.2 hhas⟩

/-- What is printed of a list was not there before. -/
theorem mem_foldl_printRow (h : r ∈ (rows.foldl printRow pass).rows) :
    r ∈ pass.rows ∨ r ∈ rows ∧ pass.has r.id = false := by
  induction rows generalizing pass with
  | nil => exact .inl h
  | cons row rows ih =>
    rcases ih h with h | ⟨hmem, hnew⟩
    · rcases mem_printRow h with h | ⟨rfl, hnew⟩
      · exact .inl h
      · exact .inr ⟨List.mem_cons_self, hnew⟩
    · refine .inr ⟨List.mem_cons_of_mem _ hmem, ?_⟩
      rw [Bool.eq_false_iff] at hnew ⊢
      exact fun hhas => hnew (has_printRow row hhas)

theorem stays_printed (h : r ∈ pass.rows) (rows : List FnRow) : r ∈ (rows.foldl printRow pass).rows := by
  induction rows generalizing pass with
  | nil => exact h
  | cons row rows ih =>
    apply ih
    unfold printRow
    split_ifs
    · exact h
    · exact List.mem_append_left _ h

/-- The list of ids is that of the rows. -/
def FnPass.Listed (pass : FnPass) : Prop := pass.fids = Words.spaced (pass.rows.map FnRow.id)

theorem listed_printRow (h : pass.Listed) (row : FnRow) : (printRow pass row).Listed := by
  unfold printRow
  split_ifs
  · exact h
  · unfold FnPass.Listed at *
    rw [List.map_append, List.map_singleton, Words.spaced_concat, ← h]

theorem listed_foldl (h : pass.Listed) (rows : List FnRow) : (rows.foldl printRow pass).Listed := by
  induction rows generalizing pass with
  | nil => exact h
  | cons row rows ih => exact ih (listed_printRow h row)

/-- A row is printed if its id is no word of another's. -/
theorem prints (hlisted : pass.Listed) (hr : r ∈ rows) (hne : r.id ≠ "") (hblank : ' ' ∉ r.id.toList)
    (hpass : ∀ s ∈ pass.rows, r.id ∉ Text.split ' ' s.id) (hrows : ∀ s ∈ rows, r.id ∈ Text.split ' ' s.id → s = r) :
    r ∈ (rows.foldl printRow pass).rows := by
  induction rows generalizing pass with
  | nil => exact absurd hr List.not_mem_nil
  | cons row rows ih =>
    rw [List.forall_mem_cons] at hrows
    by_cases hsame : row = r
    · subst hsame
      have hnew : ¬ pass.has row.id = true := by
        rw [FnPass.has, hlisted, Words.contains_spaced_iff _ hblank]
        rintro (hnil | ⟨t, ht, hword⟩)
        · exact hne hnil
        · obtain ⟨s, hs, rfl⟩ := List.mem_map.1 ht
          exact hpass s hs hword
      rw [List.foldl_cons]
      refine stays_printed ?_ rows
      unfold printRow
      rw [if_neg hnew]
      exact List.mem_append_right _ (List.mem_singleton_self row)
    · apply ih (listed_printRow hlisted row) ((List.mem_cons.1 hr).resolve_left (Ne.symm hsame))
      · intro s hs hword
        rcases mem_printRow hs with hs | ⟨rfl, -⟩
        · exact hpass s hs hword
        · exact hsame (hrows.1 hword)
      · exact hrows.2

/-- The ids and status are those of the script's loop without the other fields. -/
theorem statusScript_eq (fs : FileTree) : statusScript fs = (fnRows fs).map fun row => (row.id, row.st) := by
  have hstep : ∀ (pass : FnPass) (d : FilePath),
      listNode fs ⟨pass.fids, pass.rows.map fun row => (row.id, row.st)⟩ d =
        let pass' := (fnRow fs d).elim pass (printRow pass)
        ⟨pass'.fids, pass'.rows.map fun row => (row.id, row.st)⟩ := by
    intro pass d
    unfold listNode fnRow
    by_cases hdir : (!fs.isDir d) = true
    · rw [if_pos hdir, if_pos hdir]
      rfl
    · rw [if_neg hdir, if_neg hdir]
      cases hread : fs.read (d ++ ["fn.prop"]) with
      | none => rfl
      | some content =>
        dsimp only [Option.map_some, Option.elim]
        unfold printRow FnPass.has
        dsimp only
        by_cases hhas : Text.contains (" " ++ firstValue "id" content ++ " ") (" " ++ pass.fids ++ " ") = true
        · rw [if_pos hhas, if_pos hhas]
        · rw [if_neg hhas, if_neg hhas, List.map_append]
          rfl
  have hfold : ∀ (ds : List FilePath) (pass : FnPass),
      ds.foldl (listNode fs) ⟨pass.fids, pass.rows.map fun row => (row.id, row.st)⟩ =
        let pass' := (ds.filterMap (fnRow fs)).foldl printRow pass
        ⟨pass'.fids, pass'.rows.map fun row => (row.id, row.st)⟩ := by
    intro ds
    induction ds with
    | nil => exact fun pass => rfl
    | cons d ds ih =>
      intro pass
      rw [List.foldl_cons, hstep]
      dsimp only
      cases hrow : fnRow fs d with
      | none => rw [List.filterMap_cons_none hrow, Option.elim_none, ih]
      | some row => rw [List.filterMap_cons_some hrow, Option.elim_some, ih, List.foldl_cons]
  have hrun := hfold (glob fs fnRoot ++ glob fs pathModulesDir) ⟨"", []⟩
  rw [List.filterMap_append] at hrun
  exact congrArg FnList.lines hrun

/-! ### The rows are read -/

/-- What the descriptor puts into a row. -/
def FnRow.values (row : FnRow) : List String := [row.id, row.nm, row.ver, row.tr, row.sc]

/-- No value has a separator. -/
def FnRow.Unseparated (row : FnRow) : Prop := ∀ value ∈ row.values, '|' ∉ value.toList

theorem not_mem_shownStatus {c : Char} (hc : c ∉ "pending_remove".toList ∧ c ∉ "disabled".toList ∧
    c ∉ "enabled".toList) (fs : FileTree) (d : FilePath) : c ∉ (shownStatus fs d).toList := by
  unfold shownStatus
  split_ifs
  · exact hc.1
  · exact hc.2.1
  · exact hc.2.2

theorem newline_not_mem_fnRow (h : fnRow fs dir = some row) : '\n' ∉ row.line.toList := by
  have hst := (fnRow_eq_some h).2.1
  have hvalues : ∀ value ∈ row.values, '\n' ∉ value.toList := by
    unfold fnRow at h
    split_ifs at h
    obtain ⟨content, -, rfl⟩ := Option.map_eq_some_iff.1 h
    simp only [FnRow.values, List.forall_mem_cons]
    exact ⟨newline_not_mem_firstValue _ _, newline_not_mem_firstValue _ _, newline_not_mem_firstValue _ _,
      newline_not_mem_firstValue _ _, newline_not_mem_firstValue _ _, fun value hvalue => absurd hvalue List.not_mem_nil⟩
  intro hmem
  rcases @Text.mem_intercalate '|' _ _ hmem with hsep | ⟨value, hvalue, hnl⟩
  · exact absurd hsep (by decide)
  · change value ∈ "F" :: (row.values ++ [row.st]) at hvalue
    rw [List.mem_cons, List.mem_append, List.mem_singleton] at hvalue
    rcases hvalue with rfl | hvalue | rfl
    · exact absurd hnl (by decide)
    · exact hvalues value hvalue hnl
    · rw [hst] at hnl
      exact not_mem_shownStatus (by decide) fs dir hnl

theorem prefixed_fnRow (row : FnRow) : "F|".toList <+: row.line.toList := by
  rw [FnRow.line, String.intercalate_cons_cons, String.toList_append]
  exact List.prefix_append _ _

theorem fnRow_ne_marker {marker : String} (hmarker : marker.toList.head? ≠ some 'F') (row : FnRow) :
    row.line ≠ marker := by
  rintro rfl
  obtain ⟨rest, hrest⟩ := prefixed_fnRow row
  rw [← hrest] at hmarker
  exact hmarker rfl

theorem readLine_fnRow {scan : StatusScan} (hsect : scan.sect = .fn) (row : FnRow) :
    readLine scan row.line = { scan with fns := scan.fns ++ [fnNodeInfo row.line] } := by
  rw [readLine, if_neg (fnRow_ne_marker (by decide) row), if_neg (fnRow_ne_marker (by decide) row),
    if_neg (fnRow_ne_marker (by decide) row), hsect]
  exact if_pos (prefixed_fnRow row)

theorem readLine_fnRows (scan : StatusScan) (hsect : scan.sect = .fn) (rows : List FnRow) :
    (rows.map FnRow.line).foldl readLine scan =
      { scan with fns := scan.fns ++ rows.map fun row => fnNodeInfo row.line } := by
  induction rows generalizing scan with
  | nil => simp
  | cons row rows ih =>
    rw [List.map_cons, List.foldl_cons, readLine_fnRow hsect,
      ih { scan with fns := scan.fns ++ [fnNodeInfo row.line] } hsect, List.append_assoc]
    rfl

/-- The WebUI reads a node from each row. -/
theorem fns_parseStatus (h : ∀ row ∈ rows, '\n' ∉ row.line.toList) :
    (parseStatus (fnSection rows)).fns = rows.map fun row => fnNodeInfo row.line := by
  have hlines : ∀ line ∈ "@@fn" :: rows.map FnRow.line, '\n' ∉ line.toList := by
    rw [List.forall_mem_cons, List.forall_mem_map]
    exact ⟨by decide, h⟩
  rw [parseStatus, fnSection, Words.split_echoed hlines, List.cons_append, List.foldl_cons, List.foldl_append]
  dsimp only
  rw [readLine_fnRows _ rfl]
  rfl

/-- Without a separator the WebUI reads what the script has put in. -/
theorem fnNodeInfo_line (hst : '|' ∉ row.st.toList) (h : row.Unseparated) :
    (fnNodeInfo row.line).id = row.id ∧ (fnNodeInfo row.line).status = row.st := by
  simp only [FnRow.Unseparated, FnRow.values, List.forall_mem_cons] at h
  obtain ⟨hid, hnm, hver, htr, hsc, -⟩ := h
  have hF : Text.split '|' "F" = ["F"] := Text.split_single (by decide)
  have hparts : Text.split '|' row.line = ["F", row.id, row.nm, row.ver, row.tr, row.sc, row.st] := by
    rw [FnRow.line]
    refine (Words.split_fields '|' (List.cons_ne_nil _ _)).trans ?_
    simp only [List.flatMap_cons, List.flatMap_nil, hF, Text.split_single hid, Text.split_single hnm,
      Text.split_single hver, Text.split_single htr, Text.split_single hsc, Text.split_single hst,
      List.cons_append, List.nil_append]
  rw [fnNodeInfo, hparts]
  exact ⟨rfl, rfl⟩

/-- The ids and status the WebUI has of the directories that are left after the scan. -/
def shownNodes (e : Env) (fs : FileTree) : List (String × String) :=
  (((fnRows fs).zip (parseStatus (fnSection (fnRows fs))).fns).filter fun (row, _) =>
    (scanFnNodes e fs).2.isDir row.dir).map fun (_, info) => (info.id, info.status)

/-- The ids and status of the daemon's list. -/
def wireNodes (e : Env) (fs : FileTree) : List (String × String) :=
  (scanFnNodes e fs).1.map fun node => (node.id, node.status.asWireStr)

theorem mem_fnRows (h : row ∈ fnRows fs) : row ∈ candidates fs fnRoot ∨ row ∈ candidates fs pathModulesDir ∧
    ∀ r ∈ candidates fs fnRoot, r.id ≠ row.id := by
  rw [fnRows, List.foldl_append] at h
  rcases mem_foldl_printRow h with h | ⟨h, hnew⟩
  · rcases mem_foldl_printRow h with h | ⟨h, -⟩
    · exact absurd h List.not_mem_nil
    · exact .inl h
  · refine .inr ⟨h, fun r hr hid => ?_⟩
    have hhas := @has_of_mem r _ ⟨"", []⟩ hr
    rw [hid, hnew] at hhas
    exact Bool.false_ne_true hhas

theorem mem_shownNodes {pair : String × String} : pair ∈ shownNodes e fs ↔
    ∃ row ∈ fnRows fs, (sweptAll e fs).isDir row.dir = true ∧
      pair = ((fnNodeInfo row.line).id, (fnNodeInfo row.line).status) := by
  have hlines : ∀ row ∈ fnRows fs, '\n' ∉ row.line.toList := by
    intro row hrow
    rcases mem_fnRows hrow with h | ⟨h, -⟩
    · obtain ⟨n, -, h⟩ := mem_candidates.1 h
      exact newline_not_mem_fnRow h
    · obtain ⟨n, -, h⟩ := mem_candidates.1 h
      exact newline_not_mem_fnRow h
  rw [shownNodes, fns_parseStatus hlines, scanFnNodes_fs, ← List.map_prod_left_eq_zip, List.mem_map]
  constructor
  · rintro ⟨⟨row, info⟩, hmem, rfl⟩
    obtain ⟨hmem, hdir⟩ := List.mem_filter.1 hmem
    obtain ⟨row', hrow, heq⟩ := List.mem_map.1 hmem
    obtain ⟨rfl, rfl⟩ := Prod.mk.inj heq
    exact ⟨row', hrow, hdir, rfl⟩
  · rintro ⟨row, hrow, hdir, rfl⟩
    exact ⟨(row, fnNodeInfo row.line), List.mem_filter.2 ⟨List.mem_map.2 ⟨row, hrow, rfl⟩, hdir⟩, rfl⟩

/-! ### What survives -/

theorem status_parseFnNode {t : String} (h : wellFormed fs dir = true) :
    (parseFnNode t fs dir).status = Daemon.flagStatus fs dir := by
  cases hdesc : descriptor t fs dir with
  | error reason =>
    rw [wellFormed_of_error hdesc] at h
    nomatch h
  | ok node =>
    rw [wellFormed_of_ok hdesc] at h
    rw [parseFnNode_of_ok hdesc, if_pos h]

theorem status_pendingRemove {node : FnNode} (h : node.status.isMalformed = false) :
    (pendingRemove node).status = .pendingRemove := by
  rw [pendingRemove, if_neg (Bool.eq_false_iff.1 h)]

theorem status_takenIn_wellFormed (h : wellFormed fs dir = true) : (takenIn e fs dir).status = flagStatus fs dir := by
  unfold takenIn flagStatus
  dsimp only
  split_ifs with hremove hupdate hdisable
  · apply status_pendingRemove
    rw [isMalformed_parseFnNode, h]
    rfl
  · rw [status_parseFnNode h, Daemon.flagStatus, if_pos hupdate]
  · rw [status_parseFnNode h, Daemon.flagStatus, if_neg hupdate, if_pos hdisable]
  · rw [status_parseFnNode h, Daemon.flagStatus, if_neg hupdate, if_neg hdisable]

theorem isValidId_of_wellFormed (h : wellFormed fs dir = true) : isValidId (dir.getLast?.getD "") = true := by
  cases hdesc : descriptor "" fs dir with
  | error reason =>
    rw [wellFormed_of_error hdesc] at h
    nomatch h
  | ok node =>
    obtain ⟨content, -, hdesc⟩ := of_descriptor_ok hdesc
    exact (describe_ok hdesc).2.2.1

/-- The status of a node that is well formed when the scan comes to it is that of its flags. -/
theorem findNode_status {node : FnNode} (h : findNode e fs id = some node)
    (hgood : wellFormed (visited e fs id) (nodeDir fs id) = true) : node.status = flagStatus fs (nodeDir fs id) := by
  have hplain := isMalformed_findNode h
  rw [hgood, Bool.not_true] at hplain
  obtain ⟨hlisted, hkept⟩ := survives_iff.1 (survives_of_findNode h)
  cases hsweep : toSweep fs id with
  | false =>
    have hstays := stays_iff.2 hsweep
    rw [visited_stays hstays] at hgood
    rw [findNode_stays hstays hlisted] at h
    rw [← Option.some.inj h, status_takenIn_wellFormed hgood, flagStatus, FileTree.present, FileTree.present,
      FileTree.present, get_diskAt, get_diskAt, get_diskAt]
    rfl
  | true =>
    obtain ⟨hdir, hremove⟩ := Bool.and_eq_true_iff.1 hsweep
    have hnode : nodeDir fs id = fnRoot ++ [id] := if_pos hdir
    rw [findNode_fails hsweep (hkept hsweep)] at h
    rw [← Option.some.inj h] at hplain ⊢
    rw [isMalformed_pendingRemove] at hplain
    rw [status_pendingRemove hplain, flagStatus, hnode, hremove, if_pos rfl]

theorem isDir_survives (h : survives e fs id = true) : (sweptAll e fs).isDir (nodeDir fs id) = true := by
  obtain ⟨hlisted, hkept⟩ := survives_iff.1 h
  cases hsweep : toSweep fs id with
  | false =>
    have hget := @get_sweptAll e fs id (stays_iff.2 hsweep) []
    rw [List.append_nil] at hget
    rw [listed, Bool.and_eq_true] at hlisted
    rw [FileTree.isDir, hget]
    exact hlisted.1
  | true =>
    rw [nodeDir, if_pos (Bool.and_eq_true_iff.1 hsweep).1]
    exact isDir_sweptAll_fails hsweep (hkept hsweep)

/-! ### When the lists agree -/

/-- What the script goes by is what the directory is called. -/
structure Named (e : Env) (fs : FileTree) : Prop where
  id : ∀ row ∈ candidates fs fnRoot ++ candidates fs pathModulesDir, row.id = row.dir.getLast?.getD ""
  word : ∀ row ∈ candidates fs fnRoot ++ candidates fs pathModulesDir, ∀ id, survives e fs id = true →
    id ∈ Text.split ' ' row.id → row.id = id

/-- The script's rows say what they are made of. -/
structure Legible (e : Env) (fs : FileTree) : Prop extends Named e fs where
  unseparated : ∀ id row, survives e fs id = true → fnRow fs (nodeDir fs id) = some row → row.Unseparated

/-- The daemon finds nothing wrong with a node, and its flags are files where they count. -/
structure InOrder (e : Env) (fs : FileTree) (id : String) : Prop where
  wellFormed : wellFormed (visited e fs id) (nodeDir fs id) = true
  remove : fs.present (nodeDir fs id ++ ["remove"]) = true → fs.isFile (nodeDir fs id ++ ["remove"]) = true
  noUpdate : fs.present (nodeDir fs id ++ ["remove"]) = false → fs.present (nodeDir fs id ++ ["update"]) = false
  disable : fs.present (nodeDir fs id ++ ["remove"]) = false → fs.present (nodeDir fs id ++ ["disable"]) = true →
    fs.isFile (nodeDir fs id ++ ["disable"]) = true

theorem asWireStr_iff : (flagStatus fs dir).asWireStr = shownStatus fs dir ↔
    (fs.present (dir ++ ["remove"]) = true → fs.isFile (dir ++ ["remove"]) = true) ∧
      (fs.present (dir ++ ["remove"]) = false → fs.present (dir ++ ["update"]) = false) ∧
      (fs.present (dir ++ ["remove"]) = false → fs.present (dir ++ ["disable"]) = true →
        fs.isFile (dir ++ ["disable"]) = true) := by
  have hremove : fs.isFile (dir ++ ["remove"]) = true → fs.present (dir ++ ["remove"]) = true :=
    FileTree.present_of_isFile
  have hdisable : fs.isFile (dir ++ ["disable"]) = true → fs.present (dir ++ ["disable"]) = true :=
    FileTree.present_of_isFile
  unfold flagStatus shownStatus
  revert hremove hdisable
  cases fs.present (dir ++ ["remove"]) <;> cases fs.isFile (dir ++ ["remove"]) <;>
    cases fs.present (dir ++ ["update"]) <;> cases fs.present (dir ++ ["disable"]) <;>
    cases fs.isFile (dir ++ ["disable"]) <;> decide

/-- The script has no word for a malformed node. -/
theorem not_isMalformed_of_shown {status : FnStatus} (h : status.asWireStr = shownStatus fs dir) :
    status.isMalformed = false := by
  cases status with
  | malformed reason =>
    have hhead := congrArg (fun s => s.toList.head?) h
    simp only [FnStatus.asWireStr, String.toList_append] at hhead
    unfold shownStatus at hhead
    split_ifs at hhead <;> exact absurd hhead (by simp)
  | _ => rfl

theorem nodeDir_of_isDir (h : fs.isDir (fnRoot ++ [id]) = true) : nodeDir fs id = fnRoot ++ [id] := if_pos h

theorem nodeDir_of_not_isDir (h : fs.isDir (fnRoot ++ [id]) = false) : nodeDir fs id = activeDir id :=
  if_neg (Bool.eq_false_iff.1 h)

/-- A row goes by the name of its directory. -/
theorem id_of_named {n : String} (hnamed : Named e fs)
    (hr : row ∈ candidates fs fnRoot ++ candidates fs pathModulesDir) (h : fnRow fs (root ++ [n]) = some row) :
    row.id = n := by
  rw [hnamed.id row hr, (fnRow_eq_some h).1, List.getLast?_concat]
  rfl

/-- Among the rows of a root an id is a word of its own row only. -/
theorem eq_of_word (hnamed : Named e fs) (hsub : candidates fs root ⊆ candidates fs fnRoot ++ candidates fs pathModulesDir)
    (hsurvives : survives e fs id = true) (hrow : fnRow fs (root ++ [id]) = some row) (hr : r ∈ candidates fs root)
    (hword : id ∈ Text.split ' ' r.id) : r = row := by
  obtain ⟨n, -, h⟩ := mem_candidates.1 hr
  have hn : n = id := by rw [← id_of_named hnamed (hsub hr) h, hnamed.word r (hsub hr) id hsurvives hword]
  rw [hn, hrow] at h
  exact (Option.some.inj h).symm

section Agree

variable (hprop : ∀ id, fs.isDir (fnRoot ++ [id]) = true → fs.isFile (fnRoot ++ [id] ++ ["fn.prop"]) = true)

include hprop

/-- What is printed of a directory that is left is the row of a node the scan returns. -/
theorem survives_of_printed (hnamed : Named e fs) (hrow : row ∈ fnRows fs)
    (hleft : (sweptAll e fs).isDir row.dir = true) :
    survives e fs row.id = true ∧ fnRow fs (nodeDir fs row.id) = some row := by
  rcases mem_fnRows hrow with hmem | ⟨hmem, hnew⟩
  · obtain ⟨n, -, h⟩ := mem_candidates.1 hmem
    obtain ⟨hdir, -, hisDir, -⟩ := fnRow_eq_some h
    have hid : row.id = n := id_of_named hnamed (List.mem_append_left _ hmem) h
    rw [hid, nodeDir_of_isDir hisDir]
    refine ⟨?_, h⟩
    rw [survives, listed_workDir hisDir, Bool.true_and, Bool.not_eq_true']
    by_contra hswept
    rw [Bool.not_eq_false, Bool.and_eq_true] at hswept
    rw [hdir, isDir_sweptAll_swept hswept.1 hswept.2] at hleft
    simp at hleft
  · obtain ⟨n, hdot, h⟩ := mem_candidates.1 hmem
    obtain ⟨hdir, -, hisDir, hfile⟩ := fnRow_eq_some h
    have hid : row.id = n := id_of_named hnamed (List.mem_append_right _ hmem) h
    -- a directory of the work directory would have its row first
    have hshadow : fs.isDir (fnRoot ++ [n]) = false := by
      by_contra hwork
      rw [Bool.not_eq_false] at hwork
      obtain ⟨r, hr⟩ := exists_fnRow hwork (hprop n hwork)
      have hfirst := mem_candidates.2 ⟨n, hdot, hr⟩
      apply hnew r hfirst
      rw [hid]
      exact id_of_named hnamed (List.mem_append_left _ hfirst) hr
    rw [hid, nodeDir_of_not_isDir hshadow]
    refine ⟨?_, h⟩
    have hlisted : listed fs (activeDir n) = true := by
      rw [listed, activeDir, hisDir, hfile, Bool.or_true]
      rfl
    rw [survives, nodeDir_of_not_isDir hshadow, hlisted, toSweep, hshadow]
    rfl

theorem printed_of_survives (hnamed : Named e fs) (hvalid : isValidId id = true) (h : survives e fs id = true) :
    ∃ row ∈ fnRows fs, fnRow fs (nodeDir fs id) = some row ∧ row.id = id := by
  have hchar : ∀ c ∈ id.toList, c ≠ ' ' ∧ c ≠ '.' := by
    intro c hc
    simp only [isValidId, Bool.and_eq_true, List.all_eq_true] at hvalid
    have hok := hvalid.2 c hc
    constructor
    · rintro rfl
      exact absurd hok (by decide)
    · rintro rfl
      exact absurd hok (by decide)
  have hne : id ≠ "" := by
    rintro rfl
    exact absurd hvalid (by decide)
  have hblank : ' ' ∉ id.toList := fun hc => (hchar _ hc).1 rfl
  have hdot : id.toList.head? ≠ some '.' := fun hc => (hchar _ (List.mem_of_head? hc)).2 rfl
  have hlisted : (FnPass.mk "" []).Listed := rfl
  rw [fnRows, List.foldl_append]
  cases hwork : fs.isDir (fnRoot ++ [id]) with
  | true =>
    obtain ⟨row, hrow⟩ := exists_fnRow hwork (hprop id hwork)
    have hmem := mem_candidates.2 ⟨id, hdot, hrow⟩
    have hid := id_of_named hnamed (List.mem_append_left _ hmem) hrow
    refine ⟨row, stays_printed (prints hlisted hmem ?_ ?_ ?_ ?_) _, ?_, hid⟩
    · rwa [hid]
    · rwa [hid]
    · exact fun s hs => absurd hs List.not_mem_nil
    · rw [hid]
      exact fun s hs hword => eq_of_word hnamed (List.subset_append_left _ _) h hrow hs hword
    · rwa [nodeDir_of_isDir hwork]
  | false =>
    have hnode := nodeDir_of_not_isDir hwork
    have hmodule : fs.isDir (activeDir id) = true ∧ fs.isFile (activeDir id ++ ["fn.prop"]) = true := by
      rw [survives, hnode, Bool.and_eq_true, listed, activeDir, isStandardMagiskModule_active, Bool.not_true,
        Bool.false_or, Bool.and_eq_true] at h
      exact h.1
    obtain ⟨row, hrow⟩ := exists_fnRow hmodule.1 hmodule.2
    have hmem := mem_candidates.2 ⟨id, hdot, hrow⟩
    have hid := id_of_named hnamed (List.mem_append_right _ hmem) hrow
    refine ⟨row, prints (listed_foldl hlisted _) hmem ?_ ?_ ?_ ?_, ?_, hid⟩
    · rwa [hid]
    · rwa [hid]
    · intro s hs hword
      rw [hid] at hword
      rcases mem_foldl_printRow hs with hs | ⟨hs, -⟩
      · exact absurd hs List.not_mem_nil
      · -- no directory of the work directory has the id
        obtain ⟨n, -, hs'⟩ := mem_candidates.1 hs
        have hn : n = id := by
          rw [← id_of_named hnamed (List.mem_append_left _ hs) hs',
            hnamed.word s (List.mem_append_left _ hs) id h hword]
        have hdir := (fnRow_eq_some hs').2.2.1
        rw [hn, hwork] at hdir
        exact Bool.false_ne_true hdir
    · rw [hid]
      exact fun s hs hword => eq_of_word hnamed (List.subset_append_right _ _) h hrow hs hword
    · rwa [hnode]

/-- What the WebUI reads of a surviving row is the node's id and the script's status. -/
theorem mem_shownNodes_iff (hlegible : Legible e fs) {pair : String × String} : pair ∈ shownNodes e fs ↔
    ∃ row ∈ fnRows fs, survives e fs row.id = true ∧ fnRow fs (nodeDir fs row.id) = some row ∧
      pair = (row.id, shownStatus fs (nodeDir fs row.id)) := by
  have hread : ∀ row, survives e fs row.id = true → fnRow fs (nodeDir fs row.id) = some row →
      ((fnNodeInfo row.line).id, (fnNodeInfo row.line).status) = (row.id, shownStatus fs (nodeDir fs row.id)) := by
    intro row hsurvives hrow
    have hst := (fnRow_eq_some hrow).2.1
    have hbar : '|' ∉ row.st.toList := hst ▸ not_mem_shownStatus (by decide) fs _
    have hinfo := fnNodeInfo_line hbar (hlegible.unseparated _ row hsurvives hrow)
    rw [hinfo.1, hinfo.2, hst]
  rw [mem_shownNodes]
  constructor
  · rintro ⟨row, hrow, hleft, rfl⟩
    obtain ⟨hsurvives, hnode⟩ := survives_of_printed hprop hlegible.toNamed hrow hleft
    exact ⟨row, hrow, hsurvives, hnode, hread row hsurvives hnode⟩
  · rintro ⟨row, hrow, hsurvives, hnode, rfl⟩
    refine ⟨row, hrow, ?_, (hread row hsurvives hnode).symm⟩
    rw [(fnRow_eq_some hnode).1]
    exact isDir_survives hsurvives

theorem same_of_inOrder (hlegible : Legible e fs) (horder : ∀ id, survives e fs id = true → InOrder e fs id)
    (pair : String × String) : pair ∈ shownNodes e fs ↔ pair ∈ wireNodes e fs := by
  have hstatus : ∀ {id : String} {node : FnNode}, findNode e fs id = some node →
      node.status.asWireStr = shownStatus fs (nodeDir fs id) := by
    intro id node hnode
    have hgood := horder id (survives_of_findNode hnode)
    rw [findNode_status hnode hgood.wellFormed]
    exact asWireStr_iff.2 ⟨hgood.remove, hgood.noUpdate, hgood.disable⟩
  rw [mem_shownNodes_iff hprop hlegible, wireNodes, List.mem_map]
  constructor
  · rintro ⟨row, -, hsurvives, -, rfl⟩
    obtain ⟨node, hnode⟩ := findNode_survives hsurvives
    have hid : node.id = row.id := (findNode_eq_some.1 hnode).2
    refine ⟨node, mem_scanFnNodes.2 (hid.symm ▸ hnode), ?_⟩
    rw [hid, hstatus hnode]
  · rintro ⟨node, hmem, rfl⟩
    have hnode := mem_scanFnNodes.1 hmem
    have hsurvives := survives_of_findNode hnode
    have hvalid : isValidId node.id = true := by
      have hgood := isValidId_of_wellFormed (horder _ hsurvives).wellFormed
      rwa [nodeDir_getLast] at hgood
    obtain ⟨row, hrow, hprinted, hid⟩ := printed_of_survives hprop hlegible.toNamed hvalid hsurvives
    refine ⟨row, hrow, ?_, ?_, ?_⟩
    · rwa [hid]
    · rwa [hid]
    · rw [hid, hstatus hnode]

theorem inOrder_of_same (hlegible : Legible e fs) (hsame : ∀ pair, pair ∈ shownNodes e fs ↔ pair ∈ wireNodes e fs)
    (hsurvives : survives e fs id = true) : InOrder e fs id := by
  obtain ⟨node, hnode⟩ := findNode_survives hsurvives
  have hid : node.id = id := (findNode_eq_some.1 hnode).2
  have hwire : (id, node.status.asWireStr) ∈ wireNodes e fs :=
    List.mem_map.2 ⟨node, mem_scanFnNodes.2 (hid.symm ▸ hnode), by rw [hid]⟩
  obtain ⟨row, -, -, -, hpair⟩ := (mem_shownNodes_iff hprop hlegible).1 ((hsame _).2 hwire)
  obtain ⟨rfl, hstatus⟩ := Prod.mk.inj hpair
  have hbad := isMalformed_findNode hnode
  rw [not_isMalformed_of_shown hstatus, eq_comm, Bool.not_eq_false'] at hbad
  rw [findNode_status hnode hbad] at hstatus
  obtain ⟨hremove, hupdate, hdisable⟩ := asWireStr_iff.1 hstatus
  exact ⟨hbad, hremove, hupdate, hdisable⟩

end Agree

/-- A node that is switched off, in front of a module of the same id. -/
def bothRootsFs : FileTree := .ofFiles [
  (fnRoot ++ ["demo", "fn.prop"], "id=demo\nname=D\nversion=1\nversionCode=1\n"),
  (fnRoot ++ ["demo", "service.sh"], ""), (fnRoot ++ ["demo", "disable"], ""),
  (activeDir "demo" ++ ["fn.prop"], "id=demo\n")]

theorem eq_demo_of_survives (h : survives .fine bothRootsFs id = true) : id = "demo" := by
  have hall : ∀ n ∈ bothRootsFs.children fnRoot ++ bothRootsFs.children pathModulesDir, n = "demo" := by decide
  exact hall id (mem_children_of_survives h)

/-- A node with a staged update. -/
def updatedFs : FileTree := .ofFiles [
  (fnRoot ++ ["demo", "fn.prop"], "id=demo\nname=D\nversion=1\nversionCode=1\n"),
  (fnRoot ++ ["demo", "service.sh"], ""), (fnRoot ++ ["demo", "update"], "")]

end OnyxZygisk.WebUi
