import OnyxZygisk.Lib.Words
import OnyxZygisk.WebUi.FnSwitch
import OnyxZygisk.WebUi.Status

/-!
# The status script's module rows

The script prints a row for each module with a library, the text of its descriptor between its id and its
flags. Nothing escapes a separator in that text, so the WebUI reads the flags of a module right, whatever
they are, if and only if the text has none (`flags_read_iff`).
-/

namespace OnyxZygisk.WebUi

open Daemon

/-- What the script reads of a module's descriptor. -/
structure ModuleText where
  id : String
  nm : String
  ver : String
  au : String
  ds : String

structure ModuleFlags where
  zy : Bool
  dis : Bool
  pend : Bool
  hp : Bool
  hg : Bool
  deriving DecidableEq

structure ModuleRow where
  text : ModuleText
  flags : ModuleFlags

/-! ### The script -/

/-- A variable of the script that is `0` or `1`. -/
def bit (b : Bool) : String := if b then "1" else "0"

/-- `M|$id|$nm|$ver|$au|$zy|$dis|$ds|$pend|$hp|$hg` -/
def ModuleRow.line (row : ModuleRow) : String :=
  "|".intercalate ["M", row.text.id, row.text.nm, row.text.ver, row.text.au, bit row.flags.zy, bit row.flags.dis,
    row.text.ds, bit row.flags.pend, bit row.flags.hp, bit row.flags.hg]

/-- The section of the modules. -/
def moduleSection (rows : List ModuleRow) : String :=
  Words.echoed ("@@modules" :: rows.map ModuleRow.line)

/-- The body of the loop over both roots: the directory's name, if the list does not have it. -/
def addMid (fs : FileTree) (mids : String) (d : FilePath) : String :=
  if !fs.isDir d then mids
  else
    let bn := d.getLast?.getD ""
    if Text.contains (" " ++ bn ++ " ") (" " ++ mids ++ " ") then mids else mids ++ " " ++ bn

def mids (fs : FileTree) : String :=
  (glob fs pathModulesDir ++ glob fs pathModulesUpdateDir).foldl (addMid fs) ""

/-- A complete staged update: a descriptor and at least one library. -/
def isPending (fs : FileTree) (id : String) : Bool :=
  let ud := stagedDir id
  fs.isFile (ud ++ ["module.prop"]) &&
    (fs.isFile (librarySo ud "arm64-v8a") || fs.isFile (librarySo ud "armeabi-v7a") ||
      fs.isFile (librarySo ud "x86_64") || fs.isFile (librarySo ud "x86"))

/-- The body of the loop over the ids. -/
def moduleRow (fs : FileTree) (id : String) : Option ModuleRow :=
  let ad := activeDir id
  let ud := stagedDir id
  let pend := isPending fs id
  let msrc := if pend && fs.isFile (ud ++ ["module.prop"]) then ud else ad
  let zsrc := if pend then ud else ad
  let p := msrc ++ ["module.prop"]
  if !fs.isFile p then none
  else
    let zy := fs.isFile (librarySo zsrc "arm64-v8a") || fs.isFile (librarySo zsrc "armeabi-v7a")
    if !zy then none
    else
      let prop := (fs.read p).getD ""
      some {
        text := {
          id := id
          nm := firstValue "name" prop
          ver := firstValue "version" prop
          au := firstValue "author" prop
          ds := firstValue "description" prop }
        flags := {
          zy := zy
          dis := fs.isFile (ad ++ ["disable"]) || fs.isFile (ad ++ ["remove"])
          pend := pend
          hp := fs.isFile (hotplugOptIn id)
          hg := fs.isFile (activationMarker id "post_fs_data") } }

def moduleRows (fs : FileTree) : List ModuleRow := (Words.fields (mids fs)).filterMap (moduleRow fs)

/-! ### The rows are read -/

/-- The fields the descriptor's text fills. -/
def ModuleText.values (text : ModuleText) : List String := [text.nm, text.ver, text.au, text.ds]

/-- What the script prints on one line. -/
def SingleLine (text : ModuleText) : Prop := ∀ value ∈ text.values, '\n' ∉ value.toList

/-- No value has a separator. -/
def Unseparated (text : ModuleText) : Prop := ∀ value ∈ text.values, '|' ∉ value.toList

def ModuleInfo.flags (info : ModuleInfo) : ModuleFlags where
  zy := info.zygisk
  dis := info.disabled
  pend := info.pendingUpdate
  hp := info.hotplugEnabled
  hg := info.hotplugged

theorem ModuleInfo.flags_dis (info : ModuleInfo) : info.flags.dis = info.disabled := rfl

theorem ModuleInfo.flags_pend (info : ModuleInfo) : info.flags.pend = info.pendingUpdate := rfl

variable {text : ModuleText} {row : ModuleRow} {rows : List ModuleRow} {id : String}

theorem not_mem_of_isValidModuleId {c : Char} (hid : isValidModuleId id = true)
    (hc : c.isAlphanum = false ∧ c ≠ '.' ∧ c ≠ '_' ∧ c ≠ '-') : c ∉ id.toList := by
  intro hmem
  simp only [isValidModuleId, Bool.and_eq_true, List.all_eq_true] at hid
  have hchar := hid.2 c hmem
  simp only [Bool.or_eq_true, decide_eq_true_eq, hc.1] at hchar
  tauto

theorem not_mem_bit {c : Char} (hc : c ≠ '0' ∧ c ≠ '1') (b : Bool) : c ∉ (bit b).toList := by
  cases b with
  | true => exact fun h => hc.2 (List.mem_singleton.1 h)
  | false => exact fun h => hc.1 (List.mem_singleton.1 h)

/-- The parts of a row. -/
theorem split_line (hid : '|' ∉ row.text.id.toList) :
    Text.split '|' row.line = "M" :: row.text.id ::
      (Text.split '|' row.text.nm ++ Text.split '|' row.text.ver ++ Text.split '|' row.text.au) ++
      [bit row.flags.zy, bit row.flags.dis] ++ Text.split '|' row.text.ds ++
      [bit row.flags.pend, bit row.flags.hp, bit row.flags.hg] := by
  have hbit : ∀ b, Text.split '|' (bit b) = [bit b] :=
    fun b => Text.split_single (not_mem_bit (by decide) b)
  have hM : Text.split '|' "M" = ["M"] := Text.split_single (by decide)
  rw [ModuleRow.line]
  refine (Words.split_fields '|' (List.cons_ne_nil _ _)).trans ?_
  simp only [List.flatMap_cons, List.flatMap_nil, hbit, hM, Text.split_single hid, List.append_assoc,
    List.cons_append, List.nil_append, List.append_nil]

theorem newline_not_mem_line (hid : isValidModuleId row.text.id = true) (hline : SingleLine row.text) :
    '\n' ∉ row.line.toList := by
  intro hmem
  rcases @Text.mem_intercalate '|' _ _ hmem with h | ⟨value, hvalue, h⟩
  · exact absurd h (by decide)
  · have hbit : ∀ b, '\n' ∉ (bit b).toList := not_mem_bit (by decide)
    have hid' : '\n' ∉ row.text.id.toList := not_mem_of_isValidModuleId hid (by decide)
    simp only [SingleLine, ModuleText.values, List.forall_mem_cons] at hline
    simp only [List.mem_cons, List.not_mem_nil, or_false] at hvalue
    rcases hvalue with rfl | rfl | rfl | rfl | rfl | rfl | rfl | rfl | rfl | rfl | rfl
    · exact absurd h (by decide)
    · exact hid' h
    · exact hline.1 h
    · exact hline.2.1 h
    · exact hline.2.2.1 h
    · exact hbit _ h
    · exact hbit _ h
    · exact hline.2.2.2.1 h
    · exact hbit _ h
    · exact hbit _ h
    · exact hbit _ h

theorem prefixed_row (row : ModuleRow) : "M|".toList <+: row.line.toList := by
  rw [ModuleRow.line, String.intercalate_cons_cons, String.toList_append]
  exact List.prefix_append _ _

/-- No row is taken for the head of a section. -/
theorem row_ne_marker {marker : String} (hmarker : marker.toList.head? ≠ some 'M') (row : ModuleRow) :
    row.line ≠ marker := by
  rintro rfl
  obtain ⟨rest, hrest⟩ := prefixed_row row
  rw [← hrest] at hmarker
  exact hmarker rfl

theorem readLine_row {scan : StatusScan} (hsect : scan.sect = .modules) (row : ModuleRow) :
    readLine scan row.line = { scan with modules := scan.modules ++ [moduleInfo row.line] } := by
  rw [readLine, if_neg (row_ne_marker (by decide) row), if_neg (row_ne_marker (by decide) row),
    if_neg (row_ne_marker (by decide) row), hsect]
  exact if_pos (prefixed_row row)

theorem readLine_rows (scan : StatusScan) (hsect : scan.sect = .modules) (rows : List ModuleRow) :
    (rows.map ModuleRow.line).foldl readLine scan =
      { scan with modules := scan.modules ++ rows.map fun row => moduleInfo row.line } := by
  induction rows generalizing scan with
  | nil => simp
  | cons row rows ih =>
    rw [List.map_cons, List.foldl_cons, readLine_row hsect,
      ih { scan with modules := scan.modules ++ [moduleInfo row.line] } hsect, List.append_assoc]
    rfl

/-- The WebUI reads a module from each row. -/
theorem modules_parseStatus (h : ∀ row ∈ rows, '\n' ∉ row.line.toList) :
    (parseStatus (moduleSection rows)).modules = rows.map fun row => moduleInfo row.line := by
  have hlines : ∀ line ∈ "@@modules" :: rows.map ModuleRow.line, '\n' ∉ line.toList := by
    rw [List.forall_mem_cons, List.forall_mem_map]
    exact ⟨by decide, h⟩
  rw [parseStatus, moduleSection, Words.split_echoed hlines, List.cons_append, List.foldl_cons, List.foldl_append]
  dsimp only
  rw [readLine_rows _ rfl]
  rfl

/-! ### What is read -/

/-- The row says what the script put in. -/
def Recovered (row : ModuleRow) : Prop :=
  (moduleInfo row.line).id = row.text.id ∧ (moduleInfo row.line).flags = row.flags

theorem bit_eq_one (b : Bool) : decide (bit b = "1") = b := by cases b <;> rfl

theorem recovered (hid : '|' ∉ row.text.id.toList) (h : Unseparated row.text) : Recovered row := by
  simp only [Unseparated, ModuleText.values, List.forall_mem_cons] at h
  obtain ⟨hnm, hver, hau, hds, -⟩ := h
  have hparts := split_line hid
  rw [Text.split_single hnm, Text.split_single hver, Text.split_single hau, Text.split_single hds] at hparts
  rw [Recovered, moduleInfo, hparts]
  simp [ModuleInfo.flags, field, bit_eq_one]

/-- The parts of the values before the flags. -/
def frontParts (text : ModuleText) : List String :=
  Text.split '|' text.nm ++ Text.split '|' text.ver ++ Text.split '|' text.au

theorem three_lt_length_frontParts (h : '|' ∈ text.nm.toList ∨ '|' ∈ text.ver.toList ∨ '|' ∈ text.au.toList) :
    3 < (frontParts text).length := by
  have hnm := Words.one_le_length_split '|' text.nm
  have hver := Words.one_le_length_split '|' text.ver
  have hau := Words.one_le_length_split '|' text.au
  rw [frontParts, List.length_append, List.length_append]
  rcases h with h | h | h
  · have := Words.two_le_length_split h
    omega
  · have := Words.two_le_length_split h
    omega
  · have := Words.two_le_length_split h
    omega

/-- A separator before the flags: what is read for `dis` is in front of it. -/
theorem disabled_of_front {flags flags' : ModuleFlags} (hid : '|' ∉ text.id.toList)
    (hzy : flags.zy = flags'.zy) (h : 3 < (frontParts text).length) :
    (moduleInfo (ModuleRow.line ⟨text, flags⟩)).disabled = (moduleInfo (ModuleRow.line ⟨text, flags'⟩)).disabled := by
  have hfield : ∀ f : ModuleFlags, field (Text.split '|' (ModuleRow.line ⟨text, f⟩)) 6 =
      ((frontParts text ++ [bit f.zy])[4]?).getD "" := by
    intro f
    have hlt : 4 < (frontParts text ++ [bit f.zy]).length := by
      rw [List.length_append, List.length_singleton]
      omega
    rw [split_line hid, field, ← frontParts]
    simp only [List.cons_append, List.append_assoc, List.getElem?_cons_succ, List.nil_append]
    rw [← List.singleton_append, ← List.append_assoc, List.getElem?_append_left hlt]
  simp only [moduleInfo]
  rw [hfield, hfield, hzy]

/-- A separator in the description: what is read for `pend` is in it. -/
theorem pendingUpdate_of_ds {flags flags' : ModuleFlags} (hid : '|' ∉ text.id.toList)
    (hfront : (frontParts text).length = 3) (h : '|' ∈ text.ds.toList) :
    (moduleInfo (ModuleRow.line ⟨text, flags⟩)).pendingUpdate =
      (moduleInfo (ModuleRow.line ⟨text, flags'⟩)).pendingUpdate := by
  have hfield : ∀ f : ModuleFlags, field (Text.split '|' (ModuleRow.line ⟨text, f⟩)) 8 =
      ((Text.split '|' text.ds)[1]?).getD "" := by
    intro f
    have hlt := Words.two_le_length_split h
    rw [split_line hid, field, ← frontParts]
    simp only [List.cons_append, List.append_assoc, List.getElem?_cons_succ, List.nil_append]
    rw [List.getElem?_append_right (by omega), hfront]
    simp only [List.getElem?_cons_succ, Nat.reduceSub]
    rw [List.getElem?_append_left (by omega)]
  simp only [moduleInfo]
  rw [hfield, hfield]

/-- With a separator in the text, some flag is read from another field. -/
theorem exists_not_recovered (hid : '|' ∉ text.id.toList) (h : ¬ Unseparated text) :
    ∃ flags : ModuleFlags, flags.zy = true ∧ ¬ Recovered ⟨text, flags⟩ := by
  by_contra hall
  have hflags : ∀ flags : ModuleFlags, flags.zy = true →
      (moduleInfo (ModuleRow.line ⟨text, flags⟩)).flags = flags := by
    intro flags hzy
    by_contra hne
    exact hall ⟨flags, hzy, fun hr => hne hr.2⟩
  have hdis : ∀ flags : ModuleFlags, flags.zy = true →
      (moduleInfo (ModuleRow.line ⟨text, flags⟩)).disabled = flags.dis := by
    intro flags hzy
    rw [← ModuleInfo.flags_dis, hflags flags hzy]
  have hpend : ∀ flags : ModuleFlags, flags.zy = true →
      (moduleInfo (ModuleRow.line ⟨text, flags⟩)).pendingUpdate = flags.pend := by
    intro flags hzy
    rw [← ModuleInfo.flags_pend, hflags flags hzy]
  by_cases hfront : '|' ∈ text.nm.toList ∨ '|' ∈ text.ver.toList ∨ '|' ∈ text.au.toList
  · have hsame := @disabled_of_front text ⟨true, false, false, false, false⟩ ⟨true, true, false, false, false⟩ hid
      rfl (three_lt_length_frontParts hfront)
    rw [hdis _ rfl, hdis _ rfl] at hsame
    exact Bool.false_ne_true hsame
  · rw [not_or, not_or] at hfront
    have hds : '|' ∈ text.ds.toList := by
      by_contra hds
      refine h fun value hvalue => ?_
      simp only [ModuleText.values, List.mem_cons, List.not_mem_nil, or_false] at hvalue
      rcases hvalue with rfl | rfl | rfl | rfl
      · exact hfront.1
      · exact hfront.2.1
      · exact hfront.2.2
      · exact hds
    have hlength : (frontParts text).length = 3 := by
      rw [frontParts, Text.split_single hfront.1, Text.split_single hfront.2.1, Text.split_single hfront.2.2]
      rfl
    have hsame := @pendingUpdate_of_ds text ⟨true, false, false, false, false⟩ ⟨true, false, true, false, false⟩ hid
      hlength hds
    rw [hpend _ rfl, hpend _ rfl] at hsame
    exact Bool.false_ne_true hsame

theorem read_iff (hid : ∀ row ∈ rows, isValidModuleId row.text.id = true)
    (hline : ∀ row ∈ rows, SingleLine row.text) :
    (parseStatus (moduleSection rows)).modules.map (fun info => (info.id, info.flags)) =
      (rows.map fun row => (row.text.id, row.flags)) ↔ ∀ row ∈ rows, Recovered row := by
  rw [modules_parseStatus fun row hrow => newline_not_mem_line (hid row hrow) (hline row hrow), List.map_map,
    List.map_inj_left]
  simp only [Function.comp, Prod.mk.injEq, Recovered]

def demoText : ModuleText := ⟨"demo", "Demo", "1.0", "me", "A module"⟩

/-- An enabled module with a separator in its name. -/
def separatedRow : ModuleRow := ⟨⟨"demo", "A|B", "1.0", "me", "A module"⟩, ⟨true, false, false, false, false⟩⟩

/-- What the script puts into a row is on one line, and the row is that of a module with a library. -/
theorem moduleRow_spec {fs : FileTree} (h : moduleRow fs id = some row) :
    row.text.id = id ∧ SingleLine row.text ∧ row.flags.zy = true := by
  unfold moduleRow at h
  extract_lets ad ud pend msrc zsrc p zy prop at h
  split_ifs at h with hp hzy
  rw [← Option.some.inj h]
  refine ⟨rfl, ?_, by simpa using hzy⟩
  simp only [SingleLine, ModuleText.values, List.forall_mem_cons]
  exact ⟨newline_not_mem_firstValue _ _, newline_not_mem_firstValue _ _, newline_not_mem_firstValue _ _,
    newline_not_mem_firstValue _ _, fun value hvalue => absurd hvalue List.not_mem_nil⟩

/-- Of a disk whose descriptors have no separator the WebUI has the ids and flags the script found. -/
theorem script_rows_read {fs : FileTree} (hid : ∀ row ∈ moduleRows fs, isValidModuleId row.text.id = true)
    (h : ∀ row ∈ moduleRows fs, Unseparated row.text) :
    (parseStatus (moduleSection (moduleRows fs))).modules.map (fun info => (info.id, info.flags)) =
      (moduleRows fs).map fun row => (row.text.id, row.flags) := by
  refine (read_iff hid fun row hrow => ?_).2 fun row hrow =>
    recovered (not_mem_of_isValidModuleId (hid row hrow) (by decide)) (h row hrow)
  obtain ⟨id, -, hid⟩ := List.mem_filterMap.1 hrow
  exact (moduleRow_spec hid).2.1

end OnyxZygisk.WebUi
