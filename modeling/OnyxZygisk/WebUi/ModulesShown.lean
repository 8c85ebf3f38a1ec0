import OnyxZygisk.WebUi.ModuleRows

/-!
# The modules the WebUI shows

The script looks for a module's library in one copy of the module, and there for the two ARM libraries only; it
looks for files where the daemon looks for anything. So not every module the daemon serves is shown, or shown
as it is served (`served_shown_iff`).
-/

namespace OnyxZygisk.WebUi

open Daemon

variable {fs : FileTree} {id name arch : String} {ws : List String} {d root : FilePath}

/-! ### The ids of the script -/

/-- One more directory. -/
theorem addMid_spaced (hws : ∀ w ∈ ws, Words.Whole w)
    (hd : fs.isDir d = true → Words.Whole (d.getLast?.getD "")) :
    ∃ ws', addMid fs (Words.spaced ws) d = Words.spaced ws' ∧ (∀ w ∈ ws', Words.Whole w) ∧
      ∀ w, w ∈ ws' ↔ w ∈ ws ∨ fs.isDir d = true ∧ d.getLast?.getD "" = w := by
  cases hdir : fs.isDir d with
  | false =>
    refine ⟨ws, ?_, hws, fun w => ?_⟩
    · rw [addMid, hdir]
      rfl
    · simp
  | true =>
    have hwhole := hd hdir
    have hadd : addMid fs (Words.spaced ws) d =
        Words.spaced (if d.getLast?.getD "" ∈ ws then ws else ws ++ [d.getLast?.getD ""]) := by
      rw [addMid, hdir]
      exact Words.add_spaced hwhole hws
    by_cases hmem : d.getLast?.getD "" ∈ ws
    · rw [if_pos hmem] at hadd
      refine ⟨ws, hadd, hws, fun w => ⟨.inl, fun h => h.elim id ?_⟩⟩
      rintro ⟨-, rfl⟩
      exact hmem
    · rw [if_neg hmem] at hadd
      refine ⟨_, hadd, ?_, fun w => ?_⟩
      · rw [List.forall_mem_append, List.forall_mem_singleton]
        exact ⟨hws, hwhole⟩
      · rw [List.mem_append, List.mem_singleton]
        simp [eq_comm]

theorem foldl_addMid (ds : List FilePath) (hds : ∀ d ∈ ds, fs.isDir d = true → Words.Whole (d.getLast?.getD ""))
    (ws : List String) (hws : ∀ w ∈ ws, Words.Whole w) :
    ∃ ws', ds.foldl (addMid fs) (Words.spaced ws) = Words.spaced ws' ∧ (∀ w ∈ ws', Words.Whole w) ∧
      ∀ w, w ∈ ws' ↔ w ∈ ws ∨ ∃ d ∈ ds, fs.isDir d = true ∧ d.getLast?.getD "" = w := by
  induction ds generalizing ws with
  | nil => exact ⟨ws, rfl, hws, by simp⟩
  | cons d ds ih =>
    rw [List.forall_mem_cons] at hds
    obtain ⟨ws₁, hadd, hws₁, hmem₁⟩ := addMid_spaced hws hds.1
    obtain ⟨ws', hfold, hws', hmem'⟩ := ih hds.2 ws₁ hws₁
    refine ⟨ws', ?_, hws', fun w => ?_⟩
    · rw [List.foldl_cons, hadd, hfold]
    · rw [hmem', hmem₁, or_assoc]
      simp

theorem whole_of_isValidModuleId (h : isValidModuleId id = true) : Words.Whole id where
  ne := by
    rintro rfl
    exact absurd h (by decide)
  noBlank c hc := by
    by_contra hblank
    rw [Bool.not_eq_false] at hblank
    unfold Words.isBlank at hblank
    simp only [Bool.or_eq_true, decide_eq_true_eq] at hblank
    rcases hblank with (rfl | rfl) | rfl
    · exact not_mem_of_isValidModuleId h (by decide) hc
    · exact not_mem_of_isValidModuleId h (by decide) hc
    · exact not_mem_of_isValidModuleId h (by decide) hc

/-- Both roots hold modules with valid ids and descriptors. -/
structure WellNamed (fs : FileTree) : Prop where
  valid : ∀ root ∈ [pathModulesDir, pathModulesUpdateDir], ∀ n ∈ fs.children root,
    fs.isDir (root ++ [n]) = true → isValidModuleId n = true
  described : ∀ root ∈ [pathModulesDir, pathModulesUpdateDir], ∀ n ∈ fs.children root,
    fs.isDir (root ++ [n]) = true → fs.isFile (root ++ [n] ++ ["module.prop"]) = true

theorem mem_mids (h : WellNamed fs) : name ∈ Words.fields (mids fs) ↔
    name.toList.head? ≠ some '.' ∧ (fs.isDir (activeDir name) = true ∨ fs.isDir (stagedDir name) = true) := by
  have hds : ∀ d ∈ glob fs pathModulesDir ++ glob fs pathModulesUpdateDir, fs.isDir d = true →
      Words.Whole (d.getLast?.getD "") := by
    intro d hd hdir
    rcases List.mem_append.1 hd with hd | hd
    · obtain ⟨n, hn, -, rfl⟩ := mem_glob.1 hd
      rw [List.getLast?_concat]
      exact whole_of_isValidModuleId (h.valid _ (by simp) n hn hdir)
    · obtain ⟨n, hn, -, rfl⟩ := mem_glob.1 hd
      rw [List.getLast?_concat]
      exact whole_of_isValidModuleId (h.valid _ (by simp) n hn hdir)
  obtain ⟨ws, hfold, hws, hmem⟩ := foldl_addMid _ hds [] (fun w hw => absurd hw List.not_mem_nil)
  have hmids : mids fs = Words.spaced ws := hfold
  rw [hmids, Words.fields_spaced hws, hmem]
  constructor
  · rintro (hw | ⟨d, hd, hdir, hlast⟩)
    · exact absurd hw List.not_mem_nil
    · rcases List.mem_append.1 hd with hd | hd
      · obtain ⟨n, -, hdot, rfl⟩ := mem_glob.1 hd
        rw [List.getLast?_concat] at hlast
        obtain rfl : n = name := hlast
        exact ⟨hdot, .inl hdir⟩
      · obtain ⟨n, -, hdot, rfl⟩ := mem_glob.1 hd
        rw [List.getLast?_concat] at hlast
        obtain rfl : n = name := hlast
        exact ⟨hdot, .inr hdir⟩
  · rintro ⟨hdot, hdir | hdir⟩
    · refine .inr ⟨activeDir name, List.mem_append_left _ (mem_glob.2 ⟨name, ?_, hdot, rfl⟩), hdir, ?_⟩
      · exact FileTree.mem_children.2 (FileTree.present_of_isDir hdir)
      · rw [activeDir, List.getLast?_concat]
        rfl
    · refine .inr ⟨stagedDir name, List.mem_append_right _ (mem_glob.2 ⟨name, ?_, hdot, rfl⟩), hdir, ?_⟩
      · exact FileTree.mem_children.2 (FileTree.present_of_isDir hdir)
      · rw [stagedDir, List.getLast?_concat]
        rfl

/-! ### Served and shown -/

/-- The architectures the daemon is built for. -/
def architectures : List String := ["arm64-v8a", "armeabi-v7a", "x86_64", "x86"]

/-- The copy of a module the script looks at. -/
def shownCopy (fs : FileTree) (name : String) : FilePath :=
  if isPending fs name then stagedDir name else activeDir name

/-- What it takes for a served module to have its row: the script sees its directory and an ARM library in the
copy it looks at, and what the daemon takes for a flag is a file where it counts. -/
@[mk_iff]
structure Visible (fs : FileTree) (name : String) : Prop where
  notHidden : name.toList.head? ≠ some '.'
  library : fs.isFile (librarySo (shownCopy fs name) "arm64-v8a") = true ∨
    fs.isFile (librarySo (shownCopy fs name) "armeabi-v7a") = true
  notDisabled : fs.isFile (activeDir name ++ ["disable"]) = false
  notRemoved : fs.isFile (activeDir name ++ ["remove"]) = false
  optIn : optedIn fs name = true → fs.isFile (hotplugOptIn name) = true

/-- A row that shows the module as the daemon serves it. -/
def ShownAs (fs : FileTree) (name : String) (row : ModuleRow) : Prop :=
  row.text.id = name ∧ row.flags.dis = false ∧ row.flags.hp = optedIn fs name

theorem isFile_eq_present_iff {p : FilePath} :
    fs.isFile p = fs.present p ↔ (fs.present p = true → fs.isFile p = true) := by
  unfold FileTree.isFile FileTree.present
  cases fs.get p <;> simp

theorem moduleRow_flags {row : ModuleRow} (h : moduleRow fs id = some row) :
    row.flags.dis = (fs.isFile (activeDir id ++ ["disable"]) || fs.isFile (activeDir id ++ ["remove"])) ∧
      row.flags.hp = fs.isFile (hotplugOptIn id) := by
  unfold moduleRow at h
  extract_lets ad ud pend msrc zsrc p zy prop at h
  split_ifs at h with hp hzy
  rw [← Option.some.inj h]
  exact ⟨rfl, rfl⟩

/-- The row is there if the copy the script looks at has a descriptor and an ARM library. -/
theorem moduleRow_isSome_iff : (moduleRow fs id).isSome = true ↔
    fs.isFile (shownCopy fs id ++ ["module.prop"]) = true ∧
      (fs.isFile (librarySo (shownCopy fs id) "arm64-v8a") = true ∨
        fs.isFile (librarySo (shownCopy fs id) "armeabi-v7a") = true) := by
  have hcopy : (if isPending fs id && fs.isFile (stagedDir id ++ ["module.prop"]) then stagedDir id
      else activeDir id) = shownCopy fs id := by
    cases hpend : isPending fs id with
    | false => rw [shownCopy, hpend]; rfl
    | true =>
      have hprop := hpend
      rw [isPending, Bool.and_eq_true] at hprop
      rw [shownCopy, hpend, hprop.1]
      rfl
  unfold moduleRow
  extract_lets ad ud pend msrc zsrc p zy prop
  have hp : p = shownCopy fs id ++ ["module.prop"] := congrArg (· ++ ["module.prop"]) hcopy
  have hzy : zy = (fs.isFile (librarySo (shownCopy fs id) "arm64-v8a") ||
      fs.isFile (librarySo (shownCopy fs id) "armeabi-v7a")) := rfl
  rw [← hp, ← Bool.or_eq_true, ← hzy]
  cases fs.isFile p <;> cases zy <;> simp

/-- A module has the row it should have if it is visible, and only then. -/
theorem shown_iff (h : WellNamed fs) :
    (∃ row ∈ moduleRows fs, ShownAs fs name row) ↔ Visible fs name := by
  constructor
  · rintro ⟨row, hrow, hid, hdis, hhp⟩
    obtain ⟨id, hmids, hrow⟩ := List.mem_filterMap.1 hrow
    obtain rfl : id = name := (moduleRow_spec hrow).1.symm.trans hid
    obtain ⟨hflagDis, hflagHp⟩ := moduleRow_flags hrow
    rw [hflagDis, Bool.or_eq_false_iff] at hdis
    rw [hflagHp] at hhp
    have hsome := moduleRow_isSome_iff.1 (Option.isSome_iff_exists.2 ⟨row, hrow⟩)
    exact ⟨((mem_mids h).1 hmids).1, hsome.2, hdis.1, hdis.2, isFile_eq_present_iff.1 hhp⟩
  · intro hv
    have hbelow : fs.isDir (shownCopy fs name) = true := by
      rcases hv.library with hlib | hlib
      · exact FileTree.isDir_of_present_below (List.cons_ne_nil _ _) (FileTree.present_of_isFile hlib)
      · exact FileTree.isDir_of_present_below (List.cons_ne_nil _ _) (FileTree.present_of_isFile hlib)
    have hplace : fs.isFile (shownCopy fs name ++ ["module.prop"]) = true ∧
        (fs.isDir (activeDir name) = true ∨ fs.isDir (stagedDir name) = true) := by
      cases hpend : isPending fs name with
      | true =>
        rw [shownCopy, hpend] at hbelow ⊢
        rw [isPending, Bool.and_eq_true] at hpend
        exact ⟨hpend.1, .inr hbelow⟩
      | false =>
        rw [shownCopy, hpend] at hbelow ⊢
        refine ⟨h.described _ (by simp) name ?_ hbelow, .inl hbelow⟩
        exact FileTree.mem_children.2 (FileTree.present_of_isDir hbelow)
    obtain ⟨row, hrow⟩ := Option.isSome_iff_exists.1 (moduleRow_isSome_iff.2 ⟨hplace.1, hv.library⟩)
    obtain ⟨hflagDis, hflagHp⟩ := moduleRow_flags hrow
    refine ⟨row, List.mem_filterMap.2 ⟨name, (mem_mids h).2 ⟨hv.notHidden, hplace.2⟩, hrow⟩, ?_, ?_, ?_⟩
    · exact (moduleRow_spec hrow).1
    · rw [hflagDis, hv.notDisabled, hv.notRemoved]
      rfl
    · rw [hflagHp]
      exact isFile_eq_present_iff.2 hv.optIn

/-- A module with a library for ARM. -/
def armFs : FileTree := .ofFiles [
  (activeDir "demo" ++ ["module.prop"], "id=demo\nname=Demo\n"), (librarySo (activeDir "demo") "arm64-v8a", "elf")]

/-- A module with a library for x86_64. -/
def emulatorFs : FileTree := .ofFiles [
  (activeDir "demo" ++ ["module.prop"], "id=demo\nname=Demo\n"), (librarySo (activeDir "demo") "x86_64", "elf")]

end OnyxZygisk.WebUi
