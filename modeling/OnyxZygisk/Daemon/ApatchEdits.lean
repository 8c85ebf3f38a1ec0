import OnyxZygisk.Daemon.ApatchConfig

/-!
# Edits of the APatch package configuration

`set_package_flags` and `remove_package` read the file, change one pair's entry and write the whole list
back. A file that cannot be read counts as an empty one, so its rows go with the next edit
(`edit_frame_iff`).
-/

namespace OnyxZygisk.Daemon.Apatch

/-- What is at `CONFIG_FILE`. -/
inductive ConfigFile where
  | missing
  | notUtf8
  | text (content : String)
  deriving DecidableEq

/-- `fs::read_to_string`; `fault` stands for an error that does not come from the file's contents. -/
def ConfigFile.readToString (file : ConfigFile) (fault : Bool) : Option String :=
  match file with
  | .text content => if fault then none else some content
  | _ => none

def CONFIG_READ_RETRIES : Nat := 5

/-- The attempts in turn, `faults` saying which of them fail. -/
def readPackageConfig (faults : Nat → Bool) (file : ConfigFile) : List PackageConfig :=
  match (List.range CONFIG_READ_RETRIES).findSome? fun attempt => file.readToString (faults attempt) with
  | some content => parsePackageConfig content
  | none => []

/-- The steps of a write that fail. -/
structure WriteFaults where
  tmp : Bool
  rename : Bool

def writePackageConfig (faults : WriteFaults) (configs : List PackageConfig) (file : ConfigFile) :
    Except String Unit × ConfigFile :=
  if faults.tmp then (.error "Failed to write APatch config tmp file", file)
  else if faults.rename then (.error "Failed to replace APatch config file", file)
  else (.ok (), .text (packageConfigText configs))

/-- The first entry of the pair gets the new flags; without one an entry is added. -/
def updateEntry (pkg : String) (uid : Int32) (allow exclude : Option Bool) :
    List PackageConfig → List PackageConfig
  | [] => [⟨pkg, exclude.getD false, allow.getD false, uid, uid, ""⟩]
  | c :: configs =>
    if c.pkg = pkg ∧ c.uid = uid then
      { c with allow := allow.getD c.allow, exclude := exclude.getD c.exclude } :: configs
    else c :: updateEntry pkg uid allow exclude configs

def setPackageFlags (reads : Nat → Bool) (writes : WriteFaults) (pkg : String) (uid : Int32)
    (allow exclude : Option Bool) (file : ConfigFile) : Except String Unit × ConfigFile :=
  writePackageConfig writes (updateEntry pkg uid allow exclude (readPackageConfig reads file)) file

def removePackage (reads : Nat → Bool) (writes : WriteFaults) (pkg : String) (uid : Option Int32)
    (file : ConfigFile) : Except String Unit × ConfigFile :=
  let retained := (readPackageConfig reads file).filter fun c =>
    match uid with
    | some uid => !(c.pkg = pkg && c.uid = uid)
    | none => c.pkg ≠ pkg
  writePackageConfig writes retained file

def uidGrantedRoot (reads : Nat → Bool) (file : ConfigFile) (uid : Int32) : Bool :=
  (readPackageConfig reads file).any fun c => c.allow && c.uidInRange uid

def uidShouldUmount (reads : Nat → Bool) (file : ConfigFile) (uid : Int32) : Bool :=
  (readPackageConfig reads file).any fun c => c.exclude && c.uidInRange uid

/-- The rows of the file. -/
def ConfigFile.rows : ConfigFile → List PackageConfig
  | .text content => parsePackageConfig content
  | _ => []

/-! ### The edits -/

inductive PackageEdit where
  | setFlags (pkg : String) (uid : Int32) (allow exclude : Option Bool)
  | remove (pkg : String) (uid : Option Int32)

def PackageEdit.run (reads : Nat → Bool) (writes : WriteFaults) (file : ConfigFile) :
    PackageEdit → Except String Unit × ConfigFile
  | .setFlags pkg uid allow exclude => setPackageFlags reads writes pkg uid allow exclude file
  | .remove pkg uid => removePackage reads writes pkg uid file

/-- The entries an edit is about. -/
def PackageEdit.concerns : PackageEdit → PackageConfig → Bool
  | .setFlags pkg uid _ _, c => c.pkg = pkg && c.uid = uid
  | .remove pkg uid, c => c.pkg = pkg && uid.all (c.uid = ·)

def PackageEdit.others (edit : PackageEdit) (configs : List PackageConfig) : List PackageConfig :=
  configs.filter (!edit.concerns ·)

/-- The list that is written for the one that was read. -/
def PackageEdit.apply : PackageEdit → List PackageConfig → List PackageConfig
  | .setFlags pkg uid allow exclude, configs => updateEntry pkg uid allow exclude configs
  | edit@(.remove _ _), configs => edit.others configs

/-- The entry an edit adds when none is there. -/
def PackageEdit.added : PackageEdit → List PackageConfig → Option PackageConfig
  | edit@(.setFlags pkg uid allow exclude), configs =>
    if configs.any edit.concerns then none
    else some ⟨pkg, exclude.getD false, allow.getD false, uid, uid, ""⟩
  | .remove _ _, _ => none

/-- What an added entry's row holds of other pairs, read line by line. -/
def PackageEdit.stray (edit : PackageEdit) (configs : List PackageConfig) : List PackageConfig :=
  match edit.added configs with
  | some entry => edit.others (readRows (packageRow entry ++ "\n"))
  | none => []

variable {reads : Nat → Bool} {writes : WriteFaults} {file file' : ConfigFile} {edit : PackageEdit}
  {configs : List PackageConfig}

theorem others_remove (pkg : String) (uid : Option Int32) (configs : List PackageConfig) :
    (PackageEdit.remove pkg uid).others configs = configs.filter fun c =>
      match uid with
      | some uid => !(c.pkg = pkg && c.uid = uid)
      | none => c.pkg ≠ pkg := by
  unfold PackageEdit.others
  congr 1
  funext c
  cases uid <;> simp [PackageEdit.concerns]

theorem PackageEdit.run_eq (edit : PackageEdit) : edit.run reads writes file =
    writePackageConfig writes (edit.apply (readPackageConfig reads file)) file := by
  cases edit with
  | setFlags pkg uid allow exclude => rfl
  | remove pkg uid =>
    show removePackage reads writes pkg uid file = _
    rw [PackageEdit.apply, others_remove, removePackage]

theorem writePackageConfig_ok (h : writePackageConfig writes configs file = (.ok (), file')) :
    file' = .text (packageConfigText configs) := by
  unfold writePackageConfig at h
  split at h
  · cases h
  · split at h
    · cases h
    · exact (Prod.mk.inj h).2.symm

/-! ### Reading -/

theorem readPackageConfig_of_read (h : ∃ attempt < CONFIG_READ_RETRIES, reads attempt = false) :
    readPackageConfig reads file = file.rows := by
  obtain ⟨attempt, hlt, hok⟩ := h
  unfold readPackageConfig ConfigFile.rows
  cases file with
  | missing => rfl
  | notUtf8 => rfl
  | text content =>
    cases hfound : (List.range CONFIG_READ_RETRIES).findSome? fun attempt =>
        (ConfigFile.text content).readToString (reads attempt) with
    | none =>
      have hnone := List.findSome?_eq_none_iff.1 hfound attempt (List.mem_range.2 hlt)
      rw [ConfigFile.readToString, hok] at hnone
      cases hnone
    | some found =>
      obtain ⟨n, -, hn⟩ := List.exists_of_findSome?_eq_some hfound
      simp only [ConfigFile.readToString] at hn
      split at hn
      · cases hn
      · rw [Option.some.inj hn]

theorem readPackageConfig_of_faults (h : ∀ attempt < CONFIG_READ_RETRIES, reads attempt = true) :
    readPackageConfig reads file = [] := by
  have hnone : ((List.range CONFIG_READ_RETRIES).findSome? fun attempt =>
      file.readToString (reads attempt)) = none := by
    rw [List.findSome?_eq_none_iff]
    intro attempt hmem
    rw [h attempt (List.mem_range.1 hmem)]
    cases file <;> rfl
  rw [readPackageConfig, hnone]

/-! ### What an edit leaves -/

/-- An entry that a line of the file can have given. -/
def Clean (config : PackageConfig) : Prop :=
  config.pkg ≠ "" ∧ '\n' ∉ config.pkg.toList ∧ '\n' ∉ config.sctx.toList

theorem clean_rows (file : ConfigFile) : ∀ config ∈ file.rows, Clean config := by
  intro config h
  cases file with
  | missing => cases h
  | notUtf8 => cases h
  | text content =>
    obtain ⟨line, -, hrow⟩ := List.mem_filterMap.1 h
    exact ⟨pkg_ne_of_parsePackageRow hrow, lf_not_mem_parsePackageConfig h⟩

section Update

variable {pkg : String} {uid : Int32} {allow exclude : Option Bool}

theorem updateEntry_of_none (h : ∀ c ∈ configs, ¬ (c.pkg = pkg ∧ c.uid = uid)) :
    updateEntry pkg uid allow exclude configs =
      configs ++ [⟨pkg, exclude.getD false, allow.getD false, uid, uid, ""⟩] := by
  induction configs with
  | nil => rfl
  | cons c configs ih =>
    rw [List.forall_mem_cons] at h
    rw [updateEntry, if_neg h.1, ih h.2]
    rfl

/-- The entry that is there keeps its name and its context, and the others are left as they are. -/
theorem updateEntry_of_some (h : ∃ c ∈ configs, c.pkg = pkg ∧ c.uid = uid) :
    (updateEntry pkg uid allow exclude configs).filter (fun c => !(c.pkg = pkg && c.uid = uid)) =
        configs.filter (fun c => !(c.pkg = pkg && c.uid = uid)) ∧
      ((∀ c ∈ configs, Clean c) → ∀ c ∈ updateEntry pkg uid allow exclude configs, Clean c) := by
  induction configs with
  | nil =>
    obtain ⟨c, hc, -⟩ := h
    cases hc
  | cons c configs ih =>
    by_cases hc : c.pkg = pkg ∧ c.uid = uid
    · rw [updateEntry, if_pos hc]
      constructor
      · rw [List.filter_cons_of_neg (by simp [hc]), List.filter_cons_of_neg (by simp [hc])]
      · rw [List.forall_mem_cons, List.forall_mem_cons]
        exact id
    · have hrest : ∃ c ∈ configs, c.pkg = pkg ∧ c.uid = uid := by
        obtain ⟨d, hd, hmatch⟩ := h
        rcases List.mem_cons.1 hd with rfl | hd
        · exact absurd hmatch hc
        · exact ⟨d, hd, hmatch⟩
      obtain ⟨hothers, hclean⟩ := ih hrest
      rw [updateEntry, if_neg hc]
      constructor
      · rw [List.filter_cons, List.filter_cons, hothers]
      · rw [List.forall_mem_cons, List.forall_mem_cons]
        exact fun hall => ⟨hall.1, hclean hall.2⟩

end Update

/-- What is written: a list that keeps the other entries, and the added one. -/
theorem apply_eq (hclean : ∀ c ∈ configs, Clean c) : ∃ kept,
    edit.apply configs = kept ++ (edit.added configs).toList ∧ edit.others kept = edit.others configs ∧
      ∀ c ∈ kept, Clean c := by
  cases edit with
  | remove pkg uid =>
    refine ⟨(PackageEdit.remove pkg uid).others configs, (List.append_nil _).symm, ?_, ?_⟩
    · rw [PackageEdit.others, PackageEdit.others, List.filter_filter]
      simp
    · exact fun c hc => hclean c (List.mem_filter.1 hc).1
  | setFlags pkg uid allow exclude =>
    by_cases h : configs.any (PackageEdit.setFlags pkg uid allow exclude).concerns
    · have hadded : (PackageEdit.setFlags pkg uid allow exclude).added configs = none := if_pos h
      have hsome : ∃ c ∈ configs, c.pkg = pkg ∧ c.uid = uid := by
        simpa [PackageEdit.concerns] using h
      obtain ⟨hothers, hkeep⟩ := @updateEntry_of_some _ _ _ allow exclude hsome
      rw [hadded]
      exact ⟨_, (List.append_nil _).symm, hothers, hkeep hclean⟩
    · have hadded : (PackageEdit.setFlags pkg uid allow exclude).added configs =
          some ⟨pkg, exclude.getD false, allow.getD false, uid, uid, ""⟩ := if_neg h
      have hnone : ∀ c ∈ configs, ¬ (c.pkg = pkg ∧ c.uid = uid) := by
        simpa [PackageEdit.concerns] using h
      rw [hadded]
      exact ⟨configs, updateEntry_of_none hnone, rfl, hclean⟩

theorem others_map_asRead (configs : List PackageConfig) :
    edit.others (configs.map PackageConfig.asRead) = (edit.others configs).map PackageConfig.asRead := by
  unfold PackageEdit.others
  rw [List.filter_map]
  congr 1
  apply List.filter_congr
  intro c _
  cases edit <;> simp [PackageEdit.concerns, asRead_pkg, asRead_uid]

/-- The rows of other pairs in the file that is written for a list. -/
theorem others_written (hclean : ∀ c ∈ configs, Clean c) :
    edit.others (parsePackageConfig (packageConfigText (edit.apply configs))) =
      (edit.others configs).map PackageConfig.asRead ++ edit.stray configs := by
  obtain ⟨kept, happly, hothers, hkept⟩ := @apply_eq edit _ hclean
  have hrows (rest : String) : readRows (rowsText kept ++ rest) =
      kept.map PackageConfig.asRead ++ readRows rest :=
    readRows_rowsText (fun c hc => (hkept c hc).1) (fun c hc => (hkept c hc).2) rest
  have htext : rowsText (edit.apply configs) = rowsText kept ++ rowsText (edit.added configs).toList := by
    rw [happly, rowsText, List.foldl_append, foldl_rows]
    rfl
  rw [parsePackageConfig_text, htext, hrows, PackageEdit.others, List.filter_append,
    ← PackageEdit.others, ← PackageEdit.others, others_map_asRead, hothers]
  congr 1
  unfold PackageEdit.stray
  cases edit.added configs with
  | none => rfl
  | some entry =>
    rw [Option.toList_some, rowsText_cons]
    show edit.others (readRows (packageRow entry ++ "\n" ++ "")) = _
    rw [String.append_empty]

theorem concerns_added {entry : PackageConfig} (h : edit.added configs = some entry) :
    edit.concerns entry = true ∧ '\n' ∉ entry.sctx.toList := by
  cases edit with
  | remove pkg uid => cases h
  | setFlags pkg uid allow exclude =>
    change (if _ then _ else _) = _ at h
    split at h
    · cases h
    · obtain rfl := Option.some.inj h
      exact ⟨by simp [PackageEdit.concerns], (by decide : '\n' ∉ "".toList)⟩

/-- A name of one line brings no row of another pair with it. -/
theorem stray_eq_nil (h : ∀ entry ∈ edit.added configs, '\n' ∉ entry.pkg.toList) :
    edit.stray configs = [] := by
  unfold PackageEdit.stray
  cases hadded : edit.added configs with
  | none => rfl
  | some entry =>
    obtain ⟨hconcerns, hsctx⟩ := concerns_added hadded
    have hrow := readRows_row (h entry hadded) hsctx ""
    rw [String.append_empty] at hrow
    have hown : edit.others [entry.asRead] = [] := by
      show edit.others ([entry].map PackageConfig.asRead) = []
      rw [others_map_asRead, PackageEdit.others, List.filter_cons_of_neg (by simp [hconcerns])]
      rfl
    show edit.others (readRows (packageRow entry ++ "\n")) = []
    rw [hrow]
    split
    · rfl
    · exact hown

theorem any_others (edit : PackageEdit) (configs : List PackageConfig) (p : PackageConfig → Bool) :
    configs.any p = ((configs.filter edit.concerns).any p || (edit.others configs).any p) := by
  induction configs with
  | nil => rfl
  | cons c configs ih =>
    rw [List.any_cons, ih]
    unfold PackageEdit.others
    rw [List.filter_cons, List.filter_cons]
    cases edit.concerns c <;> simp [Bool.or_assoc, Bool.or_left_comm]

/-- Where the other rows are as they were, the answer for a uid of theirs is too. -/
theorem any_rows_of_others {rows rows' : List PackageConfig} {p : PackageConfig → Bool}
    (hothers : edit.others rows' = edit.others rows)
    (hown : (rows'.filter edit.concerns).any p = (rows.filter edit.concerns).any p) :
    rows'.any p = rows.any p := by
  rw [any_others edit rows', any_others edit rows, hothers, hown]

/-- A uid that no row of the edited pair is for gets the answers it got. -/
theorem verdicts_of_others {uid : Int32} (hothers : edit.others file'.rows = edit.others file.rows)
    (huid : ∀ row ∈ file.rows ++ file'.rows, edit.concerns row → row.uidInRange uid = false)
    (hread : ∃ attempt < CONFIG_READ_RETRIES, reads attempt = false) :
    uidGrantedRoot reads file' uid = uidGrantedRoot reads file uid ∧
      uidShouldUmount reads file' uid = uidShouldUmount reads file uid := by
  have hown (flag : PackageConfig → Bool) (rows : List PackageConfig)
      (hrows : rows ⊆ file.rows ++ file'.rows) :
      (rows.filter edit.concerns).any (fun c => flag c && c.uidInRange uid) = false := by
    rw [List.any_eq_false]
    intro row hrow
    obtain ⟨hmem, hconcerns⟩ := List.mem_filter.1 hrow
    rw [huid row (hrows hmem) hconcerns, Bool.and_false]
    exact Bool.false_ne_true
  have hbefore := List.subset_append_left file.rows file'.rows
  have hafter := List.subset_append_right file.rows file'.rows
  unfold uidGrantedRoot uidShouldUmount
  rw [readPackageConfig_of_read hread, readPackageConfig_of_read hread]
  constructor
  · exact any_rows_of_others hothers ((hown _ _ hafter).trans (hown _ _ hbefore).symm)
  · exact any_rows_of_others hothers ((hown _ _ hafter).trans (hown _ _ hbefore).symm)

/-- The condition under which an edit leaves the rows of other pairs as they are. The file is read and no
context loses a carriage return, or there was no row to lose; and a name of several lines brings no new
row. -/
def PackageEdit.Harmless (edit : PackageEdit) (reads : Nat → Bool) (file : ConfigFile) : Prop :=
  ((∃ attempt < CONFIG_READ_RETRIES, reads attempt = false) →
      (∀ row ∈ edit.others file.rows, ¬ row.LosesCr) ∧ edit.stray file.rows = []) ∧
    ((∀ attempt < CONFIG_READ_RETRIES, reads attempt = true) →
      edit.others file.rows = edit.stray [])

end OnyxZygisk.Daemon.Apatch
