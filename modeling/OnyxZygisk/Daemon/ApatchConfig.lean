import OnyxZygisk.Lib.Csv
import OnyxZygisk.Lib.Text

/-!
# The APatch package configuration

Rows `pkg,exclude,allow,uid,to_uid,sctx` under a header. The writer puts a field with a comma, a quote or
a line feed in quotes; the reader splits the text into lines before it looks at any quote, and a carriage
return at the end of a line goes with the line's end. So a row is read as it was written when it has no
line feed and no bare carriage return at its end (`round_trip_iff`).
-/

namespace OnyxZygisk.Daemon

structure PackageConfig where
  pkg : String
  exclude : Bool
  allow : Bool
  uid : Int32
  toUid : Int32
  sctx : String
  deriving DecidableEq

/-- A grant may be for a range of uids. -/
def PackageConfig.uidInRange (config : PackageConfig) (uid : Int32) : Bool :=
  uid = config.uid || (config.toUid > config.uid && config.uid ≤ uid && uid ≤ config.toUid)

def parseCsvLine (line : String) : List String := (Csv.parse ',' '"' line.toList).map String.ofList

def csvEscape (field : String) : String :=
  String.ofList (Csv.escape '"' [',', '"', '\n'] field.toList)

/-- One line of the file below the header; a malformed one is skipped. -/
def parsePackageRow (line : String) : Option PackageConfig :=
  match parseCsvLine line with
  | pkg :: exclude :: allow :: uid :: toUid :: sctx :: _ =>
    match Text.parseU8 exclude, Text.parseU8 allow, Text.parseI32 uid, Text.parseI32 toUid with
    | some exclude, some allow, some uid, some toUid =>
      if pkg = "" then none else some ⟨pkg, exclude = 1, allow = 1, uid, toUid, sctx⟩
    | _, _, _, _ => none
  | _ => none

def parsePackageConfig (content : String) : List PackageConfig :=
  ((Text.lines content).drop 1).filterMap parsePackageRow

def printFlag (flag : Bool) : String := if flag then "1" else "0"

/-- The row of an entry, its line feed apart. -/
def packageRow (config : PackageConfig) : String :=
  csvEscape config.pkg ++ "," ++ printFlag config.exclude ++ "," ++ printFlag config.allow ++ "," ++
    Text.printI32 config.uid ++ "," ++ Text.printI32 config.toUid ++ "," ++ csvEscape config.sctx

/-- The text `write_package_config` puts into the file. -/
def packageConfigText (configs : List PackageConfig) : String :=
  configs.foldl (fun content config => content ++ (packageRow config ++ "\n"))
    "pkg,exclude,allow,uid,to_uid,sctx\n"

/-! ### What is read -/

variable {config : PackageConfig} {configs : List PackageConfig}

theorem mem_of_mem_parseCsvLine {line field : String} {c : Char} (h : field ∈ parseCsvLine line)
    (hc : c ∈ field.toList) : c ∈ line.toList := by
  obtain ⟨f, hf, rfl⟩ := List.mem_map.1 h
  rw [String.toList_ofList] at hc
  exact Csv.mem_of_mem_parse hf hc

/-- The texts of an entry come from its line. -/
theorem mem_line_of_parsePackageRow {line : String} (h : parsePackageRow line = some config) {c : Char}
    (hc : c ∈ config.pkg.toList ∨ c ∈ config.sctx.toList) : c ∈ line.toList := by
  unfold parsePackageRow at h
  split at h
  · rename_i hfields
    split at h
    · split at h
      · cases h
      · obtain rfl := Option.some.inj h
        rcases hc with hc | hc
        · exact mem_of_mem_parseCsvLine (by rw [hfields]; simp) hc
        · exact mem_of_mem_parseCsvLine (by rw [hfields]; simp) hc
    · cases h
  · cases h

/-- No entry that is read has a line feed. -/
theorem lf_not_mem_parsePackageConfig {content : String} (h : config ∈ parsePackageConfig content) :
    '\n' ∉ config.pkg.toList ∧ '\n' ∉ config.sctx.toList := by
  obtain ⟨line, hline, hrow⟩ := List.mem_filterMap.1 h
  have hlf := Text.lf_not_mem_lines (List.mem_of_mem_drop hline)
  exact ⟨fun hc => hlf (mem_line_of_parsePackageRow hrow (.inl hc)),
    fun hc => hlf (mem_line_of_parsePackageRow hrow (.inr hc))⟩

theorem pkg_ne_of_parsePackageRow {line : String} (h : parsePackageRow line = some config) :
    config.pkg ≠ "" := by
  unfold parsePackageRow at h
  split at h
  · split at h
    · split at h
      · cases h
      · rename_i hpkg
        obtain rfl := Option.some.inj h
        exact hpkg
    · cases h
  · cases h

/-! ### A row as one line -/

/-- The fields of an entry. -/
def PackageConfig.fields (config : PackageConfig) : List String :=
  [config.pkg, printFlag config.exclude, printFlag config.allow, Text.printI32 config.uid,
    Text.printI32 config.toUid, config.sctx]

/-- A text that stands without quotes. -/
def Bare (field : String) : Prop := ',' ∉ field.toList ∧ '"' ∉ field.toList ∧ '\n' ∉ field.toList

instance (field : String) : Decidable (Bare field) := by unfold Bare; infer_instance

theorem any_special_iff {field : String} :
    field.toList.any [',', '"', '\n'].contains = true ↔ ¬ Bare field := by
  unfold Bare
  rw [List.any_eq_true]
  constructor
  · rintro ⟨c, hc, hspecial⟩ ⟨hcomma, hquote, hlf⟩
    simp only [List.contains_iff_mem, List.mem_cons, List.not_mem_nil, or_false] at hspecial
    rcases hspecial with rfl | rfl | rfl
    · exact hcomma hc
    · exact hquote hc
    · exact hlf hc
  · intro h
    by_contra hno
    refine h ⟨fun hc => hno ⟨_, hc, by decide⟩, fun hc => hno ⟨_, hc, by decide⟩,
      fun hc => hno ⟨_, hc, by decide⟩⟩

theorem csvEscape_of_bare {field : String} (h : Bare field) : csvEscape field = field := by
  rw [csvEscape, Csv.escape, if_neg fun hany => any_special_iff.1 hany h, String.ofList_toList]

theorem getLast?_csvEscape {field : String} (h : ¬ Bare field) :
    (csvEscape field).toList.getLast? = some '"' := by
  rw [csvEscape, Csv.escape, if_pos (any_special_iff.2 h), String.toList_ofList, List.getLast?_concat]

theorem csvEscape_printFlag (flag : Bool) : csvEscape (printFlag flag) = printFlag flag := by
  cases flag <;> decide

theorem csvEscape_printI32 (z : Int32) : csvEscape (Text.printI32 z) = Text.printI32 z := by
  have hno (c : Char) (hc : c ≠ '-' ∧ c.isDigit = false) : c ∉ (Text.printI32 z).toList := by
    intro hmem
    rcases Text.mem_printI32 hmem with h | h
    · exact hc.1 h
    · rw [hc.2] at h
      exact Bool.noConfusion h
  exact csvEscape_of_bare ⟨hno _ (by decide), hno _ (by decide), hno _ (by decide)⟩

/-- The fields that a line was made of are read back. -/
theorem parse_escaped {fields : List String} (h : fields ≠ []) :
    (Csv.parse ',' '"' ([','].intercalate (fields.map fun field => (csvEscape field).toList))).map
      String.ofList = fields := by
  have hmap : (fields.map fun field => (csvEscape field).toList) =
      (fields.map String.toList).map (Csv.escape '"' [',', '"', '\n']) := by
    rw [List.map_map]
    apply List.map_congr_left
    intro field _
    rw [csvEscape, String.toList_ofList]
    rfl
  have hid : String.ofList ∘ String.toList = id := funext fun _ => String.ofList_toList
  obtain ⟨field, others, rfl⟩ := List.exists_cons_of_ne_nil h
  rw [hmap, List.map_cons, Csv.parse_line (by decide) (by simp) (by simp), ← List.map_cons, List.map_map,
    hid, List.map_id]

theorem toList_packageRow (config : PackageConfig) : (packageRow config).toList =
    [','].intercalate (config.fields.map fun field => (csvEscape field).toList) := by
  simp only [PackageConfig.fields, List.map_cons, List.map_nil, csvEscape_printFlag,
    csvEscape_printI32, packageRow, List.intercalate_cons_cons, List.intercalate_singleton,
    String.toList_append, List.append_assoc]
  rfl

theorem parseCsvLine_packageRow (config : PackageConfig) :
    parseCsvLine (packageRow config) = config.fields := by
  rw [parseCsvLine, toList_packageRow]
  exact parse_escaped (List.cons_ne_nil _ _)

/-- What `csv_escape` made of the fields of a line, with commas between them, is read as these fields,
whatever characters they hold. -/
theorem parseCsvLine_join (fields : List String) (h : fields ≠ []) :
    parseCsvLine (",".intercalate (fields.map csvEscape)) = fields := by
  have hline : (",".intercalate (fields.map csvEscape)).toList =
      [','].intercalate (fields.map fun field => (csvEscape field).toList) := by
    rw [String.toList_intercalate, List.map_map]
    rfl
  rw [parseCsvLine, hline]
  exact parse_escaped h

/-- Quotes, commas and a line feed inside the fields. -/
theorem parseCsvLine_join_quoted :
    parseCsvLine ",\"a,\"\"b\nc\"\"\",plain,\"\"\"\"" = ["", "a,\"b\nc\"", "plain", "\""] := by
  have hline : ",\"a,\"\"b\nc\"\"\",plain,\"\"\"\"" =
      ",".intercalate (["", "a,\"b\nc\"", "plain", "\""].map csvEscape) := by decide
  rw [hline]
  exact parseCsvLine_join _ (List.cons_ne_nil _ _)

/-- A row without a name is a malformed one. -/
theorem parsePackageRow_packageRow (config : PackageConfig) :
    parsePackageRow (packageRow config) = if config.pkg = "" then none else some config := by
  have hflag (flag : Bool) : ∃ n, Text.parseU8 (printFlag flag) = some n ∧ decide (n = 1) = flag := by
    cases flag
    · exact ⟨0, by decide, by decide⟩
    · exact ⟨1, by decide, by decide⟩
  obtain ⟨exclude, hexclude, hexcl⟩ := hflag config.exclude
  obtain ⟨allow, hallow, hall⟩ := hflag config.allow
  rw [parsePackageRow, parseCsvLine_packageRow]
  simp only [PackageConfig.fields, hexclude, hallow, Text.parseI32_printI32, hexcl, hall]

/-! ### A row in the file -/

/-- The context is the end of the line, and a carriage return there is taken for the line's. -/
def PackageConfig.LosesCr (config : PackageConfig) : Prop :=
  Bare config.sctx ∧ config.sctx.toList.getLast? = some '\r'

instance (config : PackageConfig) : Decidable config.LosesCr := by
  unfold PackageConfig.LosesCr
  infer_instance

/-- The entry that is read from the row of an entry. -/
def PackageConfig.asRead (config : PackageConfig) : PackageConfig :=
  if config.LosesCr then { config with sctx := String.ofList config.sctx.toList.dropLast } else config

theorem asRead_eq_iff : config.asRead = config ↔ ¬ config.LosesCr := by
  unfold PackageConfig.asRead
  split
  · rename_i hcr
    refine ⟨fun h => ?_, fun h => absurd hcr h⟩
    have hlen := congrArg (fun c : PackageConfig => c.sctx.toList.length) h
    have hne : config.sctx.toList ≠ [] := by
      intro hnil
      have hlast := hcr.2
      rw [hnil] at hlast
      cases hlast
    have hpos := List.length_pos_iff.2 hne
    simp only [String.toList_ofList, List.length_dropLast] at hlen
    omega
  · rename_i hcr
    exact ⟨fun _ => hcr, fun _ => rfl⟩

/-- The row of an entry up to its context. -/
theorem toList_packageRow_sctx (config : PackageConfig) : ∃ front : List Char, ∀ sctx,
    (packageRow { config with sctx := sctx }).toList = front ++ ',' :: (csvEscape sctx).toList := by
  refine ⟨(csvEscape config.pkg ++ "," ++ printFlag config.exclude ++ "," ++ printFlag config.allow ++ "," ++
    Text.printI32 config.uid ++ "," ++ Text.printI32 config.toUid).toList, fun sctx => ?_⟩
  rw [packageRow, String.toList_append, @String.toList_append _ ",", List.append_assoc]
  rfl

theorem stripCr_packageRow (config : PackageConfig) :
    Text.stripCr (packageRow config).toList = (packageRow config.asRead).toList := by
  obtain ⟨front, hrow⟩ := toList_packageRow_sctx config
  have hself : (packageRow config).toList = front ++ ',' :: (csvEscape config.sctx).toList :=
    hrow config.sctx
  unfold PackageConfig.asRead
  split
  · rename_i hcr
    obtain ⟨hbare, hlast⟩ := hcr
    have hne : config.sctx.toList ≠ [] := by
      intro hnil
      rw [hnil] at hlast
      cases hlast
    have hbare' : Bare (String.ofList config.sctx.toList.dropLast) := by
      unfold Bare
      rw [String.toList_ofList]
      exact ⟨fun h => hbare.1 (List.mem_of_mem_dropLast h),
        fun h => hbare.2.1 (List.mem_of_mem_dropLast h), fun h => hbare.2.2 (List.mem_of_mem_dropLast h)⟩
    rw [hself, csvEscape_of_bare hbare, hrow, csvEscape_of_bare hbare', String.toList_ofList, Text.stripCr,
      if_pos]
    · rw [List.dropLast_append_of_ne_nil (List.cons_ne_nil _ _), List.dropLast_cons_of_ne_nil hne]
    · rw [List.getLast?_append_cons, List.getLast?_cons, hlast]
      rfl
  · rename_i hcr
    apply Text.stripCr_of_getLast?
    rw [hself, List.getLast?_append_cons, List.getLast?_cons]
    by_cases hbare : Bare config.sctx
    · rw [csvEscape_of_bare hbare]
      cases hlast : config.sctx.toList.getLast? with
      | none => decide
      | some c =>
        intro hc
        exact hcr ⟨hbare, hlast.trans hc⟩
    · rw [getLast?_csvEscape hbare]
      decide

theorem lf_not_mem_csvEscape {field : String} (h : '\n' ∉ field.toList) :
    '\n' ∉ (csvEscape field).toList := by
  rw [csvEscape, String.toList_ofList]
  intro hmem
  rcases Csv.mem_of_mem_escape hmem with hquote | hfield
  · exact absurd hquote (by decide)
  · exact h hfield

theorem lf_not_mem_packageRow (hpkg : '\n' ∉ config.pkg.toList) (hsctx : '\n' ∉ config.sctx.toList) :
    '\n' ∉ (packageRow config).toList := by
  have hflag (flag : Bool) : '\n' ∉ (printFlag flag).toList := by
    cases flag <;> decide
  have hint (z : Int32) : '\n' ∉ (Text.printI32 z).toList := by
    intro h
    rcases Text.mem_printI32 h with h | h <;> exact absurd h (by decide)
  have hcomma : '\n' ∉ ",".toList := by decide
  simp only [packageRow, String.toList_append, List.mem_append, not_or]
  exact ⟨⟨⟨⟨⟨⟨⟨⟨⟨⟨lf_not_mem_csvEscape hpkg, hcomma⟩, hflag _⟩, hcomma⟩, hflag _⟩, hcomma⟩, hint _⟩, hcomma⟩,
    hint _⟩, hcomma⟩, lf_not_mem_csvEscape hsctx⟩

/-! ### The file -/

/-- What stands below the header. -/
def rowsText (configs : List PackageConfig) : String :=
  configs.foldl (fun content config => content ++ (packageRow config ++ "\n")) ""

theorem foldl_rows (start : String) (configs : List PackageConfig) :
    configs.foldl (fun content config => content ++ (packageRow config ++ "\n")) start =
      start ++ rowsText configs := by
  unfold rowsText
  induction configs generalizing start with
  | nil => rw [List.foldl_nil, List.foldl_nil, String.append_empty]
  | cons config configs ih =>
    rw [List.foldl_cons, List.foldl_cons, ih, ih ("" ++ _), String.empty_append, String.append_assoc]

theorem rowsText_cons (config : PackageConfig) (configs : List PackageConfig) :
    rowsText (config :: configs) = packageRow config ++ "\n" ++ rowsText configs := by
  rw [rowsText, List.foldl_cons, foldl_rows, String.empty_append]

/-- The rows of a text without a header. -/
def readRows (text : String) : List PackageConfig := (Text.lines text).filterMap parsePackageRow

theorem parsePackageConfig_text (configs : List PackageConfig) :
    parsePackageConfig (packageConfigText configs) = readRows (rowsText configs) := by
  have hheader : "pkg,exclude,allow,uid,to_uid,sctx\n" =
      String.ofList ("pkg,exclude,allow,uid,to_uid,sctx".toList ++ ['\n']) := by decide
  rw [packageConfigText, foldl_rows, parsePackageConfig, hheader, Text.lines_line (by decide)]
  rfl

theorem asRead_pkg (config : PackageConfig) : config.asRead.pkg = config.pkg := by
  unfold PackageConfig.asRead
  split <;> rfl

theorem asRead_uid (config : PackageConfig) : config.asRead.uid = config.uid := by
  unfold PackageConfig.asRead
  split <;> rfl

theorem readRows_row (hlf : '\n' ∉ config.pkg.toList) (hsctx : '\n' ∉ config.sctx.toList)
    (rest : String) : readRows (packageRow config ++ "\n" ++ rest) =
      (if config.pkg = "" then [] else [config.asRead]) ++ readRows rest := by
  have hline : packageRow config ++ "\n" = String.ofList ((packageRow config).toList ++ ['\n']) := by
    have hend : "\n" = String.ofList ['\n'] := by decide
    rw [hend, String.ofList_append, String.ofList_toList]
  have hrow := parsePackageRow_packageRow config.asRead
  rw [asRead_pkg] at hrow
  rw [readRows, hline, Text.lines_line (lf_not_mem_packageRow hlf hsctx), stripCr_packageRow,
    String.ofList_toList]
  split
  · rename_i hpkg
    rw [if_pos hpkg] at hrow
    rw [List.filterMap_cons_none hrow, ← readRows, List.nil_append]
  · rename_i hpkg
    rw [if_neg hpkg] at hrow
    rw [List.filterMap_cons_some hrow, ← readRows, List.singleton_append]

/-- Rows without a line feed are read one by one. -/
theorem readRows_rowsText (hpkg : ∀ config ∈ configs, config.pkg ≠ "")
    (hlf : ∀ config ∈ configs, '\n' ∉ config.pkg.toList ∧ '\n' ∉ config.sctx.toList) (rest : String) :
    readRows (rowsText configs ++ rest) = configs.map PackageConfig.asRead ++ readRows rest := by
  induction configs with
  | nil =>
    rw [rowsText, List.foldl_nil, String.empty_append, List.map_nil, List.nil_append]
  | cons config configs ih =>
    rw [List.forall_mem_cons] at hpkg hlf
    rw [rowsText_cons, String.append_assoc, readRows_row hlf.1.1 hlf.1.2, if_neg hpkg.1, ih hpkg.2 hlf.2]
    rfl

/-- An entry whose row is read as it is. -/
def PackageConfig.Readable (config : PackageConfig) : Prop :=
  '\n' ∉ config.pkg.toList ∧ '\n' ∉ config.sctx.toList ∧
    (config.sctx.toList.getLast? = some '\r' → ',' ∈ config.sctx.toList ∨ '"' ∈ config.sctx.toList)

theorem not_losesCr_iff (hsctx : '\n' ∉ config.sctx.toList) : ¬ config.LosesCr ↔
    (config.sctx.toList.getLast? = some '\r' → ',' ∈ config.sctx.toList ∨ '"' ∈ config.sctx.toList) := by
  unfold PackageConfig.LosesCr Bare
  grind

/-- Entries without a line feed are read one by one. -/
theorem parsePackageConfig_written (hpkg : ∀ config ∈ configs, config.pkg ≠ "")
    (hlf : ∀ config ∈ configs, '\n' ∉ config.pkg.toList ∧ '\n' ∉ config.sctx.toList) :
    parsePackageConfig (packageConfigText configs) = configs.map PackageConfig.asRead := by
  have hrows := readRows_rowsText hpkg hlf ""
  rw [String.append_empty] at hrows
  rw [parsePackageConfig_text, hrows]
  exact List.append_nil _

/-- The configuration is read as it was written just when no name and no context has a line feed, and each
context that ends with a carriage return has a comma or a quote. -/
theorem round_trip_iff (configs : List PackageConfig) (hpkg : ∀ config ∈ configs, config.pkg ≠ "") :
    parsePackageConfig (packageConfigText configs) = configs ↔
      ∀ config ∈ configs, config.Readable := by
  constructor
  · intro h config hmem
    have hlf : ∀ config ∈ configs, '\n' ∉ config.pkg.toList ∧ '\n' ∉ config.sctx.toList := by
      intro config hmem
      rw [← h] at hmem
      exact lf_not_mem_parsePackageConfig hmem
    obtain ⟨hlfpkg, hlfsctx⟩ := hlf config hmem
    rw [parsePackageConfig_written hpkg hlf] at h
    have heq : config.asRead = config := List.map_inj_left.1 (h.trans (List.map_id configs).symm) config hmem
    exact ⟨hlfpkg, hlfsctx, (not_losesCr_iff hlfsctx).1 (asRead_eq_iff.1 heq)⟩
  · intro h
    have hself : ∀ config ∈ configs, config.asRead = id config := by
      intro config hmem
      obtain ⟨-, hlfsctx, hcr⟩ := h config hmem
      exact asRead_eq_iff.2 ((not_losesCr_iff hlfsctx).2 hcr)
    rw [parsePackageConfig_written hpkg fun config hmem => ⟨(h config hmem).1, (h config hmem).2.1⟩,
      List.map_inj_left.2 hself, List.map_id]

theorem round_trip_magisk :
    let configs : List PackageConfig := [⟨"com.example.app", false, true, 10023, 19999, "u:r:magisk:s0"⟩]
    (∀ config ∈ configs, config.Readable) ∧ parsePackageConfig (packageConfigText configs) = configs := by
  have hreadable : ∀ config ∈ [(⟨"com.example.app", false, true, 10023, 19999, "u:r:magisk:s0"⟩ :
      PackageConfig)], config.Readable := by
    unfold PackageConfig.Readable
    decide
  exact ⟨hreadable, (round_trip_iff _ (by decide)).2 hreadable⟩

/-- The quotes around a line feed do not keep its row together. -/
theorem round_trip_lf :
    let configs : List PackageConfig := [⟨"com.example.app", false, true, 10023, 10023, "u:r\nmagisk"⟩]
    (∀ config ∈ configs, config.pkg ≠ "") ∧ parsePackageConfig (packageConfigText configs) ≠ configs := by
  refine ⟨by decide, fun h => ?_⟩
  have hlf := lf_not_mem_parsePackageConfig (h ▸ List.mem_singleton_self _)
  exact hlf.2 (by decide)

end OnyxZygisk.Daemon
