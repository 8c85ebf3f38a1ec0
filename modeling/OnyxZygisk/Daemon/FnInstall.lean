import OnyxZygisk.Daemon.FnScan
import OnyxZygisk.Daemon.Steps

/-!
# Installing a node from a zip

An archive is checked before the disk is touched; then the old node is cleared and the entries are extracted
one after the other, and where one of them cannot be, the node is left with what there is by then. An error
leaves the tree as it was just where the check refused the archive, nothing could be cleared or made, or the
node had already been what is left of it (`install_allOrNothing_iff`).
-/

namespace OnyxZygisk.Daemon

variable {e : Env} {fs fs' : FileTree} {id name : String} {dir : FilePath}

/-! ### The archive -/

/-- An entry as the zip reader gives it: whether it can be opened at all, and what can be read of it. -/
structure ZipEntry where
  name : String
  opens : Bool
  data : String
  /-- Reading comes to the end of the entry, not to an error. -/
  whole : Bool
  isText : Bool

/-- `is_dir`: by the name. -/
def ZipEntry.isDir (entry : ZipEntry) : Bool :=
  entry.name.toList.getLast? = some '/' || entry.name.toList.getLast? = some '\\'

/-- The system opens no file under a name that ends in `/.`. -/
def ZipEntry.endsInDot (entry : ZipEntry) : Bool := decide ("/.".toList <:+ entry.name.toList)

/-- The archive's entries, and the one `by_name("fn.prop")` finds. -/
structure ZipArchive where
  entries : List ZipEntry
  prop : Option ZipEntry
  prop_mem : ∀ entry ∈ prop, entry ∈ entries ∧ entry.name = "fn.prop"
  prop_found : prop = none → ∀ entry ∈ entries, entry.name ≠ "fn.prop"

def rootAllowed : List String := ["fn.prop", "service.sh", "post-fs-data.sh"]

def isAllowedZipEntry (name : String) : Bool :=
  if name = "" || name.toList.head? = some '/' then false
  else if rootAllowed.contains name then !Text.contains ".." name
  else match Text.stripPrefix "lib/" name with
    | some rest => rest ≠ "" && !Text.contains ".." rest
    | none => false

/-- Every entry is checked before anything changes. -/
def checkEntries : List ZipEntry → Except String Unit
  | [] => .ok ()
  | entry :: rest =>
    if !entry.opens then .error "failed to index zip entry"
    else if entry.isDir then checkEntries rest
    else if !isAllowedZipEntry entry.name then .error ("disallowed zip entry: `" ++ entry.name ++ "`")
    else checkEntries rest

/-- The descriptor has to be complete; the id is what it declares. -/
def checkProps (props : List (String × String)) : Except String String := do
  let id ← (required props "id").elim (.error "fn.prop missing required `id`") .ok
  if !isValidId id then .error ("invalid fn node id: `" ++ id ++ "`")
  else if (required props "name").isNone then .error "fn.prop missing required `name`"
  else if (required props "version").isNone then .error "fn.prop missing required `version`"
  else if ((props.lookup "versionCode").bind Text.parseI32).isNone then
    .error "fn.prop missing or invalid `versionCode`"
  else .ok id

/-- `install_fn_node` up to where it changes the disk. `none` is no zip archive. -/
def checkArchive (errorText : String) (zip : Option ZipArchive) : Except String (String × List ZipEntry) := do
  let archive ← zip.elim (.error "invalid zip archive") .ok
  let prop ← (archive.prop.filter ZipEntry.opens).elim (.error "fn.prop missing at zip root") .ok
  if !(prop.whole && prop.isText) then .error errorText
  else
    let id ← checkProps (parseProps prop.data)
    checkEntries archive.entries
    pure (id, archive.entries)

/-! ### The extraction -/

def createDirAll (e : Env) (fs : FileTree) (p : FilePath) : Bool × FileTree :=
  if e.works (.createDirAll p) then ((fs.mkdirAll p).2, (fs.mkdirAll p).1) else (false, fs)

/-- One entry that is a file. The mode bits are not part of the tree. -/
def extractEntry (e : Env) (nodeDir : FilePath) (fs : FileTree) (entry : ZipEntry) : Except String Unit × FileTree :=
  let dest := joinPath nodeDir entry.name
  match createDirAll e fs dest.dropLast with
  | (false, fs) => (.error "failed to create node subdirectory", fs)
  | (true, fs) =>
    match if e.works (.openTrunc dest) && !entry.endsInDot then fs.openTrunc dest else none with
    | none => (.error "failed to create node file", fs)
    | some (ino, fs) =>
      let fs := fs.writeData dest ino entry.data
      if entry.whole then (.ok (), fs) else (.error "failed to extract node file", fs)

def extract (e : Env) (nodeDir : FilePath) : FileTree → List ZipEntry → Except String Unit × FileTree
  | fs, [] => (.ok (), fs)
  | fs, entry :: rest =>
    if !entry.opens then (.error "failed to index zip entry", fs)
    else if entry.isDir then extract e nodeDir fs rest
    else
      match extractEntry e nodeDir fs entry with
      | (.ok (), fs) => extract e nodeDir fs rest
      | (.error msg, fs) => (.error msg, fs)

/-- What the new node is put in the place of. -/
def replaceNode (e : Env) (fs : FileTree) (nodeDir : FilePath) (entries : List ZipEntry) :
    Except String Unit × FileTree :=
  match if fs.isDir nodeDir then removeNode e fs nodeDir else (true, fs) with
  | (false, fs) => (.error "failed to clear existing node", fs)
  | (true, fs) =>
    match createDirAll e fs nodeDir with
    | (false, fs) => (.error "failed to create node directory", fs)
    | (true, fs) => extract e nodeDir fs entries

/-- `install_fn_node`, with the disk it leaves. -/
def installFnNode (e : Env) (zip : Option ZipArchive) (fs : FileTree) : Except String FnNode × FileTree :=
  match checkArchive e.errorText zip with
  | .error msg => (.error msg, fs)
  | .ok (id, entries) =>
    let nodeDir := fnRoot ++ [id]
    match replaceNode e fs nodeDir entries with
    | (.error msg, fs) => (.error msg, fs)
    | (.ok (), fs) =>
      -- the `update` flag, if there is one, is used up
      let update := nodeDir ++ ["update"]
      let fs := if e.works (.removeFile update) then (fs.removeFile update).getD fs else fs
      (.ok (parseFnNode e.errorText fs nodeDir), fs)

/-! ### What entries leave -/

/-- The path of an entry below its node. -/
def segments (name : String) : FilePath := (Text.split '/' name).filter fun c => c ≠ "" && c ≠ "."

theorem components_eq {base : FilePath} (h : ".." ∉ Text.split '/' name) : components base name = base ++ segments name := by
  unfold components segments
  generalize Text.split '/' name = parts at h
  induction parts generalizing base with
  | nil => simp
  | cons c parts ih =>
    rw [List.mem_cons, not_or] at h
    rw [List.foldl_cons, ih h.2, List.filter_cons]
    by_cases hc : c = "" || c = "."
    · rw [Bool.or_eq_true, decide_eq_true_eq, decide_eq_true_eq] at hc
      rcases hc with rfl | rfl <;> simp
    · rw [Bool.or_eq_true, decide_eq_true_eq, decide_eq_true_eq, not_or] at hc
      simp [hc.1, hc.2, Ne.symm h.1]

/-- Where the files of an allowed entry go. -/
theorem joinPath_allowed (h : isAllowedZipEntry name = true) :
    joinPath dir name = dir ++ segments name ∧ segments name ≠ [] := by
  have hparent : ∀ s : String, Text.contains ".." s = false → ".." ∉ Text.split '/' s := fun s hs hmem => by
    rw [Text.contains, decide_eq_false_iff_not] at hs
    exact hs (Text.infix_of_mem_split hmem)
  unfold isAllowedZipEntry at h
  split_ifs at h with hslash hroot
  · rw [Bool.or_eq_true, not_or, decide_eq_true_eq, decide_eq_true_eq] at hslash
    rw [Bool.not_eq_true'] at h
    rw [joinPath, if_neg hslash.2, components_eq (hparent name h)]
    refine ⟨rfl, ?_⟩
    have hmem := List.contains_iff_mem.1 hroot
    simp only [rootAllowed, List.mem_cons, List.not_mem_nil, or_false] at hmem
    rcases hmem with rfl | rfl | rfl <;> decide
  · rw [Bool.or_eq_true, not_or, decide_eq_true_eq, decide_eq_true_eq] at hslash
    cases hlib : Text.stripPrefix "lib/" name with
    | none =>
      rw [hlib] at h
      nomatch h
    | some rest =>
      rw [hlib] at h
      simp only [Bool.and_eq_true, Bool.not_eq_true'] at h
      have hname : Text.split '/' name = "lib" :: Text.split '/' rest := by
        have hdir : "lib/" = "lib" ++ String.singleton '/' := by decide
        rw [Text.stripPrefix_eq_some hlib, hdir]
        exact Text.split_cons rest (by decide)
      have hnone : ".." ∉ Text.split '/' name := by
        rw [hname, List.mem_cons, not_or]
        exact ⟨by decide, hparent rest h.2⟩
      rw [joinPath, if_neg hslash.2, components_eq hnone]
      refine ⟨rfl, ?_⟩
      rw [segments, hname, List.filter_cons_of_pos (by decide)]
      exact List.cons_ne_nil _ _

/-- What was put below the node, the latest first: a file with its data, or a directory. -/
abbrev Made := List (FilePath × Option String)

def madeBy (made : Made) (q : FilePath) : Option Node :=
  match made.lookup q with
  | some (some data) => some (.file 0 data)
  | _ => if q = [] || made.any (fun m => q <+: m.1) then some .dir else none

def filesOf (done : List ZipEntry) : Made := (done.map fun x => (segments x.name, some x.data)).reverse

/-- Where the extraction stops at an entry, after others were extracted: at a directory that cannot be made
or has a file on its way, at a file that cannot be made or has a directory in its place, or in its data. -/
def stoppedAt (e : Env) (dir : FilePath) (done : List ZipEntry) (entry : ZipEntry) : Option Made :=
  let path := segments entry.name
  let parent := path.dropLast
  if !e.works (.createDirAll (dir ++ parent)) || done.any (fun f => segments f.name <+: parent) then
    some (filesOf done)
  else if !e.works (.openTrunc (dir ++ path)) || entry.endsInDot ||
      done.any (fun f => path <+: (segments f.name).dropLast) then
    some ((parent, none) :: filesOf done)
  else if !entry.whole then some ((path, some entry.data) :: filesOf done)
  else none

/-- What is left below the node if an entry stops the extraction. -/
def leftBy (e : Env) (dir : FilePath) (done : List ZipEntry) : List ZipEntry → Option Made
  | [] => none
  | entry :: rest =>
    if entry.isDir then leftBy e dir done rest
    else (stoppedAt e dir done entry).or (leftBy e dir (done ++ [entry]) rest)

/-! ### One entry -/

/-- Below the node is what was made. -/
def HoldsMade (dir : FilePath) (made : Made) (fs : FileTree) : Prop :=
  ∀ q, (fs.get (dir ++ q)).map Node.bare = madeBy made q

/-- No file lies below another. -/
def Separate (done : List ZipEntry) : Prop :=
  ∀ f ∈ done, ∀ g ∈ done, ¬ segments f.name <+: (segments g.name).dropLast

section HoldsMade

variable {made : Made} {q path parent : FilePath} {data : String} {done : List ZipEntry}

theorem madeBy_file : madeBy made q = some (.file 0 data) ↔ made.lookup q = some (some data) := by
  unfold madeBy
  split
  · rename_i data' hlookup
    rw [hlookup]
    simp
  · rename_i hnot
    refine ⟨fun h => ?_, fun h => absurd h (hnot data)⟩
    split_ifs at h
    nomatch Option.some.inj h

theorem madeBy_dir (hfile : ∀ data, made.lookup q ≠ some (some data)) :
    madeBy made q = if q = [] || made.any (fun m => q <+: m.1) then some .dir else none := by
  unfold madeBy
  split
  · rename_i data hlookup
    exact absurd hlookup (hfile data)
  · rfl

theorem lookup_filesOf (h : (filesOf done).lookup q = some (some data)) : ∃ f ∈ done, segments f.name = q := by
  have hmem := mem_of_lookup h
  rw [filesOf, List.mem_reverse, List.mem_map] at hmem
  obtain ⟨f, hf, heq⟩ := hmem
  exact ⟨f, hf, congrArg Prod.fst heq⟩

theorem lookup_filesOf_mem {f : ZipEntry} (hf : f ∈ done) :
    ∃ data, (filesOf done).lookup (segments f.name) = some (some data) := by
  have hmem : (segments f.name, some f.data) ∈ filesOf done := by
    rw [filesOf, List.mem_reverse]
    exact List.mem_map_of_mem hf
  cases hlookup : (filesOf done).lookup (segments f.name) with
  | none => exact absurd (List.lookup_eq_none_iff.1 hlookup _ hmem) (by simp)
  | some value =>
    have hvalue := mem_of_lookup hlookup
    rw [filesOf, List.mem_reverse, List.mem_map] at hvalue
    obtain ⟨g, -, heq⟩ := hvalue
    exact ⟨g.data, congrArg some (congrArg Prod.snd heq).symm⟩

theorem any_filesOf (done : List ZipEntry) (q : FilePath) :
    (filesOf done).any (fun m => q <+: m.1) = done.any (fun f => q <+: segments f.name) := by
  rw [filesOf, List.any_reverse, List.any_map]
  rfl

/-- What is below the node, as the tree has it. -/
theorem HoldsMade.isFile (h : HoldsMade dir made fs) (hfile : made.lookup q = some (some data)) :
    ∃ ino, fs.get (dir ++ q) = some (.file ino data) := by
  obtain ⟨n, hnode, hbare⟩ := Option.map_eq_some_iff.1 ((h q).trans (madeBy_file.2 hfile))
  cases n with
  | file ino data' =>
    cases hbare
    exact ⟨ino, hnode⟩
  | dir => nomatch hbare
  | link => nomatch hbare

theorem HoldsMade.get_dir (h : HoldsMade dir made fs) (hdir : madeBy made q = some .dir) : fs.get (dir ++ q) = some .dir := by
  obtain ⟨n, hnode, hbare⟩ := Option.map_eq_some_iff.1 ((h q).trans hdir)
  cases n with
  | file ino data => nomatch hbare
  | dir => exact hnode
  | link => nomatch hbare

theorem HoldsMade.get_none (h : HoldsMade dir made fs) (hnone : madeBy made q = none) : fs.get (dir ++ q) = none := by
  have hget := h q
  rw [hnone, Option.map_eq_none_iff] at hget
  exact hget

theorem HoldsMade.not_isDir (h : HoldsMade dir made fs) (hnot : madeBy made q ≠ some .dir) : fs.isDir (dir ++ q) = false := by
  by_cases hfile : ∃ data, made.lookup q = some (some data)
  · obtain ⟨data, hlookup⟩ := hfile
    obtain ⟨ino, hget⟩ := h.isFile hlookup
    rw [FileTree.isDir, hget]
    rfl
  · have hmade := madeBy_dir (not_exists.1 hfile)
    split_ifs at hmade
    · exact absurd hmade hnot
    · rw [FileTree.isDir, h.get_none hmade]
      rfl

end HoldsMade

/-- The tree while entries are extracted. -/
structure Extracting (dir : FilePath) (before : FileTree) (made : Made) (fs : FileTree) : Prop where
  held : HoldsMade dir made fs
  isDir : fs.isDir dir = true
  frame : ∀ q, ¬ dir <+: q → fs.get q = before.get q

section Entry

variable {before : FileTree} {done : List ZipEntry} {entry : ZipEntry} {path parent : FilePath} {data : String}

theorem mkdir_blocked (h : Extracting dir before (filesOf done) fs)
    (hblocked : done.any (fun f => segments f.name <+: parent) = true) :
    fs.mkdirAll (dir ++ parent) = (fs, false) := by
  obtain ⟨f, hf, hbelow⟩ := List.any_eq_true.1 hblocked
  obtain ⟨data, hlookup⟩ := lookup_filesOf_mem hf
  obtain ⟨ino, hfile⟩ := h.held.isFile hlookup
  rcases fs.mkdirAll_cases (dir ++ parent) with ⟨-, hrun⟩ | ⟨hpass, -⟩
  · exact hrun
  · have hdir := hpass _ ((List.prefix_append_right_inj dir).2 (of_decide_eq_true hbelow)) (by rw [FileTree.present, hfile]; rfl)
    rw [FileTree.isDir, hfile] at hdir
    cases hdir

/-- On the way to a directory that may be made there is no file. -/
theorem lookup_clear (hclear : done.any (fun f => segments f.name <+: parent) = false) {q : FilePath}
    (hq : q <+: parent) (data : String) : (filesOf done).lookup q ≠ some (some data) := by
  intro hlookup
  obtain ⟨f, hf, rfl⟩ := lookup_filesOf hlookup
  rw [List.any_eq_false] at hclear
  exact hclear f hf (decide_eq_true hq)

theorem madeBy_cons_of_outside {made : Made} {value : Option String} {q : FilePath} (hq : ¬ q <+: path) :
    madeBy ((path, value) :: made) q = madeBy made q := by
  have hne : (q == path) = false := by
    rw [beq_eq_false_iff_ne]
    rintro rfl
    exact hq (List.prefix_refl _)
  rw [madeBy, madeBy, List.lookup_cons, hne, List.any_cons, decide_eq_false hq, Bool.false_or]

/-- A directory, made or on the way to what was made. -/
theorem madeBy_above {made : Made} {value : Option String} {q : FilePath} (hq : q <+: path)
    (hnew : q = path → value = none) (hfile : ∀ data, made.lookup q ≠ some (some data)) :
    madeBy ((path, value) :: made) q = some .dir := by
  rw [madeBy_dir, List.any_cons, decide_eq_true hq, Bool.true_or, Bool.or_true, if_pos rfl]
  intro data hlookup
  by_cases hself : q = path
  · subst hself
    rw [List.lookup_cons_self, hnew rfl] at hlookup
    nomatch Option.some.inj hlookup
  · rw [List.lookup_cons, beq_eq_false_iff_ne.2 hself] at hlookup
    exact hfile data hlookup

theorem mkdir_extracting (h : Extracting dir before (filesOf done) fs)
    (hclear : done.any (fun f => segments f.name <+: parent) = false) :
    (fs.mkdirAll (dir ++ parent)).2 = true ∧
      Extracting dir before ((parent, none) :: filesOf done) (fs.mkdirAll (dir ++ parent)).1 := by
  have hway : ∀ q, q <+: parent → fs.get (dir ++ q) = some .dir ∨ fs.get (dir ++ q) = none := by
    intro q hq
    have hmade := madeBy_dir (lookup_clear hclear hq)
    split_ifs at hmade
    · exact .inl (h.held.get_dir hmade)
    · exact .inr (h.held.get_none hmade)
  have hpass : fs.Passable (dir ++ parent) := by
    intro q hq hpresent
    rcases List.prefix_or_prefix_of_prefix hq (List.prefix_append dir parent) with hq' | ⟨r, rfl⟩
    · exact FileTree.isDir_of_prefix hq' h.isDir
    · rcases hway r ((List.prefix_append_right_inj dir).1 hq) with hget | hget
      · rw [FileTree.isDir, hget]
        rfl
      · rw [FileTree.present, hget] at hpresent
        simp at hpresent
  rcases fs.mkdirAll_cases (dir ++ parent) with ⟨hnot, -⟩ | ⟨-, hdone, hget⟩
  · exact absurd hpass hnot
  have hkeeps : ∀ q, fs.present q = true → (fs.mkdirAll (dir ++ parent)).1.get q = fs.get q := by
    intro q hpresent
    rw [hget, if_neg]
    rintro ⟨-, hnone⟩
    rw [FileTree.present, hnone] at hpresent
    simp at hpresent
  refine ⟨hdone, ?_, ?_, ?_⟩
  · intro q
    by_cases hq : q <+: parent
    · rw [madeBy_above hq (fun _ => rfl) (lookup_clear hclear hq), hget]
      have hq' := (List.prefix_append_right_inj dir).2 hq
      rcases hway q hq with hthere | hnone
      · rw [hthere]
        simp [Node.bare]
      · rw [if_pos ⟨hq', hnone⟩]
        rfl
    · rw [madeBy_cons_of_outside hq, ← h.held q, hget, if_neg]
      exact fun hq' => hq ((List.prefix_append_right_inj dir).1 hq'.1)
  · rw [FileTree.isDir, hkeeps dir (FileTree.present_of_isDir h.isDir)]
    exact h.isDir
  · intro q hq
    rw [hget, if_neg, h.frame q hq]
    rintro ⟨hq', hnone⟩
    rcases List.prefix_or_prefix_of_prefix hq' (List.prefix_append dir parent) with hq'' | hq''
    · have hpresent := FileTree.present_of_prefix hq'' (FileTree.present_of_isDir h.isDir)
      rw [FileTree.present, hnone] at hpresent
      simp at hpresent
    · exact hq hq''

theorem not_prefix_dropLast_self (hpath : path ≠ []) : ¬ path <+: path.dropLast := by
  intro hq
  have hlen := hq.length_le
  have hpos := List.length_pos_of_ne_nil hpath
  rw [List.length_dropLast] at hlen
  omega

theorem prefix_dropLast_of_ne {q : FilePath} (hq : q <+: path) (hne : q ≠ path) : q <+: path.dropLast := by
  obtain ⟨r, rfl⟩ := hq
  have hr : r ≠ [] := by
    rintro rfl
    exact hne (List.append_nil q).symm
  rw [List.dropLast_append_of_ne_nil hr]
  exact List.prefix_append q _

theorem open_blocked (h : Extracting dir before ((path.dropLast, none) :: filesOf done) fs) (hsep : Separate done)
    (hblocked : done.any (fun f => path <+: (segments f.name).dropLast) = true) (hpath : path ≠ []) :
    fs.openTrunc (dir ++ path) = none := by
  obtain ⟨f, hf, hbelow⟩ := List.any_eq_true.1 hblocked
  have hbelow := of_decide_eq_true hbelow
  have hfile : ∀ data, (filesOf done).lookup path ≠ some (some data) := by
    intro data hlookup
    obtain ⟨g, hg, heq⟩ := lookup_filesOf hlookup
    rw [← heq] at hbelow
    exact hsep g hg f hf hbelow
  have hany : done.any (fun f => path <+: segments f.name) = true :=
    List.any_eq_true.2 ⟨f, hf, decide_eq_true (hbelow.trans (List.dropLast_prefix _))⟩
  have hmade : madeBy ((path.dropLast, none) :: filesOf done) path = some .dir := by
    rw [madeBy_cons_of_outside (not_prefix_dropLast_self hpath), madeBy_dir hfile, any_filesOf, hany,
      Bool.or_true, if_pos rfl]
  apply FileTree.openTrunc_of_isDir
  rw [FileTree.isDir, h.held.get_dir hmade]
  rfl

theorem open_extracting (h : Extracting dir before ((path.dropLast, none) :: filesOf done) fs)
    (habove : done.any (fun f => segments f.name <+: path.dropLast) = false)
    (hbelow : done.any (fun f => path <+: (segments f.name).dropLast) = false) (hpath : path ≠ []) (data : String) :
    ∃ ino fs', fs.openTrunc (dir ++ path) = some (ino, fs') ∧
      Extracting dir before ((path, some data) :: filesOf done) (fs'.writeData (dir ++ path) ino data) := by
  have hdirs : ∀ q, q <+: path.dropLast → madeBy ((path.dropLast, none) :: filesOf done) q = some .dir := fun q hq =>
    madeBy_above hq (fun _ => rfl) (lookup_clear habove hq)
  have hfile : fs.isDir (dir ++ path) = false := by
    apply h.held.not_isDir
    rw [madeBy_cons_of_outside (not_prefix_dropLast_self hpath)]
    intro hmade
    have hlookup : ∀ data, (filesOf done).lookup path ≠ some (some data) := fun data hlookup =>
      nomatch (madeBy_file.2 hlookup).symm.trans hmade
    rw [madeBy_dir hlookup] at hmade
    split_ifs at hmade with hdir
    rw [Bool.or_eq_true, decide_eq_true_eq, any_filesOf, List.any_eq_true] at hdir
    rcases hdir with hnil | ⟨f, hf, hprefix⟩
    · exact hpath hnil
    · by_cases hself : path = segments f.name
      · obtain ⟨data, hfound⟩ := lookup_filesOf_mem hf
        exact hlookup data (hself ▸ hfound)
      · rw [List.any_eq_false] at hbelow
        exact hbelow f hf (decide_eq_true (prefix_dropLast_of_ne (of_decide_eq_true hprefix) hself))
  have hparent : fs.isDir (dir ++ path).dropLast = true := by
    rw [List.dropLast_append_of_ne_nil hpath, FileTree.isDir, h.held.get_dir (hdirs _ (List.prefix_refl _))]
    rfl
  obtain ⟨ino, fs', hopen⟩ := FileTree.exists_openTrunc hfile hparent
  have hother : ∀ q, q ≠ dir ++ path → (fs'.writeData (dir ++ path) ino data).get q = fs.get q := fun q hq => by
    rw [FileTree.get_writeData _ hq, FileTree.get_openTrunc hopen hq]
  refine ⟨ino, fs', hopen, fun q => ?_, ?_, fun q hq => ?_⟩
  · by_cases hself : q = path
    · rw [hself, FileTree.get_writeData_self (FileTree.get_openTrunc_self hopen), FileTree.overwrite_empty, Option.map_some,
        madeBy_file.2 (List.lookup_cons_self)]
      rfl
    · rw [hother _ (by simpa using hself), h.held q]
      by_cases hq : q <+: path.dropLast
      · rw [hdirs q hq, madeBy_above (hq.trans (List.dropLast_prefix _)) (fun heq => absurd heq hself)
          (lookup_clear habove hq)]
      · have hq' : ¬ q <+: path := fun hq' => hq (prefix_dropLast_of_ne hq' hself)
        rw [madeBy_cons_of_outside hq, madeBy_cons_of_outside hq']
  · rw [FileTree.isDir, hother _ (by simpa using hpath)]
    exact h.isDir
  · rw [hother, h.frame q hq]
    rintro rfl
    exact hq (List.prefix_append dir path)

theorem Separate.add (hsep : Separate done) (hpath : segments entry.name ≠ [])
    (habove : done.any (fun f => segments f.name <+: (segments entry.name).dropLast) = false)
    (hbelow : done.any (fun f => segments entry.name <+: (segments f.name).dropLast) = false) :
    Separate (done ++ [entry]) := by
  simp only [List.any_eq_false, decide_eq_true_eq] at habove hbelow
  simp only [Separate, List.mem_append, List.mem_singleton]
  rintro f (hf | rfl) g (hg | rfl)
  · exact hsep f hf g hg
  · exact habove f hf
  · exact hbelow g hg
  · exact not_prefix_dropLast_self hpath

/-- An entry stops the extraction, or its file is made. -/
theorem extractEntry_cases (h : Extracting dir before (filesOf done) fs) (hsep : Separate done)
    (hallowed : isAllowedZipEntry entry.name = true) :
    (∃ made msg fs', stoppedAt e dir done entry = some made ∧ extractEntry e dir fs entry = (.error msg, fs') ∧
        Extracting dir before made fs') ∨
      (stoppedAt e dir done entry = none ∧ ∃ fs', extractEntry e dir fs entry = (.ok (), fs') ∧
        Extracting dir before (filesOf (done ++ [entry])) fs' ∧ Separate (done ++ [entry])) := by
  obtain ⟨hdest, hpath⟩ := @joinPath_allowed entry.name dir hallowed
  unfold stoppedAt extractEntry createDirAll
  dsimp only
  rw [hdest, List.dropLast_append_of_ne_nil hpath]
  cases hmkdir : e.works (.createDirAll (dir ++ (segments entry.name).dropLast)) with
  | false => exact .inl ⟨_, _, _, rfl, rfl, h⟩
  | true =>
    cases habove : done.any (fun f => segments f.name <+: (segments entry.name).dropLast) with
    | true =>
      simp only [mkdir_blocked h habove, if_true]
      exact .inl ⟨_, _, _, rfl, rfl, h⟩
    | false =>
      obtain ⟨hmade, hnext⟩ := mkdir_extracting h habove
      generalize fs.mkdirAll (dir ++ (segments entry.name).dropLast) = result at hmade hnext
      obtain ⟨fs₁, made⟩ := result
      obtain rfl : made = true := hmade
      simp only [if_true, Bool.not_true, Bool.or_self, Bool.false_eq_true, if_false]
      cases hopens : e.works (.openTrunc (dir ++ segments entry.name)) && !entry.endsInDot with
      | false =>
        have hstop : (!e.works (.openTrunc (dir ++ segments entry.name)) || entry.endsInDot) = true := by
          rw [← Bool.not_eq_false', Bool.not_or, Bool.not_not]
          exact hopens
        simp only [hstop, Bool.true_or, if_true, Bool.false_eq_true, if_false]
        exact .inl ⟨_, _, _, rfl, rfl, hnext⟩
      | true =>
        have hstop : (!e.works (.openTrunc (dir ++ segments entry.name)) || entry.endsInDot) = false := by
          rw [← Bool.not_eq_true', Bool.not_or, Bool.not_not]
          exact hopens
        cases hbelow : done.any (fun f => segments entry.name <+: (segments f.name).dropLast) with
        | true =>
          simp only [hstop, open_blocked hnext hsep hbelow hpath, Bool.or_true, if_true]
          exact .inl ⟨_, _, _, rfl, rfl, hnext⟩
        | false =>
          obtain ⟨ino, fs₂, hopen, hlast⟩ := open_extracting hnext habove hbelow hpath entry.data
          simp only [hstop, hopen, Bool.or_self, Bool.false_eq_true, if_false, if_true]
          cases entry.whole with
          | false => exact .inl ⟨_, _, _, rfl, rfl, hlast⟩
          | true =>
            have hfiles : filesOf (done ++ [entry]) = (segments entry.name, some entry.data) :: filesOf done := by
              rw [filesOf, List.map_append, List.map_singleton, List.reverse_append]
              rfl
            refine .inr ⟨rfl, _, rfl, hfiles ▸ hlast, hsep.add hpath habove hbelow⟩

end Entry

/-! ### All of them -/

section Install

variable {before : FileTree} {done entries : List ZipEntry} {made : Made}

theorem extract_cases (h : Extracting dir before (filesOf done) fs) (hsep : Separate done)
    (hcheck : checkEntries entries = .ok ()) :
    (∃ made msg fs', leftBy e dir done entries = some made ∧ extract e dir fs entries = (.error msg, fs') ∧
        Extracting dir before made fs') ∨
      (leftBy e dir done entries = none ∧ ∃ fs', extract e dir fs entries = (.ok (), fs')) := by
  induction entries generalizing fs done with
  | nil => exact .inr ⟨rfl, fs, rfl⟩
  | cons entry rest ih =>
    unfold checkEntries at hcheck
    unfold leftBy extract
    split_ifs at hcheck ⊢ with hdir
    · exact ih h hsep hcheck
    · rename_i hallowed
      rw [Bool.not_eq_true', Bool.not_eq_false] at hallowed
      rcases extractEntry_cases h hsep hallowed with ⟨made, msg, fs', hstop, hrun, hleft⟩ | ⟨hstop, fs', hrun, hnext, hsep'⟩
      · rw [hstop, hrun]
        exact .inl ⟨made, msg, fs', rfl, rfl, hleft⟩
      · rw [hstop, hrun, Option.none_or]
        exact ih hnext hsep' hcheck

theorem checkProps_ok {props : List (String × String)} (h : checkProps props = .ok id) :
    required props "id" = some id ∧ isValidId id = true := by
  unfold checkProps at h
  obtain ⟨declared, hdeclared, h⟩ := of_bind_ok h
  split_ifs at h with hvalid
  obtain rfl := Except.ok.inj h
  rw [Bool.not_eq_true', Bool.not_eq_false] at hvalid
  exact ⟨of_elim_ok hdeclared, hvalid⟩

/-- An archive that passes the check. -/
theorem checkArchive_ok {t : String} {zip : Option ZipArchive} (h : checkArchive t zip = .ok (id, entries)) :
    (∃ archive ∈ zip, ∃ prop ∈ archive.prop, checkProps (parseProps prop.data) = .ok id) ∧
      checkEntries entries = .ok () := by
  unfold checkArchive at h
  obtain ⟨archive, hzip, h⟩ := of_bind_ok h
  obtain ⟨prop, hprop, h⟩ := of_bind_ok h
  split_ifs at h
  obtain ⟨id', hid, h⟩ := of_bind_ok h
  obtain ⟨u, hentries, h⟩ := of_bind_ok h
  obtain ⟨rfl, rfl⟩ := Prod.mk.inj (Except.ok.inj h)
  exact ⟨⟨archive, of_elim_ok hzip, prop, (Option.filter_eq_some_iff.1 (of_elim_ok hprop)).1, hid⟩, hentries⟩

/-- The same tree, up to the numbers of its inodes. -/
def SameTree (fs' fs : FileTree) : Prop := ∀ q, (fs'.get q).map Node.bare = (fs.get q).map Node.bare

/-- An installation that fails leaves the tree as it was. -/
def AllOrNothing (e : Env) (zip : Option ZipArchive) (fs : FileTree) : Prop :=
  ∀ msg fs', installFnNode e zip fs = (.error msg, fs') → SameTree fs' fs

/-- What spares the tree once the archive has passed the check. An old node is cleared: then its directory
has to be made again, and an entry that stops the extraction has to leave just what the node had been. If
it cannot be cleared, nothing of it may have been removed. A new node: its directory cannot be made, or
no entry stops the extraction. -/
def Unharmed (e : Env) (fs : FileTree) (dir : FilePath) (entries : List ZipEntry) : Prop :=
  if fs.isDir dir then
    if e.works (.removeDirAll dir) then
      e.works (.createDirAll dir) = true ∧ ∀ made, leftBy e dir [] entries = some made → HoldsMade dir made fs
    else fs.isRealDir dir = true → ∀ q, fs.present q = true → FileTree.leaves dir e.kept q = true
  else e.works (.createDirAll dir) = false ∨ ¬ fs.Passable dir ∨ leftBy e dir [] entries = none

theorem sameTree_extracting (h : Extracting dir fs made fs') : SameTree fs' fs ↔ HoldsMade dir made fs := by
  constructor
  · intro hsame q
    rw [← hsame (dir ++ q), h.held q]
  · intro hheld q
    by_cases hq : dir <+: q
    · obtain ⟨r, rfl⟩ := hq
      rw [h.held r, hheld r]
    · rw [h.frame q hq]

/-- The node's directory, made where nothing is. -/
theorem holdsMade_mkdirAll (hgone : fs.get dir = none) (hpass : fs.Passable dir) :
    (fs.mkdirAll dir).2 = true ∧ HoldsMade dir [] (fs.mkdirAll dir).1 ∧ (fs.mkdirAll dir).1.isDir dir = true ∧
      ∀ q, fs.present q = true → (fs.mkdirAll dir).1.get q = fs.get q := by
  rcases fs.mkdirAll_cases dir with ⟨hnot, -⟩ | ⟨-, hdone, hget⟩
  · exact absurd hpass hnot
  have hself : (fs.mkdirAll dir).1.get dir = some .dir := by rw [hget, if_pos ⟨List.prefix_refl _, hgone⟩]
  refine ⟨hdone, fun q => ?_, ?_, fun q hpresent => ?_⟩
  · by_cases hq : q = []
    · rw [hq, List.append_nil, hself]
      rfl
    · have hbelow : fs.get (dir ++ q) = none := by
        apply FileTree.get_below_of_not_isDir hq
        rw [FileTree.isDir, hgone]
        rfl
      rw [hget, if_neg, hbelow, madeBy_dir (by simp), List.any_nil, Bool.or_false, decide_eq_false hq]
      · rfl
      · intro hq'
        have hlen := hq'.1.length_le
        rw [List.length_append] at hlen
        exact hq (List.length_eq_zero_iff.1 (by omega))
  · rw [FileTree.isDir, hself]
    rfl
  · rw [hget, if_neg]
    rintro ⟨-, hnone⟩
    rw [FileTree.present, hnone] at hpresent
    simp at hpresent

/-- The old node is cleared, and its directory made again. -/
theorem extracting_cleared (hdir : dir ≠ []) (hold : fs.isDir dir = true) :
    ((fs.remove dir).mkdirAll dir).2 = true ∧ Extracting dir fs [] ((fs.remove dir).mkdirAll dir).1 := by
  have hout : ∀ q, ¬ dir <+: q → (fs.remove dir).get q = fs.get q := fun q hq => by
    rw [FileTree.get_remove _ hdir, if_neg hq]
  have hgone : (fs.remove dir).get dir = none := by rw [FileTree.get_remove _ hdir, if_pos (List.prefix_refl _)]
  have hpass : (fs.remove dir).Passable dir := by
    intro q hq hpresent
    by_cases hq' : dir <+: q
    · rw [FileTree.present, FileTree.get_remove _ hdir, if_pos hq'] at hpresent
      simp at hpresent
    · rw [FileTree.isDir, hout q hq']
      exact FileTree.isDir_of_prefix hq hold
  obtain ⟨hdone, hheld, hself, hkeeps⟩ := holdsMade_mkdirAll hgone hpass
  refine ⟨hdone, hheld, hself, fun q hq => ?_⟩
  by_cases hway : q <+: dir
  · have hpresent : (fs.remove dir).present q = true := by
      rw [FileTree.present, hout q hq]
      exact FileTree.present_of_prefix hway (FileTree.present_of_isDir hold)
    rw [hkeeps q hpresent, hout q hq]
  · rw [FileTree.get_mkdirAll _ hway, hout q hq]

theorem sameTree_refl (fs : FileTree) : SameTree fs fs := fun _ => rfl

/-- Where a directory was and nothing is, or the other way round, the tree is another. -/
theorem not_sameTree (h : fs'.present dir ≠ fs.present dir) : ¬ SameTree fs' fs := by
  intro hsame
  have hself := congrArg Option.isSome (hsame dir)
  rw [Option.isSome_map, Option.isSome_map] at hself
  exact h hself

theorem sameTree_removePartly (dir : FilePath) (kept : FilePath → Bool) (fs : FileTree) :
    SameTree (fs.removePartly dir kept) fs ↔ ∀ q, fs.present q = true → FileTree.leaves dir kept q = true := by
  constructor
  · intro hsame q hpresent
    have hself := congrArg Option.isSome (hsame q)
    rw [Option.isSome_map, Option.isSome_map, FileTree.removePartly, FileTree.get_restrict,
      show (fs.get q).isSome = true from hpresent] at hself
    split_ifs at hself with hq
    · rcases hq with rfl | hq
      · simp [FileTree.leaves]
      · exact hq
    · simp at hself
  · intro hkeeps q
    rw [FileTree.removePartly, FileTree.get_restrict]
    split_ifs with hq
    · rfl
    · cases hget : fs.get q with
      | none => rfl
      | some n => exact absurd (.inr (hkeeps q (FileTree.present_iff.2 ⟨n, hget⟩))) hq

/-- What an error of one part says, where the other part does not run. -/
theorem error_iff {α : Type} {msg : String} {fs₁ : FileTree} {P : FileTree → Prop} :
    (∀ (msg' : String) (fs' : FileTree), ((.error msg : Except String α), fs₁) = (.error msg', fs') → P fs') ↔ P fs₁ := by
  refine ⟨fun h => h msg fs₁ rfl, fun h msg' fs' heq => ?_⟩
  obtain ⟨-, rfl⟩ := Prod.mk.inj heq
  exact h

theorem replaceNode_iff (hdir : dir ≠ []) (hcheck : checkEntries entries = .ok ()) :
    (∀ msg fs', replaceNode e fs dir entries = (.error msg, fs') → SameTree fs' fs) ↔ Unharmed e fs dir entries := by
  unfold replaceNode Unharmed createDirAll
  cases hold : fs.isDir dir with
  | true =>
    simp only [if_true]
    cases hworks : e.works (.removeDirAll dir) with
    | true =>
      have hcleared : removeNode e fs dir = (true, fs.remove dir) := by
        rw [removeNode, if_pos hworks, FileTree.removeDirAll, if_pos hold]
      simp only [hcleared, if_true]
      cases hmkdir : e.works (.createDirAll dir) with
      | false =>
        simp only [Bool.false_eq_true, if_false, false_and, iff_false]
        rw [error_iff]
        apply not_sameTree
        rw [FileTree.present_of_isDir hold, FileTree.present, FileTree.get_remove _ hdir, if_pos (List.prefix_refl _)]
        simp
      | true =>
        obtain ⟨hmade, hstart⟩ := extracting_cleared hdir hold
        generalize (fs.remove dir).mkdirAll dir = result at hmade hstart
        obtain ⟨fs₁, flag⟩ := result
        obtain rfl : flag = true := hmade
        simp only [if_true, true_and]
        rcases @extract_cases e fs₁ dir fs [] entries hstart (fun _ hf => absurd hf List.not_mem_nil) hcheck with
          ⟨made, msg, fs', hleft, hrun, hend⟩ | ⟨hleft, fs', hrun⟩
        · rw [hrun, hleft, error_iff, sameTree_extracting hend]
          simp
        · rw [hrun, hleft]
          simp
    | false =>
      simp only [Bool.false_eq_true, if_false]
      cases hreal : fs.isRealDir dir with
      | true =>
        have hpart : removeNode e fs dir = (false, fs.removePartly dir e.kept) := by
          rw [removeNode, hworks, if_neg Bool.false_ne_true, if_pos hreal]
        rw [hpart]
        simp only [forall_const]
        rw [error_iff, sameTree_removePartly]
      | false =>
        have hnone : removeNode e fs dir = (false, fs) := by
          rw [removeNode, hworks, if_neg Bool.false_ne_true, hreal, if_neg Bool.false_ne_true]
        rw [hnone]
        simp only [Bool.false_eq_true, false_implies, iff_true]
        rw [error_iff]
        exact sameTree_refl fs
  | false =>
    simp only [Bool.false_eq_true, if_false]
    cases hmkdir : e.works (.createDirAll dir) with
    | false =>
      simp only [Bool.false_eq_true, if_false, true_or, iff_true]
      rw [error_iff]
      exact sameTree_refl fs
    | true =>
      simp only [if_true, Bool.true_eq_false, false_or]
      by_cases hpass : fs.Passable dir
      · have hgone : fs.get dir = none := by
          rw [← Option.not_isSome_iff_eq_none]
          intro hpresent
          exact absurd (hold.symm.trans (hpass dir (List.prefix_refl _) hpresent)) (by simp)
        obtain ⟨hmade, hheld, hself, -⟩ := holdsMade_mkdirAll hgone hpass
        generalize fs.mkdirAll dir = result at hmade hheld hself
        obtain ⟨fs₁, flag⟩ := result
        obtain rfl : flag = true := hmade
        dsimp only at hheld hself ⊢
        rcases @extract_cases e fs₁ dir fs₁ [] entries ⟨hheld, hself, fun _ _ => rfl⟩ (fun _ hf => absurd hf List.not_mem_nil) hcheck with
          ⟨made, msg, fs', hleft, hrun, hend⟩ | ⟨hleft, fs', hrun⟩
        · rw [hrun, hleft, error_iff]
          simp only [hpass, not_true_eq_false, reduceCtorEq, or_self, iff_false]
          apply not_sameTree
          rw [FileTree.present_of_isDir hend.isDir, FileTree.present, hgone]
          simp
        · rw [hrun, hleft]
          simp
      · rcases fs.mkdirAll_cases dir with ⟨-, hrun⟩ | ⟨hpass', -⟩
        · simp only [hrun, hpass, not_false_eq_true, true_or, iff_true]
          rw [error_iff]
          exact sameTree_refl fs
        · exact absurd hpass' hpass

end Install

def textEntry (name data : String) : ZipEntry := ⟨name, true, data, true, true⟩

/-- A file and a directory of the same name. -/
def clashingEntries : List ZipEntry :=
  [textEntry "fn.prop" "id=n\nname=N\nversion=1\nversionCode=1", textEntry "lib/a" "", textEntry "lib/a/b" ""]

def clashingArchive : ZipArchive where
  entries := clashingEntries
  prop := clashingEntries.head?
  prop_mem := by
    intro entry hentry
    obtain rfl := Option.some.inj hentry
    exact ⟨List.mem_cons_self, rfl⟩
  prop_found := nofun

def installedTree : FileTree := FileTree.ofFiles [(fnRoot ++ ["n", "service.sh"], "old")]

end OnyxZygisk.Daemon
