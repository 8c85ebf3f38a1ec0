import Mathlib.Data.List.Infix
import OnyxZygisk.Daemon.FnInstall
import OnyxZygisk.Daemon.FnTwice

/-!
# Where an installation writes

The files of an archive come to lie below the node's directory, under names the archive may have there. The
installation also makes that directory, with the directories on the way to it that are missing, and nothing else
(`install_contained`).
-/

namespace OnyxZygisk.Daemon

variable {e : Env} {fs fs' fs₁ fs₂ : FileTree} {id name : String} {dir p q : FilePath} {entries : List ZipEntry}

/-! ### What is created -/

inductive Creation where
  | dir (path : FilePath)
  | file (path : FilePath)
  deriving DecidableEq

def Creation.path : Creation → FilePath
  | .dir p => p
  | .file p => p

/-- The directories `create_dir_all` makes. -/
def dirsMade (e : Env) (fs : FileTree) (p : FilePath) : List Creation :=
  (p.inits.filter fun q => !fs.present q && (createDirAll e fs p).2.present q).map .dir

def entryMade (e : Env) (nodeDir : FilePath) (fs : FileTree) (entry : ZipEntry) : List Creation :=
  let dest := joinPath nodeDir entry.name
  dirsMade e fs dest.dropLast ++
    match createDirAll e fs dest.dropLast with
    | (false, _) => []
    | (true, fs) =>
      match if e.works (.openTrunc dest) && !entry.endsInDot then fs.openTrunc dest else none with
      | none => []
      | some _ => [.file dest]

def extractMade (e : Env) (nodeDir : FilePath) : FileTree → List ZipEntry → List Creation
  | _, [] => []
  | fs, entry :: rest =>
    if !entry.opens then []
    else if entry.isDir then extractMade e nodeDir fs rest
    else entryMade e nodeDir fs entry ++
      match extractEntry e nodeDir fs entry with
      | (.ok (), fs) => extractMade e nodeDir fs rest
      | (.error _, _) => []

def replaceMade (e : Env) (fs : FileTree) (nodeDir : FilePath) (entries : List ZipEntry) : List Creation :=
  match if fs.isDir nodeDir then removeNode e fs nodeDir else (true, fs) with
  | (false, _) => []
  | (true, fs) => dirsMade e fs nodeDir ++
    match createDirAll e fs nodeDir with
    | (false, _) => []
    | (true, fs) => extractMade e nodeDir fs entries

/-- What `install_fn_node` creates, in this order. -/
def installMade (e : Env) (zip : Option ZipArchive) (fs : FileTree) : List Creation :=
  match checkArchive e.errorText zip with
  | .error _ => []
  | .ok (id, entries) => replaceMade e fs (fnRoot ++ [id]) entries

/-! ### Nothing else is new -/

/-- What is there was there, or was created. -/
def Logged (made : List Creation) (fs fs' : FileTree) : Prop :=
  ∀ q, fs'.present q = true → fs'.get q = fs.get q ∨ ∃ c ∈ made, c.path = q

theorem Logged.trans {made made' : List Creation} (h : Logged made fs fs₁) (h' : Logged made' fs₁ fs₂) :
    Logged (made ++ made') fs fs₂ := by
  intro q hq
  rcases h' q hq with hsame | ⟨c, hc, hpath⟩
  · have hthere : fs₁.present q = true := by
      rw [FileTree.present, ← hsame]
      exact hq
    rcases h q hthere with hsame' | ⟨c, hc, hpath⟩
    · exact .inl (hsame.trans hsame')
    · exact .inr ⟨c, List.mem_append_left _ hc, hpath⟩
  · exact .inr ⟨c, List.mem_append_right _ hc, hpath⟩

theorem logged_of_within (h : fs'.Within fs) : Logged [] fs fs' := by
  intro q hq
  obtain ⟨n, hn⟩ := FileTree.present_iff.1 hq
  exact .inl (hn.trans (h q n hn).symm)

theorem logged_refl (fs : FileTree) : Logged [] fs fs := fun _ _ => .inl rfl

/-- What `create_dir_all` leaves. -/
theorem get_createDirAll (e : Env) (fs : FileTree) (p q : FilePath) :
    (createDirAll e fs p).2.get q = fs.get q ∨
      q <+: p ∧ fs.get q = none ∧ (createDirAll e fs p).2.get q = some .dir := by
  unfold createDirAll
  split_ifs
  · rcases fs.mkdirAll_cases p with ⟨-, hrun⟩ | ⟨-, -, hget⟩
    · rw [hrun]
      exact .inl rfl
    · dsimp only
      rw [hget]
      split_ifs with hnew
      · exact .inr ⟨hnew.1, hnew.2, rfl⟩
      · exact .inl rfl
  · exact .inl rfl

theorem logged_createDirAll (e : Env) (fs : FileTree) (p : FilePath) :
    Logged (dirsMade e fs p) fs (createDirAll e fs p).2 := by
  intro q hq
  rcases get_createDirAll e fs p q with hsame | ⟨hbelow, hnone, -⟩
  · exact .inl hsame
  · refine .inr ⟨.dir q, List.mem_map.2 ⟨q, List.mem_filter.2 ⟨(List.mem_inits _ _).2 hbelow, ?_⟩, rfl⟩, rfl⟩
    rw [hq, FileTree.present, hnone]
    rfl

theorem present_createDirAll (h : fs.present q = true) : (createDirAll e fs p).2.present q = true := by
  rcases get_createDirAll e fs p q with hsame | ⟨-, hnone, -⟩
  · rw [FileTree.present, hsame]
    exact h
  · rw [FileTree.present, hnone] at h
    simp at h

theorem logged_openTrunc {ino : Nat} {data : String} (h : fs.openTrunc p = some (ino, fs')) :
    Logged [.file p] fs (fs'.writeData p ino data) := by
  intro q _
  by_cases hq : q = p
  · exact .inr ⟨.file p, List.mem_singleton.2 rfl, hq.symm⟩
  · left
    rw [FileTree.get_writeData _ hq, FileTree.get_openTrunc h hq]

theorem present_openTrunc {ino : Nat} {data : String} (h : fs.openTrunc p = some (ino, fs')) (hq : fs.present q = true) :
    (fs'.writeData p ino data).present q = true := by
  rw [FileTree.present_writeData]
  by_cases heq : q = p
  · subst heq
    rw [FileTree.present, FileTree.get_openTrunc_self h]
    rfl
  · rw [FileTree.present, FileTree.get_openTrunc h heq]
    exact hq

/-- An entry's steps: its directories, its file, and what is there stays. -/
theorem extractEntry_logged (e : Env) (dir : FilePath) (fs : FileTree) (entry : ZipEntry) :
    Logged (entryMade e dir fs entry) fs (extractEntry e dir fs entry).2 ∧
      ∀ q, fs.present q = true → (extractEntry e dir fs entry).2.present q = true := by
  have hdirs := logged_createDirAll e fs (joinPath dir entry.name).dropLast
  have hkeeps : ∀ q, fs.present q = true → (createDirAll e fs (joinPath dir entry.name).dropLast).2.present q = true :=
    fun q hq => present_createDirAll hq
  unfold entryMade extractEntry
  dsimp only
  generalize createDirAll e fs (joinPath dir entry.name).dropLast = made at hdirs hkeeps
  obtain ⟨_ | _, fs₁⟩ := made
  · dsimp only at hdirs ⊢
    rw [List.append_nil]
    exact ⟨hdirs, hkeeps⟩
  · dsimp only at hdirs ⊢
    cases hopen : if e.works (.openTrunc (joinPath dir entry.name)) && !entry.endsInDot then
        fs₁.openTrunc (joinPath dir entry.name) else none with
    | none =>
      dsimp only
      rw [List.append_nil]
      exact ⟨hdirs, hkeeps⟩
    | some opened =>
      obtain ⟨ino, fs₂⟩ := opened
      split_ifs at hopen
      have hfile : Logged _ _ (fs₂.writeData (joinPath dir entry.name) ino entry.data) := logged_openTrunc hopen
      have hthere : ∀ q, fs.present q = true → (fs₂.writeData (joinPath dir entry.name) ino entry.data).present q = true :=
        fun q hq => present_openTrunc hopen (hkeeps q hq)
      dsimp only
      split_ifs
      · exact ⟨hdirs.trans hfile, hthere⟩
      · exact ⟨hdirs.trans hfile, hthere⟩

theorem logged_extract (e : Env) (dir : FilePath) (fs : FileTree) (entries : List ZipEntry) :
    Logged (extractMade e dir fs entries) fs (extract e dir fs entries).2 := by
  induction entries generalizing fs with
  | nil => exact logged_refl fs
  | cons entry rest ih =>
    unfold extract extractMade
    split_ifs
    · exact logged_refl fs
    · exact ih fs
    · have hentry := (extractEntry_logged e dir fs entry).1
      generalize extractEntry e dir fs entry = result at hentry
      obtain ⟨msg | u, fs₁⟩ := result
      · dsimp only at hentry ⊢
        rw [List.append_nil]
        exact hentry
      · exact hentry.trans (ih fs₁)

/-- The old node is cleared, or there is none. -/
theorem cleared_within (e : Env) (fs : FileTree) (dir : FilePath) :
    (if fs.isDir dir then removeNode e fs dir else (true, fs)).2.Within fs := by
  split_ifs
  · exact within_removeNode e fs dir
  · exact fs.within_refl

theorem logged_replaceNode (e : Env) (fs : FileTree) (dir : FilePath) (entries : List ZipEntry) :
    Logged (replaceMade e fs dir entries) fs (replaceNode e fs dir entries).2 := by
  have hclear := logged_of_within (cleared_within e fs dir)
  unfold replaceNode replaceMade
  generalize (if fs.isDir dir then removeNode e fs dir else (true, fs)) = cleared at hclear
  obtain ⟨_ | _, fs₁⟩ := cleared
  · exact hclear
  · have hdirs := logged_createDirAll e fs₁ dir
    dsimp only at hclear ⊢
    generalize createDirAll e fs₁ dir = made at hdirs
    obtain ⟨_ | _, fs₂⟩ := made
    · dsimp only at hdirs ⊢
      rw [List.append_nil]
      exact hclear.trans hdirs
    · exact hclear.trans (hdirs.trans (logged_extract e dir fs₂ entries))

theorem logged_install (e : Env) (zip : Option ZipArchive) (fs : FileTree) :
    Logged (installMade e zip fs) fs (installFnNode e zip fs).2 := by
  unfold installFnNode installMade
  cases checkArchive e.errorText zip with
  | error msg => exact logged_refl fs
  | ok result =>
    obtain ⟨id, entries⟩ := result
    have hreplace := logged_replaceNode e fs (fnRoot ++ [id]) entries
    dsimp only
    generalize replaceNode e fs (fnRoot ++ [id]) entries = replaced at hreplace
    obtain ⟨msg | u, fs₁⟩ := replaced
    · exact hreplace
    · have hupdate : (if e.works (.removeFile (fnRoot ++ [id] ++ ["update"])) then
          (fs₁.removeFile (fnRoot ++ [id] ++ ["update"])).getD fs₁ else fs₁).Within fs₁ := by
        split_ifs
        · cases hremove : fs₁.removeFile (fnRoot ++ [id] ++ ["update"]) with
          | none => exact fs₁.within_refl
          | some fs₂ =>
            obtain ⟨-, rfl⟩ := FileTree.removeFile_eq_some hremove
            show (fs₁.remove (fnRoot ++ [id] ++ ["update"])).Within fs₁
            rw [FileTree.remove]
            exact fs₁.within_restrict _ _
        · exact fs₁.within_refl
      have hall := hreplace.trans (logged_of_within hupdate)
      rw [List.append_nil] at hall
      exact hall

/-! ### Where it is -/

/-- The first name of a path below the node is one an archive may have there. -/
def NamedSo (q : FilePath) : Prop := ∃ c ∈ "lib" :: rootAllowed, q.head? = some c

/-- Below the node, under such a name; or the node's directory, or one on the way to it that was missing. -/
inductive PutAt (fs : FileTree) (dir : FilePath) : Creation → Prop
  | file (q : FilePath) (h : NamedSo q) : PutAt fs dir (.file (dir ++ q))
  | below (q : FilePath) (h : NamedSo q) : PutAt fs dir (.dir (dir ++ q))
  | self : PutAt fs dir (.dir dir)
  | above (p : FilePath) (hp : p <+: dir) (hnone : fs.present p = false) : PutAt fs dir (.dir p)

theorem namedSo_segments (h : isAllowedZipEntry name = true) : NamedSo (segments name) := by
  unfold isAllowedZipEntry at h
  split_ifs at h with hslash hroot
  · have hmem := List.contains_iff_mem.1 hroot
    refine ⟨name, List.mem_cons_of_mem _ hmem, ?_⟩
    simp only [rootAllowed, List.mem_cons, List.not_mem_nil, or_false] at hmem
    rcases hmem with rfl | rfl | rfl <;> decide
  · cases hlib : Text.stripPrefix "lib/" name with
    | none =>
      rw [hlib] at h
      simp at h
    | some rest =>
      have hname : Text.split '/' name = "lib" :: Text.split '/' rest := by
        have hdir : "lib/" = "lib" ++ String.singleton '/' := by decide
        rw [Text.stripPrefix_eq_some hlib, hdir]
        exact Text.split_cons rest (by decide)
      refine ⟨"lib", List.mem_cons_self, ?_⟩
      rw [segments, hname, List.filter_cons_of_pos (by decide)]
      rfl

theorem NamedSo.of_prefix_ne {r : FilePath} (h : NamedSo q) (hr : r <+: q) (hne : r ≠ []) : NamedSo r := by
  obtain ⟨c, hc, hhead⟩ := h
  obtain ⟨s, rfl⟩ := hr
  cases r with
  | nil => exact absurd rfl hne
  | cons x r => exact ⟨c, hc, hhead⟩

theorem mem_dirsMade {c : Creation} (h : c ∈ dirsMade e fs p) : ∃ q, q <+: p ∧ fs.present q = false ∧ c = .dir q := by
  obtain ⟨q, hq, rfl⟩ := List.mem_map.1 h
  obtain ⟨hinit, hnew⟩ := List.mem_filter.1 hq
  exact ⟨q, (List.mem_inits _ _).1 hinit, Bool.not_eq_true' _ ▸ (Bool.and_eq_true_iff.1 hnew).1, rfl⟩

/-- With the node's directory there, an entry goes below it. -/
theorem putAt_entryMade {entry : ZipEntry} {c : Creation} (hallowed : isAllowedZipEntry entry.name = true)
    (hdir : fs₁.present dir = true) (h : c ∈ entryMade e dir fs₁ entry) : PutAt fs dir c := by
  obtain ⟨hdest, hne⟩ := @joinPath_allowed entry.name dir hallowed
  have hnamed := namedSo_segments hallowed
  unfold entryMade at h
  dsimp only at h
  rw [hdest] at h
  rcases List.mem_append.1 h with h | h
  · obtain ⟨q, hq, hnone, rfl⟩ := mem_dirsMade h
    rw [List.dropLast_append_of_ne_nil hne] at hq
    rcases List.prefix_or_prefix_of_prefix hq (List.prefix_append dir _) with hq' | ⟨r, rfl⟩
    · nomatch hnone.symm.trans (FileTree.present_of_prefix hq' hdir)
    · have hr := ((List.prefix_append_right_inj dir).1 hq).trans (List.dropLast_prefix _)
      refine .below r (hnamed.of_prefix_ne hr ?_)
      rintro rfl
      rw [List.append_nil] at hnone
      nomatch hnone.symm.trans hdir
  · split at h
    · nomatch h
    · split at h
      · nomatch h
      · rw [List.mem_singleton.1 h]
        exact .file _ hnamed

theorem putAt_extractMade {c : Creation} (hcheck : checkEntries entries = .ok ()) (hdir : fs₁.present dir = true)
    (h : c ∈ extractMade e dir fs₁ entries) : PutAt fs dir c := by
  induction entries generalizing fs₁ with
  | nil => cases h
  | cons entry rest ih =>
    unfold extractMade at h
    unfold checkEntries at hcheck
    by_cases hopens : (!entry.opens) = true
    · rw [if_pos hopens] at h
      simp at h
    rw [if_neg hopens] at h hcheck
    by_cases hfile : entry.isDir = true
    · rw [if_pos hfile] at h hcheck
      exact ih hcheck hdir h
    rw [if_neg hfile] at h hcheck
    cases hallowed : isAllowedZipEntry entry.name with
    | false =>
      rw [hallowed] at hcheck
      simp at hcheck
    | true =>
      rw [hallowed] at hcheck
      have hentry := @putAt_entryMade e fs fs₁ dir entry c hallowed hdir
      have hthere := (extractEntry_logged e dir fs₁ entry).2 dir hdir
      generalize extractEntry e dir fs₁ entry = result at h hthere
      rcases List.mem_append.1 h with h | h
      · exact hentry h
      · obtain ⟨msg | u, fs₂⟩ := result
        · simp at h
        · exact ih hcheck hthere h

theorem present_of_createDirAll (h : (createDirAll e fs p).1 = true) : (createDirAll e fs p).2.present p = true := by
  unfold createDirAll at *
  split_ifs at h ⊢
  rcases fs.mkdirAll_cases p with ⟨-, hrun⟩ | ⟨-, -, hget⟩
  · rw [hrun] at h
    simp at h
  · dsimp only
    rw [FileTree.present, hget]
    cases hp : fs.get p with
    | none => rw [if_pos ⟨List.prefix_refl p, rfl⟩]; rfl
    | some n => rw [if_neg (fun h => by simp at h)]; rfl

theorem putAt_replaceMade {c : Creation} (hne : dir ≠ []) (hcheck : checkEntries entries = .ok ())
    (h : c ∈ replaceMade e fs dir entries) : PutAt fs dir c := by
  have hframe : ∀ q, ¬ dir <+: q → (if fs.isDir dir then removeNode e fs dir else (true, fs)).2.get q = fs.get q := by
    intro q hq
    split_ifs
    · exact removeNode_frame hne hq
    · rfl
  unfold replaceMade at h
  generalize (if fs.isDir dir then removeNode e fs dir else (true, fs)) = cleared at h hframe
  obtain ⟨_ | _, fs₁⟩ := cleared
  · simp at h
  · dsimp only at h hframe
    rcases List.mem_append.1 h with h | h
    · obtain ⟨q, hq, hnone, rfl⟩ := mem_dirsMade h
      by_cases hself : q = dir
      · rw [hself]
        exact .self
      · refine .above q hq ?_
        rw [FileTree.present, ← hframe q fun hdir => hself (List.IsPrefix.eq_of_length_le hq hdir.length_le)]
        exact hnone
    · have hthere := @present_of_createDirAll e fs₁ dir
      generalize createDirAll e fs₁ dir = made at h hthere
      obtain ⟨_ | _, fs₂⟩ := made
      · simp at h
      · exact putAt_extractMade hcheck (hthere rfl) h

/-! ### Flags and other nodes -/

/-- The flags the daemon keeps in a node. -/
def stateFlags : List String := ["disable", "remove", "update"]

/-- A name that is one step of a path. -/
def OneComponent (id : String) : Prop := id ≠ "" ∧ id ≠ "." ∧ id ≠ ".." ∧ '/' ∉ id.toList

theorem oneComponent_of_valid (h : isValidId id = true) : OneComponent id := by
  unfold isValidId at h
  rw [Bool.and_eq_true, decide_eq_true_eq, List.all_eq_true] at h
  obtain ⟨hne, hall⟩ := h
  refine ⟨hne, ?_, ?_, fun hslash => ?_⟩
  · rintro rfl
    exact absurd (hall '.' (by decide)) (by decide)
  · rintro rfl
    exact absurd (hall '.' (by decide)) (by decide)
  · exact absurd (hall '/' hslash) (by decide)

/-- Strictly below a directory. -/
def Below (dir p : FilePath) : Prop := dir <+: p ∧ p ≠ dir

/-- What an installation may create: files below the node's directory, and directories below it, the directory
itself or a missing one on the way to it; no flag of a node, and nothing in another node. -/
structure InNode (fs : FileTree) (id : String) (c : Creation) : Prop where
  file : ∀ p, c = .file p → Below (fnRoot ++ [id]) p
  dir : ∀ p, c = .dir p → Below (fnRoot ++ [id]) p ∨ p = fnRoot ++ [id] ∨ p <+: fnRoot ++ [id] ∧ fs.present p = false
  notFlag : ∀ root, IsRoot root → ∀ x, ∀ flag ∈ stateFlags, c.path ≠ root ++ [x, flag]
  otherNode : ∀ root, IsRoot root → ∀ x, root ++ [x] ≠ fnRoot ++ [id] → ¬ root ++ [x] <+: c.path

theorem NamedSo.ne_nil (h : NamedSo q) : q ≠ [] := by
  rintro rfl
  obtain ⟨c, -, hhead⟩ := h
  nomatch hhead

theorem below_of_namedSo (h : NamedSo q) : Below dir (dir ++ q) :=
  ⟨List.prefix_append _ _, fun heq => h.ne_nil (List.append_right_eq_self.1 heq)⟩

/-- Nothing below the node's directory is in another one. -/
theorem not_in_other {root : FilePath} {x : String} (hroot : IsRoot root) (hne : root ++ [x] ≠ fnRoot ++ [id])
    (q : FilePath) : ¬ root ++ [x] <+: fnRoot ++ [id] ++ q := by
  obtain rfl | rfl := hroot
  · have hx : x ≠ id := fun heq => hne (heq ▸ rfl)
    exact (apart_entries (.inl rfl) (.inl rfl) hx).not_below q
  · simp [fnRoot, List.cons_prefix_cons]

theorem not_flag_below {root : FilePath} {x flag : String} (hroot : IsRoot root) (hflag : flag ∈ stateFlags)
    (hnamed : NamedSo q) : fnRoot ++ [id] ++ q ≠ root ++ [x, flag] := by
  intro heq
  have hsplit : root ++ [x, flag] = root ++ [x] ++ [flag] := by simp
  have hin : root ++ [x] <+: fnRoot ++ [id] ++ q := by
    rw [heq, hsplit]
    exact List.prefix_append _ _
  have hself : root ++ [x] = fnRoot ++ [id] := by
    by_contra hne
    exact not_in_other hroot hne q hin
  rw [hsplit, hself] at heq
  obtain ⟨c, hc, hhead⟩ := hnamed
  rw [List.append_cancel_left heq, List.head?_cons, Option.some.injEq] at hhead
  subst hhead
  revert hflag
  revert hc
  simp only [rootAllowed, stateFlags, List.mem_cons, List.not_mem_nil, or_false]
  rintro (rfl | rfl | rfl | rfl) <;> decide

/-- A directory on the way to the node's is too high for a flag. -/
theorem not_flag_above {root : FilePath} {x flag : String} (hroot : IsRoot root) (hp : p <+: fnRoot ++ [id]) :
    p ≠ root ++ [x, flag] := by
  rintro rfl
  obtain rfl | rfl := hroot <;> simp [fnRoot, List.cons_prefix_cons] at hp

theorem PutAt.inNode {c : Creation} (h : PutAt fs (fnRoot ++ [id]) c) : InNode fs id c := by
  have habove : ∀ {p}, p <+: fnRoot ++ [id] → (∀ root, IsRoot root → ∀ x, ∀ flag ∈ stateFlags, p ≠ root ++ [x, flag]) ∧
      ∀ root, IsRoot root → ∀ x, root ++ [x] ≠ fnRoot ++ [id] → ¬ root ++ [x] <+: p := by
    intro p hp
    refine ⟨fun root hroot x flag _ => not_flag_above hroot hp, fun root hroot x hne hin => ?_⟩
    have hself := hin.trans hp
    rw [← List.append_nil (fnRoot ++ [id])] at hself
    exact not_in_other hroot hne [] hself
  cases h with
  | file q hnamed =>
    refine ⟨?_, nofun, fun root hroot x flag hflag => not_flag_below hroot hflag hnamed,
      fun root hroot x hne => not_in_other hroot hne q⟩
    rintro p ⟨⟩
    exact below_of_namedSo hnamed
  | below q hnamed =>
    refine ⟨nofun, ?_, fun root hroot x flag hflag => not_flag_below hroot hflag hnamed,
      fun root hroot x hne => not_in_other hroot hne q⟩
    rintro p ⟨⟩
    exact .inl (below_of_namedSo hnamed)
  | self =>
    refine ⟨nofun, ?_, (habove (List.prefix_refl _)).1, (habove (List.prefix_refl _)).2⟩
    rintro p ⟨⟩
    exact .inr (.inl rfl)
  | above p hp hnone =>
    refine ⟨nofun, ?_, (habove hp).1, (habove hp).2⟩
    rintro p ⟨⟩
    exact .inr (.inr ⟨hp, hnone⟩)

/-- An archive the check lets through names a valid id, and only what is allowed. -/
theorem checkArchive_declares {t : String} {zip : Option ZipArchive} (h : checkArchive t zip = .ok (id, entries)) :
    ∃ archive ∈ zip, ∃ prop ∈ archive.prop, required (parseProps prop.data) "id" = some id ∧ isValidId id = true := by
  obtain ⟨⟨archive, harchive, prop, hprop, hid⟩, -⟩ := checkArchive_ok h
  exact ⟨archive, harchive, prop, hprop, checkProps_ok hid⟩

/-- Whatever an installation comes to, it creates in the node whose id the archive declares, and what is on the
disk afterwards was there before or is one of these. -/
theorem install_contained (e : Env) (zip : Option ZipArchive) (fs : FileTree) :
    (∀ c ∈ installMade e zip fs, ∃ archive ∈ zip, ∃ prop ∈ archive.prop, ∃ id,
      required (parseProps prop.data) "id" = some id ∧ OneComponent id ∧ InNode fs id c) ∧
    Logged (installMade e zip fs) fs (installFnNode e zip fs).2 := by
  refine ⟨fun c hc => ?_, logged_install e zip fs⟩
  unfold installMade at hc
  cases hcheck : checkArchive e.errorText zip with
  | error msg =>
    rw [hcheck] at hc
    nomatch hc
  | ok result =>
    obtain ⟨id, entries⟩ := result
    rw [hcheck] at hc
    obtain ⟨archive, harchive, prop, hprop, hdeclared, hvalid⟩ := checkArchive_declares hcheck
    have hput : PutAt fs (fnRoot ++ [id]) c := putAt_replaceMade (by simp) (checkArchive_ok hcheck).2 hc
    exact ⟨archive, harchive, prop, hprop, id, hdeclared, oneComponent_of_valid hvalid, hput.inNode⟩

def plainEntries : List ZipEntry :=
  [textEntry "fn.prop" "id=n\nname=N\nversion=1\nversionCode=1", textEntry "service.sh" ""]

def plainArchive : ZipArchive where
  entries := plainEntries
  prop := plainEntries.head?
  prop_mem := by
    intro entry hentry
    obtain rfl := Option.some.inj hentry
    exact ⟨List.mem_cons_self, rfl⟩
  prop_found := nofun

/-- The node's own directory is made, which does not lie below itself. -/
theorem install_makes_node : ¬ ∀ (e : Env) (zip : Option ZipArchive) (fs : FileTree) (node : FnNode),
    (installFnNode e zip fs).1 = .ok node → ∀ c ∈ installMade e zip fs, ∃ id, Below (fnRoot ++ [id]) c.path := by
  intro h
  obtain ⟨node, hok⟩ : ∃ node, (installFnNode .fine (some plainArchive) installedTree).1 = .ok node := ⟨_, rfl⟩
  have hmade : Creation.dir (fnRoot ++ ["n"]) ∈ installMade .fine (some plainArchive) installedTree := by decide
  obtain ⟨id, ⟨hbelow, hne⟩⟩ := h .fine (some plainArchive) installedTree node hok _ hmade
  exact hne (List.IsPrefix.eq_of_length hbelow (by simp [Creation.path])).symm

end OnyxZygisk.Daemon
