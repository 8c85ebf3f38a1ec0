import OnyxZygisk.Daemon.FnTwice
import OnyxZygisk.Lib.FileOrder

/-!
# The order of a scan

The list a scan returns is sorted by priority and id, and no id is on it twice. A node of the work directory is
parsed between the sweeps of other nodes, though, so it depends on the order of the directory what is left of a
library that lies in one of them. Where that decides nothing, every order gives the same list
(`scan_canonical_iff`).
-/

namespace OnyxZygisk.Daemon

open FileTree (Same)

variable {e : Env} {fs fs' : FileTree} {node : FnNode} {id x t : String} {dir p q : FilePath} {ids : List String}

/-! ### The list -/

/-- By priority, then id, each before the other. -/
def FnNode.less (a b : FnNode) : Prop :=
  a.priority < b.priority ∨ a.priority = b.priority ∧ a.id ≤ b.id ∧ a.id ≠ b.id

theorem nodup_ids (e : Env) (fs : FileTree) : ((scanFnNodes e fs).1.map FnNode.id).Nodup :=
  ((List.perm_insertionSort _ _).map _).nodup_iff.2 (scanInv_scanRoots e fs).nodup

theorem less_of_before {a b : FnNode} (h : a.before b) (hne : a.id ≠ b.id) : a.less b := by
  rcases h with h | ⟨h, hid⟩
  · exact .inl h
  · exact .inr ⟨h, hid, hne⟩

theorem pairwise_less (e : Env) (fs : FileTree) : (scanFnNodes e fs).1.Pairwise FnNode.less := by
  have hids := List.pairwise_map.1 (nodup_ids e fs)
  exact ((pairwise_scanFnNodes e fs).and hids).imp fun ⟨hbefore, hne⟩ => less_of_before hbefore hne

/-! ### What a sweep takes -/

/-- The sweep of an entry takes a path away. -/
def sweeps (e : Env) (fs : FileTree) (x : String) (q : FilePath) : Bool :=
  toSweep fs x &&
    (if e.works (.removeDirAll (fnRoot ++ [x])) then decide (fnRoot ++ [x] <+: q)
      else fs.isRealDir (fnRoot ++ [x]) && !FileTree.leaves (fnRoot ++ [x]) e.kept q)

theorem leaves_outside {p q : FilePath} {kept : FilePath → Bool} (h : ¬ p <+: q) :
    FileTree.leaves p kept q = true := by
  simp [FileTree.leaves, h]

theorem get_sweepEntry (e : Env) (fs : FileTree) (x : String) (q : FilePath) :
    (sweepEntry e fs x).get q = if sweeps e fs x q then none else fs.get q := by
  unfold sweepEntry sweeps toSweep
  cases hsweep : fs.isDir (fnRoot ++ [x]) && fs.present (fnRoot ++ [x] ++ ["remove"]) with
  | false => rfl
  | true =>
    have hdir := (Bool.and_eq_true_iff.1 hsweep).1
    rw [if_pos rfl, removeNode, Bool.true_and]
    cases e.works (.removeDirAll (fnRoot ++ [x])) with
    | true =>
      rw [if_pos rfl, if_pos rfl, FileTree.removeDirAll, if_pos hdir]
      show (fs.remove (fnRoot ++ [x])).get q = _
      rw [FileTree.get_remove fs (by simp)]
      by_cases hq : fnRoot ++ [x] <+: q
      · rw [if_pos hq, if_pos (decide_eq_true hq)]
      · rw [if_neg hq, if_neg (by simpa using hq)]
    | false =>
      rw [if_neg Bool.false_ne_true, if_neg Bool.false_ne_true]
      cases fs.isRealDir (fnRoot ++ [x]) with
      | true =>
        rw [if_pos rfl, Bool.true_and]
        show (fs.removePartly (fnRoot ++ [x]) e.kept).get q = _
        rw [FileTree.removePartly, FileTree.get_restrict]
        by_cases hq : fnRoot ++ [x] <+: q
        · have hne : q ≠ [] := by
            rintro rfl
            exact absurd (List.prefix_nil.1 hq) (by simp)
          cases FileTree.leaves (fnRoot ++ [x]) e.kept q <;> simp [hne]
        · rw [leaves_outside hq, if_pos (.inr rfl)]
          rfl
      | false => rfl

theorem sweeps_congr (hself : fs'.get (fnRoot ++ [x]) = fs.get (fnRoot ++ [x]))
    (hremove : fs'.get (fnRoot ++ [x] ++ ["remove"]) = fs.get (fnRoot ++ [x] ++ ["remove"])) (q : FilePath) :
    sweeps e fs' x q = sweeps e fs x q := by
  rw [sweeps, toSweep, FileTree.isDir, FileTree.present, FileTree.isRealDir, hself, hremove]
  rfl

theorem same_sweepEntry (h : Same fs' fs) (e : Env) (x : String) : Same (sweepEntry e fs' x) (sweepEntry e fs x) := by
  intro q
  rw [get_sweepEntry, get_sweepEntry, sweeps_congr (h _) (h _), h]

/-- A path is gone after the sweep if some entry's sweep takes it. -/
theorem get_foldl_sweeps (hids : ids.Nodup) (q : FilePath) :
    (ids.foldl (sweepEntry e) fs).get q = if ids.any (sweeps e fs · q) then none else fs.get q := by
  induction ids generalizing fs with
  | nil => rfl
  | cons x ids ih =>
    obtain ⟨hx, hids⟩ := List.nodup_cons.1 hids
    have hsame : ids.any (sweeps e (sweepEntry e fs x) · q) = ids.any (sweeps e fs · q) := by
      have hother : ∀ y ∈ ids, sweeps e (sweepEntry e fs x) y q = sweeps e fs y q := by
        intro y hy
        have hne : x ≠ y := fun heq => hx (heq ▸ hy)
        have hget : ∀ r, (sweepEntry e fs x).get (fnRoot ++ [y] ++ r) = fs.get (fnRoot ++ [y] ++ r) := fun r =>
          sweepEntry_frame ((apart_entries (.inl rfl) (.inl rfl) hne).not_below r)
        have hself := hget []
        rw [List.append_nil] at hself
        exact sweeps_congr hself (hget _) q
      rw [Bool.eq_iff_iff, List.any_eq_true, List.any_eq_true]
      constructor
      · rintro ⟨y, hy, hsweep⟩
        exact ⟨y, hy, hother y hy ▸ hsweep⟩
      · rintro ⟨y, hy, hsweep⟩
        exact ⟨y, hy, (hother y hy).symm ▸ hsweep⟩
    rw [List.foldl_cons, ih hids, hsame, get_sweepEntry, List.any_cons]
    cases sweeps e fs x q <;> cases ids.any (sweeps e fs · q) <;> rfl

theorem same_sweptAll (h : Same fs' fs) (e : Env) : Same (sweptAll e fs') (sweptAll e fs) := by
  intro q
  have hany : (fs'.children fnRoot).any (sweeps e fs' · q) = (fs.children fnRoot).any (sweeps e fs · q) := by
    rw [Bool.eq_iff_iff, List.any_eq_true, List.any_eq_true]
    simp only [h.mem_children, sweeps_congr (h _) (h _)]
  rw [sweptAll, sweptAll, get_foldl_sweeps (FileTree.nodup_children _ _), get_foldl_sweeps (FileTree.nodup_children _ _), h,
    hany]

/-! ### The parse of a node -/

theorem descriptor_congr (h : fs'.read (dir ++ ["fn.prop"]) = fs.read (dir ++ ["fn.prop"])) :
    descriptor t fs' dir = descriptor t fs dir := by rw [descriptor, h, descriptor]

theorem wellFormed_of_within (h : fs'.read (dir ++ ["fn.prop"]) = fs.read (dir ++ ["fn.prop"])) (hwithin : fs'.Within fs)
    (hgood : wellFormed fs' dir = true) : wellFormed fs dir = true := by
  have hdesc := descriptor_congr (t := "") h
  cases hnode : descriptor "" fs dir with
  | error reason =>
    rw [wellFormed_of_error (hdesc.trans hnode)] at hgood
    nomatch hgood
  | ok node =>
    rw [wellFormed_of_ok (hdesc.trans hnode)] at hgood
    rw [wellFormed_of_ok hnode]
    exact equipped_of_within hwithin hgood

theorem read_same (h : Same fs' fs) (p : FilePath) : fs'.read p = fs.read p := by rw [FileTree.read, h, ← FileTree.read]

theorem within_same (h : Same fs' fs) : fs'.Within fs := fun q _ hn => h q ▸ hn

theorem wellFormed_same (h : Same fs' fs) (dir : FilePath) : wellFormed fs' dir = wellFormed fs dir := by
  rw [Bool.eq_iff_iff]
  exact ⟨wellFormed_of_within (read_same h _) (within_same h),
    wellFormed_of_within (read_same h.symm _) (within_same h.symm)⟩

theorem parseFnNode_same (h : Same fs' fs) (t : String) (dir : FilePath) : parseFnNode t fs' dir = parseFnNode t fs dir := by
  unfold parseFnNode FileTree.read FileTree.isFile FileTree.present
  simp only [h _]

/-- A node that is in order before another node is swept still is when all are. -/
def Unborrowed (e : Env) (fs : FileTree) (id : String) : Prop :=
  wellFormed (sweepEntry e fs id) (fnRoot ++ [id]) = true → wellFormed (sweptAll e fs) (fnRoot ++ [id]) = true

theorem get_visited_self (hdir : fs.isDir (fnRoot ++ [id]) = true) (q : FilePath) :
    (visited e fs id).get (fnRoot ++ [id] ++ q) = (sweepEntry e fs id).get (fnRoot ++ [id] ++ q) := by
  have hget : ∀ r, (sweptBefore e fs id).get (fnRoot ++ [id] ++ r) = fs.get (fnRoot ++ [id] ++ r) :=
    get_sweptBefore (.inl rfl)
  have hself := hget []
  rw [List.append_nil] at hself
  rw [visited, if_pos hdir, get_sweepEntry, get_sweepEntry, sweeps_congr hself (hget _), hget]

theorem visited_within (hdir : fs.isDir (fnRoot ++ [id]) = true) : (visited e fs id).Within (sweepEntry e fs id) := by
  intro q n hn
  have hget : ∀ r, (sweptBefore e fs id).get (fnRoot ++ [id] ++ r) = fs.get (fnRoot ++ [id] ++ r) :=
    get_sweptBefore (.inl rfl)
  have hself := hget []
  rw [List.append_nil] at hself
  rw [visited, if_pos hdir, get_sweepEntry, sweeps_congr hself (hget _)] at hn
  rw [get_sweepEntry]
  split_ifs at hn ⊢
  exact within_foldl e _ fs q n hn

/-- A node that no sweep changes is parsed as on the disk the scan leaves. -/
theorem parsed_visited (hdir : fs.isDir (fnRoot ++ [id]) = true) (h : Unborrowed e fs id) (t : String) :
    parseFnNode t (visited e fs id) (fnRoot ++ [id]) = parseFnNode t (sweptAll e fs) (fnRoot ++ [id]) := by
  have hread : ∀ {t₁ t₂ : FileTree}, (∀ q, t₁.get (fnRoot ++ [id] ++ q) = t₂.get (fnRoot ++ [id] ++ q)) →
      t₁.read (fnRoot ++ [id] ++ ["fn.prop"]) = t₂.read (fnRoot ++ [id] ++ ["fn.prop"]) := fun hget => by
    rw [FileTree.read, hget, FileTree.read]
  have hkeeps : wellFormed (visited e fs id) (fnRoot ++ [id]) = true → wellFormed (sweptAll e fs) (fnRoot ++ [id]) = true :=
    fun hgood => h (wellFormed_of_within (hread (get_visited_self hdir)) (visited_within hdir) hgood)
  rcases parse_again (t := t) (hread (get_sweptAll_visited hdir)) (sweptAll_within_visited e fs id) hkeeps with
    ⟨hsame, -⟩ | ⟨node, hparse, hparse'⟩
  · exact hsame.symm
  · rw [hparse, hparse', flagStatus_congr (get_sweptAll_visited hdir)]

theorem nodeDir_same (h : Same fs' fs) (id : String) : nodeDir fs' id = nodeDir fs id := by
  rw [nodeDir, h.isDir, nodeDir]

theorem toSweep_same (h : Same fs' fs) (id : String) : toSweep fs' id = toSweep fs id := by
  rw [toSweep, h.isDir, h.present, toSweep]

theorem listed_same (h : Same fs' fs) (p : FilePath) : listed fs' p = listed fs p := listed_congr fun _ => h _

theorem takenIn_same (h : Same fs' fs) (e : Env) (dir : FilePath) : takenIn e fs' dir = takenIn e fs dir := by
  rw [takenIn, parseFnNode_same h, h.present, takenIn]

theorem unborrowed_same (h : Same fs' fs) (hfree : Unborrowed e fs id) : Unborrowed e fs' id := by
  intro hgood
  rw [wellFormed_same (same_sweepEntry h e id)] at hgood
  rw [wellFormed_same (same_sweptAll h e)]
  exact hfree hgood

/-- What the scan makes of an id, from the disk it leaves. -/
theorem findNode_swept_all (hfree : fs.isDir (fnRoot ++ [id]) = true → Unborrowed e fs id) :
    findNode e fs id =
      if survives e fs id then
        some (if toSweep fs id then pendingRemove (parseFnNode e.errorText (sweptAll e fs) (fnRoot ++ [id]))
          else takenIn e (sweptAll e fs) (nodeDir fs id))
      else none := by
  cases hsurvives : survives e fs id with
  | false =>
    cases hfind : findNode e fs id with
    | none => rfl
    | some node =>
      rw [survives_of_findNode hfind] at hsurvives
      nomatch hsurvives
  | true =>
    obtain ⟨hlisted, hkept⟩ := survives_iff.1 hsurvives
    rw [if_pos rfl]
    cases hsweep : toSweep fs id with
    | true =>
      have hdir := (Bool.and_eq_true_iff.1 hsweep).1
      rw [findNode_fails hsweep (hkept hsweep), parsed_visited hdir (hfree hdir), if_pos rfl]
    | false =>
      have hstays := stays_iff.2 hsweep
      rw [findNode_stays hstays hlisted, if_neg Bool.false_ne_true, ← visited_stays hstays]
      by_cases hdir : fs.isDir (fnRoot ++ [id]) = true
      · have hnode : nodeDir fs id = fnRoot ++ [id] := if_pos hdir
        have hremove : (visited e fs id).present (fnRoot ++ [id] ++ ["remove"]) =
            (sweptAll e fs).present (fnRoot ++ [id] ++ ["remove"]) := by
          rw [FileTree.present, FileTree.present, get_sweptAll_visited hdir]
        rw [hnode, takenIn, parsed_visited hdir (hfree hdir), hremove, takenIn]
      · rw [visited, if_neg hdir]

theorem findNode_same (h : Same fs' fs) (hfree : ∀ id, fs.isDir (fnRoot ++ [id]) = true → Unborrowed e fs id) (id : String) :
    findNode e fs' id = findNode e fs id := by
  have hswept := same_sweptAll h e
  have hfree' : fs'.isDir (fnRoot ++ [id]) = true → Unborrowed e fs' id := fun hdir =>
    unborrowed_same h (hfree id (h.isDir _ ▸ hdir))
  rw [findNode_swept_all hfree', findNode_swept_all (hfree id), survives, survives, listed_same h, nodeDir_same h,
    toSweep_same h, parseFnNode_same hswept, takenIn_same hswept]

/-! ### The extreme orders -/

/-- The work directory read with one entry first. -/
theorem exists_first (e : Env) (hdir : fs.isDir (fnRoot ++ [id]) = true) :
    ∃ fs', Same fs' fs ∧ visited e fs' id = sweepEntry e fs' id := by
  have hmem : id ∈ fs.children fnRoot := FileTree.mem_children.2 (FileTree.present_of_isDir hdir)
  have hsame := fs.same_deliver fnRoot (id :: (fs.children fnRoot).erase id)
  refine ⟨_, hsame, ?_⟩
  have hchildren := FileTree.children_deliver (List.perm_cons_erase hmem).symm
  rw [visited, if_pos ((hsame.isDir _).trans hdir), sweptBefore, hchildren, List.takeWhile_cons_of_neg (by simp),
    List.foldl_nil]

/-- The work directory read with one entry last. -/
theorem exists_last (e : Env) (hdir : fs.isDir (fnRoot ++ [id]) = true) :
    ∃ fs', Same fs' fs ∧ visited e fs' id = sweptAll e fs' := by
  have hmem : id ∈ fs.children fnRoot := FileTree.mem_children.2 (FileTree.present_of_isDir hdir)
  have hsame := fs.same_deliver fnRoot ((fs.children fnRoot).erase id ++ [id])
  refine ⟨_, hsame, ?_⟩
  have hperm : ((fs.children fnRoot).erase id ++ [id]).Perm (fs.children fnRoot) :=
    (List.perm_append_singleton id _).trans (List.perm_cons_erase hmem).symm
  have hchildren := FileTree.children_deliver hperm
  have hothers : id ∉ (fs.children fnRoot).erase id := (fs.nodup_children fnRoot).not_mem_erase
  rw [visited, if_pos ((hsame.isDir _).trans hdir), sweptBefore, sweptAll, hchildren, takeWhile_ne_append hothers,
    List.foldl_append]
  rfl

/-- Swept away, a node is none. -/
theorem works_of_wellFormed (hgood : wellFormed (sweepEntry e fs id) (fnRoot ++ [id]) = true)
    (hsweep : toSweep fs id = true) : e.works (.removeDirAll (fnRoot ++ [id])) = false := by
  by_contra hworks
  rw [Bool.not_eq_false] at hworks
  have htaken : sweeps e fs id (fnRoot ++ [id] ++ ["fn.prop"]) = true := by
    rw [sweeps, hsweep, hworks]
    exact decide_eq_true (List.prefix_append _ _)
  have hgone : (sweepEntry e fs id).read (fnRoot ++ [id] ++ ["fn.prop"]) = none := by
    rw [FileTree.read, get_sweepEntry, htaken]
    rfl
  have hdesc : descriptor "" (sweepEntry e fs id) (fnRoot ++ [id]) = .error "unreadable fn.prop: " := by
    rw [descriptor, hgone]
    rfl
  rw [wellFormed_of_error hdesc] at hgood
  simp at hgood

theorem unborrowed_of_findNode (h : ∀ fs', Same fs' fs → findNode e fs' id = findNode e fs id)
    (hdir : fs.isDir (fnRoot ++ [id]) = true) : Unborrowed e fs id := by
  intro hgood
  have hsurvives : survives e fs id = true := survives_iff.2 ⟨listed_workDir hdir, works_of_wellFormed hgood⟩
  obtain ⟨node, hnode⟩ := findNode_survives hsurvives
  have hfound : ∀ fs', Same fs' fs → node.status.isMalformed = !wellFormed (visited e fs' id) (fnRoot ++ [id]) := by
    intro fs' hsame
    have hself : nodeDir fs' id = fnRoot ++ [id] := if_pos ((hsame.isDir _).trans hdir)
    rw [← hself]
    exact isMalformed_findNode ((h fs' hsame).trans hnode)
  obtain ⟨fs₁, hsame₁, hfirst⟩ := exists_first e hdir
  obtain ⟨fs₂, hsame₂, hlast⟩ := exists_last e hdir
  have h₁ := hfound fs₁ hsame₁
  have h₂ := hfound fs₂ hsame₂
  rw [hfirst, wellFormed_same (same_sweepEntry hsame₁ e id), hgood] at h₁
  rw [hlast, wellFormed_same (same_sweptAll hsame₂ e), h₁] at h₂
  exact (Bool.not_inj_iff.1 h₂).symm

/-! ### Borrowed libraries -/

/-- A node without a script is in order, as far as its own directory goes, with a library that the sweep of another
node takes. -/
structure Borrows (e : Env) (fs : FileTree) (id lender : String) (node : FnNode) : Prop where
  described : descriptor "" (sweepEntry e fs id) (fnRoot ++ [id]) = .ok node
  noScript : hasScript (sweepEntry e fs id) (fnRoot ++ [id]) = false
  hasEntry : node.entry.isSome = true
  lib : (sweepEntry e fs id).isFile node.libPath = true
  other : lender ≠ id
  taken : sweeps e fs lender node.libPath = true

theorem mem_children_of_sweeps (h : sweeps e fs x q = true) : x ∈ fs.children fnRoot := by
  have hsweep := (Bool.and_eq_true_iff.1 h).1
  exact FileTree.mem_children.2 (FileTree.present_of_isDir (Bool.and_eq_true_iff.1 hsweep).1)

theorem get_sweptAll_eq (e : Env) (fs : FileTree) (q : FilePath) :
    (sweptAll e fs).get q = if (fs.children fnRoot).any (sweeps e fs · q) then none else fs.get q :=
  get_foldl_sweeps (fs.nodup_children fnRoot) q

theorem isFile_sweptAll_of_taken (h : sweeps e fs x q = true) : (sweptAll e fs).isFile q = false := by
  have hany : (fs.children fnRoot).any (sweeps e fs · q) = true := List.any_eq_true.2 ⟨x, mem_children_of_sweeps h, h⟩
  rw [FileTree.isFile, get_sweptAll_eq, hany]
  rfl

theorem get_sweptAll_of_untaken (hothers : ∀ y, y ≠ id → sweeps e fs y q = false) :
    (sweptAll e fs).get q = (sweepEntry e fs id).get q := by
  have hany : (fs.children fnRoot).any (sweeps e fs · q) = sweeps e fs id q := by
    rw [Bool.eq_iff_iff, List.any_eq_true]
    constructor
    · rintro ⟨y, -, hsweep⟩
      by_cases hy : y = id
      · exact hy ▸ hsweep
      · nomatch (hothers y hy).symm.trans hsweep
    · exact fun hsweep => ⟨id, mem_children_of_sweeps hsweep, hsweep⟩
  rw [get_sweptAll_eq, get_sweepEntry, hany]

theorem unborrowed_iff (hdir : fs.isDir (fnRoot ++ [id]) = true) :
    Unborrowed e fs id ↔ ∀ lender node, ¬ Borrows e fs id lender node := by
  have hget : ∀ q, (sweptAll e fs).get (fnRoot ++ [id] ++ q) = (sweepEntry e fs id).get (fnRoot ++ [id] ++ q) := fun q =>
    (get_sweptAll_visited hdir q).trans (get_visited_self hdir q)
  have hscript : hasScript (sweptAll e fs) (fnRoot ++ [id]) = hasScript (sweepEntry e fs id) (fnRoot ++ [id]) := by
    rw [hasScript, FileTree.isFile, FileTree.isFile, hget, hget]
    rfl
  have hdesc := descriptor_congr (t := "") (read_prop_congr hget)
  constructor
  · rintro hfree lender node ⟨hdescribed, hno, hentry, hlib, -, htaken⟩
    have hgood : wellFormed (sweepEntry e fs id) (fnRoot ++ [id]) = true := by
      rw [wellFormed_of_ok hdescribed, equipped, hentry, hlib]
      rfl
    have hbad := hfree hgood
    rw [wellFormed_of_ok (hdesc.trans hdescribed), equipped, isFile_sweptAll_of_taken htaken, hscript, hno,
      Bool.and_false] at hbad
    simp at hbad
  · intro hnone hgood
    cases hdescribed : descriptor "" (sweepEntry e fs id) (fnRoot ++ [id]) with
    | error reason =>
      rw [wellFormed_of_error hdescribed] at hgood
      simp at hgood
    | ok node =>
      rw [wellFormed_of_ok hdescribed, equipped, Bool.or_eq_true, Bool.and_eq_true] at hgood
      rw [wellFormed_of_ok (hdesc.trans hdescribed), equipped, hscript, Bool.or_eq_true, Bool.and_eq_true]
      cases hno : hasScript (sweepEntry e fs id) (fnRoot ++ [id]) with
      | true => exact .inr rfl
      | false =>
        rw [hno] at hgood
        obtain ⟨hentry, hlib⟩ | hscript := hgood
        · have hothers : ∀ y, y ≠ id → sweeps e fs y node.libPath = false := by
            intro y hy
            by_contra htaken
            exact hnone y node ⟨hdescribed, hno, hentry, hlib, hy, Bool.not_eq_false _ ▸ htaken⟩
          refine .inl ⟨hentry, ?_⟩
          rw [FileTree.isFile, get_sweptAll_of_untaken hothers]
          exact hlib
        · simp at hscript

/-- A node whose library lies in another one, which is to be removed. -/
def borrowingTree : FileTree :=
  FileTree.ofFiles [(fnRoot ++ ["a", "fn.prop"], "id=a\nname=A\nversion=1\nversionCode=1\nentry=../b/lib.so"),
    (fnRoot ++ ["b", "remove"], ""), (fnRoot ++ ["b", "lib.so"], "")]

end OnyxZygisk.Daemon
