import OnyxZygisk.Lib.FileTree

/-!
# The order of a directory

The entries of a tree stand in a list, and a directory is read in the order of that list. Two trees are the same
tree but for the order if they name the same at every path, and a directory can be read in any order
(`children_deliver`).
-/

namespace FileTree

variable {t t₁ t₂ : FileTree} {root p q : FilePath} {ids : List String}

/-- The same tree, in whatever order its directories are read. -/
def Same (t₁ t₂ : FileTree) : Prop := ∀ p, t₁.get p = t₂.get p

theorem Same.symm (h : Same t₁ t₂) : Same t₂ t₁ := fun p => (h p).symm

theorem Same.trans {t₃ : FileTree} (h : Same t₁ t₂) (h' : Same t₂ t₃) : Same t₁ t₃ := fun p => (h p).trans (h' p)

theorem Same.isDir (h : Same t₁ t₂) (p : FilePath) : t₁.isDir p = t₂.isDir p := by rw [FileTree.isDir, h, ← FileTree.isDir]

theorem Same.present (h : Same t₁ t₂) (p : FilePath) : t₁.present p = t₂.present p := by
  rw [FileTree.present, h, ← FileTree.present]

theorem Same.mem_children (h : Same t₁ t₂) (root : FilePath) (x : String) :
    x ∈ t₁.children root ↔ x ∈ t₂.children root := by
  rw [FileTree.mem_children, FileTree.mem_children, h.present]

/-! ### Any order -/

/-- Whether a path is one of the entries of `root`. -/
def isEntry (root : FilePath) (ids : List String) (p : FilePath) : Bool := ids.any fun x => p = root ++ [x]

theorem isEntry_cons (root : FilePath) (x : String) (ids : List String) (p : FilePath) :
    isEntry root (x :: ids) p = (decide (p = root ++ [x]) || isEntry root ids p) := rfl

/-- The entries of `root` first, in the order of `ids`. -/
def orderedEntries (es : List (FilePath × Node)) (root : FilePath) (ids : List String) : List (FilePath × Node) :=
  ids.flatMap (fun x => es.filter fun e => decide (e.1 = root ++ [x])) ++ es.filter fun e => !isEntry root ids e.1

theorem lookup_flatMap (es : List (FilePath × Node)) (root : FilePath) (ids : List String) (q : FilePath) :
    (ids.flatMap fun x => es.filter fun e => decide (e.1 = root ++ [x])).lookup q =
      if isEntry root ids q then es.lookup q else none := by
  induction ids with
  | nil => rfl
  | cons x ids ih =>
    rw [List.flatMap_cons, List.lookup_append, lookup_filter_path es (fun p => decide (p = root ++ [x])), ih,
      isEntry_cons]
    by_cases hq : q = root ++ [x]
    · rw [decide_eq_true hq, if_pos rfl, Bool.true_or, if_pos rfl]
      cases es.lookup q with
      | none => simp
      | some n => rfl
    · rw [decide_eq_false hq, Bool.false_or]
      rfl

theorem lookup_orderedEntries (es : List (FilePath × Node)) (root : FilePath) (ids : List String) (q : FilePath) :
    (orderedEntries es root ids).lookup q = es.lookup q := by
  rw [orderedEntries, List.lookup_append, lookup_flatMap, lookup_filter_path es (fun p => !isEntry root ids p)]
  cases isEntry root ids q with
  | true => cases es.lookup q <;> rfl
  | false => rfl

theorem mem_orderedEntries {es : List (FilePath × Node)} {e : FilePath × Node} (h : e ∈ orderedEntries es root ids) :
    e ∈ es := by
  rcases List.mem_append.1 h with h | h
  · obtain ⟨x, -, h⟩ := List.mem_flatMap.1 h
    exact (List.mem_filter.1 h).1
  · exact (List.mem_filter.1 h).1

/-- The tree with the directory `root` read in the order of `ids`. -/
def deliver (t : FileTree) (root : FilePath) (ids : List String) : FileTree where
  entries := orderedEntries t.entries root ids
  fresh := t.fresh
  wf e he := by
    have hd := t.wf e (mem_orderedEntries he)
    unfold dirIn getIn at hd ⊢
    rwa [lookup_orderedEntries]

theorem same_deliver (t : FileTree) (root : FilePath) (ids : List String) : Same (t.deliver root ids) t := by
  intro p
  unfold FileTree.get getIn
  rw [deliver, lookup_orderedEntries]

/-- The name an entry has in a directory. -/
def childName (root : FilePath) (e : FilePath × Node) : Option String :=
  if e.1 ≠ [] ∧ e.1.dropLast = root then e.1.getLast? else none

theorem children_eq (t : FileTree) (root : FilePath) : t.children root = (t.entries.filterMap (childName root)).dedup := rfl

theorem children_ordered (t : FileTree) (root p : FilePath) (ids : List String) : (t.deliver root ids).children p =
    ((ids.flatMap fun x => t.entries.filter fun e => decide (e.1 = root ++ [x])).filterMap (childName p) ++
      (t.entries.filter fun e => !isEntry root ids e.1).filterMap (childName p)).dedup := by
  rw [← List.filterMap_append]
  rfl

theorem childName_eq_some {e : FilePath × Node} {x : String} : childName root e = some x ↔ e.1 = root ++ [x] := by
  unfold childName
  constructor
  · intro h
    split_ifs at h with hroot
    obtain ⟨hne, hdrop⟩ := hroot
    rw [← hdrop]
    exact (List.dropLast_append_getLast? x h).symm
  · intro h
    rw [h, if_pos (by simp)]
    simp

theorem dedup_replicate_append {x : String} {k : Nat} {rest : List String} (hk : k ≠ 0) (h : x ∉ rest) :
    (List.replicate k x ++ rest).dedup = x :: rest.dedup := by
  induction k with
  | zero => exact absurd rfl hk
  | succ k ih =>
    rw [List.replicate_succ, List.cons_append]
    by_cases hzero : k = 0
    · rw [hzero, List.replicate_zero, List.nil_append, List.dedup_cons_of_notMem h]
    · rw [List.dedup_cons_of_mem, ih hzero]
      exact List.mem_append_left _ (List.mem_replicate.2 ⟨hzero, rfl⟩)

theorem dedup_flatMap_replicate {k : String → Nat} (hids : ids.Nodup) (hk : ∀ x ∈ ids, k x ≠ 0) :
    (ids.flatMap fun x => List.replicate (k x) x).dedup = ids := by
  induction ids with
  | nil => rfl
  | cons x ids ih =>
    rw [List.forall_mem_cons] at hk
    obtain ⟨hx, hids⟩ := List.nodup_cons.1 hids
    have hrest : x ∉ ids.flatMap fun x => List.replicate (k x) x := by
      rw [List.mem_flatMap]
      rintro ⟨y, hy, hmem⟩
      exact hx (List.eq_of_mem_replicate hmem ▸ hy)
    rw [List.flatMap_cons, dedup_replicate_append hk.1 hrest, ih hids hk.2]

theorem filterMap_childName (es : List (FilePath × Node)) (root : FilePath) (x : String) :
    (es.filter fun e => decide (e.1 = root ++ [x])).filterMap (childName root) =
      List.replicate (es.filter fun e => decide (e.1 = root ++ [x])).length x := by
  rw [← List.map_const', ← List.filterMap_eq_map]
  apply List.filterMap_congr
  intro e he
  exact childName_eq_some.2 (of_decide_eq_true (List.mem_filter.1 he).2)

/-- Every order of a directory is one it can be read in. -/
theorem children_deliver (h : ids.Perm (t.children root)) : (t.deliver root ids).children root = ids := by
  have hmem : ∀ x, x ∈ ids ↔ ∃ e ∈ t.entries, e.1 = root ++ [x] := by
    intro x
    rw [h.mem_iff, children_eq, List.mem_dedup, List.mem_filterMap]
    simp only [childName_eq_some]
  have hnone : (t.entries.filter fun e => !isEntry root ids e.1).filterMap (childName root) = [] := by
    rw [List.filterMap_eq_nil_iff]
    intro e he
    obtain ⟨he, hnot⟩ := List.mem_filter.1 he
    rw [Option.eq_none_iff_forall_not_mem]
    intro x hx
    have hpath := childName_eq_some.1 hx
    have hentry : isEntry root ids e.1 = true :=
      List.any_eq_true.2 ⟨x, (hmem x).2 ⟨e, he, hpath⟩, decide_eq_true hpath⟩
    rw [hentry] at hnot
    exact Bool.false_ne_true hnot
  have hfirst : ∀ x ∈ ids, (t.entries.filter fun e => decide (e.1 = root ++ [x])).length ≠ 0 := by
    intro x hx
    obtain ⟨e, he, hpath⟩ := (hmem x).1 hx
    have hmem : e ∈ t.entries.filter fun e => decide (e.1 = root ++ [x]) :=
      List.mem_filter.2 ⟨he, decide_eq_true hpath⟩
    exact fun hzero => List.ne_nil_of_mem hmem (List.length_eq_zero_iff.1 hzero)
  rw [children_ordered, hnone, List.append_nil, List.filterMap_flatMap]
  simp only [filterMap_childName]
  exact dedup_flatMap_replicate (h.nodup_iff.2 (nodup_children t root)) hfirst

end FileTree
