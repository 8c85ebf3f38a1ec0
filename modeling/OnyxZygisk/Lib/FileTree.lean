import Mathlib.Data.List.Basic
import Mathlib.Data.List.Infix
import Mathlib.Data.List.Dedup
import Mathlib.Tactic.Common

/-!
# File trees

A file system as the list of its paths and what each names. `wf` is the only invariant: the parent of
everything is a directory. The operations are the POSIX calls a program makes (`open` with and
without `O_TRUNC` and `O_EXCL`, `write`, `unlink`, `rename`, `mkdir`, recursive removal); each has one
lemma that says what every path names afterwards (`get_…`), and nothing else looks at the list.

A file carries the number of its inode, so that a descriptor opened before the path was unlinked and
created again writes nowhere visible. A link is a symbolic link to a directory; what it leads to is
listed below it.
-/

abbrev FilePath := List String

inductive Node where
  | file (ino : Nat) (data : String)
  | dir
  | link
  deriving DecidableEq, Repr

namespace Node

/-- `is_dir()` follows links. -/
def isDir : Node → Bool
  | file _ _ => false
  | dir => true
  | link => true

def isFile : Node → Bool
  | file _ _ => true
  | dir => false
  | link => false

/-- Without the number of the inode. -/
def bare : Node → Node
  | file _ data => file 0 data
  | dir => dir
  | link => link

end Node

/-- The node at a path; the root is always a directory. -/
def getIn (es : List (FilePath × Node)) (p : FilePath) : Option Node :=
  if p = [] then some .dir else es.lookup p

def dirIn (es : List (FilePath × Node)) (p : FilePath) : Bool := (getIn es p).any Node.isDir

structure FileTree where
  entries : List (FilePath × Node)
  fresh : Nat
  wf : ∀ e ∈ entries, dirIn entries e.1.dropLast = true
  deriving DecidableEq, Repr

/-! ### Lookups in a list of entries -/

section Lookup

theorem lookup_filter_path (es : List (FilePath × Node)) (keep : FilePath → Bool) (q : FilePath) :
    (es.filter fun e => keep e.1).lookup q = if keep q then es.lookup q else none := by
  induction es with
  | nil => simp
  | cons e es ih =>
    obtain ⟨p, n⟩ := e
    by_cases hpq : q = p
    · subst hpq
      by_cases hk : keep q
      · simp [hk]
      · simp [hk, ih]
    · have hne : (q == p) = false := by simpa using hpq
      by_cases hk : keep p
      · simp [hk, List.lookup_cons, hne, ih]
      · simp [hk, List.lookup_cons, hne, ih]

theorem lookup_map_node (es : List (FilePath × Node)) (f : FilePath → Node → Node) (q : FilePath) :
    (es.map fun e => (e.1, f e.1 e.2)).lookup q = (es.lookup q).map (f q) := by
  induction es with
  | nil => rfl
  | cons e es ih =>
    obtain ⟨p, n⟩ := e
    by_cases hpq : q = p
    · subst hpq; simp
    · have hne : (q == p) = false := by simpa using hpq
      simp [List.lookup_cons, hne, ih]

theorem mem_of_lookup {α β : Type} [BEq α] [LawfulBEq α] {es : List (α × β)} {k : α} {b : β}
    (h : es.lookup k = some b) : (k, b) ∈ es := by
  obtain ⟨front, back, rfl, -⟩ := List.lookup_eq_some_iff.1 h
  exact List.mem_append_right _ List.mem_cons_self

theorem lookup_isSome_of_mem {es : List (FilePath × Node)} {e : FilePath × Node} (h : e ∈ es) :
    (es.lookup e.1).isSome := by
  induction es with
  | nil => simp at h
  | cons a es ih =>
    obtain ⟨p, m⟩ := a
    by_cases hpq : e.1 = p
    · simp [← hpq]
    · have hne : (e.1 == p) = false := by simpa using hpq
      rcases List.mem_cons.1 h with rfl | h
      · exact absurd rfl hpq
      · rw [List.lookup_cons, hne]
        exact ih h

/-- Where an entry goes when `src` becomes `dst`. -/
def moveEntry (src dst : FilePath) (e : FilePath × Node) : Option (FilePath × Node) :=
  if src <+: e.1 then some (dst ++ e.1.drop src.length, e.2)
  else if dst <+: e.1 then none else some e

theorem prefix_append_drop {p q : FilePath} (h : p <+: q) : p ++ q.drop p.length = q := by
  obtain ⟨r, rfl⟩ := h
  simp

theorem lookup_move (es : List (FilePath × Node)) (src dst q : FilePath) :
    (es.filterMap (moveEntry src dst)).lookup q =
      if dst <+: q then es.lookup (src ++ q.drop dst.length)
      else if src <+: q then none else es.lookup q := by
  induction es with
  | nil => simp
  | cons e es ih =>
    obtain ⟨p, n⟩ := e
    by_cases hsp : src <+: p
    · -- the entry moves: only a path below `dst` can find it
      have hm : moveEntry src dst (p, n) = some (dst ++ p.drop src.length, n) := if_pos hsp
      rw [List.filterMap_cons_some hm, List.lookup_cons, ih]
      by_cases hdq : dst <+: q
      · have hiff : q = dst ++ p.drop src.length ↔ src ++ q.drop dst.length = p := by
          constructor
          · rintro rfl
            simp [prefix_append_drop hsp]
          · rintro rfl
            simp [prefix_append_drop hdq]
        by_cases hq : q = dst ++ p.drop src.length
        · have hq' := hiff.1 hq
          simp [hq, prefix_append_drop hsp]
        · have hne : (q == dst ++ p.drop src.length) = false := by simpa using hq
          have hne' : (src ++ q.drop dst.length == p) = false := by
            simpa using fun h => hq (hiff.2 h)
          simp [hne, hne', hdq, List.lookup_cons]
      · have hne : (q == dst ++ p.drop src.length) = false := by
          simp only [beq_eq_false_iff_ne]
          rintro rfl
          exact hdq (List.prefix_append _ _)
        by_cases hsq : src <+: q
        · simp [hne, hdq, hsq]
        · have hqp : (q == p) = false := by
            simp only [beq_eq_false_iff_ne]
            rintro rfl
            exact hsq hsp
          simp [hne, hdq, hsq, List.lookup_cons, hqp]
    · by_cases hdp : dst <+: p
      · -- the entry was at the target and is gone
        have hm : moveEntry src dst (p, n) = none := by simp [moveEntry, hsp, hdp]
        rw [List.filterMap_cons_none hm, ih]
        by_cases hdq : dst <+: q
        · have hne : (src ++ q.drop dst.length == p) = false := by
            simp only [beq_eq_false_iff_ne]
            rintro rfl
            exact hsp (List.prefix_append _ _)
          simp [hdq, List.lookup_cons, hne]
        · have hqp : (q == p) = false := by
            simp only [beq_eq_false_iff_ne]
            rintro rfl
            exact hdq hdp
          simp [hdq, List.lookup_cons, hqp]
      · have hm : moveEntry src dst (p, n) = some (p, n) := by simp [moveEntry, hsp, hdp]
        rw [List.filterMap_cons_some hm, List.lookup_cons, ih]
        by_cases hdq : dst <+: q
        · have hqp : (q == p) = false := by
            simp only [beq_eq_false_iff_ne]
            rintro rfl
            exact hdp hdq
          have hne : (src ++ q.drop dst.length == p) = false := by
            simp only [beq_eq_false_iff_ne]
            rintro rfl
            exact hsp (List.prefix_append _ _)
          simp [hdq, List.lookup_cons, hqp, hne]
        · by_cases hsq : src <+: q
          · have hqp : (q == p) = false := by
              simp only [beq_eq_false_iff_ne]
              rintro rfl
              exact hsp hsq
            simp [hdq, hsq, hqp]
          · simp [hdq, hsq, List.lookup_cons]

end Lookup

namespace FileTree

variable (t : FileTree)

def get (p : FilePath) : Option Node := getIn t.entries p

/-! ### What a program can ask -/

def present (p : FilePath) : Bool := (t.get p).isSome

def isDir (p : FilePath) : Bool := (t.get p).any Node.isDir

/-- `symlink_metadata(p)` says directory: a link does not count. -/
def isRealDir (p : FilePath) : Bool := t.get p == some .dir

def isFile (p : FilePath) : Bool := (t.get p).any Node.isFile

def read (p : FilePath) : Option String :=
  match t.get p with
  | some (.file _ data) => some data
  | _ => none

/-- The names in a directory, each once. -/
def children (p : FilePath) : List String :=
  (t.entries.filterMap fun e =>
    if e.1 ≠ [] ∧ e.1.dropLast = p then e.1.getLast? else none).dedup

/-- What is at and below a path, named from there. -/
def below (p : FilePath) : FilePath → Option Node := fun q => t.get (p ++ q)

@[simp] theorem get_nil : t.get [] = some .dir := rfl

variable {t}

theorem get_of_ne {p : FilePath} (h : p ≠ []) : t.get p = t.entries.lookup p := if_neg h

theorem present_iff {p : FilePath} : t.present p = true ↔ ∃ n, t.get p = some n :=
  Option.isSome_iff_exists

theorem read_of_isFile {p : FilePath} (h : t.isFile p = true) : ∃ data, t.read p = some data := by
  rw [isFile, Option.any_eq_true] at h
  obtain ⟨n, hn, hfile⟩ := h
  cases n with
  | file ino data =>
    refine ⟨data, ?_⟩
    rw [read, hn]
  | _ => exact absurd hfile Bool.false_ne_true

theorem present_of_isDir {p : FilePath} (h : t.isDir p = true) : t.present p = true := by
  cases hg : t.get p with
  | none => simp [isDir, hg] at h
  | some n => simp [present, hg]

theorem present_of_isFile {p : FilePath} (h : t.isFile p = true) : t.present p = true := by
  cases hg : t.get p with
  | none => simp [isFile, hg] at h
  | some n => simp [present, hg]

theorem isDir_dropLast {p : FilePath} (h : t.present p = true) : t.isDir p.dropLast = true := by
  by_cases hp : p = []
  · subst hp; rfl
  · obtain ⟨n, hn⟩ := present_iff.1 h
    rw [get_of_ne hp] at hn
    exact t.wf _ (mem_of_lookup hn)

theorem isDir_of_present_child {p : FilePath} {n : String} (h : t.present (p ++ [n]) = true) :
    t.isDir p = true := by
  simpa using isDir_dropLast h

/-- Whatever lies below a path lies in a directory. -/
theorem isDir_of_present_below {p q : FilePath} (hq : q ≠ []) (h : t.present (p ++ q) = true) :
    t.isDir p = true := by
  induction q using List.reverseRecOn with
  | nil => exact absurd rfl hq
  | append_singleton q n ih =>
    rw [← List.append_assoc] at h
    have hd := isDir_of_present_child h
    by_cases hq' : q = []
    · simpa [hq'] using hd
    · exact ih hq' (present_of_isDir hd)

theorem isDir_of_prefix {p q : FilePath} (hq : q <+: p) (h : t.isDir p = true) : t.isDir q = true := by
  obtain ⟨r, rfl⟩ := hq
  by_cases hr : r = []
  · rwa [hr, List.append_nil] at h
  · exact isDir_of_present_below hr (present_of_isDir h)

/-- Below what is no directory there is nothing. -/
theorem get_below_of_not_isDir {p q : FilePath} (hq : q ≠ []) (h : t.isDir p = false) :
    t.get (p ++ q) = none := by
  rw [← Option.not_isSome_iff_eq_none]
  intro hsome
  have hdir := isDir_of_present_below hq hsome
  rw [h] at hdir
  exact Bool.false_ne_true hdir

theorem mem_children {p : FilePath} {n : String} : n ∈ t.children p ↔ t.present (p ++ [n]) = true := by
  rw [children, List.mem_dedup, List.mem_filterMap, present, get_of_ne (by simp)]
  constructor
  · rintro ⟨⟨q, m⟩, he, hq⟩
    split_ifs at hq with h
    · have hlast := List.dropLast_append_getLast? n hq
      rw [h.2] at hlast
      rw [hlast]
      exact lookup_isSome_of_mem he
  · intro h
    obtain ⟨m, hm⟩ := Option.isSome_iff_exists.1 h
    exact ⟨_, mem_of_lookup hm, by simp⟩

theorem nodup_children (t : FileTree) (p : FilePath) : (t.children p).Nodup := List.nodup_dedup _

variable (t)

/-! ### Removal -/

/-- Drop the paths `keep` rejects. What is kept has to be closed towards the root. -/
def restrict (keep : FilePath → Bool) (h : ∀ p, keep p → keep p.dropLast) : FileTree where
  entries := t.entries.filter fun e => keep e.1
  fresh := t.fresh
  wf := by
    rintro e he
    obtain ⟨he, hk⟩ := List.mem_filter.1 he
    have hd := t.wf e he
    simp only [dirIn, getIn] at hd ⊢
    split_ifs at hd ⊢ with hp
    · rfl
    · rwa [lookup_filter_path, if_pos (h _ hk)]

@[simp] theorem get_restrict (keep : FilePath → Bool) (h : ∀ p, keep p → keep p.dropLast) (q : FilePath) :
    (t.restrict keep h).get q = if q = [] ∨ keep q then t.get q else none := by
  by_cases hq : q = []
  · simp [hq]
  · rw [get_of_ne hq, get_of_ne hq]
    simp only [restrict, lookup_filter_path, hq, false_or]

theorem not_prefix_dropLast {p q : FilePath} (h : ¬ p <+: q) : ¬ p <+: q.dropLast :=
  fun hp => h (hp.trans (List.dropLast_prefix q))

/-- Everything at and below `p` is gone. -/
def remove (p : FilePath) : FileTree :=
  t.restrict (fun q => !decide (p <+: q)) fun q => by
    simpa using not_prefix_dropLast

theorem get_remove {p : FilePath} (hp : p ≠ []) (q : FilePath) :
    (t.remove p).get q = if p <+: q then none else t.get q := by
  rw [remove, get_restrict]
  by_cases h : p <+: q
  · have hq : q ≠ [] := by
      rintro rfl
      exact hp (List.prefix_nil.1 h)
    simp [h, hq]
  · simp [h]

/-- `kept` decides, from `p` downwards, what an interrupted recursive removal has left. -/
def leaves (p : FilePath) (kept : FilePath → Bool) (q : FilePath) : Bool :=
  (List.range (q.length + 1)).all fun k =>
    !decide (p <+: q) || decide (k ≤ p.length) || kept (q.take k)

theorem leaves_dropLast {p : FilePath} {kept : FilePath → Bool} {q : FilePath} (h : leaves p kept q = true) :
    leaves p kept q.dropLast = true := by
  simp only [leaves, List.all_eq_true, List.mem_range, Bool.or_eq_true, Bool.not_eq_true',
    decide_eq_false_iff_not, decide_eq_true_eq, List.length_dropLast] at h ⊢
  intro k hk
  by_cases hp : p <+: q.dropLast
  · rcases h k (by omega) with (h | h) | h
    · exact absurd (hp.trans (List.dropLast_prefix q)) h
    · exact .inl (.inr h)
    · by_cases hk' : k ≤ p.length
      · exact .inl (.inr hk')
      · have hlen := hp.length_le
        rw [List.length_dropLast] at hlen
        refine .inr ?_
        rwa [List.dropLast_eq_take, List.take_take, min_eq_left (by omega)]
  · exact .inl (.inl hp)

/-- A recursive removal of `p` that stopped half way. -/
def removePartly (p : FilePath) (kept : FilePath → Bool) : FileTree :=
  t.restrict (leaves p kept) fun _ => leaves_dropLast

theorem get_removePartly_of_not_prefix {p q : FilePath} (kept : FilePath → Bool) (h : ¬ p <+: q) :
    (t.removePartly p kept).get q = t.get q := by
  have hl : leaves p kept q = true := by simp [leaves, h]
  simp [removePartly, hl]

theorem get_removePartly_self (p : FilePath) (kept : FilePath → Bool) :
    (t.removePartly p kept).get p = t.get p := by
  have hl : leaves p kept p = true := by
    simp only [leaves, List.all_eq_true, List.mem_range]
    intro k hk
    simp [show k ≤ p.length by omega]
  simp [removePartly, hl]

/-- A removal leaves a tree as it is, or with less in it. -/
def Shrunk (t' t : FileTree) : Prop := t' = t ∨ t'.entries.length < t.entries.length

theorem shrunk_refl : Shrunk t t := .inl rfl

theorem Shrunk.trans {t t₁ t₂ : FileTree} (h : Shrunk t₁ t) (h' : Shrunk t₂ t₁) : Shrunk t₂ t := by
  rcases h' with rfl | hlt'
  · exact h
  · rcases h with rfl | hlt
    · exact .inr hlt'
    · exact .inr (hlt'.trans hlt)

/-- A tree between a tree and itself. -/
theorem Shrunk.eq_of_eq {t t₁ t₂ : FileTree} (h : Shrunk t₁ t) (h' : Shrunk t₂ t₁) (heq : t₂ = t) : t₁ = t := by
  subst heq
  rcases h with rfl | hlt
  · rfl
  · rcases h' with rfl | hlt'
    · rfl
    · omega

theorem shrunk_restrict (keep : FilePath → Bool) (h : ∀ p, keep p → keep p.dropLast) :
    Shrunk (t.restrict keep h) t := by
  have hle : (t.restrict keep h).entries.length ≤ t.entries.length := List.length_filter_le _ _
  rcases hle.lt_or_eq with hlt | heq
  · exact .inr hlt
  · have hall := List.length_filter_eq_length_iff.1 heq
    left
    cases t with
    | mk entries fresh wf =>
      simp only [restrict, FileTree.mk.injEq, and_true]
      exact List.filter_eq_self.2 hall

/-- What is in `t'` is in `t`, and the same. -/
def Within (t' t : FileTree) : Prop := ∀ q n, t'.get q = some n → t.get q = some n

theorem within_refl : Within t t := fun _ _ hn => hn

theorem Within.trans {t t₁ t₂ : FileTree} (h : Within t₁ t) (h' : Within t₂ t₁) : Within t₂ t :=
  fun q n hn => h q n (h' q n hn)

theorem within_restrict (keep : FilePath → Bool) (h : ∀ p, keep p → keep p.dropLast) :
    Within (t.restrict keep h) t := by
  intro q n hn
  rw [get_restrict] at hn
  split_ifs at hn
  exact hn

theorem Within.isFile {t t' : FileTree} (h : Within t' t) {p : FilePath} (hp : t'.isFile p = true) :
    t.isFile p = true := by
  rw [FileTree.isFile, Option.any_eq_true] at hp ⊢
  obtain ⟨n, hn, hfile⟩ := hp
  exact ⟨n, h p n hn, hfile⟩

/-- `remove_file`: files and links. -/
def removeFile (p : FilePath) : Option FileTree :=
  match t.get p with
  | some (.file _ _) => some (t.remove p)
  | some .link => some (t.remove p)
  | _ => none

/-- `remove_dir_all`: a directory with what it holds, or a link. -/
def removeDirAll (p : FilePath) : Option FileTree :=
  if t.isDir p then some (t.remove p) else none

/-! ### Creation -/

theorem cons_wf {p : FilePath} {n : Node} (h : t.get p = none) (hd : t.isDir p.dropLast = true) :
    ∀ e ∈ (p, n) :: t.entries, dirIn ((p, n) :: t.entries) e.1.dropLast = true := by
  have hp : p ≠ [] := by
    rintro rfl
    simp at h
  -- no older parent is `p`: nothing is there
  have hold : ∀ q, t.isDir q = true → dirIn ((p, n) :: t.entries) q = true := by
    intro q hq
    have hne : (q == p) = false := by
      simp only [beq_eq_false_iff_ne]
      rintro rfl
      simp [isDir, h] at hq
    simp only [isDir, get, getIn, dirIn] at hq ⊢
    split_ifs at hq ⊢ with hnil
    · rfl
    · rwa [List.lookup_cons, hne]
  rintro e he
  rcases List.mem_cons.1 he with rfl | he
  · exact hold _ hd
  · exact hold _ (t.wf e he)

/-- A new entry, where nothing is and the parent is a directory. -/
def create (p : FilePath) (n : Node) : Option FileTree :=
  if h : t.get p = none ∧ t.isDir p.dropLast then
    some ⟨(p, n) :: t.entries, t.fresh + 1, t.cons_wf h.1 h.2⟩
  else none

variable {t}

theorem get_create {p : FilePath} {n : Node} {t' : FileTree} (h : t.create p n = some t') (q : FilePath) :
    t'.get q = if q = p then some n else t.get q := by
  unfold create at h
  split_ifs at h with hc
  obtain rfl := Option.some.inj h
  have hp : p ≠ [] := by
    rintro rfl
    simp at hc
  by_cases hq : q = []
  · subst hq
    simp [Ne.symm hp]
  · rw [get_of_ne hq, get_of_ne hq]
    by_cases hqp : q = p
    · simp [hqp]
    · have hne : (q == p) = false := by simpa using hqp
      simp [List.lookup_cons, hne, hqp]

theorem create_eq_none {p : FilePath} {n : Node} :
    t.create p n = none ↔ ¬ (t.get p = none ∧ t.isDir p.dropLast = true) := by
  unfold create
  split_ifs with h <;> simp [h]

theorem create_of {p : FilePath} (n : Node) (h : t.get p = none) (hd : t.isDir p.dropLast = true) :
    ∃ t', t.create p n = some t' := by
  cases hc : t.create p n with
  | none => exact absurd ⟨h, hd⟩ (create_eq_none.1 hc)
  | some t' => exact ⟨t', rfl⟩

variable (t)

/-- Change what files hold, and nothing else. -/
def mapData (f : FilePath → Nat → String → String) : FileTree where
  entries := t.entries.map fun e =>
    (e.1, match e.2 with
      | .file ino data => .file ino (f e.1 ino data)
      | n => n)
  fresh := t.fresh
  wf := by
    rintro e he
    obtain ⟨e', he', rfl⟩ := List.mem_map.1 he
    have hd := t.wf e' he'
    simp only [dirIn, getIn] at hd ⊢
    split_ifs at hd ⊢ with hp
    · rfl
    · rw [lookup_map_node t.entries fun p n => match n with
        | .file ino data => .file ino (f p ino data)
        | n => n]
      cases hl : t.entries.lookup e'.1.dropLast with
      | none => simp [hl] at hd
      | some n => cases n <;> simp_all [Node.isDir]

theorem get_mapData (f : FilePath → Nat → String → String) (q : FilePath) :
    (t.mapData f).get q = (t.get q).map fun
      | .file ino data => .file ino (f q ino data)
      | n => n := by
  by_cases hq : q = []
  · subst hq; rfl
  · rw [get_of_ne hq, get_of_ne hq]
    exact lookup_map_node t.entries (fun p n => match n with
      | .file ino data => .file ino (f p ino data)
      | n => n) q

/-- `open(p, O_CREAT | O_TRUNC)`: the file's inode, and the file is empty now. -/
def openTrunc (p : FilePath) : Option (Nat × FileTree) :=
  match t.get p with
  | some (.file ino _) => some (ino, t.mapData fun q _ data => if q = p then "" else data)
  | some _ => none
  | none => (t.create p (.file t.fresh "")).map fun t' => (t.fresh, t')

/-- `open(p, O_CREAT)`: what is there stays. -/
def openKeep (p : FilePath) : Option FileTree :=
  match t.get p with
  | some (.file _ _) => some t
  | some _ => none
  | none => t.create p (.file t.fresh "")

/-- `write` of `data` at the start of a file that holds `old`. -/
def overwrite (old data : String) : String :=
  String.ofList (data.toList ++ old.toList.drop data.toList.length)

/-- Write through a descriptor of inode `ino` opened as `p`. -/
def writeData (p : FilePath) (ino : Nat) (data : String) : FileTree :=
  t.mapData fun q i old => if q = p ∧ i = ino then overwrite old data else old

/-- `mkdir -p`, from the directory `done` on. The flag says whether all of it is there now. -/
def mkdirFrom (t : FileTree) (done : FilePath) : List String → FileTree × Bool
  | [] => (t, true)
  | n :: rest =>
    match t.get (done ++ [n]) with
    | some m => if m.isDir then mkdirFrom t (done ++ [n]) rest else (t, false)
    | none =>
      match t.create (done ++ [n]) .dir with
      | some t' => mkdirFrom t' (done ++ [n]) rest
      | none => (t, false)

def mkdirAll (p : FilePath) : FileTree × Bool := mkdirFrom t [] p

/-! ### Renaming -/

/-- What the kernel asks of `rename(src, dst)`. -/
def canRename (src dst : FilePath) : Bool :=
  t.present src && t.isDir dst.dropLast && !decide (src <+: dst) && !decide (dst <+: src) &&
    match t.get src, t.get dst with
    | some _, none => true
    | some .dir, some .dir => (t.children dst).isEmpty
    | some .dir, some _ => false
    | some _, some .dir => false
    | some _, some _ => true
    | none, _ => false

theorem canRename_spec {src dst : FilePath} (h : t.canRename src dst = true) :
    t.present src = true ∧ t.isDir dst.dropLast = true ∧ ¬ src <+: dst ∧ ¬ dst <+: src := by
  simp only [canRename, Bool.and_eq_true, Bool.not_eq_true', decide_eq_false_iff_not] at h
  exact ⟨h.1.1.1.1, h.1.1.1.2, h.1.1.2, h.1.2⟩

theorem move_wf {src dst : FilePath} (h : t.canRename src dst = true) :
    ∀ e ∈ t.entries.filterMap (moveEntry src dst),
      dirIn (t.entries.filterMap (moveEntry src dst)) e.1.dropLast = true := by
  obtain ⟨_, hdir, hsd, hds⟩ := t.canRename_spec h
  have hdst : dst ≠ [] := fun h => hds (h ▸ List.nil_prefix)
  rintro e he
  obtain ⟨⟨p, n⟩, hp, hm⟩ := List.mem_filterMap.1 he
  have hwf := t.wf _ hp
  simp only [dirIn, getIn] at hwf ⊢
  unfold moveEntry at hm
  split_ifs at hm with hsp hdp
  · obtain rfl := Option.some.inj hm
    obtain ⟨r, rfl⟩ := hsp
    rw [List.drop_left]
    rcases List.eq_nil_or_concat' r with rfl | ⟨r, x, rfl⟩
    · -- the moved directory itself: its parent is the target's
      simp only [isDir, get, getIn] at hdir
      by_cases hnil : dst.dropLast = []
      · simp [hnil, Node.isDir]
      · rw [if_neg hnil] at hdir
        rw [List.append_nil, if_neg hnil, lookup_move, if_neg, if_neg (not_prefix_dropLast hsd)]
        · exact hdir
        · intro hpre
          have hlen : dst.length ≤ dst.dropLast.length := hpre.length_le
          have := List.length_pos_of_ne_nil hdst
          rw [List.length_dropLast] at hlen
          omega
    · -- below it: the parent moved along
      rw [← List.append_assoc, List.dropLast_concat] at hwf ⊢
      have hne : dst ++ r ≠ [] := by simp [hdst]
      rw [if_neg hne, lookup_move, if_pos (List.prefix_append _ _), List.drop_left]
      split_ifs at hwf with hnil
      · obtain ⟨rfl, rfl⟩ := List.append_eq_nil_iff.1 hnil
        exact absurd List.nil_prefix hsd
      · exact hwf
  · obtain rfl := Option.some.inj hm
    by_cases hnil : p.dropLast = []
    · simp [hnil, Node.isDir]
    · rw [if_neg hnil] at hwf ⊢
      rw [lookup_move, if_neg (not_prefix_dropLast hdp), if_neg (not_prefix_dropLast hsp)]
      exact hwf

def rename (src dst : FilePath) : Option FileTree :=
  if h : t.canRename src dst then
    some ⟨t.entries.filterMap (moveEntry src dst), t.fresh, t.move_wf h⟩
  else none

variable {t}

theorem get_rename {src dst : FilePath} {t' : FileTree} (h : t.rename src dst = some t') (q : FilePath) :
    t'.get q = if dst <+: q then t.get (src ++ q.drop dst.length)
      else if src <+: q then none else t.get q := by
  unfold rename at h
  split_ifs at h with hc
  obtain rfl := Option.some.inj h
  obtain ⟨_, _, hsd, hds⟩ := t.canRename_spec hc
  have hdst : dst ≠ [] := fun h => hds (h ▸ List.nil_prefix)
  have hsrc : src ≠ [] := fun h => hsd (h ▸ List.nil_prefix)
  by_cases hq : q = []
  · subst hq
    simp [hdst, hsrc]
  · rw [get_of_ne hq, get_of_ne hq, get_of_ne (by simp [hsrc])]
    exact lookup_move _ _ _ _

theorem rename_isSome {src dst : FilePath} : (t.rename src dst).isSome = t.canRename src dst := by
  unfold rename
  split_ifs with h <;> simp [h]

/-! ### What stays -/

/-- Neither path lies at or below the other. -/
def Apart (a b : FilePath) : Prop := ¬ a <+: b ∧ ¬ b <+: a

theorem Apart.symm {a b : FilePath} (h : Apart a b) : Apart b a := ⟨h.2, h.1⟩

theorem Apart.not_below {a b : FilePath} (h : Apart a b) (q : FilePath) : ¬ a <+: b ++ q := by
  intro hp
  rcases List.prefix_or_prefix_of_prefix hp (List.prefix_append b q) with h' | h'
  · exact h.1 h'
  · exact h.2 h'

theorem Apart.append {a b : FilePath} (h : Apart a b) (p q : FilePath) : Apart (a ++ p) (b ++ q) :=
  ⟨fun hp => h.not_below q ((List.prefix_append a p).trans hp),
    fun hp => h.symm.not_below p ((List.prefix_append b q).trans hp)⟩

theorem below_congr {t t' : FileTree} {a b : FilePath} (h : Apart a b)
    (hf : ∀ q, ¬ a <+: q → t'.get q = t.get q) : t'.below b = t.below b :=
  funext fun q => hf (b ++ q) (h.not_below q)

variable {t' : FileTree} {p : FilePath}

theorem removeFile_eq_some (h : t.removeFile p = some t') : p ≠ [] ∧ t' = t.remove p := by
  have hp : p ≠ [] := by
    rintro rfl
    simp [removeFile] at h
  unfold removeFile at h
  split at h
  · exact ⟨hp, (Option.some.inj h).symm⟩
  · exact ⟨hp, (Option.some.inj h).symm⟩
  · exact absurd h (by simp)

theorem get_removeFile (h : t.removeFile p = some t') (q : FilePath) :
    t'.get q = if p <+: q then none else t.get q := by
  obtain ⟨hp, rfl⟩ := removeFile_eq_some h
  exact get_remove t hp q

theorem get_removeDirAll (hp : p ≠ []) (h : t.removeDirAll p = some t') (q : FilePath) :
    t'.get q = if p <+: q then none else t.get q := by
  unfold removeDirAll at h
  split_ifs at h
  obtain rfl := Option.some.inj h
  exact get_remove t hp q

theorem shrunk_removeDirAll {p : FilePath} {t' : FileTree} (h : t.removeDirAll p = some t') : Shrunk t' t := by
  unfold removeDirAll at h
  split_ifs at h
  obtain rfl := Option.some.inj h
  exact t.shrunk_restrict _ _

theorem removeDirAll_ne_self {p : FilePath} (hp : p ≠ []) (hdir : t.isDir p = true) :
    t.removeDirAll p ≠ some t := by
  intro h
  have hget := get_removeDirAll hp h p
  rw [if_pos (List.prefix_refl p)] at hget
  rw [isDir, hget] at hdir
  exact absurd hdir (by simp)

/-- A file that is opened was there or is made. -/
theorem openKeep_cases (h : t.openKeep p = some t') :
    (t' = t ∧ ∃ ino data, t.get p = some (.file ino data)) ∨ t.create p (.file t.fresh "") = some t' := by
  unfold openKeep at h
  split at h
  · rename_i ino data hg
    exact .inl ⟨(Option.some.inj h).symm, ino, data, hg⟩
  · exact absurd h (by simp)
  · exact .inr h

theorem get_openKeep (h : t.openKeep p = some t') {q : FilePath} (hq : q ≠ p) : t'.get q = t.get q := by
  obtain ⟨rfl, -⟩ | hcreate := openKeep_cases h
  · rfl
  · rw [get_create hcreate, if_neg hq]

theorem get_openKeep_self (h : t.openKeep p = some t') :
    ∃ ino data, t'.get p = some (.file ino data) := by
  obtain ⟨rfl, hfile⟩ | hcreate := openKeep_cases h
  · exact hfile
  · exact ⟨t.fresh, "", by rw [get_create hcreate, if_pos rfl]⟩

/-- A file that is opened for writing was there and is emptied, or is made. -/
theorem openTrunc_cases {ino : Nat} (h : t.openTrunc p = some (ino, t')) :
    (∃ data, t.get p = some (.file ino data) ∧ t' = t.mapData fun q _ data => if q = p then "" else data) ∨
      ino = t.fresh ∧ t.create p (.file t.fresh "") = some t' := by
  unfold openTrunc at h
  split at h
  · rename_i i data hg
    obtain ⟨rfl, rfl⟩ := Prod.mk.inj (Option.some.inj h)
    exact .inl ⟨data, hg, rfl⟩
  · exact absurd h (by simp)
  · obtain ⟨t₁, hcreate, heq⟩ := Option.map_eq_some_iff.1 h
    obtain ⟨rfl, rfl⟩ := Prod.mk.inj heq
    exact .inr ⟨rfl, hcreate⟩

theorem get_openTrunc {ino : Nat} (h : t.openTrunc p = some (ino, t')) {q : FilePath} (hq : q ≠ p) :
    t'.get q = t.get q := by
  obtain ⟨data, -, rfl⟩ | ⟨-, hcreate⟩ := openTrunc_cases h
  · rw [get_mapData]
    cases hg : t.get q with
    | none => rfl
    | some n => cases n <;> simp [hq]
  · rw [get_create hcreate, if_neg hq]

theorem get_openTrunc_self {ino : Nat} (h : t.openTrunc p = some (ino, t')) :
    t'.get p = some (.file ino "") := by
  obtain ⟨data, hg, rfl⟩ | ⟨rfl, hcreate⟩ := openTrunc_cases h
  · rw [get_mapData, hg]
    simp
  · rw [get_create hcreate, if_pos rfl]

/-- Opening for writing fails only where a directory is, or where there is no parent. -/
theorem openTrunc_eq_none (h : t.openTrunc p = none) :
    t.present p = true ∨ t.isDir p.dropLast = false := by
  unfold openTrunc at h
  split at h
  · exact absurd h (by simp)
  · rename_i n _ hg
    exact .inl (present_iff.2 ⟨_, hg⟩)
  · rename_i hg
    rw [Option.map_eq_none_iff, create_eq_none, hg] at h
    exact .inr (by simpa using h)

/-- No file opens under a directory's name. -/
theorem openTrunc_of_isDir (h : t.isDir p = true) : t.openTrunc p = none := by
  unfold openTrunc
  cases hget : t.get p with
  | none =>
    rw [isDir, hget] at h
    nomatch h
  | some n =>
    rw [isDir, hget] at h
    cases n with
    | file ino data => nomatch h
    | dir => rfl
    | link => rfl

theorem exists_openTrunc (hfile : t.isDir p = false) (hparent : t.isDir p.dropLast = true) :
    ∃ ino t', t.openTrunc p = some (ino, t') := by
  unfold openTrunc
  cases hget : t.get p with
  | none =>
    obtain ⟨t', hcreate⟩ := create_of (.file t.fresh "") hget hparent
    simp only [hcreate, Option.map_some]
    exact ⟨_, _, rfl⟩
  | some n =>
    rw [isDir, hget] at hfile
    cases n with
    | file ino data => exact ⟨_, _, rfl⟩
    | dir => nomatch hfile
    | link => nomatch hfile

theorem get_writeData (t : FileTree) {p q : FilePath} (hq : q ≠ p) (ino : Nat) (data : String) :
    (t.writeData p ino data).get q = t.get q := by
  rw [writeData, get_mapData]
  cases hg : t.get q with
  | none => rfl
  | some n => cases n <;> simp [hq]

theorem present_writeData (t : FileTree) (p : FilePath) (ino : Nat) (data : String) (q : FilePath) :
    (t.writeData p ino data).present q = t.present q := by
  rw [present, present, writeData, get_mapData]
  cases t.get q <;> rfl

theorem get_writeData_self {ino : Nat} {old : String} (h : t.get p = some (.file ino old))
    (data : String) :
    (t.writeData p ino data).get p = some (.file ino (overwrite old data)) := by
  rw [writeData, get_mapData, h]
  simp

theorem overwrite_empty (data : String) : overwrite "" data = data := by
  simp [overwrite]

/-! ### Changes at one path -/

theorem children_remove (t : FileTree) {d : FilePath} (h : ∀ n, ¬ p <+: d ++ [n]) :
    (t.remove p).children d = t.children d := by
  unfold children remove restrict
  dsimp only
  rw [List.filterMap_filter]
  congr 1
  apply List.filterMap_congr
  intro e _
  by_cases he : e.1 ≠ [] ∧ e.1.dropLast = d
  · obtain ⟨hne, rfl⟩ := he
    have hp := h (e.1.getLast hne)
    rw [List.dropLast_concat_getLast] at hp
    simp [hp]
  · rw [if_neg he, ite_self]

theorem children_create {n : Node} {d : FilePath} (h : t.create p n = some t') (hd : p.dropLast ≠ d) :
    t'.children d = t.children d := by
  unfold create at h
  split_ifs at h
  obtain rfl := Option.some.inj h
  unfold children
  rw [List.filterMap_cons_none]
  exact if_neg fun he => hd he.2

theorem children_mapData (t : FileTree) (f : FilePath → Nat → String → String) (d : FilePath) :
    (t.mapData f).children d = t.children d := by
  unfold children mapData
  rw [List.filterMap_map]
  rfl

/-- Two trees that differ at and below one path only. -/
structure OnlyAt (p : FilePath) (t' t : FileTree) : Prop where
  get : ∀ q, ¬ p <+: q → t'.get q = t.get q
  children : ∀ d, (∀ n, ¬ p <+: d ++ [n]) → t'.children d = t.children d

theorem onlyAt_refl (p : FilePath) (t : FileTree) : OnlyAt p t t := ⟨fun _ _ => rfl, fun _ _ => rfl⟩

theorem onlyAt_removeFile (h : t.removeFile p = some t') : OnlyAt p t' t := by
  obtain ⟨hp, rfl⟩ := removeFile_eq_some h
  constructor
  · intro q hq
    rw [get_remove t hp, if_neg hq]
  · exact fun d hd => children_remove t hd

theorem onlyAt_create {n : Node} (h : t.create p n = some t') : OnlyAt p t' t := by
  have hp : p ≠ [] := by
    rintro rfl
    simp [create] at h
  constructor
  · intro q hq
    rw [get_create h, if_neg]
    rintro rfl
    exact hq (List.prefix_refl _)
  · intro d hd
    apply children_create h
    rintro rfl
    apply hd (p.getLast hp)
    rw [List.dropLast_concat_getLast hp]

theorem onlyAt_openTrunc {ino : Nat} (h : t.openTrunc p = some (ino, t')) : OnlyAt p t' t := by
  refine ⟨fun q hq => get_openTrunc h ?_, ?_⟩
  · rintro rfl
    exact hq (List.prefix_refl _)
  · obtain ⟨data, -, rfl⟩ | ⟨-, hcreate⟩ := openTrunc_cases h
    · exact fun d _ => children_mapData t _ d
    · exact (onlyAt_create hcreate).children

/-! ### `mkdir -p` -/

theorem get_mkdirFrom (t : FileTree) (done rest : FilePath) {q : FilePath} (hq : ¬ q <+: done ++ rest) :
    (mkdirFrom t done rest).1.get q = t.get q := by
  induction rest generalizing t done with
  | nil => rfl
  | cons n rest ih =>
    have hq' : ¬ q <+: done ++ [n] ++ rest := by simpa using hq
    have hne : q ≠ done ++ [n] := by
      rintro rfl
      exact hq (by simp)
    unfold mkdirFrom
    split
    · split_ifs
      · exact ih t _ hq'
      · rfl
    · split
      · rename_i t' hc
        rw [ih t' _ hq', get_create hc, if_neg hne]
      · rfl

theorem get_mkdirAll (t : FileTree) {p q : FilePath} (hq : ¬ q <+: p) :
    (t.mkdirAll p).1.get q = t.get q := get_mkdirFrom t [] p hq

/-- No file stands on the way to `p`. -/
def Passable (t : FileTree) (p : FilePath) : Prop := ∀ q, q <+: p → t.present q = true → t.isDir q = true

theorem present_of_prefix {p q : FilePath} (hq : q <+: p) (h : t.present p = true) : t.present q = true := by
  obtain ⟨r, rfl⟩ := hq
  by_cases hr : r = []
  · rwa [hr, List.append_nil] at h
  · exact present_of_isDir (isDir_of_present_below hr h)

theorem mkdirFrom_cases (t : FileTree) (done rest : FilePath) (hdone : t.isDir done = true) :
    (∃ k, t.present (done ++ rest.take k) = true ∧ t.isDir (done ++ rest.take k) = false) ∧
        mkdirFrom t done rest = (t, false) ∨
      (mkdirFrom t done rest).2 = true ∧ (mkdirFrom t done rest).1.isDir (done ++ rest) = true ∧
        ∀ q, (mkdirFrom t done rest).1.get q =
          if q <+: done ++ rest ∧ t.get q = none then some .dir else t.get q := by
  induction rest generalizing t done with
  | nil =>
    refine .inr ⟨rfl, by simpa [mkdirFrom] using hdone, fun q => (if_neg fun hq => ?_).symm⟩
    have hpresent := present_of_prefix (List.append_nil done ▸ hq.1) (present_of_isDir hdone)
    rw [present, hq.2] at hpresent
    nomatch hpresent
  | cons n rest ih =>
    have hnext : ∀ k, done ++ [n] ++ rest.take k = done ++ (n :: rest).take (k + 1) := by simp
    have hcat : done ++ n :: rest = done ++ [n] ++ rest := by simp
    unfold mkdirFrom
    rw [hcat]
    cases hget : t.get (done ++ [n]) with
    | some m =>
      have hself : t.isDir (done ++ [n]) = m.isDir := by rw [isDir, hget, Option.any_some]
      cases hm : m.isDir with
      | false =>
        refine .inl ⟨⟨1, ?_, ?_⟩, ?_⟩
        · rw [← hnext 0, List.take_zero, List.append_nil, present, hget]
          rfl
        · rw [← hnext 0, List.take_zero, List.append_nil, hself, hm]
        · simp only [hm, Bool.false_eq_true, if_false]
      | true =>
        simp only [hm, if_true]
        rcases ih t (done ++ [n]) (hself.trans hm) with ⟨⟨k, hk⟩, hrun⟩ | hrun
        · exact .inl ⟨⟨k + 1, by rw [← hnext]; exact hk⟩, hrun⟩
        · exact .inr hrun
    | none =>
      obtain ⟨t', hcreate⟩ := create_of .dir hget (by simpa using hdone)
      have hself : t'.isDir (done ++ [n]) = true := by
        rw [isDir, get_create hcreate, if_pos rfl]
        rfl
      simp only [hcreate]
      right
      rcases ih t' (done ++ [n]) hself with ⟨⟨k, hpresent, hnot⟩, -⟩ | ⟨hdone', hdir, hrun⟩
      · by_cases hk : rest.take k = []
        · rw [hk, List.append_nil] at hnot
          nomatch hnot.symm.trans hself
        · -- nothing lies below a path that was not there
          have hne : done ++ [n] ++ rest.take k ≠ done ++ [n] := by simpa using hk
          rw [present, get_create hcreate, if_neg hne] at hpresent
          have habove := present_of_isDir (isDir_of_present_below hk (show t.present _ = true from hpresent))
          rw [present, hget] at habove
          nomatch habove
      · refine ⟨hdone', hdir, fun q => ?_⟩
        rw [hrun, get_create hcreate]
        by_cases hq : q = done ++ [n]
        · simp [hq, hget]
        · rw [if_neg hq]

/-- A file on the way stops `mkdir -p` before it makes anything; else it makes what is missing. -/
theorem mkdirAll_cases (t : FileTree) (p : FilePath) :
    ¬ t.Passable p ∧ t.mkdirAll p = (t, false) ∨
      t.Passable p ∧ (t.mkdirAll p).2 = true ∧
        ∀ q, (t.mkdirAll p).1.get q = if q <+: p ∧ t.get q = none then some .dir else t.get q := by
  rcases mkdirFrom_cases t [] p rfl with ⟨⟨k, hpresent, hnot⟩, hrun⟩ | ⟨hdone, hdir, hrun⟩
  · refine .inl ⟨fun hpass => ?_, hrun⟩
    nomatch hnot.symm.trans (hpass _ (List.take_prefix k p) hpresent)
  · refine .inr ⟨fun q hq hpresent => ?_, hdone, hrun⟩
    have hsame : (mkdirFrom t [] p).1.get q = t.get q := by
      obtain ⟨n, hn⟩ := present_iff.1 hpresent
      rw [hrun, if_neg]
      simp [hn]
    rw [isDir, ← hsame, ← isDir]
    exact isDir_of_prefix hq hdir

/-! ### What a rename moves -/

theorem below_rename_dst {src dst : FilePath} (h : t.rename src dst = some t') :
    t'.below dst = t.below src := by
  funext q
  rw [below, get_rename h, if_pos (List.prefix_append _ _), List.drop_left, below]

theorem below_rename_src {src dst : FilePath} (h : t.rename src dst = some t') :
    t'.below src = fun _ => none := by
  have hc : t.canRename src dst = true := by
    rw [← rename_isSome, h]
    rfl
  obtain ⟨-, -, hsd, hds⟩ := t.canRename_spec hc
  funext q
  have hnot : ¬ dst <+: src ++ q := Apart.not_below ⟨hds, hsd⟩ q
  rw [below, get_rename h, if_neg hnot, if_pos (List.prefix_append _ _)]

theorem get_rename_apart {src dst q : FilePath} (h : t.rename src dst = some t') (hs : ¬ src <+: q)
    (hd : ¬ dst <+: q) : t'.get q = t.get q := by
  rw [get_rename h, if_neg hd, if_neg hs]

theorem below_rename_apart {src dst a : FilePath} (h : t.rename src dst = some t') (hs : Apart src a)
    (hd : Apart dst a) : t'.below a = t.below a :=
  funext fun q => get_rename_apart h (hs.not_below q) (hd.not_below q)

/-- Renaming a directory to a free name below a directory works. -/
theorem rename_of {src dst : FilePath} (hsrc : t.present src = true) (hdst : t.get dst = none)
    (hdir : t.isDir dst.dropLast = true) (hap : Apart src dst) :
    ∃ t', t.rename src dst = some t' := by
  have hc : t.canRename src dst = true := by
    obtain ⟨n, hn⟩ := present_iff.1 hsrc
    simp [canRename, hsrc, hdir, hap.1, hap.2, hn, hdst]
  rw [← Option.isSome_iff_exists, rename_isSome, hc]

/-! ### Building a tree -/

def empty : FileTree := ⟨[], 0, by simp⟩

/-- A file with the directories above it. -/
def put (t : FileTree) (p : FilePath) (data : String) : FileTree :=
  let t' := (t.mkdirAll p.dropLast).1
  (t'.create p (.file t'.fresh data)).getD t'

def ofFiles (files : List (FilePath × String)) : FileTree :=
  files.foldl (fun t f => t.put f.1 f.2) empty

end FileTree
