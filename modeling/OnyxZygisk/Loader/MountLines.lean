import OnyxZygisk.Lib.Istream

/-!
# The lines of mountinfo

`parse_mount_info` takes a line of `/proc/<pid>/mountinfo` apart as words between blanks, and as they stand there.
The kernel prints some bytes of a path as octal escapes, which are not undone, and prints what else the parser
takes for the end of a word as it is. So the entries are the kernel's mounts just where no root, target or source
has such a byte, or could be mistaken for the separator (`mountinfo_exact_iff`).
-/

namespace OnyxZygisk.Loader

open Istream

/-! ### The parser -/

/-- `mount_info` -/
structure MountEntry where
  id : Nat
  parent : Nat
  device : Nat
  root : List UInt8
  target : List UInt8
  vfsOptions : List UInt8
  type : List UInt8
  source : List UInt8
  fsOptions : List UInt8
  rawInfo : List UInt8
  deriving DecidableEq

def makedev (maj min : Nat) : Nat :=
  ((maj &&& 0xfffff000) <<< 32) ||| ((maj &&& 0xfff) <<< 8) ||| ((min &&& 0xffffff00) <<< 12) ||| (min &&& 0xff)

/-- `sscanf` with `%u:%u` -/
def scanDevice (s : List UInt8) : Option (Nat × Nat) := do
  let (maj, s) ← scanUnsigned s
  match s with
  | 0x3a :: s => (scanUnsigned s).map fun (min, _) => (maj, min)
  | _ => none

/-- What `getline` finds left in the stream, without the blank in front. -/
def remaining (s : List UInt8) : List UInt8 :=
  match s.takeWhile (· != 0x0a) with
  | 0x20 :: rest => rest
  | _ => []

/-- The body of the loop; a malformed line gives nothing. -/
def parseLine (line : List UInt8) : Option MountEntry := do
  let (part1, part2) ← splitDash line
  let (id, s) ← unsigned part1
  let (parent, s) ← unsigned s
  let (deviceStr, s) ← word s
  let (root, s) ← word s
  let (target, s) ← word s
  let (maj, min) ← scanDevice deviceStr
  let (type, s₂) ← word part2
  let (source, s₂) ← word s₂
  some {
    id := id
    parent := parent
    device := makedev maj min
    root := root
    target := target
    vfsOptions := remaining s
    type := type
    source := source
    fsOptions := remaining s₂
    rawInfo := line }

/-- `parse_mount_info`; `none` is a file that does not open. -/
def parseMountInfo (file : Option (List UInt8)) : List MountEntry :=
  match file with
  | none => []
  | some text => (getlines text).filterMap parseLine

/-! ### The kernel's side -/

def escapedBytes : List UInt8 := [0x20, 0x09, 0x0a, 0x5c]

/-- A blank, a tab, a line feed and a backslash are printed as octal escapes. -/
def escapeByte (b : UInt8) : List UInt8 :=
  if b ∈ escapedBytes then [0x5c, 0x30 + b / 64, 0x30 + b / 8 % 8, 0x30 + b % 8] else [b]

def escape (s : List UInt8) : List UInt8 := s.flatMap escapeByte

def dash : List UInt8 := [0x2d]

/-- A mount. The options and the type are words of the kernel's own. -/
structure KernelMount where
  id : Nat
  parent : Nat
  major : Nat
  minor : Nat
  root : List UInt8
  target : List UInt8
  vfsOptions : List UInt8
  optional : List (List UInt8)
  type : List UInt8
  source : List UInt8
  fsOptions : List UInt8
  id_lt : id < 2 ^ 31
  parent_lt : parent < 2 ^ 31
  major_lt : major < 2 ^ 12
  minor_lt : minor < 2 ^ 20
  options : ∀ f ∈ vfsOptions :: optional, IsWord f ∧ f ≠ dash
  type_word : IsWord type
  fsOptions_line : 0x0a ∉ fsOptions

/-- A line with these in the place of the root, the target and the source. -/
def KernelMount.lineWith (m : KernelMount) (root target source : List UInt8) : List UInt8 :=
  joined ([decimal m.id, decimal m.parent, decimal m.major ++ 0x3a :: decimal m.minor, root, target] ++
    (m.vfsOptions :: m.optional) ++ dash :: [m.type, source, m.fsOptions])

/-- `show_mountinfo` -/
def KernelMount.line (m : KernelMount) : List UInt8 := m.lineWith (escape m.root) (escape m.target) (escape m.source)

def mountinfo (table : List KernelMount) : List UInt8 := table.flatMap fun m => m.line ++ [0x0a]

/-- What an entry says of its mount. -/
structure MountValues where
  id : Nat
  parent : Nat
  device : Nat
  root : List UInt8
  target : List UInt8
  type : List UInt8
  source : List UInt8
  deriving DecidableEq

def MountEntry.values (e : MountEntry) : MountValues := ⟨e.id, e.parent, e.device, e.root, e.target, e.type, e.source⟩

def KernelMount.values (m : KernelMount) : MountValues :=
  ⟨m.id, m.parent, makedev m.major m.minor, m.root, m.target, m.type, m.source⟩

/-! ### Escapes -/

variable {m : KernelMount} {b : UInt8} {s root target source : List UInt8} {entry : MountEntry}

theorem escapeByte_cases (b : UInt8) :
    b ∈ escapedBytes ∧ (escapeByte b).length = 4 ∧ (∀ c ∈ escapeByte b, isSpace c = false) ∨
      b ∉ escapedBytes ∧ escapeByte b = [b] := by
  unfold escapeByte
  split_ifs with hb
  · left
    refine ⟨hb, rfl, ?_⟩
    simp only [escapedBytes, List.mem_cons, List.not_mem_nil, or_false] at hb
    obtain rfl | rfl | rfl | rfl := hb <;> exact not_space_of_all (by decide)
  · exact .inr ⟨hb, rfl⟩

theorem blank_not_mem_escape (s : List UInt8) : 0x20 ∉ escape s ∧ 0x0a ∉ escape s := by
  have hbyte : ∀ b c : UInt8, c ∈ escapedBytes → isSpace c = true → c ∉ escapeByte b := by
    intro b c hc hspace hmem
    rcases escapeByte_cases b with ⟨-, -, hnone⟩ | ⟨hnot, heq⟩
    · nomatch hspace.symm.trans (hnone c hmem)
    · rw [heq, List.mem_singleton] at hmem
      exact hnot (hmem ▸ hc)
  unfold escape
  simp only [List.mem_flatMap, not_exists, not_and]
  exact ⟨fun b _ => hbyte b 0x20 (by decide) (by decide), fun b _ => hbyte b 0x0a (by decide) (by decide)⟩

theorem isWord_escape (h : IsWord s) : IsWord (escape s) := by
  obtain ⟨hne, hspace⟩ := h
  constructor
  · intro hnil
    cases s with
    | nil => exact hne rfl
    | cons b s =>
      have hb := (List.flatMap_eq_nil_iff.1 hnil) b List.mem_cons_self
      rcases escapeByte_cases b with ⟨-, hlen, -⟩ | ⟨-, heq⟩
      · rw [hb] at hlen
        nomatch hlen
      · rw [hb] at heq
        nomatch heq
  · intro c hc
    obtain ⟨b, hb, hc⟩ := List.mem_flatMap.1 hc
    rcases escapeByte_cases b with ⟨-, -, hnone⟩ | ⟨-, heq⟩
    · exact hnone c hc
    · rw [heq, List.mem_singleton] at hc
      exact hc ▸ hspace b hb

theorem escape_eq_self (h : ∀ b ∈ s, b ∉ escapedBytes) : escape s = s := by
  induction s with
  | nil => rfl
  | cons b s ih =>
    rw [List.forall_mem_cons] at h
    rw [escape, List.flatMap_cons, escapeByte, if_neg h.1, ← escape, ih h.2]
    rfl

theorem length_le_escape (s : List UInt8) : s.length ≤ (escape s).length := by
  induction s with
  | nil => exact Nat.le_refl 0
  | cons b s ih =>
    rw [escape, List.flatMap_cons, List.length_append, ← escape, List.length_cons]
    rcases escapeByte_cases b with ⟨-, hlen, -⟩ | ⟨-, heq⟩
    · omega
    · rw [heq, List.length_singleton]
      omega

/-- An escape makes the text longer. -/
theorem not_escaped_of_eq (h : escape s = s) : ∀ b ∈ s, b ∉ escapedBytes := by
  induction s with
  | nil => nofun
  | cons b s ih =>
    rw [escape, List.flatMap_cons, ← escape] at h
    have hlen := length_le_escape s
    rcases escapeByte_cases b with ⟨-, hfour, -⟩ | ⟨hnot, heq⟩
    · have hsame := congrArg List.length h
      rw [List.length_append, List.length_cons] at hsame
      omega
    · rw [heq] at h
      rw [List.forall_mem_cons]
      exact ⟨hnot, ih (List.cons.inj h).2⟩

/-! ### One line -/

/-- A name the parser reads as it is. -/
def Readable (s : List UInt8) : Prop := IsWord s ∧ 0x5c ∉ s

/-- Neither the root nor the target may be mistaken for the separator. -/
structure KernelMount.Legible (m : KernelMount) : Prop where
  root : Readable m.root
  target : Readable m.target
  source : Readable m.source
  root_ne : m.root ≠ dash
  target_ne : m.target ≠ dash

theorem escape_of_readable (h : Readable s) : escape s = s := by
  obtain ⟨⟨-, hspace⟩, hback⟩ := h
  apply escape_eq_self
  intro b hb hmem
  simp only [escapedBytes, List.mem_cons, List.not_mem_nil, or_false] at hmem
  obtain rfl | rfl | rfl | rfl := hmem
  · nomatch hspace _ hb
  · nomatch hspace _ hb
  · nomatch hspace _ hb
  · exact hback hb

theorem readable_of_escape (hw : IsWord s) (h : escape s = s) : Readable s :=
  ⟨hw, fun hb => not_escaped_of_eq h _ hb (by decide)⟩

theorem blank_not_mem (h : IsWord s) : 0x20 ∉ s ∧ 0x0a ∉ s := by
  refine ⟨fun hb => ?_, fun hb => ?_⟩
  · nomatch h.2 _ hb
  · nomatch h.2 _ hb

theorem decimal_word (n : Nat) : IsWord (decimal n) ∧ decimal n ≠ dash := by
  refine ⟨isWord_decimal n, fun h => ?_⟩
  have hdigit := (decimal_digits n).1 0x2d (h ▸ List.mem_singleton.2 rfl)
  exact absurd hdigit (by decide)

theorem device_word (maj min : Nat) :
    IsWord (decimal maj ++ 0x3a :: decimal min) ∧ decimal maj ++ 0x3a :: decimal min ≠ dash := by
  refine ⟨⟨by simp, fun b hb => ?_⟩, fun h => ?_⟩
  · rw [List.mem_append, List.mem_cons] at hb
    rcases hb with hb | rfl | hb
    · exact (isWord_decimal maj).2 b hb
    · decide
    · exact (isWord_decimal min).2 b hb
  · have hcolon : (0x3a : UInt8) ∈ dash := h ▸ List.mem_append_right _ List.mem_cons_self
    exact absurd hcolon (by decide)

/-- A line is cut at its first dash. -/
theorem splitDash_words {fields rest : List (List UInt8)} (hfields : fields ≠ []) (hrest : rest ≠ [])
    (hwords : ∀ f ∈ fields, IsWord f ∧ f ≠ dash) :
    splitDash (joined (fields ++ dash :: rest)) = some (joined fields, joined rest) := by
  apply splitDash_joined hfields hrest
  · exact fun f hf => (blank_not_mem (hwords f hf).1).1
  · exact fun hf => (hwords dash (List.mem_of_mem_tail hf)).2 rfl

theorem scanDevice_rendered {maj min : Nat} (hmaj : maj < 2 ^ 32) (hmin : min < 2 ^ 32) :
    scanDevice (decimal maj ++ 0x3a :: decimal min) = some (maj, min) := by
  have hcolon : EndsDigits (0x3a :: decimal min) := by
    intro b hb
    rw [← Option.some.inj hb]
    decide
  have hend : EndsDigits [] := nofun
  have hlast := scanUnsigned_decimal hmin hend
  rw [List.append_nil] at hlast
  rw [scanDevice, scanUnsigned_decimal hmaj hcolon]
  show (scanUnsigned (decimal min)).map _ = _
  rw [hlast]
  rfl

/-- What an entry is made of: words. -/
theorem words_of_parseLine {line : List UInt8} (h : parseLine line = some entry) :
    IsWord entry.root ∧ IsWord entry.target ∧ IsWord entry.source := by
  unfold parseLine at h
  simp only [Option.bind_eq_bind, Option.bind_eq_some_iff, Option.some.injEq] at h
  obtain ⟨_, -, _, -, _, -, _, -, _, hroot, _, htarget, _, -, _, -, _, hsource, rfl⟩ := h
  exact ⟨isWord_of_word hroot, isWord_of_word htarget, isWord_of_word hsource⟩

/-- With words that are no separator the line is read as it was printed. -/
theorem parseLine_words (m : KernelMount) (hroot : IsWord root) (htarget : IsWord target) (hsource : IsWord source)
    (hroot' : root ≠ dash) (htarget' : target ≠ dash) :
    ∃ entry, parseLine (m.lineWith root target source) = some entry ∧ entry.values =
      ⟨m.id, m.parent, makedev m.major m.minor, root, target, m.type, source⟩ := by
  have hid := m.id_lt
  have hparent := m.parent_lt
  have hmajor := m.major_lt
  have hminor := m.minor_lt
  obtain ⟨hdevice, -⟩ := device_word m.major m.minor
  have hcut : splitDash (m.lineWith root target source) =
      some (joined ([decimal m.id, decimal m.parent, decimal m.major ++ 0x3a :: decimal m.minor, root, target] ++
        (m.vfsOptions :: m.optional)), joined [m.type, source, m.fsOptions]) := by
    apply splitDash_words (by simp) (by simp)
    intro f hf
    simp only [List.cons_append, List.nil_append, List.mem_cons] at hf
    rcases hf with rfl | rfl | rfl | rfl | rfl | hf
    · exact decimal_word _
    · exact decimal_word _
    · exact device_word _ _
    · exact ⟨hroot, hroot'⟩
    · exact ⟨htarget, htarget'⟩
    · exact m.options f (List.mem_cons.2 hf)
  simp only [List.cons_append, List.nil_append] at hcut
  unfold parseLine
  rw [hcut]
  simp only [Option.bind_eq_bind, Option.bind_some]
  rw [unsigned_joined (by omega) (by simp), Option.bind_some, unsigned_blank, unsigned_joined (by omega) (by simp),
    Option.bind_some, word_blank, word_joined hdevice (by simp), Option.bind_some, word_blank,
    word_joined hroot (by simp), Option.bind_some, word_blank, word_joined htarget (by simp), Option.bind_some,
    scanDevice_rendered (by omega) (by omega), Option.bind_some, word_joined m.type_word (by simp), Option.bind_some,
    word_blank, word_joined hsource (by simp), Option.bind_some]
  exact ⟨_, rfl, rfl⟩

/-- A root that is a dash cuts the line, and nothing is left to be the root. -/
theorem parseLine_root_dash (m : KernelMount) (target source : List UInt8) :
    parseLine (m.lineWith dash target source) = none := by
  have hid := m.id_lt
  have hparent := m.parent_lt
  obtain ⟨hdevice, -⟩ := device_word m.major m.minor
  have hcut : splitDash (m.lineWith dash target source) =
      some (joined [decimal m.id, decimal m.parent, decimal m.major ++ 0x3a :: decimal m.minor],
        joined (target :: (m.vfsOptions :: m.optional) ++ dash :: [m.type, source, m.fsOptions])) := by
    have hfields := @splitDash_words [decimal m.id, decimal m.parent, decimal m.major ++ 0x3a :: decimal m.minor]
      (target :: (m.vfsOptions :: m.optional) ++ dash :: [m.type, source, m.fsOptions]) (by simp) (by simp)
    apply hfields
    simp only [List.mem_cons, List.not_mem_nil, or_false, forall_eq_or_imp, forall_eq]
    exact ⟨decimal_word _, decimal_word _, device_word _ _⟩
  have hlast := word_append hdevice ends_nil
  rw [List.append_nil] at hlast
  unfold parseLine
  rw [hcut]
  simp only [Option.bind_eq_bind, Option.bind_some]
  rw [unsigned_joined (by omega) (by simp), Option.bind_some, unsigned_blank, unsigned_joined (by omega) (by simp),
    Option.bind_some, word_blank, joined_singleton, hlast, Option.bind_some, word_nil]
  rfl

theorem parseLine_target_dash (m : KernelMount) (source : List UInt8) (hroot : IsWord root) (hroot' : root ≠ dash) :
    parseLine (m.lineWith root dash source) = none := by
  have hid := m.id_lt
  have hparent := m.parent_lt
  obtain ⟨hdevice, -⟩ := device_word m.major m.minor
  have hcut : splitDash (m.lineWith root dash source) =
      some (joined [decimal m.id, decimal m.parent, decimal m.major ++ 0x3a :: decimal m.minor, root],
        joined ((m.vfsOptions :: m.optional) ++ dash :: [m.type, source, m.fsOptions])) := by
    have hfields := @splitDash_words [decimal m.id, decimal m.parent, decimal m.major ++ 0x3a :: decimal m.minor, root]
      ((m.vfsOptions :: m.optional) ++ dash :: [m.type, source, m.fsOptions]) (by simp) (by simp)
    apply hfields
    simp only [List.mem_cons, List.not_mem_nil, or_false, forall_eq_or_imp, forall_eq]
    exact ⟨decimal_word _, decimal_word _, device_word _ _, hroot, hroot'⟩
  have hlast := word_append hroot ends_nil
  rw [List.append_nil] at hlast
  unfold parseLine
  rw [hcut]
  simp only [Option.bind_eq_bind, Option.bind_some]
  rw [unsigned_joined (by omega) (by simp), Option.bind_some, unsigned_blank, unsigned_joined (by omega) (by simp),
    Option.bind_some, word_blank, word_joined hdevice (by simp), Option.bind_some, word_blank, joined_singleton, hlast,
    Option.bind_some, word_nil]
  rfl

/-- A line gives the values of its mount if they are legible, and in no other case. -/
theorem parseLine_iff (m : KernelMount) :
    (∃ entry, parseLine m.line = some entry ∧ entry.values = m.values) ↔ m.Legible := by
  constructor
  · rintro ⟨entry, hparse, hvalues⟩
    obtain ⟨hroot, htarget, hsource⟩ := words_of_parseLine hparse
    rw [show entry.root = m.root from congrArg MountValues.root hvalues] at hroot
    rw [show entry.target = m.target from congrArg MountValues.target hvalues] at htarget
    rw [show entry.source = m.source from congrArg MountValues.source hvalues] at hsource
    have hroot' : escape m.root ≠ dash := by
      intro hdash
      rw [KernelMount.line, hdash, parseLine_root_dash] at hparse
      nomatch hparse
    have htarget' : escape m.target ≠ dash := by
      intro hdash
      rw [KernelMount.line, hdash, parseLine_target_dash m _ (isWord_escape hroot) hroot'] at hparse
      nomatch hparse
    obtain ⟨entry', hparse', hvalues'⟩ := parseLine_words m (isWord_escape hroot) (isWord_escape htarget)
      (isWord_escape hsource) hroot' htarget'
    obtain rfl : entry' = entry := Option.some.inj (hparse'.symm.trans hparse)
    have hsame := hvalues'.symm.trans hvalues
    have hrootSame : escape m.root = m.root := congrArg MountValues.root hsame
    have htargetSame : escape m.target = m.target := congrArg MountValues.target hsame
    have hsourceSame : escape m.source = m.source := congrArg MountValues.source hsame
    exact ⟨readable_of_escape hroot hrootSame, readable_of_escape htarget htargetSame,
      readable_of_escape hsource hsourceSame, hrootSame ▸ hroot', htargetSame ▸ htarget'⟩
  · intro h
    rw [KernelMount.line, escape_of_readable h.root, escape_of_readable h.target, escape_of_readable h.source]
    exact parseLine_words m h.root.1 h.target.1 h.source.1 h.root_ne h.target_ne

/-! ### The table -/

theorem newline_not_mem_joined {fields : List (List UInt8)} (h : ∀ f ∈ fields, 0x0a ∉ f) : 0x0a ∉ joined fields := by
  intro hmem
  rcases mem_joined hmem with hblank | ⟨f, hf, hin⟩
  · exact absurd hblank (by decide)
  · exact h f hf hin

theorem newline_not_mem_mountLine (m : KernelMount) : 0x0a ∉ m.line := by
  apply newline_not_mem_joined
  intro f hf
  simp only [List.cons_append, List.nil_append, List.mem_cons, List.mem_append, List.not_mem_nil, or_false] at hf
  rcases hf with rfl | rfl | rfl | rfl | rfl | hf | hf | rfl | rfl | rfl | rfl
  · exact (blank_not_mem (isWord_decimal _)).2
  · exact (blank_not_mem (isWord_decimal _)).2
  · exact (blank_not_mem (device_word _ _).1).2
  · exact (blank_not_mem_escape _).2
  · exact (blank_not_mem_escape _).2
  · exact (blank_not_mem (m.options f (List.mem_cons.2 (.inl hf))).1).2
  · exact (blank_not_mem (m.options f (List.mem_cons.2 (.inr hf))).1).2
  · decide
  · exact (blank_not_mem m.type_word).2
  · exact (blank_not_mem_escape _).2
  · exact m.fsOptions_line

theorem parseMountInfo_mountinfo (table : List KernelMount) :
    parseMountInfo (some (mountinfo table)) = table.filterMap fun m => parseLine m.line := by
  show (getlines (mountinfo table)).filterMap parseLine = _
  rw [mountinfo, getlines_flatMap fun m _ => newline_not_mem_mountLine m, List.filterMap_map]
  rfl

/-- With an entry for each, nothing is left out. -/
theorem filterMap_eq_map_iff {α β γ : Type} {f : α → Option β} {g : β → γ} {k : α → γ} (xs : List α) :
    (xs.filterMap f).map g = xs.map k ↔ ∀ x ∈ xs, ∃ y, f x = some y ∧ g y = k x := by
  induction xs with
  | nil => exact ⟨fun _ => nofun, fun _ => rfl⟩
  | cons x xs ih =>
    rw [List.forall_mem_cons, ← ih]
    cases hx : f x with
    | none =>
      rw [List.filterMap_cons_none hx]
      refine iff_of_false (fun h => ?_) (fun h => ?_)
      · have hlen := congrArg List.length h
        have hle := List.length_filterMap_le f xs
        rw [List.length_map, List.length_map, List.length_cons] at hlen
        omega
      · obtain ⟨⟨y, hy, -⟩, -⟩ := h
        nomatch hy
    | some y =>
      rw [List.filterMap_cons_some hx, List.map_cons, List.map_cons, List.cons.injEq]
      simp

/-- The parser gives the kernel's mounts, each with its values, if all of them are legible, and in no other case. -/
theorem mountinfo_exact_iff (table : List KernelMount) :
    (parseMountInfo (some (mountinfo table))).map MountEntry.values = table.map KernelMount.values ↔
      ∀ m ∈ table, m.Legible := by
  rw [parseMountInfo_mountinfo, filterMap_eq_map_iff]
  simp only [parseLine_iff]

/-- A mount at `/a b`. -/
def blankMount : KernelMount where
  id := 7
  parent := 1
  major := 0
  minor := 30
  root := [0x2f]
  target := [0x2f, 0x61, 0x20, 0x62]
  vfsOptions := [0x72, 0x77]
  optional := []
  type := [0x74, 0x6d, 0x70, 0x66, 0x73]
  source := [0x4b, 0x53, 0x55]
  fsOptions := [0x72, 0x77]
  id_lt := by decide
  parent_lt := by decide
  major_lt := by decide
  minor_lt := by decide
  options := by
    intro f hf
    obtain rfl := List.mem_singleton.1 hf
    exact ⟨⟨List.cons_ne_nil _ _, not_space_of_all (by decide)⟩, by decide⟩
  type_word := ⟨List.cons_ne_nil _ _, not_space_of_all (by decide)⟩
  fsOptions_line := by decide

/-- Its target is read as `/a\040b`. -/
theorem escape_not_undone : ¬ ∀ table : List KernelMount,
    (parseMountInfo (some (mountinfo table))).map MountEntry.values = table.map KernelMount.values := by
  intro h
  have htable := h [blankMount]
  revert htable
  decide

end OnyxZygisk.Loader
