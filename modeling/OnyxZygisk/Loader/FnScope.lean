import OnyxZygisk.Daemon.FnScan
import OnyxZygisk.Loader.FnStream

/-!
# Which FN modules a process loads

The daemon parses the `trigger` and `apps` lists of a descriptor, joins them with commas and sends them;
the loader splits them again. Its strings end at the first zero byte, so a list is seen up to there
(`fnLoad_iff`).
-/

namespace OnyxZygisk.Loader

open Daemon (FnNode FnScope)

/-! ### The loader -/

/-- A blank or a tab. -/
def isSpaceTab (b : UInt8) : Bool := b = 32 || b = 9

def trimBlank (token : List UInt8) : List UInt8 :=
  ((token.dropWhile isSpaceTab).reverse.dropWhile isSpaceTab).reverse

/-- `list_contains`: one of the texts between the commas is `needle`. -/
def listContains (list needle : List UInt8) : Bool :=
  (list.splitOn 44).any fun token => trimBlank token = needle

/-- `process` is `nice_name`, absent for a null pointer. -/
def fnScopeMatches (fn : FnModule) (process : Option (List UInt8)) : Bool :=
  let proc := process.getD []
  if fn.scope = 0 || proc = [] then true
  else
    let base := proc.takeWhile (· ≠ 58)
    let listed := listContains fn.apps proc || listContains fn.apps base
    if fn.scope = 1 then listed else !listed

def fnApplies (fn : FnModule) (isServer : Bool) : Bool :=
  if isServer then listContains fn.triggers (utf8 "system_server") || listContains fn.triggers (utf8 "zygote")
  else listContains fn.triggers (utf8 "app") || listContains fn.triggers (utf8 "zygote")

/-- The conditions in `run_modules_pre` in front of `LoadModuleFromMemfd`. -/
def attemptsLoad (fn : FnModule) (isServer : Bool) (process : Option (List UInt8)) : Bool :=
  fnApplies fn isServer && (isServer || fnScopeMatches fn process)

/-! ### The rule -/

/-- A process name `pkg` or `pkg:sub`. -/
structure ProcessName where
  pkg : List UInt8
  sub : Option (List UInt8)
  pkg_ne : pkg ≠ []
  colon : 58 ∉ pkg

def ProcessName.name (p : ProcessName) : List UInt8 :=
  match p.sub with
  | none => p.pkg
  | some sub => p.pkg ++ 58 :: sub

inductive Specialized where
  | systemServer (process : Option (List UInt8))
  | app (process : ProcessName)

def Specialized.isServer : Specialized → Bool
  | .systemServer _ => true
  | .app _ => false

def Specialized.process : Specialized → Option (List UInt8)
  | .systemServer process => process
  | .app p => some p.name

/-- Whether a node with these lists is for the process. -/
def FnRule (triggers apps : List (List UInt8)) (scope : FnScope) : Specialized → Prop
  | .systemServer _ => utf8 "system_server" ∈ triggers ∨ utf8 "zygote" ∈ triggers
  | .app p => (utf8 "app" ∈ triggers ∨ utf8 "zygote" ∈ triggers) ∧
      match scope with
      | .all => True
      | .allowlist => p.pkg ∈ apps ∨ p.name ∈ apps
      | .denylist => p.pkg ∉ apps ∧ p.name ∉ apps

/-- The items of a list in front of the first one with a zero byte, and what that one has before it. -/
def seen : List (List UInt8) → List (List UInt8)
  | [] => []
  | item :: items =>
    if 0 ∈ item then [trimBlank (item.takeWhile (· ≠ 0))] else item :: seen items

/-! ### Bytes of a text -/

/-- A byte below 128 in the encoding of a character is the whole of it. -/
theorem utf8EncodeChar_ascii {b : UInt8} {c : Char} (hb : b.toNat < 128)
    (h : b ∈ String.utf8EncodeChar c) : c = Char.ofNat b.toNat := by
  have hbyte (n : Nat) (hn : 128 ≤ n ∧ n < 256) : b ≠ UInt8.ofNat n := by
    intro heq
    rw [heq, UInt8.toNat_ofNat'] at hb
    omega
  unfold String.utf8EncodeChar at h
  simp only at h
  split_ifs at h with hone htwo hthree
  · rw [List.mem_singleton] at h
    have hval : b.toNat = c.toNat := by
      rw [h, UInt8.toNat_ofNat']
      exact Nat.mod_eq_of_lt (by omega)
    rw [hval, Char.ofNat_toNat]
  · simp only [List.mem_cons, List.not_mem_nil, or_false] at h
    rcases h with h | h <;> exact absurd h (hbyte _ (by omega))
  · simp only [List.mem_cons, List.not_mem_nil, or_false] at h
    rcases h with h | h | h <;> exact absurd h (hbyte _ (by omega))
  · simp only [List.mem_cons, List.not_mem_nil, or_false] at h
    rcases h with h | h | h | h <;> exact absurd h (hbyte _ (by omega))

theorem mem_of_mem_utf8 {b : UInt8} {s : String} (hb : b.toNat < 128) (h : b ∈ utf8 s) :
    Char.ofNat b.toNat ∈ s.toList := by
  obtain ⟨c, hc, hmem⟩ := List.mem_flatMap.1 h
  rw [← utf8EncodeChar_ascii hb hmem]
  exact hc

theorem flatMap_intercalate {α β : Type} (f : α → List β) (sep : List α) (parts : List (List α)) :
    (sep.intercalate parts).flatMap f = (sep.flatMap f).intercalate (parts.map (·.flatMap f)) := by
  induction parts with
  | nil => rfl
  | cons part parts ih =>
    cases parts with
    | nil => simp
    | cons next parts =>
      rw [List.intercalate_cons_cons, List.flatMap_append, List.flatMap_append, ih]
      simp

theorem utf8_intercalate (items : List String) :
    utf8 (",".intercalate items) = [44].intercalate (items.map utf8) := by
  unfold utf8
  rw [String.toList_intercalate, flatMap_intercalate, List.map_map]
  rfl

theorem isSpaceTab_char {b : UInt8} {c : Char} (h : b ∈ String.utf8EncodeChar c) (hb : isSpaceTab b = true) :
    Text.isWhitespace c = true := by
  simp only [isSpaceTab, Bool.or_eq_true, decide_eq_true_eq] at hb
  rcases hb with rfl | rfl
  · rw [utf8EncodeChar_ascii (by decide) h]
    decide
  · rw [utf8EncodeChar_ascii (by decide) h]
    decide

/-- What the blanks around a token are taken from: a text without white space at its ends has none. -/
theorem trimBlank_utf8 {s : String} (hhead : ∀ c ∈ s.toList.head?, Text.isWhitespace c = false)
    (hlast : ∀ c ∈ s.toList.getLast?, Text.isWhitespace c = false) : trimBlank (utf8 s) = utf8 s := by
  have hends (cs : List Char) (hc : ∀ c ∈ cs.head?, Text.isWhitespace c = false)
      (f : Char → List UInt8) (hf : ∀ c b, b ∈ f c → b ∈ String.utf8EncodeChar c) (hne : ∀ c, f c ≠ []) :
      (cs.flatMap f).dropWhile isSpaceTab = cs.flatMap f := by
    cases cs with
    | nil => rfl
    | cons c cs =>
      obtain ⟨b, bs, hbs⟩ := List.exists_cons_of_ne_nil (hne c)
      have hb : isSpaceTab b = false := by
        by_contra hblank
        have hmem : b ∈ f c := hbs ▸ List.mem_cons_self
        have hws := isSpaceTab_char (hf c b hmem) (by simpa using hblank)
        rw [hc c rfl] at hws
        exact Bool.noConfusion hws
      rw [List.flatMap_cons, hbs, List.cons_append, List.dropWhile_cons_of_neg (by rw [hb]; decide)]
  have hreverse : (utf8 s).reverse = s.toList.reverse.flatMap fun c => (String.utf8EncodeChar c).reverse := by
    rw [utf8, List.reverse_flatMap]
    rfl
  have hback : (utf8 s).reverse.dropWhile isSpaceTab = (utf8 s).reverse := by
    rw [hreverse]
    apply hends
    · simpa using hlast
    · exact fun c b hb => List.mem_reverse.1 hb
    · exact fun c h => String.utf8EncodeChar_ne_nil (List.reverse_eq_nil_iff.1 h)
  have hfront : (utf8 s).dropWhile isSpaceTab = utf8 s :=
    hends _ hhead _ (fun c b hb => hb) fun c => String.utf8EncodeChar_ne_nil
  rw [trimBlank, hfront, hback, List.reverse_reverse]

/-! ### Items -/

/-- What `parse_list` makes items of: no comma, and no blank at the ends. -/
structure IsItem (item : List UInt8) : Prop where
  comma : 44 ∉ item
  trimmed : trimBlank item = item

theorem isItem_utf8 {s : String} (hcomma : ',' ∉ s.toList) (htrim : Text.trim s = s) : IsItem (utf8 s) where
  comma h := hcomma (mem_of_mem_utf8 (by decide) h)
  trimmed := by
    rw [← htrim]
    exact trimBlank_utf8 (Text.head_trim s) (Text.getLast?_trim s)

theorem isItem_parseList {value : Option String} {item : String} (h : item ∈ Daemon.parseList value) :
    IsItem (utf8 item) := by
  obtain ⟨part, hpart, rfl⟩ := List.mem_map.1 (List.mem_filter.1 h).1
  cases value with
  | none => cases hpart
  | some value =>
    apply isItem_utf8
    · exact fun hcomma => Text.sep_not_mem_split hpart (Text.mem_of_mem_trim hcomma)
    · exact Text.trim_eq_self (Text.head_trim part) (Text.getLast?_trim part)

/-- The lists of a node that is streamed. -/
theorem isItem_activeNativeNodes {e : Daemon.Env} {fs : FileTree} {node : FnNode}
    (h : node ∈ (Daemon.activeNativeNodes e fs).1) :
    (∀ item ∈ node.triggers.map utf8, IsItem item) ∧ ∀ item ∈ node.apps.map utf8, IsItem item := by
  obtain ⟨content, -, hdesc⟩ := (Daemon.found_activeNativeNodes h).described.content
  obtain ⟨-, name, version, code, scope, -, -, hnode⟩ := Daemon.describe_shape hdesc
  have happs : node.apps = Daemon.parseList _ := congrArg FnNode.apps hnode
  have htriggers := congrArg FnNode.triggers hnode
  dsimp only at htriggers
  simp only [List.forall_mem_map]
  constructor
  · split at htriggers
    · rw [htriggers]
      exact fun item hitem => isItem_parseList hitem
    · rw [htriggers]
      intro item hitem
      obtain rfl := List.mem_singleton.1 hitem
      exact isItem_utf8 (by decide) (by decide)
  · rw [happs]
    exact fun item hitem => isItem_parseList hitem

/-! ### Splitting what was joined -/

/-- The tokens of a joined list that ends at its first zero byte. -/
def cutItems : List (List UInt8) → List (List UInt8)
  | [] => []
  | item :: items => if 0 ∈ item then [item.takeWhile (· ≠ 0)] else item :: cutItems items

variable {items : List (List UInt8)}

theorem cutItems_ne_nil (h : items ≠ []) : cutItems items ≠ [] := by
  cases items with
  | nil => exact absurd rfl h
  | cons item items =>
    unfold cutItems
    split <;> exact List.cons_ne_nil _ _

theorem takeWhile_append_of_mem {item : List UInt8} (h : 0 ∈ item) (rest : List UInt8) :
    (item ++ rest).takeWhile (· ≠ 0) = item.takeWhile (· ≠ 0) := by
  induction item with
  | nil => cases h
  | cons b item ih =>
    by_cases hb : b = 0
    · rw [List.cons_append, List.takeWhile_cons_of_neg (by simp [hb]), List.takeWhile_cons_of_neg (by simp [hb])]
    · rw [List.cons_append, List.takeWhile_cons_of_pos (by simp [hb]), List.takeWhile_cons_of_pos (by simp [hb]),
        ih ((List.mem_cons.1 h).resolve_left (Ne.symm hb))]

theorem takeWhile_of_not_mem {item : List UInt8} (h : 0 ∉ item) : item.takeWhile (· ≠ 0) = item := by
  rw [List.takeWhile_eq_self_iff]
  intro b hb
  rw [decide_eq_true_eq]
  exact fun hzero => h (hzero ▸ hb)

theorem takeWhile_intercalate (items : List (List UInt8)) :
    ([44].intercalate items).takeWhile (· ≠ 0) = [44].intercalate (cutItems items) := by
  induction items with
  | nil => rfl
  | cons item items ih =>
    cases items with
    | nil =>
      rw [List.intercalate_singleton, cutItems]
      split
      · rw [List.intercalate_singleton]
      · rename_i hzero
        exact (takeWhile_of_not_mem hzero).trans List.intercalate_singleton.symm
    | cons next items =>
      rw [List.intercalate_cons_cons, cutItems]
      split
      · rename_i hzero
        rw [List.append_assoc, takeWhile_append_of_mem hzero, List.intercalate_singleton]
      · rename_i hzero
        have hpos : ∀ b ∈ item ++ [44], decide (b ≠ 0) = true := by
          intro b hb
          rw [decide_eq_true_eq]
          rcases List.mem_append.1 hb with hb | hb
          · exact fun heq => hzero (heq ▸ hb)
          · rw [List.mem_singleton.1 hb]
            decide
        rw [List.takeWhile_append_of_pos hpos, ih,
          List.intercalate_cons_of_ne_nil (cutItems_ne_nil (List.cons_ne_nil _ _))]

theorem not_mem_cutItems (h : ∀ item ∈ items, IsItem item) : ∀ token ∈ cutItems items, 44 ∉ token := by
  induction items with
  | nil => exact fun token htoken => absurd htoken List.not_mem_nil
  | cons item items ih =>
    rw [List.forall_mem_cons] at h
    unfold cutItems
    split
    · rw [List.forall_mem_singleton]
      exact fun hmem => h.1.comma ((List.takeWhile_sublist _).mem hmem)
    · rw [List.forall_mem_cons]
      exact ⟨h.1.comma, ih h.2⟩

theorem map_trimBlank_cutItems (h : ∀ item ∈ items, IsItem item) :
    (cutItems items).map trimBlank = seen items := by
  induction items with
  | nil => rfl
  | cons item items ih =>
    rw [List.forall_mem_cons] at h
    unfold cutItems seen
    split
    · rfl
    · rw [List.map_cons, h.1.trimmed, ih h.2]

/-- The tokenizer finds what it sees of the list. -/
theorem listContains_cut (h : ∀ item ∈ items, IsItem item) {needle : List UInt8} (hneedle : needle ≠ []) :
    listContains (([44].intercalate items).takeWhile (· ≠ 0)) needle = true ↔ needle ∈ seen items := by
  rw [← map_trimBlank_cutItems h, takeWhile_intercalate, listContains]
  by_cases hitems : items = []
  · rw [hitems]
    constructor
    · intro htoken
      obtain ⟨token, hmem, heq⟩ := List.any_eq_true.1 htoken
      obtain rfl := List.mem_singleton.1 hmem
      exact absurd (of_decide_eq_true heq).symm hneedle
    · exact fun hmem => absurd hmem List.not_mem_nil
  · rw [List.splitOn_intercalate 44 (not_mem_cutItems h) (cutItems_ne_nil hitems)]
    simp

/-! ### The decision -/

section Decision

variable {node : FnNode} {fd : Nat}

/-- The rule on the lists of the descriptor. -/
def NodeRule (node : FnNode) : Specialized → Prop :=
  FnRule (node.triggers.map utf8) (node.apps.map utf8) node.scope

/-- The rule on what the loader sees of them. -/
def SeenRule (node : FnNode) : Specialized → Prop :=
  FnRule (seen (node.triggers.map utf8)) (seen (node.apps.map utf8)) node.scope

theorem ProcessName.name_ne (p : ProcessName) : p.name ≠ [] := by
  unfold ProcessName.name
  split
  · exact p.pkg_ne
  · exact fun h => List.cons_ne_nil _ _ (List.append_eq_nil_iff.1 h).2

/-- The package is what stands before the first colon. -/
theorem ProcessName.takeWhile_name (p : ProcessName) : p.name.takeWhile (· ≠ 58) = p.pkg := by
  have hpkg : ∀ b ∈ p.pkg, decide (b ≠ 58) = true := by
    intro b hb
    rw [decide_eq_true_eq]
    exact fun h => p.colon (h ▸ hb)
  unfold ProcessName.name
  split
  · exact List.takeWhile_eq_self_iff.2 hpkg
  · rw [List.takeWhile_append_of_pos hpkg, List.takeWhile_cons_of_neg (by decide), List.append_nil]

theorem attemptsLoad_cut (htriggers : ∀ item ∈ node.triggers.map utf8, IsItem item)
    (happs : ∀ item ∈ node.apps.map utf8, IsItem item) (sp : Specialized) :
    attemptsLoad (wireOf node fd).cut sp.isServer sp.process = true ↔ SeenRule node sp := by
  have htrigger {needle : List UInt8} (h : needle ≠ []) :
      listContains (wireOf node fd).cut.triggers needle = true ↔
        needle ∈ seen (node.triggers.map utf8) := by
    rw [← listContains_cut htriggers h, ← utf8_intercalate]
    rfl
  have happ {needle : List UInt8} (h : needle ≠ []) :
      listContains (wireOf node fd).cut.apps needle = true ↔ needle ∈ seen (node.apps.map utf8) := by
    rw [← listContains_cut happs h, ← utf8_intercalate]
    rfl
  have hscope : (wireOf node fd).cut.scope = scopeByte node.scope := rfl
  unfold attemptsLoad fnApplies SeenRule
  cases sp with
  | systemServer process =>
    simp only [Specialized.isServer, if_true, Bool.true_or, Bool.and_true, Bool.or_eq_true]
    rw [htrigger (by decide), htrigger (by decide)]
    rfl
  | app p =>
    have hmatches : fnScopeMatches (wireOf node fd).cut (some p.name) = true ↔
        match node.scope with
        | .all => True
        | .allowlist => p.pkg ∈ seen (node.apps.map utf8) ∨ p.name ∈ seen (node.apps.map utf8)
        | .denylist => p.pkg ∉ seen (node.apps.map utf8) ∧ p.name ∉ seen (node.apps.map utf8) := by
      simp only [fnScopeMatches, Option.getD_some, hscope, p.takeWhile_name, p.name_ne]
      cases node.scope with
      | all => simp [scopeByte]
      | allowlist => simp [scopeByte, happ p.pkg_ne, happ p.name_ne, or_comm]
      | denylist =>
        simp only [scopeByte, decide_false, Bool.or_false]
        rw [← happ p.pkg_ne, ← happ p.name_ne]
        simp [and_comm]
    simp only [Specialized.isServer, Specialized.process, Bool.false_eq_true, if_false, Bool.false_or,
      Bool.and_eq_true, Bool.or_eq_true]
    rw [htrigger (by decide), htrigger (by decide), hmatches]
    rfl

/-- The module that is read for a node. -/
theorem getElem?_readFnModules {usize : Nat} {heap : Nat → List UInt8} {libraryFd : FnNode → Option Nat}
    (list : FnNodes usize) {i : Nat} (hnode : (list.nodes.takeWhile (opens libraryFd))[i]? = some node) :
    ∃ fd, (readFnModules usize heap (handleReadFnModules usize libraryFd list.nodes))[i]? =
      some (wireOf node fd).cut := by
  have hopen : ∀ n ∈ list.nodes.takeWhile (opens libraryFd), ∃ fd, libraryFd n = some fd := by
    intro n hn
    have hopens : opens libraryFd n = true := List.mem_takeWhile_imp hn
    exact Option.isSome_iff_exists.1 hopens
  have hmap : ((list.nodes.takeWhile (opens libraryFd)).filterMap fun node =>
      (libraryFd node).map fun fd => (wireOf node fd).cut) =
        (list.nodes.takeWhile (opens libraryFd)).map fun node =>
          (wireOf node ((libraryFd node).getD 0)).cut := by
    rw [← List.filterMap_eq_map]
    apply List.filterMap_congr
    intro n hn
    obtain ⟨fd, hfd⟩ := hopen n hn
    simp only [hfd, Option.map_some, Function.comp_apply, Option.getD_some]
  refine ⟨(libraryFd node).getD 0, ?_⟩
  rw [readFnModules, handleReadFnModules, Wire.readNat_write list.length_lt]
  dsimp only
  rw [readCount_writeNodes list.usize_pos list.fits, hmap, List.getElem?_append_left, List.getElem?_map,
    hnode]
  · rfl
  · rw [List.length_map]
    exact (List.getElem?_eq_some_iff.1 hnode).1

theorem seen_of_no_zero {items : List (List UInt8)} (h : ∀ item ∈ items, 0 ∉ item) : seen items = items := by
  induction items with
  | nil => rfl
  | cons item items ih =>
    rw [List.forall_mem_cons] at h
    rw [seen, if_neg h.1, ih h.2]

/-- Without zero bytes the lists are seen whole. -/
theorem seenRule_of_no_zero (htriggers : ∀ item ∈ node.triggers.map utf8, 0 ∉ item)
    (happs : ∀ item ∈ node.apps.map utf8, 0 ∉ item) (sp : Specialized) :
    SeenRule node sp ↔ NodeRule node sp := by
  rw [SeenRule, NodeRule, seen_of_no_zero htriggers, seen_of_no_zero happs]

/-- The loader decides on a streamed node by the rule, just when a zero byte in one of the lists makes no
difference to the rule. -/
theorem fnLoad_iff {usize : Nat} (heap : Nat → List UInt8) (libraryFd : FnNode → Option Nat)
    (list : FnNodes usize) (e : Daemon.Env) (fs : FileTree)
    (hnodes : list.nodes = (Daemon.activeNativeNodes e fs).1) (i : Nat) (node : FnNode)
    (hnode : (list.nodes.takeWhile (opens libraryFd))[i]? = some node) (fn : FnModule)
    (hfn : (readFnModules usize heap (handleReadFnModules usize libraryFd list.nodes))[i]? = some fn)
    (sp : Specialized) :
    (attemptsLoad fn sp.isServer sp.process = true ↔ NodeRule node sp) ↔
      (SeenRule node sp ↔ NodeRule node sp) := by
  obtain ⟨fd, hread⟩ := @getElem?_readFnModules node usize heap _ list i hnode
  obtain rfl := Option.some.inj (hread.symm.trans hfn)
  have hmem := (List.takeWhile_sublist _).mem (List.mem_of_getElem? hnode)
  rw [hnodes] at hmem
  obtain ⟨htriggers, happs⟩ := isItem_activeNativeNodes hmem
  rw [attemptsLoad_cut htriggers happs]

end Decision

/-- A node for two apps, with `apps` as given. -/
def scopedNodeFs (apps : String) : FileTree := .ofFiles [
  (Daemon.fnRoot ++ ["a", "fn.prop"],
    "id=a\nname=A\nversion=1\nversionCode=1\nentry=lib.so\nscope=allowlist\napps=" ++ apps ++ "\n"),
  (Daemon.fnRoot ++ ["a", "lib.so"], "elf")]

def scopedNode (apps : List String) : FnNode where
  id := "a"
  dir := Daemon.fnRoot ++ ["a"]
  name := "A"
  version := "1"
  versionCode := 1
  author := ""
  description := ""
  entry := some "lib.so"
  triggers := ["app"]
  scope := .allowlist
  apps := apps
  priority := 100
  capabilities := []
  uiSummary := none
  status := .enabled

/-- The process `org.b:push`. -/
def pushProcess : ProcessName where
  pkg := utf8 "org.b"
  sub := some (utf8 "push")
  pkg_ne := by decide
  colon := by decide

theorem fnLoad_push :
    let node := scopedNode ["org.a", "org.b"]
    let list : FnNodes 8 := ⟨[node], by decide, by decide, by unfold FitsNode; decide⟩
    list.nodes = (Daemon.activeNativeNodes Daemon.Env.fine (scopedNodeFs "org.a, org.b")).1 ∧
      ∃ fn, (readFnModules 8 (fun _ => []) (handleReadFnModules 8 (fun _ => some 7) list.nodes))[0]? = some fn ∧
        (attemptsLoad fn false (some pushProcess.name) = true ↔ NodeRule node (.app pushProcess)) := by
  intro node list
  have hnodes : list.nodes =
      (Daemon.activeNativeNodes Daemon.Env.fine (scopedNodeFs "org.a, org.b")).1 := by decide
  refine ⟨hnodes, (wireOf node 7).cut, by decide, ?_⟩
  refine (fnLoad_iff (fun _ => []) (fun _ => some 7) list _ _ hnodes 0 node (by decide) _ (by decide)
    (.app pushProcess)).2 ?_
  exact seenRule_of_no_zero (by decide) (by decide) _

/-- A zero byte in the first item: the second one is not seen, and its app goes without the node. -/
theorem fnLoad_zero :
    let node := scopedNode ["org.a\x00", "org.b"]
    let nodes := (Daemon.activeNativeNodes Daemon.Env.fine (scopedNodeFs "org.a\x00, org.b")).1
    nodes = [node] ∧ NodeRule node (.app pushProcess) ∧
      ∃ fn, (readFnModules 8 (fun _ => []) (handleReadFnModules 8 (fun _ => some 7) nodes))[0]? = some fn ∧
        attemptsLoad fn false (some pushProcess.name) = false := by
  intro node nodes
  have hnodes : nodes = [node] := by decide
  refine ⟨hnodes, ⟨.inl (by decide), .inl (by decide)⟩, (wireOf node 7).cut, ?_, by decide⟩
  rw [hnodes]
  decide

end OnyxZygisk.Loader
