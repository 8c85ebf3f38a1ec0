import OnyxZygisk.Daemon.FnTwice
import OnyxZygisk.Lib.Words

/-!
# The list of nodes as a text

Each node is a record of `key=value` lines with a blank line behind it, and an empty record ends the list. No
value that comes from a descriptor has a line feed; the name of a malformed node's directory can have one. So the
list is read back as it was written if no directory on it has a line feed in its name (`decodable_iff`).
-/

namespace OnyxZygisk.Daemon

variable {e : Env} {fs : FileTree} {node : FnNode} {nodes : List FnNode} {id t : String} {dir : FilePath}
  {props : List (String × String)}

/-! ### The text -/

/-- The keys of a record, in the order they are written in. -/
def FnNode.fields (node : FnNode) : List (String × String) :=
  [("id", node.id), ("name", node.name), ("version", node.version), ("versionCode", Text.printI32 node.versionCode),
    ("author", node.author), ("description", node.description)] ++
  (node.entry.map fun entry => ("entry", entry)).toList ++
  [("trigger", ",".intercalate node.triggers), ("scope", node.scope.asWireStr), ("apps", ",".intercalate node.apps),
    ("priority", Text.printI32 node.priority), ("capabilities", ",".intercalate node.capabilities)] ++
  (node.uiSummary.map fun summary => ("ui.summary", summary)).toList ++
  [("status", node.status.asWireStr)]

def FnNode.lines (node : FnNode) : List String := node.fields.map fun (key, value) => key ++ "=" ++ value

def serializeFnNodes (nodes : List FnNode) : String :=
  Words.echoed (nodes.flatMap (fun node => node.lines ++ [""]) ++ [""])

/-! ### Its reader -/

/-- What a reader has of a node. -/
structure FnRecord where
  id : String
  name : String
  version : String
  versionCode : Option Int32
  author : String
  description : String
  entry : Option String
  triggers : List String
  scope : String
  apps : List String
  priority : Option Int32
  capabilities : List String
  uiSummary : Option String
  status : String
  deriving DecidableEq

/-- The records of a text: the lines in front of each blank line. -/
def recordLines (text : String) : List (List String) := ((Text.split '\n' text).dropLast.splitOn "").dropLast

/-- Each line is cut at its first `=`. -/
def readFields (lines : List String) : List (String × String) := lines.filterMap (splitOnce '=')

def fnRecord (fields : List (String × String)) : FnRecord where
  id := (fields.lookup "id").getD ""
  name := (fields.lookup "name").getD ""
  version := (fields.lookup "version").getD ""
  versionCode := (fields.lookup "versionCode").bind Text.parseI32
  author := (fields.lookup "author").getD ""
  description := (fields.lookup "description").getD ""
  entry := fields.lookup "entry"
  triggers := parseList (fields.lookup "trigger")
  scope := (fields.lookup "scope").getD ""
  apps := parseList (fields.lookup "apps")
  priority := (fields.lookup "priority").bind Text.parseI32
  capabilities := parseList (fields.lookup "capabilities")
  uiSummary := fields.lookup "ui.summary"
  status := (fields.lookup "status").getD ""

/-- What the reader should have of a node. -/
def FnNode.record (node : FnNode) : FnRecord where
  id := node.id
  name := node.name
  version := node.version
  versionCode := some node.versionCode
  author := node.author
  description := node.description
  entry := node.entry
  triggers := node.triggers
  scope := node.scope.asWireStr
  apps := node.apps
  priority := some node.priority
  capabilities := node.capabilities
  uiSummary := node.uiSummary
  status := node.status.asWireStr

/-- The text reads as one record for each node, in order, and the empty record. -/
def Decodable (nodes : List FnNode) : Prop :=
  ∃ records, recordLines (serializeFnNodes nodes) = records ++ [[]] ∧
    (records.map fun lines => fnRecord (readFields lines)) = nodes.map FnNode.record

/-! ### Lists in a value -/

/-- What `parseList` makes of a value. -/
def Items (items : List String) : Prop :=
  ∀ item ∈ items, item ≠ "" ∧ Text.trim item = item ∧ ',' ∉ item.toList

theorem items_parseList (value : Option String) : Items (parseList value) := by
  intro item hitem
  rw [parseList, List.mem_filter, List.mem_map, decide_eq_true_eq] at hitem
  obtain ⟨⟨part, hpart, rfl⟩, hne⟩ := hitem
  refine ⟨hne, Text.trim_eq_self (Text.head_trim part) (Text.getLast?_trim part), fun hcomma => ?_⟩
  cases value with
  | none => exact absurd hpart List.not_mem_nil
  | some value => exact Text.sep_not_mem_split hpart (Text.mem_of_mem_trim hcomma)

theorem parseList_intercalate {items : List String} (h : Items items) :
    parseList (some (",".intercalate items)) = items := by
  by_cases hnil : items = []
  · rw [hnil]
    decide
  · have hsplit : Text.split ',' (",".intercalate items) = items :=
      Text.split_intercalate hnil fun item hitem => (h item hitem).2.2
    have htrim : items.map Text.trim = items := by
      rw [List.map_congr_left fun item hitem => (h item hitem).2.1]
      exact List.map_id items
    rw [parseList, Option.map_some, Option.getD_some, hsplit, htrim, List.filter_eq_self]
    exact fun item hitem => decide_eq_true (h item hitem).1

/-! ### A record is read -/

theorem splitOnce_field {key value : String} (h : '=' ∉ key.toList) :
    splitOnce '=' (key ++ "=" ++ value) = some (key, value) := by
  have hl : (key ++ "=" ++ value).toList = key.toList ++ '=' :: value.toList := by simp
  have hkey : ∀ c ∈ key.toList, (decide (c ≠ '=')) = true := fun c hc =>
    decide_eq_true fun heq => h (heq ▸ hc)
  rw [splitOnce, hl, if_pos (by simp), List.takeWhile_append_of_pos hkey, List.dropWhile_append_of_pos hkey]
  simp

/-- The keys of a record. -/
def recordKeys : List String :=
  ["id", "name", "version", "versionCode", "author", "description", "entry", "trigger", "scope", "apps", "priority",
    "capabilities", "ui.summary", "status"]

theorem fst_mem_keys {field : String × String} (h : field ∈ node.fields) : field.1 ∈ recordKeys := by
  have hkeys : node.fields.map Prod.fst ⊆ recordKeys := by
    unfold FnNode.fields recordKeys
    cases node.entry <;> cases node.uiSummary <;> simp
  exact hkeys (List.mem_map.2 ⟨field, h, rfl⟩)

theorem readFields_lines (node : FnNode) : readFields node.lines = node.fields := by
  rw [readFields, FnNode.lines, List.filterMap_map]
  refine (List.filterMap_congr fun field hfield => ?_).trans List.filterMap_some
  have hkeys : ∀ key ∈ recordKeys, '=' ∉ key.toList := by decide
  exact splitOnce_field (hkeys _ (fst_mem_keys hfield))

/-- The lists of a node are such as `parseList` makes. -/
structure ListsOk (node : FnNode) : Prop where
  triggers : Items node.triggers
  apps : Items node.apps
  capabilities : Items node.capabilities

theorem fnRecord_fields (h : ListsOk node) : fnRecord node.fields = node.record := by
  have htriggers := parseList_intercalate h.triggers
  have happs := parseList_intercalate h.apps
  have hcapabilities := parseList_intercalate h.capabilities
  unfold FnNode.fields FnNode.record fnRecord
  cases node.entry <;> cases node.uiSummary <;>
    simp [List.lookup_cons, Text.parseI32_printI32, htriggers, happs, hcapabilities]

/-- Every value is on one line. -/
def Inline (node : FnNode) : Prop := ∀ field ∈ node.fields, '\n' ∉ field.2.toList

theorem newline_not_mem_lines (h : Inline node) : ∀ line ∈ node.lines, '\n' ∉ line.toList := by
  rw [FnNode.lines, List.forall_mem_map]
  intro field hfield hmem
  have hkeys : ∀ key ∈ recordKeys, '\n' ∉ key.toList := by decide
  simp only [String.toList_append, List.mem_append] at hmem
  rcases hmem with (hmem | hmem) | hmem
  · exact hkeys field.1 (fst_mem_keys hfield) hmem
  · exact absurd hmem (by decide)
  · exact h field hfield hmem

theorem blank_not_mem_lines (node : FnNode) : "" ∉ node.lines := by
  rw [FnNode.lines, List.mem_map]
  rintro ⟨field, -, hline⟩
  have hl := congrArg String.toList hline
  simp at hl

theorem splitOn_records (nodes : List FnNode) :
    (nodes.flatMap (fun node => node.lines ++ [""]) ++ [""]).splitOn "" = nodes.map FnNode.lines ++ [[], []] := by
  induction nodes with
  | nil => rfl
  | cons node nodes ih =>
    rw [List.flatMap_cons, List.append_assoc, List.append_assoc, List.singleton_append,
      List.splitOn_append_cons_self_of_not_mem (blank_not_mem_lines node), ih]
    rfl

theorem recordLines_serialize (h : ∀ node ∈ nodes, Inline node) :
    recordLines (serializeFnNodes nodes) = nodes.map FnNode.lines ++ [[]] := by
  have hlines : ∀ line ∈ nodes.flatMap (fun node => node.lines ++ [""]) ++ [""], '\n' ∉ line.toList := by
    rw [List.forall_mem_append, List.forall_mem_singleton]
    refine ⟨fun line hline => ?_, by decide⟩
    obtain ⟨node, hnode, hline⟩ := List.mem_flatMap.1 hline
    rcases List.mem_append.1 hline with hline | hline
    · exact newline_not_mem_lines (h node hnode) line hline
    · rw [List.mem_singleton.1 hline]
      exact List.not_mem_nil
  have hsplit : nodes.map FnNode.lines ++ [[], []] = (nodes.map FnNode.lines ++ [[]]) ++ [[]] := by simp
  rw [recordLines, serializeFnNodes, Words.split_echoed hlines, List.dropLast_concat, splitOn_records, hsplit,
    List.dropLast_concat]

theorem decodable_of_inline (h : ∀ node ∈ nodes, Inline node) (hlists : ∀ node ∈ nodes, ListsOk node) :
    Decodable nodes := by
  refine ⟨_, recordLines_serialize h, ?_⟩
  rw [List.map_map]
  apply List.map_congr_left
  intro node hnode
  rw [Function.comp, readFields_lines, fnRecord_fields (hlists node hnode)]

theorem mem_splitOnce {sep : Char} {line key value : String} {c : Char} (h : splitOnce sep line = some (key, value))
    (hc : c ∈ value.toList) : c ∈ line.toList := by
  unfold splitOnce at h
  split_ifs at h
  obtain ⟨-, rfl⟩ := Prod.mk.inj (Option.some.inj h)
  rw [String.toList_ofList] at hc
  exact (List.dropWhile_sublist _).subset (List.mem_of_mem_drop hc)

theorem mem_of_lookup_fields {fields : List (String × String)} {key : String} {c : Char}
    (h : c ∈ ((fields.lookup key).getD "").toList) : ∃ field ∈ fields, c ∈ field.2.toList := by
  cases hlookup : fields.lookup key with
  | none =>
    rw [hlookup] at h
    exact absurd h List.not_mem_nil
  | some value =>
    rw [hlookup] at h
    exact ⟨_, mem_of_lookup hlookup, h⟩

/-- What is read of a record has no line feed. -/
theorem newline_not_mem_read {text : String} {lines : List String} (h : lines ∈ recordLines text) :
    '\n' ∉ (fnRecord (readFields lines)).id.toList := by
  intro hmem
  obtain ⟨field, hfield, hc⟩ := mem_of_lookup_fields hmem
  obtain ⟨line, hline, hsplit⟩ := List.mem_filterMap.1 hfield
  have hpart : line ∈ Text.split '\n' text :=
    (List.dropLast_sublist _).subset ((Text.infix_of_mem_splitOn (List.mem_of_mem_dropLast h)).subset hline)
  exact Text.sep_not_mem_split hpart (mem_splitOnce hsplit hc)

theorem newline_not_mem_of_decodable (h : Decodable nodes) (hnode : node ∈ nodes) : '\n' ∉ node.id.toList := by
  obtain ⟨records, htext, hread⟩ := h
  have hrecord : node.record ∈ nodes.map FnNode.record := List.mem_map.2 ⟨node, hnode, rfl⟩
  rw [← hread] at hrecord
  obtain ⟨lines, hlines, heq⟩ := List.mem_map.1 hrecord
  have hsame : (fnRecord (readFields lines)).id = node.id := congrArg FnRecord.id heq
  rw [← hsame]
  apply @newline_not_mem_read (serializeFnNodes nodes)
  rw [htext]
  exact List.mem_append_left _ hlines

/-! ### The nodes of a scan -/

/-- The values of a descriptor. -/
def OneLine (props : List (String × String)) : Prop := ∀ prop ∈ props, '\n' ∉ prop.2.toList

theorem plain_parseProps (content : String) : OneLine (parseProps content) := by
  intro prop hprop hmem
  rw [parseProps, List.mem_reverse, List.mem_filterMap] at hprop
  obtain ⟨line, hline, hparse⟩ := hprop
  unfold parseProp at hparse
  dsimp only at hparse
  split_ifs at hparse
  obtain ⟨⟨key, value⟩, hsplit, rfl⟩ := Option.map_eq_some_iff.1 hparse
  exact Text.sep_not_mem_split hline (Text.mem_of_mem_trim (mem_splitOnce hsplit (Text.mem_of_mem_trim hmem)))

theorem OneLine.lookup {key value : String} (h : OneLine props) (hlookup : props.lookup key = some value) :
    '\n' ∉ value.toList := h _ (mem_of_lookup hlookup)

theorem OneLine.required {key value : String} (h : OneLine props) (hrequired : required props key = some value) :
    '\n' ∉ value.toList := h.lookup (Option.filter_eq_some_iff.1 hrequired).1

theorem OneLine.parseList {key item : String} (h : OneLine props) (hitem : item ∈ parseList (props.lookup key)) :
    '\n' ∉ item.toList := by
  rw [Daemon.parseList, List.mem_filter, List.mem_map] at hitem
  obtain ⟨⟨part, hpart, rfl⟩, -⟩ := hitem
  cases hlookup : props.lookup key with
  | none =>
    rw [hlookup] at hpart
    exact absurd hpart List.not_mem_nil
  | some value =>
    rw [hlookup] at hpart
    intro hmem
    exact h.lookup hlookup ((Text.infix_of_mem_split hpart).subset (Text.mem_of_mem_trim hmem))

/-- The nodes a scan can return. -/
inductive Scannable (id : String) : FnNode → Prop
  | malformed (dir : FilePath) (reason : String) : '\n' ∉ reason.toList → Scannable id (malformed id dir reason)
  | described (dir : FilePath) (props : List (String × String)) (node : FnNode) (status : FnStatus) : OneLine props →
      describe id dir props = .ok node → status.isMalformed = false → Scannable id { node with status }

theorem scannable_parseFnNode (ht : '\n' ∉ t.toList) (fs : FileTree) (dir : FilePath) :
    Scannable (dir.getLast?.getD "") (parseFnNode t fs dir) := by
  have hconst : ∀ reason ∈ ["missing id", "invalid id", "id does not match directory name", "missing name",
      "missing version", "invalid versionCode", "no entry library or script"], '\n' ∉ reason.toList := by decide
  cases hdesc : descriptor t fs dir with
  | error reason =>
    rw [parseFnNode_of_error hdesc]
    refine .malformed dir reason ?_
    unfold descriptor at hdesc
    cases hread : fs.read (dir ++ ["fn.prop"]) with
    | none =>
      rw [hread] at hdesc
      rw [← Except.error.inj hdesc, String.toList_append, List.mem_append]
      exact fun h => h.elim (by decide) ht
    | some content =>
      rw [hread] at hdesc
      rcases describe_error hdesc with hmem | ⟨other, hlookup, rfl⟩
      · exact hconst reason (List.mem_append_left [_] hmem)
      · have hother := (plain_parseProps content).lookup hlookup
        rw [String.toList_append, String.toList_append, List.mem_append, List.mem_append]
        rintro ((h | h) | h)
        · exact absurd h (by decide)
        · exact hother h
        · exact absurd h (by decide)
  | ok node =>
    rw [parseFnNode_of_ok hdesc]
    split_ifs
    · obtain ⟨content, -, hdesc⟩ := of_descriptor_ok hdesc
      exact .described dir _ node _ (plain_parseProps content) hdesc (not_isMalformed_flagStatus fs dir)
    · exact .malformed dir _ (hconst _ (by decide))

theorem Scannable.pendingRemove (h : Scannable id node) : Scannable id (pendingRemove node) := by
  cases h with
  | malformed dir reason hreason => exact .malformed dir reason hreason
  | described dir props node status hplain hdesc hstatus =>
    rw [Daemon.pendingRemove, if_neg (Bool.eq_false_iff.1 hstatus)]
    exact .described dir props node .pendingRemove hplain hdesc rfl

theorem scannable_findNode (ht : '\n' ∉ e.errorText.toList) (h : findNode e fs id = some node) : Scannable id node := by
  obtain ⟨hlisted, hkept⟩ := survives_iff.1 (survives_of_findNode h)
  cases hsweep : toSweep fs id with
  | false =>
    rw [findNode_stays (stays_iff.2 hsweep) hlisted] at h
    have hparsed := scannable_parseFnNode ht (diskAt e fs id) (nodeDir fs id)
    rw [nodeDir_getLast] at hparsed
    rw [← Option.some.inj h]
    unfold takenIn
    dsimp only
    split_ifs
    · exact hparsed.pendingRemove
    · exact hparsed
  | true =>
    have hparsed := scannable_parseFnNode ht (visited e fs id) (fnRoot ++ [id])
    rw [List.getLast?_concat, Option.getD_some] at hparsed
    rw [findNode_fails hsweep (hkept hsweep)] at h
    rw [← Option.some.inj h]
    exact hparsed.pendingRemove

theorem triggers_described (h : describe id dir props = .ok node) :
    node.triggers = ["app"] ∨ node.triggers = parseList (props.lookup "trigger") := by
  obtain ⟨-, name, version, code, scope, -, -, rfl⟩ := describe_shape h
  dsimp only
  cases props.lookup "trigger" with
  | none => exact .inl rfl
  | some value => exact .inr rfl

theorem Scannable.listsOk (h : Scannable id node) : ListsOk node := by
  cases h with
  | malformed dir reason hreason =>
    exact ⟨fun _ h => absurd h List.not_mem_nil, fun _ h => absurd h List.not_mem_nil, fun _ h => absurd h List.not_mem_nil⟩
  | described dir props node status hplain hdesc hstatus =>
    have htriggers : Items node.triggers := by
      rcases triggers_described hdesc with heq | heq
      · intro item hitem
        rw [heq, List.mem_singleton] at hitem
        rw [hitem]
        exact ⟨by decide, by decide, by decide⟩
      · rw [heq]
        exact items_parseList _
    obtain ⟨-, name, version, code, scope, -, -, rfl⟩ := describe_shape hdesc
    exact ⟨htriggers, items_parseList _, items_parseList _⟩

theorem newline_not_mem_intercalate {items : List String} (h : ∀ item ∈ items, '\n' ∉ item.toList) :
    '\n' ∉ (",".intercalate items).toList := by
  intro hmem
  rcases @Text.mem_intercalate ',' _ _ hmem with hsep | ⟨item, hitem, hmem⟩
  · exact absurd hsep (by decide)
  · exact h item hitem hmem

theorem newline_not_mem_printI32 (z : Int32) : '\n' ∉ (Text.printI32 z).toList := by
  intro hmem
  rcases Text.mem_printI32 hmem with h | h
  · exact absurd h (by decide)
  · exact absurd h (by decide)

theorem newline_not_mem_scope (scope : FnScope) : '\n' ∉ scope.asWireStr.toList := by cases scope <;> decide

theorem newline_not_mem_status {status : FnStatus} (h : status.isMalformed = false) :
    '\n' ∉ status.asWireStr.toList := by
  cases status with
  | malformed reason => nomatch h
  | _ => decide

/-- The values that are not printed numbers or words of the program. -/
theorem inline_of (hid : '\n' ∉ node.id.toList) (hname : '\n' ∉ node.name.toList) (hversion : '\n' ∉ node.version.toList)
    (hauthor : '\n' ∉ node.author.toList) (hdescription : '\n' ∉ node.description.toList)
    (hentry : ∀ entry, node.entry = some entry → '\n' ∉ entry.toList)
    (hsummary : ∀ summary, node.uiSummary = some summary → '\n' ∉ summary.toList)
    (hitems : ∀ item ∈ node.triggers ++ node.apps ++ node.capabilities, '\n' ∉ item.toList)
    (hstatus : '\n' ∉ node.status.asWireStr.toList) : Inline node := by
  intro field hfield
  simp only [List.forall_mem_append] at hitems
  obtain ⟨⟨htriggers, happs⟩, hcapabilities⟩ := hitems
  simp only [FnNode.fields, List.mem_append, List.mem_cons, List.not_mem_nil, or_false, Option.mem_toList,
    Option.map_eq_some_iff] at hfield
  rcases hfield with (((hfield | ⟨entry, hsome, rfl⟩) | hfield) | ⟨summary, hsome, rfl⟩) | rfl
  · rcases hfield with rfl | rfl | rfl | rfl | rfl | rfl
    · exact hid
    · exact hname
    · exact hversion
    · exact newline_not_mem_printI32 _
    · exact hauthor
    · exact hdescription
  · exact hentry entry hsome
  · rcases hfield with rfl | rfl | rfl | rfl | rfl
    · exact newline_not_mem_intercalate htriggers
    · exact newline_not_mem_scope _
    · exact newline_not_mem_intercalate happs
    · exact newline_not_mem_printI32 _
    · exact newline_not_mem_intercalate hcapabilities
  · exact hsummary summary hsome
  · exact hstatus

theorem Scannable.inline (h : Scannable id node) (hid : '\n' ∉ id.toList) : Inline node := by
  cases h with
  | malformed dir reason hreason =>
    have hstatus : '\n' ∉ ("malformed:" ++ reason).toList := by
      rw [String.toList_append, List.mem_append]
      exact fun h => h.elim (by decide) hreason
    exact inline_of hid hid List.not_mem_nil List.not_mem_nil List.not_mem_nil (fun _ h => nomatch h)
      (fun _ h => nomatch h) (fun _ h => absurd h List.not_mem_nil) hstatus
  | described dir props node status hplain hdesc hstatus =>
    have htriggers : ∀ item ∈ node.triggers, '\n' ∉ item.toList := by
      rcases triggers_described hdesc with heq | heq
      · rw [heq, List.forall_mem_singleton]
        decide
      · rw [heq]
        exact fun item => hplain.parseList
    obtain ⟨-, name, version, code, scope, hname, hversion, rfl⟩ := describe_shape hdesc
    have hvalue : ∀ key, '\n' ∉ ((props.lookup key).getD "").toList := by
      intro key hmem
      obtain ⟨prop, hprop, hmem⟩ := mem_of_lookup_fields hmem
      exact hplain prop hprop hmem
    apply inline_of hid (hplain.required hname) (hplain.required hversion) (hvalue _) (hvalue _)
    · exact fun entry hentry => hplain.required hentry
    · exact fun summary hsummary => hplain.required hsummary
    · simp only [List.forall_mem_append]
      exact ⟨⟨htriggers, fun item => hplain.parseList⟩, fun item => hplain.parseList⟩
    · exact newline_not_mem_status hstatus

/-- The text of the nodes a scan returns is read back as it was written, if no node that is still there has a
line feed in its name, and in no other case. An I/O error has a text of one line. -/
theorem decodable_iff (ht : '\n' ∉ e.errorText.toList) :
    Decodable (scanFnNodes e fs).1 ↔ ∀ id, survives e fs id = true → '\n' ∉ id.toList := by
  have hid : ∀ {id : String} {node : FnNode}, findNode e fs id = some node → node.id = id :=
    fun hnode => (findNode_eq_some.1 hnode).2
  constructor
  · intro h id hsurvives
    obtain ⟨node, hnode⟩ := findNode_survives hsurvives
    rw [← hid hnode]
    exact newline_not_mem_of_decodable h (mem_scanFnNodes.2 ((hid hnode).symm ▸ hnode))
  · intro hclean
    have hscannable : ∀ node ∈ (scanFnNodes e fs).1, Scannable node.id node := fun node hnode =>
      scannable_findNode ht (mem_scanFnNodes.1 hnode)
    apply decodable_of_inline
    · exact fun node hnode => (hscannable node hnode).inline (hclean _ (survives_of_findNode (mem_scanFnNodes.1 hnode)))
    · exact fun node hnode => (hscannable node hnode).listsOk

/-- A node with a script, and one without a descriptor. -/
def twoNodesFs : FileTree := .ofFiles [
  (fnRoot ++ ["demo", "fn.prop"], "id=demo\nname=D\nversion=1\nversionCode=1\napps=a , b\n"),
  (fnRoot ++ ["demo", "service.sh"], ""), (fnRoot ++ ["broken", "service.sh"], "")]

theorem decodable_two : Decodable (scanFnNodes .fine twoNodesFs).1 := by
  refine (decodable_iff (by decide)).2 fun id hsurvives => ?_
  have hall : ∀ n ∈ twoNodesFs.children fnRoot ++ twoNodesFs.children pathModulesDir, '\n' ∉ n.toList := by decide
  exact hall id (mem_children_of_survives hsurvives)

/-- A directory with a line feed in its name. -/
def newlineFs : FileTree := .ofFiles [(fnRoot ++ ["a\nb", "fn.prop"], "")]

theorem newline_misread : ¬ ∀ (e : Env) (fs : FileTree), '\n' ∉ e.errorText.toList →
    Decodable (scanFnNodes e fs).1 := by
  intro h
  have hdecodable := h .fine newlineFs (by decide)
  have hnode : malformed "a\nb" (fnRoot ++ ["a\nb"]) "missing id" ∈ (scanFnNodes .fine newlineFs).1 := by decide
  exact newline_not_mem_of_decodable hdecodable hnode (by decide)

end OnyxZygisk.Daemon
