import OnyxZygisk.Daemon.Eligible

/-!
# FN nodes

A node is a directory with a descriptor `fn.prop`, in the work directory or among the modules. Every scan
parses all of them again and sweeps away the nodes of the work directory that are flagged with `remove`.
Files are read as they are; only the sweep can fail.
-/

namespace OnyxZygisk.Daemon

inductive FnScope where
  | all
  | allowlist
  | denylist
  deriving DecidableEq

inductive FnStatus where
  | enabled
  | disabled
  | pendingRemove
  | pendingUpdate
  | malformed (reason : String)
  deriving DecidableEq

def FnStatus.isMalformed : FnStatus → Bool
  | malformed _ => true
  | _ => false

def FnScope.asWireStr : FnScope → String
  | all => "all"
  | allowlist => "allowlist"
  | denylist => "denylist"

/-- The status in the list of nodes that is sent out. -/
def FnStatus.asWireStr : FnStatus → String
  | enabled => "enabled"
  | disabled => "disabled"
  | pendingRemove => "pending_remove"
  | pendingUpdate => "pending_update"
  | malformed reason => "malformed:" ++ reason

structure FnNode where
  id : String
  dir : FilePath
  name : String
  version : String
  versionCode : Int32
  author : String
  description : String
  entry : Option String
  triggers : List String
  scope : FnScope
  apps : List String
  priority : Int32
  capabilities : List String
  uiSummary : Option String
  status : FnStatus
  deriving DecidableEq

/-- `fn_root` of the work directory. -/
def fnRoot : FilePath := tmpPath ++ ["fn"]

def isStandardMagiskModule (dir : FilePath) : Bool := dir ≠ [] && dir.dropLast = pathModulesDir

/-- `[a-z0-9_-]+` -/
def isValidId (id : String) : Bool :=
  id ≠ "" && id.toList.all fun c => c.isLower || c.isDigit || c = '_' || c = '-'

/-! ### The descriptor -/

/-- `split_once('=')` -/
def splitOnce (sep : Char) (s : String) : Option (String × String) :=
  if s.toList.contains sep then
    some (String.ofList (s.toList.takeWhile (· ≠ sep)),
      String.ofList ((s.toList.dropWhile (· ≠ sep)).drop 1))
  else none

def parseProp (line : String) : Option (String × String) :=
  let line := Text.trim line
  if line = "" || line.toList.head? = some '#' then none
  else (splitOnce '=' line).map fun (key, value) => (Text.trim key, Text.trim value)

/-- The last line with a key counts. A carriage return before the line end is trimmed away with the
rest. -/
def parseProps (content : String) : List (String × String) :=
  ((Text.split '\n' content).filterMap parseProp).reverse

def parseList (value : Option String) : List String :=
  ((value.map (Text.split ',')).getD []).map Text.trim |>.filter (· ≠ "")

/-- A key that must not be empty. -/
def required (props : List (String × String)) (key : String) : Option String :=
  (props.lookup key).filter (· ≠ "")

def malformed (id : String) (dir : FilePath) (reason : String) : FnNode where
  id := id
  dir := dir
  name := id
  version := ""
  versionCode := 0
  author := ""
  description := ""
  entry := none
  triggers := []
  scope := .all
  apps := []
  priority := 100
  capabilities := []
  uiSummary := none
  status := .malformed reason

def parseScope : Option String → Except String FnScope
  | none => .ok .all
  | some "all" => .ok .all
  | some "allowlist" => .ok .allowlist
  | some "denylist" => .ok .denylist
  | some other => .error ("invalid scope `" ++ other ++ "`")

/-- `parse_fn_node` on the parsed descriptor, without the files it looks for. -/
def describe (id : String) (dir : FilePath) (props : List (String × String)) : Except String FnNode := do
  let declaredId ← (required props "id").elim (.error "missing id") .ok
  if !isValidId declaredId then .error "invalid id"
  else if declaredId ≠ id then .error "id does not match directory name"
  else
    let name ← (required props "name").elim (.error "missing name") .ok
    let version ← (required props "version").elim (.error "missing version") .ok
    let versionCode ← ((props.lookup "versionCode").bind Text.parseI32).elim
      (.error "invalid versionCode") .ok
    let scope ← parseScope (props.lookup "scope")
    pure {
      id := id
      dir := dir
      name := name
      version := version
      versionCode := versionCode
      author := (props.lookup "author").getD ""
      description := (props.lookup "description").getD ""
      entry := required props "entry"
      triggers := match props.lookup "trigger" with
        | some value => parseList (some value)
        | none => ["app"]
      scope := scope
      apps := parseList (props.lookup "apps")
      priority := ((props.lookup "priority").bind Text.parseI32).getD 100
      capabilities := parseList (props.lookup "capabilities")
      uiSummary := required props "ui.summary"
      status := .enabled }

/-- The components of a relative path, `.` left out and `..` taken back. -/
def components (base : FilePath) (path : String) : FilePath :=
  (Text.split '/' path).foldl (fun p c =>
    if c = "" || c = "." then p else if c = ".." then p.dropLast else p ++ [c]) base

/-- `FilePath::join`; an absolute path replaces the base. -/
def joinPath (base : FilePath) (path : String) : FilePath :=
  components (if path.toList.head? = some '/' then [] else base) path

/-- The library a node names. -/
def FnNode.libPath (node : FnNode) : FilePath := joinPath node.dir (node.entry.getD "")

/-! ### The scan -/

/-- `parse_fn_node`. `errorText` is the text of the error reading the descriptor gives. -/
def parseFnNode (errorText : String) (fs : FileTree) (dir : FilePath) : FnNode :=
  let id := dir.getLast?.getD ""
  match fs.read (dir ++ ["fn.prop"]) with
  | none => malformed id dir ("unreadable fn.prop: " ++ errorText)
  | some content =>
    match describe id dir (parseProps content) with
    | .error reason => malformed id dir reason
    | .ok node =>
      let hasEntry := node.entry.isSome && fs.isFile node.libPath
      let hasScript := fs.isFile (dir ++ ["service.sh"]) || fs.isFile (dir ++ ["post-fs-data.sh"])
      if !hasEntry && !hasScript then malformed id dir "no entry library or script"
      else
        { node with status :=
            if fs.present (dir ++ ["update"]) then .pendingUpdate
            else if fs.present (dir ++ ["disable"]) then .disabled
            else .enabled }

/-- A node that is to be removed, and is still there. -/
def pendingRemove (node : FnNode) : FnNode :=
  if node.status.isMalformed then node else { node with status := .pendingRemove }

/-- The sweep of a node's directory. -/
def removeNode (e : Env) (fs : FileTree) (dir : FilePath) : Bool × FileTree :=
  if e.works (.removeDirAll dir) then
    match fs.removeDirAll dir with
    | some fs' => (true, fs')
    | none => (false, fs)
  else if fs.isRealDir dir then (false, fs.removePartly dir e.kept)
  else (false, fs)

/-- The scan's state: the disk, the ids it has seen and the nodes it has found. -/
structure FnScan where
  fs : FileTree
  seenIds : List String
  nodes : List FnNode

/-- The body of the loop over a root's entries. -/
def scanEntry (e : Env) (root : FilePath) (scan : FnScan) (id : String) : FnScan :=
  let path := root ++ [id]
  if !scan.fs.isDir path ||
      (isStandardMagiskModule path && !scan.fs.isFile (path ++ ["fn.prop"])) then scan
  else if scan.seenIds.contains id then scan
  else
    let seenIds := id :: scan.seenIds
    if scan.fs.present (path ++ ["remove"]) then
      if isStandardMagiskModule path then
        { scan with seenIds, nodes := scan.nodes ++ [pendingRemove (parseFnNode e.errorText scan.fs path)] }
      else
        match removeNode e scan.fs path with
        | (true, fs) => { scan with fs, seenIds }
        | (false, fs) =>
          { fs, seenIds, nodes := scan.nodes ++ [pendingRemove (parseFnNode e.errorText fs path)] }
    else { scan with seenIds, nodes := scan.nodes ++ [parseFnNode e.errorText scan.fs path] }

def scanRoot (e : Env) (scan : FnScan) (root : FilePath) : FnScan :=
  if scan.fs.isDir root then (scan.fs.children root).foldl (scanEntry e root) scan else scan

/-- By priority, then id. -/
def FnNode.before (a b : FnNode) : Prop := a.priority < b.priority ∨ a.priority = b.priority ∧ a.id ≤ b.id

instance : DecidableRel FnNode.before := fun _ _ => inferInstanceAs (Decidable (_ ∨ _))

def scanFnNodes (e : Env) (fs : FileTree) : List FnNode × FileTree :=
  let scan := [fnRoot, pathModulesDir].foldl (scanRoot e) ⟨fs, [], []⟩
  (scan.nodes.insertionSort FnNode.before, scan.fs)

def FnNode.isActive (node : FnNode) : Bool := node.status = .enabled && node.entry.isSome

/-- `active_native_nodes` -/
def activeNativeNodes (e : Env) (fs : FileTree) : List FnNode × FileTree :=
  let scan := scanFnNodes e fs
  (scan.1.filter FnNode.isActive, scan.2)

end OnyxZygisk.Daemon
