import OnyxZygisk.Lib.Text

/-!
# The WebUI's reader of the status output

`parseStatus` reads the output of the status script line by line. Lines that start with `@@` name the section
that follows; the lines of the monitor's section are parsed when all of them are there.
-/

namespace OnyxZygisk.WebUi

structure ModuleInfo where
  id : String
  name : String
  version : String
  author : String
  zygisk : Bool
  disabled : Bool
  desc : String
  pendingUpdate : Bool
  hotplugEnabled : Bool
  hotplugged : Bool
  deriving DecidableEq

structure FnNodeInfo where
  id : String
  name : String
  version : String
  trigger : String
  scope : String
  status : String
  deriving DecidableEq

/-- A plain detail line has no label. -/
structure MonitorRow where
  label : Option String
  value : String
  deriving DecidableEq

/-- The last value of a key is the first in the list. -/
abbrev StatusKeys := List (String × String)

structure SystemState where
  keys : StatusKeys
  monitor : List MonitorRow
  modules : List ModuleInfo
  fns : List FnNodeInfo

/-! ### The monitor's section -/

/-- `\s`, and what `trim` takes away. -/
def isSpace (c : Char) : Bool := (Text.isWhitespace c && c.toNat ≠ 0x85) || c.toNat = 0xfeff

/-- What `.` does not match. -/
def isLineTerminator (c : Char) : Bool :=
  c = '\n' || c = '\r' || c.toNat = 0x2028 || c.toNat = 0x2029

def trim (cs : List Char) : List Char := ((cs.dropWhile isSpace).reverse.dropWhile isSpace).reverse

/-- `/^[a-zA-Z][a-zA-Z0-9_]*=/` -/
def isMetadata : List Char → Bool
  | [] => false
  | c :: cs => c.isAlpha && (cs.dropWhile fun c => c.isAlphanum || c = '_').head? = some '='

/-- `/^([a-z][a-z0-9]*):\s*(.+)$/`, on a line that does not end in white space: `\s*` gives nothing back. -/
def liveRow : List Char → Option (List Char × List Char)
  | [] => none
  | c :: cs =>
    let value := ((cs.dropWhile fun c => c.isLower || c.isDigit).drop 1).dropWhile isSpace
    if c.isLower && (cs.dropWhile fun c => c.isLower || c.isDigit).head? = some ':' && value ≠ [] &&
        value.all fun c => !isLineTerminator c then
      some (c :: cs.takeWhile fun c => c.isLower || c.isDigit, value)
    else none

/-- The body of `parseMonitor`'s loop. -/
def monitorRow (raw : List Char) : Option MonitorRow :=
  let line := trim (raw.dropWhile (· = '\t'))
  if line = [] then none
  else if isMetadata line || line.head? = some '=' then none
  else match liveRow line with
    | some (label, value) => some ⟨some (String.ofList label), String.ofList value⟩
    | none => some ⟨none, String.ofList line⟩

def parseMonitor (text : String) : List MonitorRow :=
  (Text.split '\n' text).filterMap fun raw => monitorRow raw.toList

/-! ### The output -/

inductive StatusSection where
  | keys
  | monitor
  | modules
  | fn

/-- What the loop has read. -/
structure StatusScan where
  keys : StatusKeys
  monitorText : String
  modules : List ModuleInfo
  fns : List FnNodeInfo
  sect : StatusSection

/-- A line of the header, with a key. -/
def keyValue (line : String) : Option (String × String) :=
  let key := line.toList.takeWhile (· ≠ '=')
  if line.toList.contains '=' && key ≠ [] then
    some (String.ofList key, String.ofList (line.toList.drop (key.length + 1)))
  else none

/-- `parts[i] ?? ""` -/
def field (parts : List String) (i : Nat) : String := parts[i]?.getD ""

def moduleInfo (line : String) : ModuleInfo :=
  let parts := Text.split '|' line
  { id := field parts 1
    name := field parts 2
    version := field parts 3
    author := field parts 4
    zygisk := field parts 5 = "1"
    disabled := field parts 6 = "1"
    desc := field parts 7
    pendingUpdate := field parts 8 = "1"
    hotplugEnabled := field parts 9 = "1"
    hotplugged := field parts 10 = "1" }

def fnNodeInfo (line : String) : FnNodeInfo :=
  let parts := Text.split '|' line
  { id := field parts 1
    name := field parts 2
    version := field parts 3
    trigger := field parts 4
    scope := field parts 5
    status := field parts 6 }

/-- The body of the loop. -/
def readLine (scan : StatusScan) (line : String) : StatusScan :=
  if line = "@@monitor" then { scan with sect := .monitor }
  else if line = "@@modules" then { scan with sect := .modules }
  else if line = "@@fn" then { scan with sect := .fn }
  else match scan.sect with
    | .keys => { scan with keys := (keyValue line).toList ++ scan.keys }
    | .monitor => { scan with monitorText := scan.monitorText ++ line ++ "\n" }
    | .modules =>
      if "M|".toList <+: line.toList then { scan with modules := scan.modules ++ [moduleInfo line] } else scan
    | .fn =>
      if "F|".toList <+: line.toList then { scan with fns := scan.fns ++ [fnNodeInfo line] } else scan

def parseStatus (output : String) : SystemState :=
  let scan := (Text.split '\n' output).foldl readLine ⟨[], "", [], [], .keys⟩
  { keys := scan.keys
    monitor := parseMonitor scan.monitorText
    modules := scan.modules
    fns := scan.fns }

/-! ### The state in a word -/

inductive StatusLevel where
  | loading
  | ready
  | error

inductive OverallState where
  | checking
  | error
  | working
  | stopped
  | installedInactive
  | unknown
  deriving DecidableEq

/-- `/word|…/i.test(text)`, for words in lower case. -/
def mentions (words : List String) (text : String) : Bool :=
  words.any fun word => decide (word.toList <:+: text.toList.map Char.toLower)

def deriveOverallState (level : StatusLevel) (state : Option SystemState) : OverallState :=
  match level, state with
  | .loading, _ => .checking
  | .error, _ => .error
  | .ready, none => .unknown
  | .ready, some state =>
    let rows := state.monitor.filter fun row => row.label.isSome
    let installed := state.keys.lookup "installed" = some "1"
    let runtimeReady := state.keys.lookup "runtime" = some "1"
    let daemonRunning := state.keys.lookup "daemon" = some "1"
    if rows = [] then
      if daemonRunning then .working else if installed then .installedInactive else .unknown
    else
      let monitor := ((rows.find? fun row => row.label = some "monitor").map MonitorRow.value).getD ""
      if mentions ["stopped", "exited"] monitor then .stopped
      else if rows.any fun row => mentions ["crashed"] row.value then .stopped
      else if mentions ["tracing"] monitor then .working
      else if rows.any fun row =>
          !mentions ["not injected", "stopped", "exited", "crashed", "invalid"] row.value &&
            mentions ["tracing", "injected", "running"] row.value then .working
      else if installed && !runtimeReady then .installedInactive
      else .unknown

end OnyxZygisk.WebUi
