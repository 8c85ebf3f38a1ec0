import OnyxZygisk.Daemon.ProcessFlags
import OnyxZygisk.Lib.Words
import OnyxZygisk.Monitor.AppMonitor

/-!
# The monitor's status text

`update_status` writes the module's metadata, then a row for the monitor and, once a daemon was started, rows
for the zygote and the daemon, the last with what the daemon said of itself. The status script takes the
front of the text.
-/

namespace OnyxZygisk.Monitor

open Daemon (RootImpl)

/-! ### What the daemon sends -/

def rootDebug : RootImpl → String
  | .none => "None"
  | .tooOld => "TooOld"
  | .multiple => "Multiple"
  | .aPatch => "APatch"
  | .kernelSU => "KernelSU"
  | .magisk => "Magisk"

/-- The text between the header and the zero byte of `send_startup_info`'s message. -/
def startupInfo (root : RootImpl) (names : List String) : String :=
  if names ≠ [] then
    "\t\tRoot: " ++ rootDebug root ++ "\n\t\tModules (" ++ names.length.repr ++ "):\n\t\t\t" ++
      "\n\t\t\t".intercalate names
  else "\t\tRoot: " ++ rootDebug root

/-- `send_startup_info`, as the monitor gets it: the length counts the zero byte. -/
def sendStartupInfo (root : RootImpl) (names : List String) : Event :=
  match root with
  | .aPatch | .kernelSU | .magisk => .daemonSetInfo (startupInfo root names ++ "\x00")
  | _ => .daemonSetErrorInfo ("\t\tInvalid root implementation: " ++ rootDebug root ++ "\x00")

/-! ### The text -/

def TracingState.text : TracingState → String
  | .tracing => "tracing"
  | .stopping => "stopped"
  | .stopped => "stopped"
  | .exiting => "exited"

def abiName (is64bit : Bool) : String := if is64bit then "64" else "32"

def zygoteText (state : TracingState) (status : Status) : String :=
  if state ≠ .tracing then "unknown" else if status.zygoteInjected then "injected" else "not injected"

/-- A text in brackets, if there is one. -/
def bracketed (text : String) : String := if text ≠ "" then "(" ++ text ++ ")" else ""

def daemonText (status : Status) : String :=
  if status.daemonRunning then "running" else "crashed" ++ bracketed status.daemonErrorInfo

def writeAbiStatusSection (is64bit : Bool) (state : TracingState) (status : Status) : String :=
  if status.supported then
    "\tzygote" ++ abiName is64bit ++ ":\t" ++ zygoteText state status ++
      "\n\tdaemon" ++ abiName is64bit ++ ":\t" ++ daemonText status ++
      if status.daemonRunning && status.daemonInfo ≠ "" then "\n" ++ status.daemonInfo else ""
  else ""

def monitorText (m : AppMonitor) : String :=
  m.tracingState.text ++ if m.tracingState ≠ .tracing then bracketed m.monitorStopReason else ""

/-- The text `update_status` writes. -/
def updateStatus (is64bit : Bool) (preSection : String) (m : AppMonitor) : String :=
  preSection ++ "\n" ++ ("\tmonitor: \t" ++ monitorText m) ++ "\n\n" ++
    writeAbiStatusSection is64bit m.tracingState m.zygote.status ++ "\n\n"

/-- A line as `getline` gives it, with its line feed, up to a zero byte. -/
def lineText (p : Lines.Piece Char) : List Char :=
  (p.text ++ if p.ended then ['\n'] else []).takeWhile (· ≠ '\x00')

/-- `pre_section_` -/
def preSection (prop : String) : String :=
  String.ofList ((((Lines.pieces '\n' [] prop.toList).filter fun p => p.ended || p.text ≠ []).map lineText).flatMap
    fun line =>
      if "updateJson=".toList <+: line || "description=".toList <+: line then [] else '\t' :: line)

/-! ### The front of the text -/

/-- `head -c n`, decoded: a character that is cut in two is replaced. -/
def headBytes (n : Nat) : List Char → List Char
  | [] => []
  | c :: cs =>
    if c.utf8Size ≤ n then c :: headBytes (n - c.utf8Size) cs else if n = 0 then [] else ['\ufffd']

theorem headBytes_append {front : List Char} (back : List Char) {n : Nat} (h : (front.map Char.utf8Size).sum ≤ n) :
    headBytes n (front ++ back) = front ++ headBytes (n - (front.map Char.utf8Size).sum) back := by
  induction front generalizing n with
  | nil => rfl
  | cons c front ih =>
    rw [List.map_cons, List.sum_cons] at h
    have hc : c.utf8Size ≤ n := by omega
    have hrest : (front.map Char.utf8Size).sum ≤ n - c.utf8Size := by omega
    rw [List.cons_append, headBytes, if_pos hc, ih hrest, List.map_cons, List.sum_cons, Nat.sub_sub]
    rfl

/-- Of a text whose characters are bytes, the front is a part. -/
theorem headBytes_prefix {text : List Char} (h : ∀ c ∈ text, c.utf8Size = 1) (n : Nat) : headBytes n text <+: text := by
  induction text generalizing n with
  | nil => exact List.prefix_rfl
  | cons c text ih =>
    rw [List.forall_mem_cons] at h
    rw [headBytes, h.1]
    by_cases hn : 1 ≤ n
    · rw [if_pos hn, List.prefix_cons_inj]
      exact ih h.2 _
    · rw [if_neg hn, if_pos (by omega)]
      exact List.nil_prefix

end OnyxZygisk.Monitor
