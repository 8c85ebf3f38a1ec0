import OnyxZygisk.Monitor.StatusText
import OnyxZygisk.WebUi.ModuleRows
import OnyxZygisk.WebUi.MonitorRows

/-!
# The live rows of the status text

The front of the monitor's text that the script takes ends somewhere in the details that follow the live rows.
Of its rows those with a label are what the module's metadata makes, then one for each live row whose value is
on one line (`labelled_transported`).
-/

namespace OnyxZygisk.WebUi

open Monitor

variable {m : AppMonitor} {is64bit : Bool} {pre : String} {rows rows' : List MonitorRow}

/-! ### The two parts of the text -/

def monitorLine (m : AppMonitor) : String := "\tmonitor: \t" ++ monitorText m

def zygoteLine (is64bit : Bool) (m : AppMonitor) : String :=
  "\tzygote" ++ abiName is64bit ++ ":\t" ++ zygoteText m.tracingState m.zygote.status

def daemonLine (is64bit : Bool) (m : AppMonitor) : String :=
  "\tdaemon" ++ abiName is64bit ++ ":\t" ++ daemonText m.zygote.status

/-- The text up to its last live row. -/
def liveText (is64bit : Bool) (pre : String) (m : AppMonitor) : String :=
  if m.zygote.status.supported then
    pre ++ "\n" ++ (monitorLine m ++ "\n" ++ ("" ++ "\n" ++ (zygoteLine is64bit m ++ "\n" ++ daemonLine is64bit m)))
  else pre ++ "\n" ++ monitorLine m

/-- What follows on the next line. -/
def detailText (m : AppMonitor) : String :=
  if m.zygote.status.supported then
    if m.zygote.status.daemonRunning && m.zygote.status.daemonInfo ≠ "" then
      m.zygote.status.daemonInfo ++ "\n" ++ "\n"
    else "\n"
  else "\n\n\n"

theorem updateStatus_eq (is64bit : Bool) (pre : String) (m : AppMonitor) :
    updateStatus is64bit pre m = liveText is64bit pre m ++ "\n" ++ detailText m := by
  unfold updateStatus liveText detailText writeAbiStatusSection
  apply String.toList_injective
  cases m.zygote.status.supported with
  | false => simp [monitorLine]
  | true =>
    cases m.zygote.status.daemonRunning && m.zygote.status.daemonInfo ≠ "" with
    | false => simp [monitorLine, zygoteLine, daemonLine]
    | true => simp [monitorLine, zygoteLine, daemonLine]

/-! ### Details -/

/-- What the daemon of a monitor has said, if anything. -/
def ToldBy (info : String) : Prop :=
  info = "" ∨ ∃ root names, (∀ name ∈ names, isValidModuleId name = true) ∧
    sendStartupInfo root names = .daemonSetInfo info

theorem ToldBy.info {info : String} (h : ToldBy info) (hne : info ≠ "") :
    ∃ root names, (∀ name ∈ names, isValidModuleId name = true) ∧ info = startupInfo root names ++ "\x00" := by
  rcases h with hnone | ⟨root, names, hnames, hsent⟩
  · exact absurd hnone hne
  · refine ⟨root, names, hnames, ?_⟩
    unfold sendStartupInfo at hsent
    cases root with
    | none => nomatch hsent
    | tooOld => nomatch hsent
    | multiple => nomatch hsent
    | aPatch => exact (Event.daemonSetInfo.inj hsent).symm
    | kernelSU => exact (Event.daemonSetInfo.inj hsent).symm
    | magisk => exact (Event.daemonSetInfo.inj hsent).symm

theorem details_name {name : String} (h : isValidModuleId name = true) (back : String)
    (hback : back = "" ∨ back = "\x00") : Details ("\t\t\t" ++ name ++ back) := by
  have hline : ∀ c ∈ back.toList, c = '\x00' := by
    rcases hback with rfl | rfl
    · exact fun c hc => absurd hc List.not_mem_nil
    · exact fun c hc => List.mem_singleton.1 hc
  have hnot : ∀ c : Char, c ∉ "\t\t\t".toList → c ∉ name.toList → c ≠ '\x00' →
      c ∉ ("\t\t\t" ++ name ++ back).toList := by
    intro c htab hname hzero hc
    rw [String.toList_append, String.toList_append, List.mem_append, List.mem_append] at hc
    rcases hc with (hc | hc) | hc
    · exact htab hc
    · exact hname hc
    · exact hzero (hline c hc)
  apply details_single
  · exact hnot '\n' (by decide) (not_mem_of_isValidModuleId h (by decide)) (by decide)
  · refine ⟨?_, .inl (hnot ':' (by decide) (not_mem_of_isValidModuleId h (by decide)) (by decide))⟩
    simp

theorem details_names {names : List String} (hne : names ≠ []) (h : ∀ name ∈ names, isValidModuleId name = true) :
    Details ("\t\t\t" ++ "\n\t\t\t".intercalate names ++ "\x00") := by
  induction names with
  | nil => exact absurd rfl hne
  | cons name names ih =>
    rw [List.forall_mem_cons] at h
    cases names with
    | nil =>
      rw [String.intercalate_singleton]
      exact details_name h.1 _ (.inr rfl)
    | cons name' names =>
      have htext : "\t\t\t" ++ "\n\t\t\t".intercalate (name :: name' :: names) ++ "\x00" =
          ("\t\t\t" ++ name ++ "") ++ "\n" ++ ("\t\t\t" ++ "\n\t\t\t".intercalate (name' :: names) ++ "\x00") := by
        rw [String.intercalate_cons_cons]
        apply String.toList_injective
        simp
      rw [htext]
      exact details_append (details_name h.1 _ (.inl rfl)) (ih (List.cons_ne_nil _ _) h.2)

theorem isDigit_of_mem_repr {n : Nat} {c : Char} (h : c ∈ n.repr.toList) : c.isDigit = true := by
  rw [Nat.toList_repr] at h
  exact Nat.isDigit_of_mem_toDigits (by decide) (by decide) h

/-- A line that starts with a capital. -/
theorem details_capital {line : String} {c : Char} {rest : List Char} (h : line.toList = '\t' :: '\t' :: c :: rest)
    (hc : c.isUpper = true) (hline : '\n' ∉ line.toList) : Details line := by
  refine details_single hline ⟨?_, .inr ⟨c, rest, h, hc⟩⟩
  rw [h]
  simp

theorem newline_not_mem_rootDebug (root : Daemon.RootImpl) : '\n' ∉ (rootDebug root).toList := by
  cases root <;> decide

theorem details_startupInfo (root : Daemon.RootImpl) {names : List String}
    (h : ∀ name ∈ names, isValidModuleId name = true) : Details (startupInfo root names ++ "\x00") := by
  have hroot : ∀ back : String, '\n' ∉ back.toList → Details ("\t\tRoot: " ++ rootDebug root ++ back) := by
    intro back hback
    have htext : ("\t\tRoot: " ++ rootDebug root ++ back).toList =
        '\t' :: '\t' :: 'R' :: ("oot: ".toList ++ (rootDebug root).toList ++ back.toList) := by simp
    apply details_capital htext (by decide)
    rw [String.toList_append, String.toList_append, List.mem_append, List.mem_append, not_or, not_or]
    exact ⟨⟨by decide, newline_not_mem_rootDebug root⟩, hback⟩
  unfold startupInfo
  split_ifs with hne
  · have htext : "\t\tRoot: " ++ rootDebug root ++ "\n\t\tModules (" ++ names.length.repr ++ "):\n\t\t\t" ++
        "\n\t\t\t".intercalate names ++ "\x00" =
        ("\t\tRoot: " ++ rootDebug root ++ "") ++ "\n" ++ (("\t\tModules (" ++ names.length.repr ++ "):") ++ "\n" ++
          ("\t\t\t" ++ "\n\t\t\t".intercalate names ++ "\x00")) := by
      apply String.toList_injective
      simp
    rw [htext]
    refine details_append (hroot "" List.not_mem_nil) (details_append ?_ (details_names hne h))
    have hmodules : ("\t\tModules (" ++ names.length.repr ++ "):").toList =
        '\t' :: '\t' :: 'M' :: ("odules (".toList ++ names.length.repr.toList ++ "):".toList) := by simp
    apply details_capital hmodules (by decide)
    rw [String.toList_append, String.toList_append, List.mem_append, List.mem_append, not_or, not_or]
    exact ⟨⟨by decide, fun hc => absurd (isDigit_of_mem_repr hc) (by decide)⟩, by decide⟩
  · exact hroot _ (by decide)

/-- Each character is one byte. -/
def Ascii (text : List Char) : Prop := (text.all fun c => c.utf8Size = 1) = true

instance (text : List Char) : Decidable (Ascii text) := inferInstanceAs (Decidable (_ = true))

theorem ascii_append {a b : List Char} : Ascii (a ++ b) ↔ Ascii a ∧ Ascii b := by
  rw [Ascii, List.all_append, Bool.and_eq_true]
  rfl

theorem utf8Size_of_lt {c : Char} (h : c.toNat < 128) : c.utf8Size = 1 := by
  have hc : c.val ≤ 0x7f := by
    rw [UInt32.le_iff_toNat_le]
    exact Nat.le_of_lt_succ h
  exact if_pos hc

theorem ascii_of_isValidModuleId {name : String} (h : isValidModuleId name = true) : Ascii name.toList := by
  simp only [isValidModuleId, Bool.and_eq_true, List.all_eq_true] at h
  rw [Ascii, List.all_eq_true]
  intro c hc
  have hchar := h.2 c hc
  rw [decide_eq_true_eq]
  apply utf8Size_of_lt
  simp only [Bool.or_eq_true, decide_eq_true_eq] at hchar
  rcases hchar with ((hchar | rfl) | rfl) | rfl
  · rw [Text.isAlphanum_iff, Text.isUpper_iff, Text.isLower_iff, Text.isDigit_iff] at hchar
    omega
  · decide
  · decide
  · decide

theorem ascii_startupInfo (root : Daemon.RootImpl) {names : List String}
    (h : ∀ name ∈ names, isValidModuleId name = true) : Ascii (startupInfo root names ++ "\x00").toList := by
  have hnames : Ascii ("\n\t\t\t".intercalate names).toList := by
    rw [String.toList_intercalate]
    induction names with
    | nil => decide
    | cons name names ih =>
      rw [List.forall_mem_cons] at h
      cases names with
      | nil =>
        rw [List.map_singleton, List.intercalate_singleton]
        exact ascii_of_isValidModuleId h.1
      | cons name' names =>
        rw [List.map_cons, List.map_cons, List.intercalate_cons_cons, ascii_append, ascii_append]
        exact ⟨⟨ascii_of_isValidModuleId h.1, by decide⟩, ih h.2⟩
  have hdigits : Ascii names.length.repr.toList := by
    rw [Ascii, List.all_eq_true]
    intro c hc
    have hdigit := isDigit_of_mem_repr hc
    rw [decide_eq_true_eq]
    apply utf8Size_of_lt
    simp only [Char.isDigit, Bool.and_eq_true, decide_eq_true_eq, UInt32.le_iff_toNat_le, ge_iff_le] at hdigit
    have hval : c.toNat = c.val.toNat := rfl
    have h9 : '9'.val.toNat = 57 := rfl
    omega
  have hroot : Ascii (rootDebug root).toList := by cases root <;> decide
  unfold startupInfo
  split_ifs
  · simp only [String.toList_append, ascii_append]
    exact ⟨⟨⟨⟨⟨⟨by decide, hroot⟩, by decide⟩, hdigits⟩, by decide⟩, hnames⟩, by decide⟩
  · simp only [String.toList_append, ascii_append]
    exact ⟨⟨by decide, hroot⟩, by decide⟩

/-! ### The front of the text -/

/-- The text the script prints, of a module with this metadata. -/
def transported (is64bit : Bool) (pre : String) (m : AppMonitor) : String :=
  String.ofList (headBytes 600 (updateStatus is64bit pre m).toList)

/-- The live rows are in the front. -/
def LiveInFront (is64bit : Bool) (pre : String) (m : AppMonitor) : Prop :=
  ((liveText is64bit pre m).toList.map Char.utf8Size).sum ≤ 600

theorem details_empty : Details "" := details_single List.not_mem_nil ⟨by simp, .inl List.not_mem_nil⟩

theorem details_end {text : String} (h : Details text) : Details (text ++ "\n") := by
  have happend := details_append h details_empty
  rwa [String.append_empty] at happend

theorem details_detailText (h : ToldBy m.zygote.status.daemonInfo) : Details (detailText m) := by
  have hend : Details "\n" := by
    rw [← @String.empty_append "\n"]
    exact details_end details_empty
  unfold detailText
  split_ifs with hsupported hinfo
  · rw [Bool.and_eq_true, decide_eq_true_eq] at hinfo
    obtain ⟨root, names, hnames, htold⟩ := h.info hinfo.2
    rw [htold]
    exact details_end (details_end (details_startupInfo root hnames))
  · exact hend
  · rw [show "\n\n\n" = "\n" ++ "\n" ++ "\n" from by decide]
    exact details_end (details_end hend)

theorem ascii_detailText (h : ToldBy m.zygote.status.daemonInfo) : Ascii (detailText m).toList := by
  unfold detailText
  split_ifs with hsupported hinfo
  · rw [Bool.and_eq_true, decide_eq_true_eq] at hinfo
    obtain ⟨root, names, hnames, htold⟩ := h.info hinfo.2
    rw [htold, String.toList_append, String.toList_append, ascii_append, ascii_append]
    exact ⟨⟨ascii_startupInfo root hnames, by decide⟩, by decide⟩
  · decide
  · decide

/-! ### The live rows -/

def labelled (rows : List MonitorRow) : List MonitorRow := rows.filter fun row => row.label.isSome

/-- The row of a value, if the value is on one line. -/
def oneLineRow (label value : String) : List MonitorRow :=
  if value.toList.all fun c => !isLineTerminator c then [⟨some label, value⟩] else []

def liveRows (is64bit : Bool) (m : AppMonitor) : List MonitorRow :=
  oneLineRow "monitor" (monitorText m) ++
    if m.zygote.status.supported then
      oneLineRow ("zygote" ++ abiName is64bit) (zygoteText m.tracingState m.zygote.status) ++
        oneLineRow ("daemon" ++ abiName is64bit) (daemonText m.zygote.status)
    else []

/-- White space stands at neither end. -/
def hasEnds (value : List Char) : Bool :=
  value.head?.any (fun c => !isSpace c) && value.getLast?.any fun c => !isSpace c

theorem labelled_append (rows rows' : List MonitorRow) : labelled (rows ++ rows') = labelled rows ++ labelled rows' :=
  List.filter_append ..

theorem labelled_parseMonitor_append (a b : String) :
    labelled (parseMonitor (a ++ "\n" ++ b)) = labelled (parseMonitor a) ++ labelled (parseMonitor b) := by
  rw [parseMonitor_append, labelled_append]

theorem labelled_details {text : String} (h : Details text) : labelled (parseMonitor text) = [] := by
  rw [labelled, List.filter_eq_nil_iff]
  intro row hrow
  obtain ⟨line, hline, hrow⟩ := List.mem_filterMap.1 hrow
  rw [(h line hline).label_eq hrow]
  exact Bool.false_ne_true

theorem noMarker_append {a b : String} (ha : NoMarker a) (hb : NoMarker b) : NoMarker (a ++ "\n" ++ b) := by
  rw [NoMarker, show "\n" = String.singleton '\n' from rfl, Words.split_append, List.forall_mem_append]
  exact ⟨ha, hb⟩

theorem noMarker_details {text : String} (h : Details text) : NoMarker text := fun line hline => (h line hline).1

theorem noMarker_single {line : String} (h : '\n' ∉ line.toList) (hhead : line.toList.head? = some '\t') :
    NoMarker line := by
  rw [NoMarker, Text.split_single h, List.forall_mem_singleton, hhead]
  simp

/-- A line of the monitor. -/
theorem labelled_line {label ws value line : String} (hline : line = "\t" ++ label ++ ":" ++ ws ++ value)
    (hnewline : '\n' ∉ line.toList) (hlabel : isLabel label.toList = true) (hws : ws.toList.all isSpace = true)
    (hvalue : hasEnds value.toList = true) : labelled (parseMonitor line) = oneLineRow label value := by
  rw [hasEnds, Bool.and_eq_true] at hvalue
  have hends : ∀ {o : Option Char}, o.any (fun c => !isSpace c) = true → ∀ c ∈ o, isSpace c = false := by
    intro o ho c hc
    rw [Option.mem_def.1 hc] at ho
    simpa using ho
  have hne : value.toList ≠ [] := by
    intro hnil
    rw [hnil] at hvalue
    exact absurd hvalue.1 Bool.false_ne_true
  have htext : line.toList = '\t' :: (label.toList ++ ':' :: (ws.toList ++ value.toList)) := by
    rw [hline]
    simp
  rw [parseMonitor_single hnewline, htext,
    monitorRow_live hlabel (List.all_eq_true.1 hws) hne (hends hvalue.1) (hends hvalue.2), oneLineRow,
    String.ofList_toList, String.ofList_toList]
  cases value.toList.all fun c => !isLineTerminator c <;> rfl

theorem hasEnds_bracketed (front text : String) (h : hasEnds front.toList = true) :
    hasEnds (front ++ bracketed text).toList = true := by
  unfold bracketed
  split_ifs with hne
  · rw [hasEnds, Bool.and_eq_true] at h
    have hfront : front.toList ≠ [] := by
      intro hnil
      rw [hnil] at h
      exact absurd h.1 Bool.false_ne_true
    have htext : (front ++ ("(" ++ text ++ ")")).toList = front.toList ++ ('(' :: text.toList ++ [')']) := by simp
    rw [hasEnds, Bool.and_eq_true, htext, List.head?_append_of_ne_nil _ hfront, ← List.append_assoc,
      List.getLast?_concat]
    exact ⟨h.1, by decide⟩
  · rw [String.append_empty]
    exact h

theorem newline_not_mem_bracketed {front text : String} (hfront : '\n' ∉ front.toList) (htext : '\n' ∉ text.toList) :
    '\n' ∉ (front ++ bracketed text).toList := by
  unfold bracketed
  split_ifs with hne
  · simp only [String.toList_append, List.mem_append, not_or]
    exact ⟨hfront, ⟨by decide, htext⟩, by decide⟩
  · rw [String.append_empty]
    exact hfront

/-- What the monitor's own texts are: neither holds a line feed. -/
structure Newlineless (m : AppMonitor) : Prop where
  reason : '\n' ∉ m.monitorStopReason.toList
  error : '\n' ∉ m.zygote.status.daemonErrorInfo.toList

theorem monitorText_spec (h : Newlineless m) :
    '\n' ∉ (monitorText m).toList ∧ hasEnds (monitorText m).toList = true := by
  have hstate : '\n' ∉ m.tracingState.text.toList ∧ hasEnds m.tracingState.text.toList = true := by
    cases m.tracingState <;> decide
  unfold monitorText
  split_ifs with hstopped
  · exact ⟨newline_not_mem_bracketed hstate.1 h.reason, hasEnds_bracketed _ _ hstate.2⟩
  · rw [String.append_empty]
    exact hstate

theorem zygoteText_spec (state : TracingState) (status : Status) :
    '\n' ∉ (zygoteText state status).toList ∧ hasEnds (zygoteText state status).toList = true := by
  unfold zygoteText
  split_ifs <;> decide

theorem daemonText_spec (h : Newlineless m) :
    '\n' ∉ (daemonText m.zygote.status).toList ∧ hasEnds (daemonText m.zygote.status).toList = true := by
  unfold daemonText
  split_ifs
  · decide
  · exact ⟨newline_not_mem_bracketed (by decide) h.error, hasEnds_bracketed _ _ (by decide)⟩

theorem newline_not_mem_line_of {front text : String} (hfront : '\n' ∉ front.toList) (htext : '\n' ∉ text.toList) :
    '\n' ∉ (front ++ text).toList := by
  rw [String.toList_append, List.mem_append, not_or]
  exact ⟨hfront, htext⟩

theorem newline_not_mem_abiName (is64bit : Bool) : '\n' ∉ (abiName is64bit).toList := by
  cases is64bit <;> decide

theorem newline_not_mem_lines (h : Newlineless m) (is64bit : Bool) :
    '\n' ∉ (monitorLine m).toList ∧ '\n' ∉ (zygoteLine is64bit m).toList ∧
      '\n' ∉ (daemonLine is64bit m).toList := by
  have habi := newline_not_mem_abiName is64bit
  refine ⟨newline_not_mem_line_of (by decide) (monitorText_spec h).1, ?_, ?_⟩
  · refine newline_not_mem_line_of (newline_not_mem_line_of ?_ (by decide)) (zygoteText_spec _ _).1
    exact newline_not_mem_line_of (by decide) habi
  · refine newline_not_mem_line_of (newline_not_mem_line_of ?_ (by decide)) (daemonText_spec h).1
    exact newline_not_mem_line_of (by decide) habi

theorem labelled_liveText (h : Newlineless m) (is64bit : Bool) (pre : String) :
    labelled (parseMonitor (liveText is64bit pre m)) = labelled (parseMonitor pre) ++ liveRows is64bit m := by
  obtain ⟨hmonitor, hzygote, hdaemon⟩ := newline_not_mem_lines h is64bit
  have hmonitorRow : labelled (parseMonitor (monitorLine m)) = oneLineRow "monitor" (monitorText m) :=
    @labelled_line "monitor" " \t" _ _ rfl hmonitor (by decide) (by decide) (monitorText_spec h).2
  have hzygoteRow : labelled (parseMonitor (zygoteLine is64bit m)) =
      oneLineRow ("zygote" ++ abiName is64bit) (zygoteText m.tracingState m.zygote.status) := by
    refine @labelled_line _ "\t" _ _ ?_ hzygote ?_ (by decide) (zygoteText_spec _ _).2
    · rw [zygoteLine]
      apply String.toList_injective
      simp
    · cases is64bit <;> decide
  have hdaemonRow : labelled (parseMonitor (daemonLine is64bit m)) =
      oneLineRow ("daemon" ++ abiName is64bit) (daemonText m.zygote.status) := by
    refine @labelled_line _ "\t" _ _ ?_ hdaemon ?_ (by decide) (daemonText_spec h).2
    · rw [daemonLine]
      apply String.toList_injective
      simp
    · cases is64bit <;> decide
  unfold liveText liveRows
  split_ifs with hsupported
  · rw [labelled_parseMonitor_append, labelled_parseMonitor_append, labelled_parseMonitor_append,
      labelled_parseMonitor_append, hmonitorRow, hzygoteRow, hdaemonRow, labelled_details details_empty,
      List.nil_append]
  · rw [labelled_parseMonitor_append, hmonitorRow, List.append_nil]

theorem noMarker_liveText (h : Newlineless m) (is64bit : Bool) (hpre : NoMarker pre) :
    NoMarker (liveText is64bit pre m) := by
  obtain ⟨hmonitor, hzygote, hdaemon⟩ := newline_not_mem_lines h is64bit
  have hmonitorLine : NoMarker (monitorLine m) := by
    refine noMarker_single hmonitor ?_
    rw [monitorLine, String.toList_append]
    rfl
  unfold liveText
  split_ifs with hsupported
  · refine noMarker_append hpre (noMarker_append hmonitorLine (noMarker_append (noMarker_details details_empty) ?_))
    refine noMarker_append (noMarker_single hzygote ?_) (noMarker_single hdaemon ?_)
    · simp [zygoteLine]
    · simp [daemonLine]
  · exact noMarker_append hpre hmonitorLine

/-- The front is the live text, or that and a front of the details on the next line. -/
theorem transported_cases (htold : ToldBy m.zygote.status.daemonInfo) (hfront : LiveInFront is64bit pre m) :
    transported is64bit pre m = liveText is64bit pre m ∨
      ∃ cut, Details cut ∧ transported is64bit pre m = liveText is64bit pre m ++ "\n" ++ cut := by
  have htext : (updateStatus is64bit pre m).toList =
      (liveText is64bit pre m).toList ++ ('\n' :: (detailText m).toList) := by
    rw [updateStatus_eq]
    simp
  have hascii : Ascii ('\n' :: (detailText m).toList) :=
    ascii_append.2 ⟨(by decide : Ascii ['\n']), ascii_detailText htold⟩
  rw [Ascii, List.all_eq_true] at hascii
  have hprefix := headBytes_prefix (fun c hc => of_decide_eq_true (hascii c hc))
    (600 - ((liveText is64bit pre m).toList.map Char.utf8Size).sum)
  rw [transported, htext, headBytes_append _ hfront]
  generalize headBytes _ _ = cut at hprefix
  cases cut with
  | nil =>
    left
    rw [List.append_nil, String.ofList_toList]
  | cons c cut =>
    obtain ⟨rfl, hcut⟩ := List.cons_prefix_cons.1 hprefix
    refine .inr ⟨String.ofList cut, (details_detailText htold).cut hcut, ?_⟩
    apply String.toList_injective
    simp

/-- Of the front's rows those with a label are the metadata's and the live ones. -/
theorem labelled_transported (h : Newlineless m) (htold : ToldBy m.zygote.status.daemonInfo)
    (hfront : LiveInFront is64bit pre m) :
    labelled (parseMonitor (transported is64bit pre m)) = labelled (parseMonitor pre) ++ liveRows is64bit m := by
  rcases transported_cases htold hfront with heq | ⟨cut, hcut, heq⟩
  · rw [heq, labelled_liveText h]
  · rw [heq, labelled_parseMonitor_append, labelled_liveText h, labelled_details hcut, List.append_nil]

theorem noMarker_transported (h : Newlineless m) (htold : ToldBy m.zygote.status.daemonInfo)
    (hfront : LiveInFront is64bit pre m) (hpre : NoMarker pre) : NoMarker (transported is64bit pre m) := by
  have hlive := noMarker_liveText h is64bit hpre
  rcases transported_cases htold hfront with heq | ⟨cut, hcut, heq⟩
  · rw [heq]
    exact hlive
  · rw [heq]
    exact noMarker_append hlive (noMarker_details hcut)

/-! ### The metadata -/

/-- No part heads a section. -/
def PartsFree (text : List Char) : Prop := ∀ part ∈ text.splitOn '\n', part.head? ≠ some '@'

theorem partsFree_nil : PartsFree [] := by
  rw [PartsFree, List.splitOn_nil, List.forall_mem_singleton]
  simp

theorem partsFree_line {x rest : List Char} (hx : '\n' ∉ x) (h : PartsFree rest) :
    PartsFree ('\t' :: x ++ '\n' :: rest) := by
  have htab : '\n' ∉ '\t' :: x := by simpa using hx
  rw [PartsFree, List.splitOn_append_cons_self_of_not_mem htab, List.forall_mem_cons]
  exact ⟨by simp, h⟩

/-- Without a line feed the next line joins. -/
theorem partsFree_open {x rest : List Char} (hx : '\n' ∉ x) (h : PartsFree rest) : PartsFree ('\t' :: x ++ rest) := by
  induction rest using (@Lines.line_induction Char _ '\n') with
  | last y hy =>
    have hline : '\n' ∉ '\t' :: x ++ y := by simp [hx, hy]
    rw [PartsFree, List.splitOn_eq_singleton hline, List.forall_mem_singleton]
    simp
  | line y rest hy _ =>
    have hjoined : '\n' ∉ x ++ y := by simp [hx, hy]
    rw [PartsFree, List.splitOn_append_cons_self_of_not_mem hy, List.forall_mem_cons] at h
    rw [← List.append_assoc, List.cons_append]
    exact partsFree_line hjoined h.2

theorem lineText_cases {p : Lines.Piece Char} (h : '\n' ∉ p.text) :
    ∃ x, '\n' ∉ x ∧ (lineText p = x ∨ lineText p = x ++ ['\n']) := by
  have htake : '\n' ∉ p.text.takeWhile (· ≠ '\x00') := fun hmem => h ((List.takeWhile_sublist _).mem hmem)
  unfold lineText
  rw [List.takeWhile_append]
  split_ifs with hall hended
  · exact ⟨p.text, h, .inr rfl⟩
  · exact ⟨p.text, h, .inl (List.append_nil _)⟩
  · exact ⟨_, htake, .inl rfl⟩

theorem partsFree_lines (ps : List (Lines.Piece Char)) (h : ∀ p ∈ ps, '\n' ∉ p.text) :
    PartsFree ((ps.map lineText).flatMap fun line =>
      if "updateJson=".toList <+: line || "description=".toList <+: line then [] else '\t' :: line) := by
  induction ps with
  | nil => exact partsFree_nil
  | cons p ps ih =>
    rw [List.forall_mem_cons] at h
    rw [List.map_cons, List.flatMap_cons]
    split_ifs with hskipped
    · exact ih h.2
    · obtain ⟨x, hx, hline | hline⟩ := lineText_cases h.1
      · rw [hline]
        exact partsFree_open hx (ih h.2)
      · rw [hline, ← List.cons_append, List.append_assoc, List.singleton_append]
        exact partsFree_line hx (ih h.2)

/-- Every line of the metadata is behind a tab. -/
theorem noMarker_preSection (prop : String) : NoMarker (preSection prop) := by
  have hpieces : ∀ p ∈ (Lines.pieces '\n' [] prop.toList).filter fun p => p.ended || p.text ≠ [], '\n' ∉ p.text := by
    intro p hp
    exact Lines.sep_not_mem List.not_mem_nil (List.mem_filter.1 hp).1
  intro line hline
  obtain ⟨part, hpart, rfl⟩ := List.mem_map.1 hline
  rw [preSection, String.toList_ofList] at hpart
  rw [String.toList_ofList]
  exact partsFree_lines _ hpieces part hpart

end OnyxZygisk.WebUi
