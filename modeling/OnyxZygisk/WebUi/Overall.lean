import OnyxZygisk.WebUi.LiveRows

/-!
# The state in a word

From the rows of the monitor's text the WebUI derives one word for the state of the framework. The rows of the
module's metadata come first, and a live row whose value has a line terminator has no label; the word is the
right one unless these decide it (`overall_iff`).
-/

namespace OnyxZygisk.WebUi

open Monitor

variable {m : AppMonitor} {is64bit : Bool} {prop : String} {rows rows' : List MonitorRow} {state : SystemState}

/-- The value of the first row of the monitor. -/
def monitorValue (rows : List MonitorRow) : String :=
  ((rows.find? fun row => row.label = some "monitor").map MonitorRow.value).getD ""

/-- What makes rows read as stopped. -/
def readsStopped (rows : List MonitorRow) : Bool :=
  mentions ["stopped", "exited"] (monitorValue rows) || rows.any fun row => mentions ["crashed"] row.value

def hasMonitor (rows : List MonitorRow) : Bool := rows.any fun row => row.label = some "monitor"

def isOneLine (text : String) : Bool := text.toList.all fun c => !isLineTerminator c

/-! ### The word for rows -/

theorem deriveOverallState_stopped :
    deriveOverallState .ready (some state) = .stopped ↔ readsStopped (labelled state.monitor) = true := by
  rw [deriveOverallState, ← labelled, readsStopped, monitorValue, Bool.or_eq_true]
  generalize labelled state.monitor = rows
  dsimp only
  by_cases hnil : rows = []
  · subst hnil
    rw [if_pos rfl]
    refine iff_of_false ?_ ?_
    · split_ifs <;> simp
    · rintro (h | h)
      · exact absurd h (by decide)
      · exact absurd h Bool.false_ne_true
  · rw [if_neg hnil]
    split_ifs with hvalue hcrashed
    · exact iff_of_true rfl (.inl hvalue)
    · exact iff_of_true rfl (.inr hcrashed)
    all_goals exact iff_of_false (by simp) fun h => h.elim hvalue hcrashed

/-- A monitor that traces works, if nothing reads as stopped. -/
theorem deriveOverallState_working (hstopped : readsStopped (labelled state.monitor) = false)
    (htracing : ⟨some "monitor", "tracing"⟩ ∈ labelled state.monitor) :
    deriveOverallState .ready (some state) = .working := by
  rw [readsStopped, monitorValue, Bool.or_eq_false_iff] at hstopped
  rw [deriveOverallState, ← labelled]
  generalize labelled state.monitor = rows at hstopped htracing
  have hhealthy : (rows.any fun row =>
      !mentions ["not injected", "stopped", "exited", "crashed", "invalid"] row.value &&
        mentions ["tracing", "injected", "running"] row.value) = true :=
    List.any_eq_true.2 ⟨_, htracing, by decide⟩
  dsimp only
  rw [if_neg (List.ne_nil_of_mem htracing), hstopped.1, hstopped.2, hhealthy, if_neg Bool.false_ne_true,
    if_neg Bool.false_ne_true, if_pos rfl, ite_self]

/-! ### The word for live rows behind others -/

theorem find_eq_none_iff : rows.find? (fun row => row.label = some "monitor") = none ↔ hasMonitor rows = false := by
  rw [List.find?_eq_none, hasMonitor, List.any_eq_false]

/-- Rows behind others count if they have the first monitor's row, or a crash. -/
theorem readsStopped_append : readsStopped (rows ++ rows') =
    (readsStopped rows || (!hasMonitor rows && mentions ["stopped", "exited"] (monitorValue rows')) ||
      rows'.any fun row => mentions ["crashed"] row.value) := by
  have hempty : mentions ["stopped", "exited"] "" = false := by decide
  simp only [readsStopped, monitorValue, List.any_append, List.find?_append]
  cases hfind : rows.find? fun row => row.label = some "monitor" with
  | none =>
    rw [find_eq_none_iff.1 hfind]
    simp only [Option.none_or, Option.map_none, Option.getD_none, hempty, Bool.false_or, Bool.not_false, Bool.true_and]
    ac_rfl
  | some row =>
    have hhas : hasMonitor rows = true := by
      rw [← Bool.not_eq_false, ← find_eq_none_iff, hfind]
      exact nofun
    rw [hhas]
    simp only [Option.some_or, Option.map_some, Option.getD_some, Bool.not_true, Bool.false_and, Bool.or_false,
      Bool.or_assoc]

/-- A word is found in a text with another behind it in brackets if it is found in one of them. -/
theorem mentions_bracketed {word : String} (hne : word ≠ "") (hopen : '(' ∉ word.toList) (hclose : ')' ∉ word.toList)
    (front text : String) : mentions [word] (front ++ bracketed text) = (mentions [word] front || mentions [word] text) := by
  have hmentions : ∀ s, mentions [word] s = decide (word.toList <:+: s.toList.map Char.toLower) := by
    intro s
    rw [mentions, List.any_cons, List.any_nil, Bool.or_false]
  have hnil : ¬ word.toList <:+: [] := by
    rw [List.infix_nil]
    exact fun h => hne (String.toList_injective h)
  rw [hmentions, hmentions, hmentions, bracketed]
  split_ifs with htext
  · have hmap : (front ++ ("(" ++ text ++ ")")).toList.map Char.toLower =
        front.toList.map Char.toLower ++ '(' :: (text.toList.map Char.toLower ++ ')' :: []) := by
      simp
    rw [hmap, ← Bool.decide_or, decide_eq_decide, Words.infix_append_cons hopen, Words.infix_append_cons hclose]
    simp only [hnil, or_false]
  · rw [not_not] at htext
    rw [htext, String.append_empty]
    simp [hnil]

theorem isOneLine_bracketed {front : String} (hfront : isOneLine front = true) (text : String) :
    isOneLine (front ++ bracketed text) = isOneLine text := by
  unfold isOneLine at hfront
  unfold isOneLine bracketed
  split_ifs with htext
  · have hopen : isLineTerminator '(' = false := by decide
    have hclose : isLineTerminator ')' = false := by decide
    simp [hfront, hopen, hclose]
  · rw [not_not] at htext
    rw [htext, String.append_empty, hfront]
    rfl

theorem any_oneLineRow (label value : String) (words : List String) :
    (oneLineRow label value).any (fun row => mentions words row.value) = (isOneLine value && mentions words value) := by
  unfold oneLineRow isOneLine
  cases value.toList.all fun c => !isLineTerminator c with
  | false => rfl
  | true => exact Bool.or_false _

/-! ### The live rows -/

def isStopped (m : AppMonitor) : Bool := m.tracingState ≠ .tracing

/-- The daemon was started and does not run. -/
def daemonDown (m : AppMonitor) : Bool := m.zygote.status.supported && !m.zygote.status.daemonRunning

theorem monitorText_stopped (h : isStopped m = true) :
    isOneLine (monitorText m) = isOneLine m.monitorStopReason ∧
      mentions ["stopped", "exited"] (monitorText m) = true ∧
      mentions ["crashed"] (monitorText m) = mentions ["crashed"] m.monitorStopReason := by
  have hne : m.tracingState ≠ .tracing := of_decide_eq_true h
  have hstate : isOneLine m.tracingState.text = true ∧
      mentions ["crashed"] m.tracingState.text = false ∧
      (mentions ["stopped"] m.tracingState.text = true ∨ mentions ["exited"] m.tracingState.text = true) := by
    cases hs : m.tracingState with
    | tracing => exact absurd hs hne
    | stopping => decide
    | stopped => decide
    | exiting => decide
  have htwo : ∀ s, mentions ["stopped", "exited"] s = (mentions ["stopped"] s || mentions ["exited"] s) := by
    intro s
    simp [mentions]
  rw [monitorText, if_pos hne]
  refine ⟨isOneLine_bracketed hstate.1 _, ?_, ?_⟩
  · rw [htwo, mentions_bracketed (by decide) (by decide) (by decide),
      mentions_bracketed (by decide) (by decide) (by decide)]
    rcases hstate.2.2 with hstop | hexit
    · rw [hstop]
      rfl
    · rw [hexit, Bool.true_or, Bool.or_true]
  · rw [mentions_bracketed (by decide) (by decide) (by decide), hstate.2.1, Bool.false_or]

theorem monitorText_tracing (h : isStopped m = false) : monitorText m = "tracing" := by
  have htracing : m.tracingState = .tracing := by
    by_contra hne
    rw [isStopped, decide_eq_true hne] at h
    exact Bool.false_ne_true h.symm
  rw [monitorText, htracing]
  rfl

theorem crashed_daemonText (status : Status) :
    (isOneLine (daemonText status) && mentions ["crashed"] (daemonText status)) =
      (!status.daemonRunning && isOneLine status.daemonErrorInfo) := by
  unfold daemonText
  split_ifs with hrunning
  · rw [hrunning, Bool.not_true, Bool.false_and]
    decide
  · rw [isOneLine_bracketed (by decide), mentions_bracketed (by decide) (by decide) (by decide)]
    have hcrashed : mentions ["crashed"] "crashed" = true := by decide
    simp [hcrashed, hrunning]

theorem crashed_zygoteText (state : TracingState) (status : Status) :
    mentions ["crashed"] (zygoteText state status) = false := by
  unfold zygoteText
  split_ifs <;> decide

/-- Where the live rows tell of a crash. -/
theorem any_liveRows (is64bit : Bool) (m : AppMonitor) :
    ((liveRows is64bit m).any fun row => mentions ["crashed"] row.value) =
      ((isStopped m && isOneLine m.monitorStopReason && mentions ["crashed"] m.monitorStopReason) ||
        (daemonDown m && isOneLine m.zygote.status.daemonErrorInfo)) := by
  have hmonitor : (isOneLine (monitorText m) && mentions ["crashed"] (monitorText m)) =
      (isStopped m && isOneLine m.monitorStopReason && mentions ["crashed"] m.monitorStopReason) := by
    cases hstopped : isStopped m with
    | true =>
      obtain ⟨hline, -, hcrashed⟩ := monitorText_stopped hstopped
      rw [hline, hcrashed, Bool.true_and]
    | false =>
      rw [monitorText_tracing hstopped, Bool.false_and, Bool.false_and]
      decide
  unfold liveRows daemonDown
  rw [List.any_append, any_oneLineRow, hmonitor]
  split_ifs with hsupported
  · rw [List.any_append, any_oneLineRow, any_oneLineRow, crashed_zygoteText, crashed_daemonText, hsupported,
      Bool.and_false, Bool.false_or, Bool.true_and]
  · rw [Bool.not_eq_true] at hsupported
    rw [hsupported]
    rfl

theorem find_oneLineRow_ne {label value : String} (h : label ≠ "monitor") :
    (oneLineRow label value).find? (fun row => row.label = some "monitor") = none := by
  unfold oneLineRow
  split_ifs
  · simpa using h
  · rfl

/-- Where the live rows tell of a monitor that has stopped. -/
theorem mentions_monitorValue_liveRows (is64bit : Bool) (m : AppMonitor) :
    mentions ["stopped", "exited"] (monitorValue (liveRows is64bit m)) =
      (isStopped m && isOneLine m.monitorStopReason) := by
  have hzygote : "zygote" ++ abiName is64bit ≠ "monitor" := by cases is64bit <;> decide
  have hdaemon : "daemon" ++ abiName is64bit ≠ "monitor" := by cases is64bit <;> decide
  have hothers : (liveRows is64bit m).find? (fun row => row.label = some "monitor") =
      (oneLineRow "monitor" (monitorText m)).find? fun row => row.label = some "monitor" := by
    unfold liveRows
    rw [List.find?_append]
    split_ifs
    · rw [List.find?_append, find_oneLineRow_ne hzygote, find_oneLineRow_ne hdaemon, Option.none_or, Option.or_none]
    · rw [List.find?_nil, Option.or_none]
  have hvalue : monitorValue (liveRows is64bit m) = if isOneLine (monitorText m) then monitorText m else "" := by
    rw [monitorValue, hothers, oneLineRow, ← isOneLine]
    cases isOneLine (monitorText m) <;> rfl
  rw [hvalue]
  cases hstopped : isStopped m with
  | true =>
    obtain ⟨hline, hword, -⟩ := monitorText_stopped hstopped
    rw [hline, Bool.true_and]
    cases isOneLine m.monitorStopReason with
    | true => exact hword
    | false =>
      rw [if_neg Bool.false_ne_true]
      decide
  | false =>
    rw [monitorText_tracing hstopped, Bool.false_and]
    decide

/-- What makes the metadata's rows and the live ones read as stopped. -/
theorem readsStopped_live (is64bit : Bool) (m : AppMonitor) (rows : List MonitorRow) :
    readsStopped (rows ++ liveRows is64bit m) = true ↔
      readsStopped rows = true ∨
        (isStopped m = true ∧ isOneLine m.monitorStopReason = true ∧
          (hasMonitor rows = false ∨ mentions ["crashed"] m.monitorStopReason = true)) ∨
        (daemonDown m = true ∧ isOneLine m.zygote.status.daemonErrorInfo = true) := by
  rw [readsStopped_append, mentions_monitorValue_liveRows, any_liveRows]
  simp only [Bool.or_eq_true, Bool.and_eq_true, Bool.not_eq_true']
  tauto

/-! ### The right word -/

/-- The framework does not run: the monitor does not trace, or the daemon it started is gone. -/
def isDown (m : AppMonitor) : Bool := isStopped m || daemonDown m

/-- What it takes for the word to be the right one, with these rows in front of the live ones. While the
framework runs none of them may read as stopped. While it is down, one of them does; or the row of the monitor is
on one line and counts; or that of the daemon is on one line. -/
def RightWord (rows : List MonitorRow) (m : AppMonitor) : Prop :=
  if isDown m then
    readsStopped rows = true ∨
      (isStopped m = true ∧ isOneLine m.monitorStopReason = true ∧
        (hasMonitor rows = false ∨ mentions ["crashed"] m.monitorStopReason = true)) ∨
      (daemonDown m = true ∧ isOneLine m.zygote.status.daemonErrorInfo = true)
  else readsStopped rows = false

/-- The rows the WebUI has of the monitor. -/
theorem labelled_parseStatus {header rest : List String} (h : Newlineless m)
    (htold : ToldBy m.zygote.status.daemonInfo) (hfront : LiveInFront is64bit (preSection prop) m)
    (hheader : ∀ line ∈ header, '\n' ∉ line.toList ∧ line ≠ "@@monitor")
    (hrest : ∀ line ∈ rest, '\n' ∉ line.toList ∧ line ≠ "@@monitor") :
    labelled (parseStatus (statusOutput header (transported is64bit (preSection prop) m) rest)).monitor =
      labelled (parseMonitor (preSection prop)) ++ liveRows is64bit m := by
  rw [monitor_parseStatus hheader hrest (noMarker_transported h htold hfront (noMarker_preSection prop)),
    labelled_transported h htold hfront]

/-- Of a monitor whose live rows are in the front of the text the WebUI says that the framework is stopped if the
monitor does not trace or its daemon is gone, and that it works otherwise, exactly where the rows of the metadata
and the texts in brackets leave it the right word. -/
theorem overall_iff {header rest : List String} (h : Newlineless m) (htold : ToldBy m.zygote.status.daemonInfo)
    (hfront : LiveInFront is64bit (preSection prop) m)
    (hheader : ∀ line ∈ header, '\n' ∉ line.toList ∧ line ≠ "@@monitor")
    (hrest : ∀ line ∈ rest, '\n' ∉ line.toList ∧ line ≠ "@@monitor") :
    deriveOverallState .ready
        (some (parseStatus (statusOutput header (transported is64bit (preSection prop) m) rest))) =
        (if isDown m then .stopped else .working) ↔
      RightWord (labelled (parseMonitor (preSection prop))) m := by
  have hrows := labelled_parseStatus h htold hfront hheader hrest
  unfold RightWord
  split_ifs with hdown
  · rw [deriveOverallState_stopped, hrows, readsStopped_live]
  · rw [isDown, Bool.or_eq_true, not_or, Bool.not_eq_true, Bool.not_eq_true] at hdown
    have hsame : readsStopped (labelled (parseMonitor (preSection prop)) ++ liveRows is64bit m) =
        readsStopped (labelled (parseMonitor (preSection prop))) := by
      rw [Bool.eq_iff_iff, readsStopped_live, hdown.1, hdown.2]
      simp
    constructor
    · intro hword
      rw [← hsame, ← hrows, ← Bool.not_eq_true, ← deriveOverallState_stopped, hword]
      exact nofun
    · intro hclear
      apply deriveOverallState_working
      · rw [hrows, hsame, hclear]
      · rw [hrows, liveRows, monitorText_tracing hdown.1]
        exact List.mem_append_right _ (List.mem_append_left _ List.mem_cons_self)

def demoProp : String := "id=onyx\nname=Onyx\ndescription=crashed: never\n"

/-- A monitor that traces, with a daemon that has listed a module. -/
def tracingMonitor : AppMonitor :=
  (AppMonitor.initial "zygisk").run [.zygoteExec ⟨0, 0⟩ 7, sendStartupInfo .magisk ["demo"], .zygoteInjected]

theorem overall_tracing : deriveOverallState .ready
    (some (parseStatus (statusOutput ["installed=1"] (transported true (preSection demoProp) tracingMonitor) ["@@fn"]))) =
      .working := by
  have hright : RightWord (labelled (parseMonitor (preSection demoProp))) tracingMonitor := by
    unfold RightWord
    decide
  have hheader : ∀ line ∈ ["installed=1"], '\n' ∉ line.toList ∧ line ≠ "@@monitor" := by
    rw [List.forall_mem_singleton]
    decide
  have hrest : ∀ line ∈ ["@@fn"], '\n' ∉ line.toList ∧ line ≠ "@@monitor" := by
    rw [List.forall_mem_singleton]
    decide
  have htold : ToldBy tracingMonitor.zygote.status.daemonInfo := by
    refine .inr ⟨.magisk, ["demo"], ?_, rfl⟩
    rw [List.forall_mem_singleton]
    decide
  exact (@overall_iff tracingMonitor true demoProp _ _ ⟨by decide, by decide⟩ htold (by unfold LiveInFront; decide)
    hheader hrest).2 hright

/-- Its daemon has gone, and the text of the error ends in a carriage return. -/
def lostDaemon : AppMonitor := tracingMonitor.run [.daemonSetErrorInfo "killed\r"]

/-- The row of the daemon has no label, and the framework seems to work. -/
theorem overall_lostDaemon : ¬ ∀ (is64bit : Bool) (prop : String) (m : AppMonitor) (header rest : List String),
    Newlineless m → ToldBy m.zygote.status.daemonInfo → LiveInFront is64bit (preSection prop) m →
    (∀ line ∈ header, '\n' ∉ line.toList ∧ line ≠ "@@monitor") →
    (∀ line ∈ rest, '\n' ∉ line.toList ∧ line ≠ "@@monitor") →
    deriveOverallState .ready
        (some (parseStatus (statusOutput header (transported is64bit (preSection prop) m) rest))) =
      if isDown m then .stopped else .working := by
  intro h
  have htold : ToldBy lostDaemon.zygote.status.daemonInfo := by
    refine .inr ⟨.magisk, ["demo"], ?_, rfl⟩
    rw [List.forall_mem_singleton]
    decide
  have hfront : LiveInFront true (preSection demoProp) lostDaemon := by
    unfold LiveInFront
    decide
  have hnone : ∀ line ∈ [], '\n' ∉ line.toList ∧ line ≠ "@@monitor" := fun line hline => absurd hline List.not_mem_nil
  have hword := h true demoProp lostDaemon [] [] ⟨by decide, by decide⟩ htold hfront hnone hnone
  rw [if_pos (by decide), deriveOverallState_stopped,
    labelled_parseStatus ⟨by decide, by decide⟩ htold hfront hnone hnone, readsStopped_live] at hword
  exact absurd hword (by decide)

/-! ### The reasons the monitor gives -/

/-- The reasons for a stop the monitor knows. -/
def stopReasons : List String := ["", "user requested", "zygote crashed", "daemon not running"]

theorem monitorStopReason_requestStop {reason : String} (h : m.monitorStopReason ∈ stopReasons)
    (hreason : reason ∈ stopReasons) : (m.requestStop reason).monitorStopReason ∈ stopReasons := by
  unfold AppMonitor.requestStop
  split_ifs
  · exact hreason
  · exact h

theorem checkAndPrepareInjection_reason {z z' : ZygoteAbiManager} {now : Timespec} {fork : Int} {reason : String}
    (h : z.checkAndPrepareInjection now fork = (.error reason, z')) : reason ∈ stopReasons := by
  unfold ZygoteAbiManager.checkAndPrepareInjection at h
  dsimp only at h
  split_ifs at h with hloop hcreated
  · obtain ⟨hreason, -⟩ := Prod.mk.inj h
    rw [← Except.error.inj hreason]
    decide
  · obtain ⟨hreason, -⟩ := Prod.mk.inj h
    nomatch hreason
  · obtain ⟨hreason, -⟩ := Prod.mk.inj h
    rw [← Except.error.inj hreason]
    decide

theorem monitorStopReason_step (e : Event) (h : m.monitorStopReason ∈ stopReasons) :
    (m.step e).monitorStopReason ∈ stopReasons := by
  cases e with
  | start =>
    show m.requestStart.monitorStopReason ∈ stopReasons
    unfold AppMonitor.requestStart
    split_ifs <;> exact h
  | stop => exact monitorStopReason_requestStop h (by decide)
  | exit => exact (by decide : "user requested" ∈ stopReasons)
  | zygoteInjected => exact h
  | daemonSetInfo info => exact h
  | daemonSetErrorInfo error => exact h
  | systemServerStarted => exact h
  | zygoteExec now fork =>
    show (m.handleExecEvent now fork).2.monitorStopReason ∈ stopReasons
    unfold AppMonitor.handleExecEvent
    split_ifs
    · exact h
    · cases hprepared : m.zygote.checkAndPrepareInjection now fork with
      | mk outcome z =>
        cases outcome with
        | ok tracer => exact h
        | error reason => exact monitorStopReason_requestStop h (checkAndPrepareInjection_reason hprepared)
  | childExit pid statusStr => exact h
  | initPaused =>
    show (if m.tracingState = .stopping then { m with tracingState := .stopped } else m).monitorStopReason ∈ stopReasons
    split_ifs <;> exact h

/-- Whatever happens, the reason is one of these, so the row of the monitor is on one line. -/
theorem monitorStopReason_run (events : List Event) (h : m.monitorStopReason ∈ stopReasons) :
    (m.run events).monitorStopReason ∈ stopReasons ∧ isOneLine (m.run events).monitorStopReason = true := by
  induction events generalizing m with
  | nil =>
    have hall : ∀ reason ∈ stopReasons, isOneLine reason = true := by decide
    exact ⟨h, hall _ h⟩
  | cons e events ih => exact ih (monitorStopReason_step e h)

end OnyxZygisk.WebUi
