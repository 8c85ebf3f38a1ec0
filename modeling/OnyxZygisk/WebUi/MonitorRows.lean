import OnyxZygisk.Lib.Words
import OnyxZygisk.WebUi.Status

/-!
# The rows of the monitor's section

Around the monitor's text the status script prints its header and the rows of the modules and nodes. No line of
the text heads a section, so its rows are read as if it stood alone (`monitor_parseStatus`). A line with a label
is a live row if its value has no line terminator (`monitorRow_live`).
-/

namespace OnyxZygisk.WebUi

variable {header rest : List String} {monitor line : String} {scan : StatusScan} {label ws value cs : List Char}

/-! ### The section -/

/-- The status script's output around the monitor's text. -/
def statusOutput (header : List String) (monitor : String) (rest : List String) : String :=
  Words.echoed (header ++ ["@@monitor"]) ++ monitor ++ "\n" ++ Words.echoed ("@@modules" :: rest)

/-- No line of a text heads a section. -/
def NoMarker (text : String) : Prop := ∀ line ∈ Text.split '\n' text, line.toList.head? ≠ some '@'

theorem ne_of_head {marker : String} (hmarker : marker.toList.head? = some '@')
    (h : line.toList.head? ≠ some '@') : line ≠ marker := by
  rintro rfl
  exact h hmarker

theorem readLine_monitor (hsect : scan.sect = .monitor) (h : line.toList.head? ≠ some '@') :
    readLine scan line = { scan with monitorText := scan.monitorText ++ line ++ "\n" } := by
  rw [readLine, if_neg (ne_of_head rfl h), if_neg (ne_of_head rfl h), if_neg (ne_of_head rfl h), hsect]

theorem readLine_monitors (lines : List String) (h : ∀ line ∈ lines, line.toList.head? ≠ some '@') (scan : StatusScan)
    (hsect : scan.sect = .monitor) :
    lines.foldl readLine scan = { scan with monitorText := scan.monitorText ++ Words.echoed lines } := by
  induction lines generalizing scan with
  | nil =>
    show scan = { scan with monitorText := scan.monitorText ++ "" }
    rw [String.append_empty]
  | cons line lines ih =>
    rw [List.forall_mem_cons] at h
    rw [List.foldl_cons, readLine_monitor hsect h.1,
      ih h.2 { scan with monitorText := scan.monitorText ++ line ++ "\n" } hsect, Words.echoed]
    simp only [String.append_assoc]

/-- A line outside of the monitor's section. -/
theorem readLine_outside (hsect : scan.sect ≠ .monitor) (h : line ≠ "@@monitor") :
    (readLine scan line).monitorText = scan.monitorText ∧ (readLine scan line).sect ≠ .monitor := by
  rw [readLine, if_neg h]
  by_cases hmodules : line = "@@modules"
  · rw [if_pos hmodules]
    exact ⟨rfl, nofun⟩
  · rw [if_neg hmodules]
    by_cases hfn : line = "@@fn"
    · rw [if_pos hfn]
      exact ⟨rfl, nofun⟩
    · rw [if_neg hfn]
      obtain ⟨keys, monitorText, modules, fns, sect⟩ := scan
      cases sect with
      | keys => exact ⟨rfl, nofun⟩
      | monitor => exact absurd rfl hsect
      | modules =>
        dsimp only
        split_ifs
        · exact ⟨rfl, nofun⟩
        · exact ⟨rfl, nofun⟩
      | fn =>
        dsimp only
        split_ifs
        · exact ⟨rfl, nofun⟩
        · exact ⟨rfl, nofun⟩

theorem readLine_outsides (lines : List String) (h : ∀ line ∈ lines, line ≠ "@@monitor") (scan : StatusScan)
    (hsect : scan.sect ≠ .monitor) :
    (lines.foldl readLine scan).monitorText = scan.monitorText ∧ (lines.foldl readLine scan).sect ≠ .monitor := by
  induction lines generalizing scan with
  | nil => exact ⟨rfl, hsect⟩
  | cons line lines ih =>
    rw [List.forall_mem_cons] at h
    obtain ⟨htext, hsect'⟩ := readLine_outside hsect h.1
    rw [List.foldl_cons, ← htext]
    exact ih h.2 _ hsect'

/-- The head of the next section ends the monitor's. -/
theorem readLine_next (lines : List String) (h : ∀ line ∈ lines, line ≠ "@@monitor") (scan : StatusScan) :
    (("@@modules" :: lines).foldl readLine scan).monitorText = scan.monitorText := by
  have hnext : readLine scan "@@modules" = { scan with sect := .modules } := rfl
  rw [List.foldl_cons, hnext]
  exact (readLine_outsides lines h _ (by simp)).1

theorem parseMonitor_append (a b : String) : parseMonitor (a ++ "\n" ++ b) = parseMonitor a ++ parseMonitor b := by
  rw [parseMonitor, show "\n" = String.singleton '\n' from rfl, Words.split_append, List.filterMap_append]
  rfl

theorem parseMonitor_single (h : '\n' ∉ line.toList) : parseMonitor line = (monitorRow line.toList).toList := by
  rw [parseMonitor, Text.split_single h, List.filterMap_cons]
  cases monitorRow line.toList with
  | none => rfl
  | some row => rfl

/-- The monitor's rows are those of its text. -/
theorem monitor_parseStatus (hheader : ∀ line ∈ header, '\n' ∉ line.toList ∧ line ≠ "@@monitor")
    (hrest : ∀ line ∈ rest, '\n' ∉ line.toList ∧ line ≠ "@@monitor") (hmonitor : NoMarker monitor) :
    (parseStatus (statusOutput header monitor rest)).monitor = parseMonitor monitor := by
  have hlines : Text.split '\n' (statusOutput header monitor rest) =
      header ++ ("@@monitor" :: (Text.split '\n' monitor ++ ("@@modules" :: (rest ++ [""])))) := by
    have hfront : ∀ line ∈ header ++ ["@@monitor"], '\n' ∉ line.toList := by
      rw [List.forall_mem_append, List.forall_mem_singleton]
      exact ⟨fun line hline => (hheader line hline).1, by decide⟩
    have hback : ∀ line ∈ "@@modules" :: rest, '\n' ∉ line.toList := by
      rw [List.forall_mem_cons]
      exact ⟨by decide, fun line hline => (hrest line hline).1⟩
    rw [statusOutput, String.append_assoc, String.append_assoc, Words.split_echoed_append hfront, ← String.append_assoc,
      show "\n" = String.singleton '\n' from rfl, Words.split_append, Words.split_echoed hback]
    simp
  have hafter : ∀ line ∈ rest ++ [""], line ≠ "@@monitor" := by
    rw [List.forall_mem_append, List.forall_mem_singleton]
    exact ⟨fun line hline => (hrest line hline).2, by decide⟩
  rw [parseStatus, hlines, List.foldl_append, List.foldl_cons, List.foldl_append]
  dsimp only
  generalize hstart : header.foldl readLine ⟨[], "", [], [], .keys⟩ = start
  have htext : start.monitorText = "" := by
    rw [← hstart]
    exact (readLine_outsides header (fun line hline => (hheader line hline).2) _ (by simp)).1
  have hmark : readLine start "@@monitor" = { start with sect := .monitor } := if_pos rfl
  rw [hmark, readLine_monitors _ hmonitor _ rfl, readLine_next _ hafter]
  dsimp only
  rw [htext, String.empty_append, parseMonitor, Words.split_echoed fun line hline => Text.sep_not_mem_split hline,
    List.filterMap_append]
  exact List.append_nil _

/-! ### Rows with a label -/

/-- `[a-z][a-z0-9]*` -/
def isLabel (label : List Char) : Bool :=
  label.head?.any Char.isLower && label.all fun c => c.isLower || c.isDigit

/-- A value on one line, for a reader that takes any line terminator for an end. -/
def OneLine (text : List Char) : Prop := ∀ c ∈ text, isLineTerminator c = false

theorem isSpace_of_isLower {c : Char} (h : c.isLower = true) : isSpace c = false := by
  obtain ⟨hlo, hhi⟩ := Text.isLower_iff.1 h
  simp only [isSpace, Text.isWhitespace, Bool.or_eq_false_iff, Bool.and_eq_false_iff, decide_eq_false_iff_not,
    beq_eq_false_iff_ne]
  omega

theorem trim_of_ends {text : List Char} (hfirst : ∀ c ∈ text.head?, isSpace c = false)
    (hlast : ∀ c ∈ text.getLast?, isSpace c = false) : trim text = text := by
  rw [trim, Text.dropWhile_of_head hfirst, Text.dropWhile_of_head, List.reverse_reverse]
  rwa [List.head?_reverse]

/-- A line with a label and a value is a row with the label, if the value is on one line. -/
theorem monitorRow_live (hlabel : isLabel label = true) (hws : ∀ c ∈ ws, isSpace c = true) (hne : value ≠ [])
    (hfirst : ∀ c ∈ value.head?, isSpace c = false) (hlast : ∀ c ∈ value.getLast?, isSpace c = false) :
    monitorRow ('\t' :: (label ++ ':' :: (ws ++ value))) =
      if value.all fun c => !isLineTerminator c then some ⟨some (String.ofList label), String.ofList value⟩
      else some ⟨none, String.ofList (label ++ ':' :: (ws ++ value))⟩ := by
  obtain ⟨c, cs, rfl⟩ : ∃ c cs, label = c :: cs := by
    cases label with
    | nil => exact absurd hlabel (by decide)
    | cons c cs => exact ⟨c, cs, rfl⟩
  simp only [isLabel, List.head?_cons, Option.any_some, List.all_cons, Bool.and_eq_true, List.all_eq_true] at hlabel
  obtain ⟨hc, -, hcs⟩ := hlabel
  have hline : trim (('\t' :: (c :: cs ++ ':' :: (ws ++ value))).dropWhile (· = '\t')) =
      c :: cs ++ ':' :: (ws ++ value) := by
    have htab : c ≠ '\t' := by
      rintro rfl
      exact absurd hc (by decide)
    rw [List.dropWhile_cons_of_pos (by decide), List.cons_append, List.dropWhile_cons_of_neg (by simpa using htab)]
    apply trim_of_ends
    · intro d hd
      rw [← Option.some.inj hd]
      exact isSpace_of_isLower hc
    · rw [← List.cons_append, List.getLast?_append_of_ne_nil _ (List.cons_ne_nil _ _),
        show ':' :: (ws ++ value) = (':' :: ws) ++ value from rfl, List.getLast?_append_of_ne_nil _ hne]
      exact hlast
  have hword : ∀ p : Char → Bool, (∀ d, (d.isLower || d.isDigit) = true → p d = true) → p ':' = false →
      (cs ++ ':' :: (ws ++ value)).dropWhile p = ':' :: (ws ++ value) := by
    intro p hp hcolon
    rw [List.dropWhile_append_of_pos fun d hd => hp d (hcs d hd), List.dropWhile_cons_of_neg (by simp [hcolon])]
  have hmeta : isMetadata (c :: cs ++ ':' :: (ws ++ value)) = false := by
    rw [List.cons_append, isMetadata, hword]
    · simp
    · intro d hd
      simp only [Bool.or_eq_true] at hd
      rw [Bool.or_eq_true, Text.isAlphanum_iff, decide_eq_true_eq]
      tauto
    · decide
  have hvalue : (ws ++ value).dropWhile isSpace = value := by
    rw [List.dropWhile_append_of_pos hws, Text.dropWhile_of_head hfirst]
  have hrow : liveRow (c :: cs ++ ':' :: (ws ++ value)) =
      if value.all fun c => !isLineTerminator c then some (c :: cs, value) else none := by
    rw [List.cons_append, liveRow, hword _ (fun d hd => hd) (by decide)]
    rw [List.drop_one, List.tail_cons, hvalue, hc, List.takeWhile_append_of_pos hcs, List.takeWhile_cons_of_neg (by decide),
      List.append_nil]
    simp [hne]
  have hequals : (c :: cs ++ ':' :: (ws ++ value)).head? ≠ some '=' := by
    intro h
    rw [Option.some.inj h] at hc
    exact absurd hc (by decide)
  rw [monitorRow, hline]
  rw [if_neg (by simp), hmeta, decide_eq_false hequals, hrow]
  cases value.all fun c => !isLineTerminator c <;> rfl

/-! ### Details -/

/-- What a line with a label looks like. -/
theorem liveRow_some {line : List Char} {found : List Char × List Char} (h : liveRow line = some found) :
    line.head?.any Char.isLower = true ∧ ':' ∈ line := by
  cases line with
  | nil => nomatch h
  | cons c cs =>
    rw [liveRow] at h
    split_ifs at h with hlive
    simp only [Bool.and_eq_true, decide_eq_true_eq] at hlive
    refine ⟨hlive.1.1.1, List.mem_cons_of_mem c ?_⟩
    exact (List.dropWhile_sublist _).mem (List.mem_of_head? hlive.1.1.2)

theorem mem_of_mem_trim {c : Char} {text : List Char} (h : c ∈ trim text) : c ∈ text := by
  rw [trim, List.mem_reverse] at h
  exact (List.dropWhile_sublist _).mem (List.mem_reverse.1 ((List.dropWhile_sublist _).mem h))

/-- The line of a row with a label. -/
theorem liveRow_of_label {raw : List Char} {row : MonitorRow} (h : monitorRow raw = some row)
    (hlabel : row.label.isSome = true) : ∃ found, liveRow (trim (raw.dropWhile (· = '\t'))) = some found := by
  unfold monitorRow at h
  dsimp only at h
  split_ifs at h
  cases hlive : liveRow (trim (raw.dropWhile (· = '\t'))) with
  | some found => exact ⟨found, rfl⟩
  | none =>
    rw [hlive] at h
    rw [← Option.some.inj h] at hlabel
    exact absurd hlabel Bool.false_ne_true

/-- A line that is neither the head of a section nor a row with a label, cut anywhere. -/
def Detail (raw : List Char) : Prop :=
  raw.head? ≠ some '@' ∧ (':' ∉ raw ∨ ∃ c rest, raw = '\t' :: '\t' :: c :: rest ∧ c.isUpper = true)

theorem Detail.cut {raw cut : List Char} (h : Detail raw) (hcut : cut <+: raw) : Detail cut := by
  obtain ⟨hhead, hdetail⟩ := h
  refine ⟨?_, ?_⟩
  · intro hat
    obtain ⟨back, rfl⟩ := hcut
    cases cut with
    | nil => nomatch hat
    | cons c cs => exact hhead hat
  · rcases hdetail with hcolon | ⟨c, rest, rfl, hc⟩
    · exact .inl fun hmem => hcolon (hcut.subset hmem)
    · cases cut with
      | nil => exact .inl List.not_mem_nil
      | cons a cut =>
        obtain ⟨rfl, hcut₁⟩ := List.cons_prefix_cons.1 hcut
        cases cut with
        | nil => exact .inl (by decide)
        | cons b cut =>
          obtain ⟨rfl, hcut₂⟩ := List.cons_prefix_cons.1 hcut₁
          cases cut with
          | nil => exact .inl (by decide)
          | cons d cut =>
            obtain ⟨rfl, -⟩ := List.cons_prefix_cons.1 hcut₂
            exact .inr ⟨d, cut, rfl, hc⟩

theorem head?_trim {c : Char} {rest : List Char} (hc : isSpace c = false) : (trim (c :: rest)).head? = some c := by
  have hdrop : (rest.reverse ++ [c]).dropWhile isSpace = rest.reverse.dropWhile isSpace ++ [c] := by
    rw [List.dropWhile_append]
    split_ifs with hempty
    · rw [List.isEmpty_iff.1 hempty, List.dropWhile_cons_of_neg (by simp [hc])]
      rfl
    · rfl
  rw [trim, List.dropWhile_cons_of_neg (by simp [hc]), List.reverse_cons, hdrop, List.reverse_append]
  rfl

theorem Detail.label_eq {raw : List Char} {row : MonitorRow} (h : Detail raw) (hrow : monitorRow raw = some row) :
    row.label.isSome = false := by
  by_contra hlabel
  rw [Bool.not_eq_false] at hlabel
  obtain ⟨found, hlive⟩ := liveRow_of_label hrow hlabel
  obtain ⟨hlower, hcolon⟩ := liveRow_some hlive
  rcases h.2 with hno | ⟨c, rest, rfl, hc⟩
  · exact hno ((List.dropWhile_sublist _).mem (mem_of_mem_trim hcolon))
  · have hbounds := Text.isUpper_iff.1 hc
    have htab : c ≠ '\t' := by
      rintro rfl
      exact absurd hc (by decide)
    have hspace : isSpace c = false := by
      simp only [isSpace, Text.isWhitespace, Bool.or_eq_false_iff, Bool.and_eq_false_iff, decide_eq_false_iff_not,
        beq_eq_false_iff_ne]
      omega
    rw [List.dropWhile_cons_of_pos (by decide), List.dropWhile_cons_of_pos (by decide),
      List.dropWhile_cons_of_neg (by simpa using htab), head?_trim hspace, Option.any_some] at hlower
    have hlow := Text.isLower_iff.1 hlower
    omega

/-- All lines are details. -/
def Details (text : String) : Prop := ∀ line ∈ Text.split '\n' text, Detail line.toList

theorem details_append {a b : String} (ha : Details a) (hb : Details b) : Details (a ++ "\n" ++ b) := by
  rw [Details, show "\n" = String.singleton '\n' from rfl, Words.split_append, List.forall_mem_append]
  exact ⟨ha, hb⟩

theorem details_single (hline : '\n' ∉ line.toList) (h : Detail line.toList) : Details line := by
  rw [Details, Text.split_single hline, List.forall_mem_singleton]
  exact h

/-- The lines of a front of a text are fronts of lines of the text. -/
theorem exists_line_of_cut {front text : List Char} (h : front <+: text) :
    ∀ cut ∈ front.splitOn '\n', ∃ raw ∈ text.splitOn '\n', cut <+: raw := by
  obtain ⟨back, rfl⟩ := h
  induction front using (@Lines.line_induction Char _ '\n') with
  | last x hx =>
    rw [List.splitOn_eq_singleton hx, List.forall_mem_singleton]
    induction back using (@Lines.line_induction Char _ '\n') with
    | last y hy =>
      refine ⟨x ++ y, ?_, List.prefix_append x y⟩
      rw [List.splitOn_eq_singleton]
      · exact List.mem_singleton_self _
      · rw [List.mem_append, not_or]
        exact ⟨hx, hy⟩
    | line y rest hy _ =>
      refine ⟨x ++ y, ?_, List.prefix_append x y⟩
      rw [← List.append_assoc, List.splitOn_append_cons_self_of_not_mem]
      · exact List.mem_cons_self
      · rw [List.mem_append, not_or]
        exact ⟨hx, hy⟩
  | line x rest hx ih =>
    rw [List.splitOn_append_cons_self_of_not_mem hx, List.append_assoc, List.cons_append,
      List.splitOn_append_cons_self_of_not_mem hx, List.forall_mem_cons]
    refine ⟨⟨x, List.mem_cons_self, List.prefix_rfl⟩, fun cut hcut => ?_⟩
    obtain ⟨raw, hraw, hprefix⟩ := ih cut hcut
    exact ⟨raw, List.mem_cons_of_mem x hraw, hprefix⟩

/-- Details that are cut are details. -/
theorem Details.cut {text : String} {cut : List Char} (h : Details text) (hcut : cut <+: text.toList) :
    Details (String.ofList cut) := by
  intro line hline
  obtain ⟨cs, hcs, rfl⟩ := List.mem_map.1 hline
  rw [String.toList_ofList] at hcs ⊢
  obtain ⟨raw, hraw, hprefix⟩ := exists_line_of_cut hcut cs hcs
  have hdetail := h (String.ofList raw) (List.mem_map.2 ⟨raw, hraw, rfl⟩)
  rw [String.toList_ofList] at hdetail
  exact hdetail.cut hprefix

end OnyxZygisk.WebUi
