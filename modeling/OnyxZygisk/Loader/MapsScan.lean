import OnyxZygisk.Loader.ChunkedReads
import Mathlib.Tactic.Common

/-!
# The scan of the maps lines

`sanitize_maps_in_buffer` walks the buffer with indices: a counter of the runs of blanks, an inner loop
over each run that leaves the outer index one byte behind it, and a second pass over the pathname. What it
leaves in the buffer is the line-wise meaning of `sanitizeMaps` (`sanitizeMapsInBuffer_eq`), so that a buffer
of whole lines becomes the buffer of the sanitized lines.
-/

namespace OnyxZygisk.Loader

/-! ### The loops -/

/-- `while (j < nbytes && (buf[j] == ' ' || buf[j] == '\t')) ++j;` -/
def skipBlanks (buf : List UInt8) (nbytes j : Nat) : Nat :=
  if h : j < nbytes ∧ isBlank (buf.getD j 0) then skipBlanks buf nbytes (j + 1) else j
termination_by nbytes - j
decreasing_by omega

/-- What the loop over a line keeps: the index, the number of runs it passed and where the pathname begins. -/
structure LineScan where
  j : Nat
  field : Nat
  pathStart : Nat
deriving DecidableEq

theorem le_skipBlanks (buf : List UInt8) (nbytes j : Nat) : j ≤ skipBlanks buf nbytes j := by
  fun_induction skipBlanks buf nbytes j with
  | case1 j _ ih => exact Nat.le_of_succ_le ih
  | case2 j _ => exact Nat.le_refl j

theorem lt_skipBlanks {buf : List UInt8} {nbytes j : Nat} (hj : j < nbytes)
    (hb : isBlank (buf.getD j 0)) : j < skipBlanks buf nbytes j := by
  rw [skipBlanks, dif_pos ⟨hj, hb⟩]
  exact le_skipBlanks buf nbytes (j + 1)

/-- The loop over the columns of a line, from the state `st` on. -/
def scanLine (buf : List UInt8) (nbytes : Nat) (st : LineScan) : LineScan :=
  if hj : st.j < nbytes then
    if buf.getD st.j 0 = newline then st
    else if hb : isBlank (buf.getD st.j 0) then
      let k := skipBlanks buf nbytes st.j
      -- `--j`, then the `++j` of the loop
      scanLine buf nbytes ⟨k - 1 + 1, st.field + 1, if st.field + 1 = 5 then k else st.pathStart⟩
    else scanLine buf nbytes ⟨st.j + 1, st.field, st.pathStart⟩
  else st
termination_by nbytes - st.j
decreasing_by
  · have hk := lt_skipBlanks hj hb
    show nbytes - (skipBlanks buf nbytes st.j - 1 + 1) < nbytes - st.j
    omega
  · show nbytes - (st.j + 1) < nbytes - st.j
    omega

/-- `for (size_t k = path_start; k < j; ++k) buf[k] = ' ';` -/
def blankPath (buf : List UInt8) (k j : Nat) : List UInt8 :=
  if k < j then blankPath (buf.set k space) (k + 1) j else buf
termination_by j - k

/-- `path.find(m) != npos` for one of the markers, where the path is `buf[path_start, j)`. -/
def pathMatches (buf : List UInt8) (pathStart j : Nat) : Bool :=
  hasMarker ((buf.drop pathStart).take (j - pathStart))

/-- The line that the scan went through, rewritten if it is complete and its pathname names a marker. -/
def rewriteLine (buf : List UInt8) (nbytes : Nat) (st : LineScan) : List UInt8 :=
  if (st.j < nbytes ∧ buf.getD st.j 0 = newline) ∧ 5 ≤ st.field ∧ pathMatches buf st.pathStart st.j then
    blankPath buf st.pathStart st.j
  else buf

theorem le_scanLine (buf : List UInt8) (nbytes : Nat) (st : LineScan) : st.j ≤ (scanLine buf nbytes st).j := by
  fun_induction scanLine buf nbytes st with
  | case1 st _ _ => exact Nat.le_refl _
  | case2 st hj _ hb k ih =>
    have hk : st.j < k := lt_skipBlanks hj hb
    refine Nat.le_trans ?_ ih
    show st.j ≤ k - 1 + 1
    omega
  | case3 st _ _ _ ih => exact Nat.le_of_succ_le ih
  | case4 st _ => exact Nat.le_refl _

/-- The loop over the lines, from the offset `i` on. -/
def sanitizeLines (buf : List UInt8) (nbytes i : Nat) : List UInt8 :=
  if hi : i < nbytes then
    let st := scanLine buf nbytes ⟨i, 0, i⟩
    sanitizeLines (rewriteLine buf nbytes st) nbytes (if st.j < nbytes then st.j + 1 else st.j)
  else buf
termination_by nbytes - i
decreasing_by
  have hle := le_scanLine buf nbytes ⟨i, 0, i⟩
  have hst : i ≤ (scanLine buf nbytes ⟨i, 0, i⟩).j := hle
  split_ifs with hj <;> omega

/-- The return value and what `buf` points at; a null pointer is `none`. -/
def sanitizeMapsInBuffer (buf : Option (List UInt8)) (nbytes : Nat) : Option (List UInt8) × Nat :=
  match buf with
  | none => (none, nbytes)
  | some bytes => if nbytes = 0 then (some bytes, nbytes) else (some (sanitizeLines bytes nbytes 0), nbytes)

/-! ### One line -/

variable {buf pre line post : List UInt8} {nbytes : Nat}

theorem getD_length (pre post : List UInt8) (b : UInt8) : (pre ++ b :: post).getD pre.length 0 = b := by
  rw [List.getD_eq_getElem?_getD, List.getElem?_append_right (Nat.le_refl _), Nat.sub_self]
  rfl

/-- The loops over a line stop at the offset `j`: the text ends there or a line feed stands there. -/
def LineEnd (buf : List UInt8) (nbytes j : Nat) : Prop := j < nbytes → buf.getD j 0 = newline

theorem skipBlanks_stop {j : Nat} (h : j < nbytes → ¬ isBlank (buf.getD j 0)) : skipBlanks buf nbytes j = j := by
  rw [skipBlanks, dif_neg]
  exact fun hboth => h hboth.1 hboth.2

theorem not_isBlank_newline : ¬ isBlank newline := by decide

/-- The inner loop ends behind the run. -/
theorem skipBlanks_line (pre : List UInt8) (hlen : (pre ++ line).length ≤ nbytes)
    (hend : LineEnd (pre ++ line ++ post) nbytes (pre ++ line).length) :
    skipBlanks (pre ++ line ++ post) nbytes pre.length = (pre ++ line.takeWhile isBlank).length := by
  induction line generalizing pre with
  | nil =>
    rw [List.append_nil] at hend ⊢
    rw [List.takeWhile_nil, List.append_nil]
    apply skipBlanks_stop
    intro hlt
    rw [hend hlt]
    exact not_isBlank_newline
  | cons b line ih =>
    have hb : (pre ++ b :: line ++ post).getD pre.length 0 = b := by
      rw [List.append_assoc, List.cons_append, getD_length]
    have hlt : pre.length < nbytes := by
      rw [List.length_append, List.length_cons] at hlen
      omega
    by_cases hblank : isBlank b
    · have hsplit : pre ++ b :: line = pre ++ [b] ++ line := List.append_cons pre b line
      rw [skipBlanks, dif_pos ⟨hlt, by rw [hb]; exact hblank⟩, List.takeWhile_cons_of_pos hblank]
      rw [hsplit] at hlen hend ⊢
      have h := ih (pre ++ [b]) hlen hend
      rw [List.length_append, List.length_singleton] at h
      rw [h, List.append_assoc]
      rfl
    · rw [List.takeWhile_cons_of_neg hblank, List.append_nil]
      apply skipBlanks_stop
      intro _
      rw [hb]
      exact hblank

theorem afterRuns_word {b : UInt8} (hb : ¬ isBlank b) (n : Nat) (line : List UInt8) :
    afterRuns (n + 1) (b :: line) = afterRuns (n + 1) line := by
  have hdrop : (b :: line).dropWhile (!isBlank ·) = line.dropWhile (!isBlank ·) := by
    rw [List.dropWhile_cons_of_pos]
    rw [Bool.not_eq_true] at hb
    rw [hb]
    rfl
  rw [afterRuns, afterRuns, hdrop]

theorem afterRuns_run {b : UInt8} (hb : isBlank b) (n : Nat) (line : List UInt8) :
    afterRuns (n + 1) (b :: line) = afterRuns n ((b :: line).dropWhile isBlank) := by
  have hdrop : (b :: line).dropWhile (!isBlank ·) = b :: line := by
    rw [List.dropWhile_cons_of_neg]
    rw [hb]
    exact Bool.false_ne_true
  rw [afterRuns, hdrop]

theorem afterRuns_succ_nil (n : Nat) : afterRuns (n + 1) [] = none := rfl

/-- What the scan of the rest `line` of a line finds, where the line ends at the offset `stop`. -/
structure Scanned (line : List UInt8) (stop : Nat) (st st' : LineScan) : Prop where
  j_eq : st'.j = stop
  past : 5 ≤ st.field → 5 ≤ st'.field ∧ st'.pathStart = st.pathStart
  short : st.field < 5 → afterRuns (5 - st.field) line = none → st'.field < 5
  path : ∀ path, st.field < 5 → afterRuns (5 - st.field) line = some path →
    5 ≤ st'.field ∧ st'.pathStart = stop - path.length

variable {b : UInt8} {stop field start j k : Nat} {st' : LineScan}

/-- A byte of a column changes nothing. -/
theorem Scanned.word (hb : ¬ isBlank b) (h : Scanned line stop ⟨k, field, start⟩ st') :
    Scanned (b :: line) stop ⟨j, field, start⟩ st' := by
  have hruns : field < 5 → 5 - field = 4 - field + 1 := by omega
  refine ⟨h.j_eq, h.past, ?_, ?_⟩
  · intro hfield hnone
    apply h.short hfield
    rw [hruns hfield, afterRuns_word hb] at hnone
    rw [hruns hfield]
    exact hnone
  · intro path hfield hpath
    apply h.path path hfield
    rw [hruns hfield, afterRuns_word hb] at hpath
    rw [hruns hfield]
    exact hpath

/-- A run of blanks is counted, and the fifth one ends where the pathname begins. -/
theorem Scanned.run (hb : isBlank b) (hstop : k + ((b :: line).dropWhile isBlank).length = stop)
    (h : Scanned ((b :: line).dropWhile isBlank) stop ⟨k, field + 1, if field + 1 = 5 then k else start⟩ st') :
    Scanned (b :: line) stop ⟨j, field, start⟩ st' := by
  have hruns : field < 5 → 5 - field = 4 - field + 1 := by omega
  have hsucc : 5 - (field + 1) = 4 - field := by omega
  refine ⟨h.j_eq, ?_, ?_, ?_⟩
  · intro hfield
    have hge : 5 ≤ field := hfield
    have hpast := h.past (Nat.le_succ_of_le hge)
    refine ⟨hpast.1, hpast.2.trans ?_⟩
    exact if_neg (by omega)
  · intro hfield hnone
    have hlt : field < 5 := hfield
    rw [hruns hfield, afterRuns_run hb] at hnone
    by_cases hfour : field = 4
    · rw [hfour] at hnone
      exact absurd hnone (Option.some_ne_none _)
    · apply h.short
      · show field + 1 < 5
        omega
      · rw [hsucc]
        exact hnone
  · intro path hfield hpath
    have hlt : field < 5 := hfield
    rw [hruns hfield, afterRuns_run hb] at hpath
    by_cases hfour : field = 4
    · rw [hfour] at hpath
      have hrest : (b :: line).dropWhile isBlank = path := Option.some.inj hpath
      have hfive : field + 1 = 5 := by omega
      have hpast := h.past (Nat.le_of_eq hfive.symm)
      refine ⟨hpast.1, hpast.2.trans ?_⟩
      rw [← hstop, hrest, Nat.add_sub_cancel]
      exact if_pos hfive
    · apply h.path path
      · show field + 1 < 5
        omega
      · rw [hsucc]
        exact hpath

theorem Scanned.nil (j field start : Nat) : Scanned [] j ⟨j, field, start⟩ ⟨j, field, start⟩ := by
  refine ⟨rfl, fun h => ⟨h, rfl⟩, fun h _ => h, ?_⟩
  intro path hfield hpath
  have hruns : field < 5 → 5 - field = 4 - field + 1 := by omega
  rw [hruns hfield, afterRuns_succ_nil] at hpath
  exact absurd hpath (Option.some_ne_none path).symm

theorem scanLine_end {text : List UInt8} (hend : LineEnd text nbytes j) :
    scanLine text nbytes ⟨j, field, start⟩ = ⟨j, field, start⟩ := by
  rw [scanLine]
  by_cases hlt : j < nbytes
  · rw [dif_pos hlt, if_pos (hend hlt)]
  · rw [dif_neg hlt]

/-- The loop over a line stops at its end and finds the pathname, if there is one. -/
theorem scanLine_line (pre : List UInt8) (field start : Nat) (hline : newline ∉ line)
    (hlen : (pre ++ line).length ≤ nbytes)
    (hend : LineEnd (pre ++ line ++ post) nbytes (pre ++ line).length) :
    Scanned line (pre ++ line).length ⟨pre.length, field, start⟩
      (scanLine (pre ++ line ++ post) nbytes ⟨pre.length, field, start⟩) := by
  induction hn : line.length using Nat.strong_induction_on generalizing pre line field start with
  | _ n ih =>
    cases line with
    | nil =>
      rw [List.append_nil] at hend ⊢
      rw [scanLine_end hend]
      exact .nil pre.length field start
    | cons b line =>
      have hb : (pre ++ b :: line ++ post).getD pre.length 0 = b := by
        rw [List.append_assoc, List.cons_append, getD_length]
      have hlf : ¬ (pre ++ b :: line ++ post).getD pre.length 0 = newline := by
        rw [hb]
        exact (List.ne_of_not_mem_cons hline).symm
      have hlt : pre.length < nbytes := by
        rw [List.length_append, List.length_cons] at hlen
        omega
      by_cases hblank : isBlank b
      · have hskip := skipBlanks_line pre hlen hend
        have hpos : 0 < ((b :: line).takeWhile isBlank).length := by
          rw [List.takeWhile_cons_of_pos hblank]
          exact Nat.succ_pos _
        have hsplit : pre ++ (b :: line).takeWhile isBlank ++ (b :: line).dropWhile isBlank = pre ++ b :: line := by
          rw [List.append_assoc, List.takeWhile_append_dropWhile]
        have hlengths := congrArg List.length hsplit
        rw [List.length_append] at hlengths
        have hrest : ((b :: line).dropWhile isBlank).length < n := by
          rw [List.length_append, List.length_append] at hlengths
          omega
        have hmem : newline ∉ (b :: line).dropWhile isBlank :=
          fun hmem => hline ((List.dropWhile_suffix isBlank).subset hmem)
        rw [scanLine, dif_pos hlt, if_neg hlf, dif_pos (by rw [hb]; exact hblank)]
        simp only [hskip]
        rw [Nat.sub_add_cancel (by rw [List.length_append]; omega)]
        apply Scanned.run hblank hlengths
        rw [← hsplit] at hlen hend ⊢
        exact ih _ hrest (pre ++ (b :: line).takeWhile isBlank) _ _ hmem hlen hend rfl
      · have hless : line.length < n := by
          rw [← hn]
          exact Nat.lt_succ_self _
        have hone : (pre ++ [b]).length = pre.length + 1 := List.length_append
        rw [scanLine, dif_pos hlt, if_neg hlf, dif_neg (by rw [hb]; exact hblank)]
        apply Scanned.word hblank
        rw [List.append_cons] at hlen hend ⊢
        rw [← hone]
        exact ih line.length hless (pre ++ [b]) field start (List.not_mem_of_not_mem_cons hline) hlen hend rfl

/-! ### The buffer -/

theorem blankPath_path (pre path post : List UInt8) :
    blankPath (pre ++ path ++ post) pre.length (pre ++ path).length = pre ++ spaces path.length ++ post := by
  induction path generalizing pre with
  | nil =>
    rw [List.append_nil, blankPath, if_neg (Nat.lt_irrefl _), List.length_nil, spaces, List.replicate_zero,
      List.append_nil]
  | cons b path ih =>
    have hlt : pre.length < (pre ++ b :: path).length := by
      rw [List.length_append, List.length_cons]
      omega
    have hset : (pre ++ b :: path ++ post).set pre.length space = pre ++ [space] ++ path ++ post := by
      rw [List.append_assoc, List.set_append_right _ _ (Nat.le_refl _), Nat.sub_self, List.append_assoc,
        List.append_assoc]
      rfl
    have hlen : (pre ++ b :: path).length = (pre ++ [space] ++ path).length := by
      simp only [List.length_append, List.length_cons, List.length_nil]
      omega
    have h := ih (pre ++ [space])
    rw [List.length_append, List.length_singleton] at h
    rw [blankPath, if_pos hlt, hset, hlen, h, List.append_assoc pre]
    rfl

theorem pathMatches_path (pre path post : List UInt8) :
    pathMatches (pre ++ path ++ post) pre.length (pre ++ path).length = hasMarker path := by
  rw [pathMatches, List.append_assoc, List.drop_left, List.length_append, Nat.add_sub_cancel_left, List.take_left]

/-- A line without its end in the buffer is not rewritten. -/
theorem rewriteLine_last {st : LineScan} (h : nbytes ≤ st.j) : rewriteLine buf nbytes st = buf := by
  rw [rewriteLine, if_neg]
  exact fun hif => absurd hif.1.1 (Nat.not_lt.2 h)

theorem rewriteLine_line {start : Nat} (pre : List UInt8) (hlt : (pre ++ line).length < nbytes)
    (h : Scanned line (pre ++ line).length ⟨pre.length, 0, start⟩ st') :
    rewriteLine (pre ++ line ++ newline :: post) nbytes st' = pre ++ sanitizeLine line ++ newline :: post := by
  have hstop : st'.j < nbytes ∧ (pre ++ line ++ newline :: post).getD st'.j 0 = newline := by
    rw [h.j_eq]
    exact ⟨hlt, getD_length (pre ++ line) post newline⟩
  rw [rewriteLine]
  cases hpath : pathname line with
  | none =>
    have hfield := h.short (Nat.zero_lt_succ 4) hpath
    rw [if_neg (fun hif => Nat.not_le.2 hfield hif.2.1), sanitizeLine, hpath]
  | some path =>
    obtain ⟨hfield, hstart⟩ := h.path path (Nat.zero_lt_succ 4) hpath
    have hline := columns_append hpath
    generalize hfront : columns line = front at hline
    -- the pathname stands at the end of the line
    have hbegin : st'.pathStart = (pre ++ front).length := by
      rw [hstart, ← hline, ← List.append_assoc, @List.length_append _ _ path, Nat.add_sub_cancel]
    have hmatch : pathMatches (pre ++ line ++ newline :: post) st'.pathStart st'.j = hasMarker path := by
      rw [h.j_eq, hbegin, ← hline, ← List.append_assoc]
      exact pathMatches_path (pre ++ front) path _
    by_cases hmarker : hasMarker path
    · rw [if_pos ⟨hstop, hfield, hmatch.trans hmarker⟩, sanitizeLine_of_marked hpath hmarker, h.j_eq, hbegin, hfront,
        ← hline, ← List.append_assoc, blankPath_path]
      simp only [List.append_assoc]
    · have hnot : ¬ marked line := by
        rw [marked, hpath]
        exact hmarker
      rw [if_neg (fun hif => hmarker (hmatch.symm.trans hif.2.2)), sanitizeLine_of_not_marked hnot]

/-- From the beginning of a line on, the loop leaves the line-wise result of the rest of the buffer. -/
theorem sanitizeLines_eq (pre s post : List UInt8) :
    sanitizeLines (pre ++ s ++ post) (pre ++ s).length pre.length = pre ++ sanitizeMaps s ++ post := by
  induction s using @Lines.line_induction _ _ newline generalizing pre with
  | last x hx =>
    rw [sanitizeMaps_last hx, sanitizeLines]
    by_cases hlt : pre.length < (pre ++ x).length
    · have hend : LineEnd (pre ++ x ++ post) (pre ++ x).length (pre ++ x).length :=
        fun hlt => absurd hlt (Nat.lt_irrefl _)
      have hscan := scanLine_line pre 0 pre.length hx (Nat.le_refl _) hend
      rw [dif_pos hlt]
      simp only [hscan.j_eq]
      rw [rewriteLine_last (Nat.le_of_eq hscan.j_eq.symm), if_neg (Nat.lt_irrefl _), sanitizeLines,
        dif_neg (Nat.lt_irrefl _)]
    · rw [dif_neg hlt]
  | line x rest hx ih =>
    have hstop : (pre ++ x).length < (pre ++ (x ++ newline :: rest)).length := by
      simp only [List.length_append, List.length_cons]
      omega
    have hlt : pre.length < (pre ++ (x ++ newline :: rest)).length := by
      rw [List.length_append] at hstop
      omega
    have hbuf : pre ++ (x ++ newline :: rest) ++ post = pre ++ x ++ newline :: (rest ++ post) := by
      rw [← List.append_assoc, List.append_assoc _ _ post]
      rfl
    have hend : LineEnd (pre ++ x ++ newline :: (rest ++ post)) (pre ++ (x ++ newline :: rest)).length
        (pre ++ x).length := fun _ => getD_length (pre ++ x) (rest ++ post) newline
    have hscan := scanLine_line pre 0 pre.length hx (Nat.le_of_lt hstop) hend
    have hdone : (pre ++ sanitizeLine x ++ [newline]).length = (pre ++ x).length + 1 := by
      simp only [List.length_append, length_sanitizeLine, List.length_singleton]
    have htotal : (pre ++ (x ++ newline :: rest)).length = (pre ++ sanitizeLine x ++ [newline] ++ rest).length := by
      simp only [List.length_append, length_sanitizeLine, List.length_cons, List.length_nil]
      omega
    have hnext : pre ++ sanitizeLine x ++ newline :: (rest ++ post) =
        pre ++ sanitizeLine x ++ [newline] ++ rest ++ post := by
      simp only [List.append_assoc, List.cons_append, List.nil_append]
    rw [hbuf, sanitizeLines, dif_pos hlt]
    simp only [hscan.j_eq]
    rw [rewriteLine_line pre hstop hscan, if_pos hstop, hnext, ← hdone, htotal, ih, sanitizeMaps_line hx]
    simp only [List.append_assoc, List.cons_append, List.nil_append]

/-- What the loops leave is the line-wise meaning. -/
theorem sanitizeMapsInBuffer_eq (s post : List UInt8) :
    sanitizeMapsInBuffer (some (s ++ post)) s.length = (some (sanitizeMaps s ++ post), s.length) := by
  rw [sanitizeMapsInBuffer]
  by_cases hzero : s.length = 0
  · have hnil := List.length_eq_zero_iff.1 hzero
    rw [if_pos hzero, hnil]
    rfl
  · have h := sanitizeLines_eq [] s post
    rw [List.nil_append, List.nil_append] at h
    rw [if_neg hzero]
    exact congrArg (fun bytes => (some bytes, s.length)) h

/-! ### Whole lines -/

/-- What is left of a blanked line names no marker. -/
theorem not_marked_sanitizeLine (line : List UInt8) : ¬ marked (sanitizeLine line) := by
  by_cases h : marked line
  · obtain ⟨path, hpath, hm⟩ := marked_iff.1 h
    rw [sanitizeLine_of_marked hpath hm, marked_append_spaces]
    intro hcolumns
    obtain ⟨front, hfront, hmark⟩ := marked_iff.1 hcolumns
    have happend := afterRuns_append hfront (ne_nil_of_hasMarker hmark) path
    rw [columns_append hpath] at happend
    have hlen := congrArg List.length (Option.some.inj (hpath.symm.trans happend))
    have hpos := List.length_pos_iff.2 (ne_nil_of_hasMarker hmark)
    rw [List.length_append] at hlen
    omega
  · rw [sanitizeLine_of_not_marked h]
    exact h

@[simp] theorem sanitizeLine_sanitizeLine (line : List UInt8) : sanitizeLine (sanitizeLine line) = sanitizeLine line :=
  sanitizeLine_of_not_marked (not_marked_sanitizeLine line)

theorem sanitizeMaps_text {lines : List (List UInt8)} (h : ∀ line ∈ lines, newline ∉ line) :
    sanitizeMaps (Lines.text newline lines) = Lines.text newline (lines.map sanitizeLine) := by
  induction lines with
  | nil => rfl
  | cons line lines ih =>
    rw [List.forall_mem_cons] at h
    rw [Lines.text_cons, sanitizeMaps_line h.1, ih h.2, List.map_cons, Lines.text_cons]

theorem length_text_sanitizeLine (lines : List (List UInt8)) :
    (Lines.text newline (lines.map sanitizeLine)).length = (Lines.text newline lines).length := by
  induction lines with
  | nil => rfl
  | cons line lines ih =>
    rw [List.map_cons, Lines.text_cons, Lines.text_cons, List.length_append, List.length_append,
      length_sanitizeLine, List.length_cons, List.length_cons, ih]

theorem newline_not_mem_sanitized {lines : List (List UInt8)} (h : ∀ line ∈ lines, newline ∉ line) :
    ∀ line ∈ lines.map sanitizeLine, newline ∉ line := by
  intro line hline
  obtain ⟨l, hl, rfl⟩ := List.mem_map.1 hline
  exact newline_not_mem_line (h l hl)

/-- The sanitizer on a buffer of whole lines: each line is sanitized by itself, no byte behind the lines is
changed, and nothing is left for a second call. -/
theorem sanitizeMapsInBuffer_lines (lines : List (List UInt8)) (rest : List UInt8)
    (h : ∀ line ∈ lines, newline ∉ line) :
    sanitizeMapsInBuffer (some (Lines.text newline lines ++ rest)) (Lines.text newline lines).length =
        (some (Lines.text newline (lines.map sanitizeLine) ++ rest), (Lines.text newline lines).length) ∧
      (Lines.text newline (lines.map sanitizeLine)).length = (Lines.text newline lines).length ∧
      sanitizeMapsInBuffer (some (Lines.text newline (lines.map sanitizeLine) ++ rest))
          (Lines.text newline lines).length =
        (some (Lines.text newline (lines.map sanitizeLine) ++ rest), (Lines.text newline lines).length) := by
  have hlen := length_text_sanitizeLine lines
  refine ⟨?_, hlen, ?_⟩
  · rw [sanitizeMapsInBuffer_eq, sanitizeMaps_text h]
  · have hagain : (lines.map sanitizeLine).map sanitizeLine = lines.map sanitizeLine := by
      rw [List.map_map]
      exact List.map_congr_left fun line _ => sanitizeLine_sanitizeLine line
    rw [← hlen, sanitizeMapsInBuffer_eq, sanitizeMaps_text (newline_not_mem_sanitized h), hagain]

/-- A mapped memfd among lines with blanks at the end and with too few columns. -/
theorem sanitizeMapsInBuffer_memfd :
    sanitizeMapsInBuffer (some (Lines.text newline [ascii "1-2 r 0 0:0 \t9  /memfd:a b", ascii "1-2 r 0 0:0 9  ",
        ascii "memfd:"] ++ [])) 50 =
      (some (Lines.text newline [ascii "1-2 r 0 0:0 \t9            ", ascii "1-2 r 0 0:0 9  ", ascii "memfd:"] ++ []),
        50) :=
  (sanitizeMapsInBuffer_lines [ascii "1-2 r 0 0:0 \t9  /memfd:a b", ascii "1-2 r 0 0:0 9  ", ascii "memfd:"] []
    (by decide)).1

end OnyxZygisk.Loader
