import OnyxZygisk.Loader.ReadHook

/-!
# The hook on a file read in chunks

A caller reads a file by several calls, and each result is sanitized by itself. What it sees of a line
depends on where the line was cut: the pieces of it inside the chunks are sanitized one by one, and only
the piece before the line end by both sanitizers (`lines_shown`). A line with a number stays hidden if
the whole needle and a non-zero digit lie in its first piece, a line with a marker if all six columns
that name it lie in its last piece.
-/

namespace OnyxZygisk.Loader

open Lines (Cut Piece)

/-! ### Chunks -/

/-- What a call that read `chunk` leaves in the caller's buffer. -/
def shown (chunk : List UInt8) : List UInt8 := (newRead chunk.length chunk).2

/-- What the caller has read at the end. -/
def shownText (chunks : List (List UInt8)) : List UInt8 := chunks.flatMap shown

/-- A `TracerPid:` line whose value is not zero. -/
def TracerLine (line : List UInt8) : Prop := kNeedle <+: line ∧ nonZero (tracerValue line)

instance (line : List UInt8) : Decidable (TracerLine line) :=
  inferInstanceAs (Decidable (kNeedle <+: line ∧ nonZero (tracerValue line)))

/-- No line of the text gives the tracer or the loader away. -/
def Hides (s : List UInt8) : Prop := ∀ line ∈ Lines.lines newline s, ¬ marked line ∧ ¬ TracerLine line

variable {s rest line : List UInt8} {b : UInt8}

theorem shown_eq (chunk : List UInt8) : shown chunk = sanitizeMaps (sanitizeTracerPid chunk) := by
  rw [shown, newRead]
  by_cases h : (chunk.length : Int) > 0
  · rw [if_pos h, Int.toNat_natCast, List.take_length, List.drop_length, List.append_nil]
  · have hnil : chunk = [] := List.length_eq_zero_iff.1 (by omega)
    rw [hnil]
    rfl

/-! ### The sanitizers line by line -/

theorem takeWhile_stop {p : UInt8 → Bool} {c : UInt8} (hc : p c = false) (s t : List UInt8) :
    (s ++ c :: t).takeWhile p = s.takeWhile p := by
  induction s with
  | nil => exact List.takeWhile_cons_of_neg (by rw [hc]; exact Bool.false_ne_true)
  | cons a s ih =>
    rw [List.cons_append, List.takeWhile_cons, List.takeWhile_cons, ih]

theorem dropWhile_stop {p : UInt8 → Bool} {c : UInt8} (hc : p c = false) (s t : List UInt8) :
    (s ++ c :: t).dropWhile p = s.dropWhile p ++ c :: t := by
  induction s with
  | nil => exact List.dropWhile_cons_of_neg (by rw [hc]; exact Bool.false_ne_true)
  | cons a s ih =>
    rw [List.cons_append, List.dropWhile_cons, List.dropWhile_cons, ih]
    cases p a <;> rfl

section Stop

variable {c : UInt8} (hblank : isBlank c = false) (hdigit : isDigit c = false) (hp : kNeedle <+: s)
  (t : List UInt8)

include hp

theorem drop_needle_append : (s ++ t).drop kNeedle.length = s.drop kNeedle.length ++ t :=
  List.drop_append_of_le_length hp.length_le

include hblank in
theorem tracerBlanks_stop : tracerBlanks (s ++ c :: t) = tracerBlanks s := by
  rw [tracerBlanks, drop_needle_append hp, takeWhile_stop hblank, tracerBlanks]

include hblank hdigit

theorem tracerValue_stop : tracerValue (s ++ c :: t) = tracerValue s := by
  rw [tracerValue, drop_needle_append hp, dropWhile_stop hblank, takeWhile_stop hdigit, tracerValue]

theorem behindValue_stop : behindValue (s ++ c :: t) = behindValue s ++ c :: t := by
  rw [behindValue, drop_needle_append hp, dropWhile_stop hblank, dropWhile_stop hdigit, behindValue]

end Stop

theorem newline_not_mem_behind (h : newline ∉ s) : newline ∉ behindValue s := by
  intro hmem
  apply h
  have hsub : behindValue s <:+ s :=
    ((List.dropWhile_suffix _).trans (List.dropWhile_suffix _)).trans (List.drop_suffix _ _)
  exact hsub.subset hmem

/-- Up to a line end there is nothing to stop at. -/
theorem takeWhile_line (h : newline ∉ s) : s.takeWhile (· ≠ newline) = s := by
  rw [List.takeWhile_eq_self_iff]
  intro b hb
  exact decide_eq_true fun heq => h (heq ▸ hb)

theorem dropWhile_line (h : newline ∉ s) : s.dropWhile (· ≠ newline) = [] := by
  rw [List.dropWhile_eq_nil_iff]
  intro b hb
  exact decide_eq_true fun heq => h (heq ▸ hb)

/-- In a line the number is replaced together with all that follows it. -/
theorem sanitizeTracerPid_hit (hline : newline ∉ s) (hp : kNeedle <+: s)
    (hv : nonZero (tracerValue s)) :
    sanitizeTracerPid s = kNeedle ++ tracerBlanks s ++
      zero :: spaces ((tracerValue s).length - 1 + (behindValue s).length) := by
  have hbehind := newline_not_mem_behind hline
  rw [sanitizeTracerPid_nonZero hp hv, takeWhile_line hbehind, dropWhile_line hbehind, passOver,
    List.append_nil]

/-- The needle does not reach over a line end. -/
theorem needle_prefix_line {x : List UInt8} (h : kNeedle <+: s ++ newline :: x) : kNeedle <+: s := by
  by_cases hlen : kNeedle.length ≤ s.length
  · exact List.prefix_of_prefix_length_le h (List.prefix_append s _) hlen
  · have hend : s ++ [newline] <+: s ++ newline :: x := ⟨x, List.append_assoc s [newline] x⟩
    have hcut : s ++ [newline] <+: kNeedle := by
      apply List.prefix_of_prefix_length_le hend h
      rw [List.length_append, List.length_singleton]
      omega
    have hmem : newline ∈ kNeedle := hcut.subset (List.mem_append_right _ (List.mem_singleton_self _))
    exact absurd hmem (by decide)

theorem sanitizeTracerPid_newline (rest : List UInt8) :
    sanitizeTracerPid (newline :: rest) = newline :: sanitizeTracerPid rest := by
  apply sanitizeTracerPid_next
  intro h
  have hnil := needle_prefix_line (s := []) h
  exact absurd hnil (by decide)

/-- The scan treats each line of a buffer by itself. -/
theorem sanitizeTracerPid_line (hline : newline ∉ s) (rest : List UInt8) :
    sanitizeTracerPid (s ++ newline :: rest) =
      sanitizeTracerPid s ++ newline :: sanitizeTracerPid rest := by
  have hblank : isBlank newline = false := by decide
  have hdigit : isDigit newline = false := by decide
  induction s using tracer_induction with
  | nil => exact sanitizeTracerPid_newline rest
  | hit s hp hv _ =>
    have hbehind := newline_not_mem_behind hline
    have hp' : kNeedle <+: s ++ newline :: rest := List.prefix_append_of_prefix hp
    have hstop : (fun b : UInt8 => decide (b ≠ newline)) newline = false := by decide
    have hv' : nonZero (tracerValue (s ++ newline :: rest)) := by
      rw [tracerValue_stop hblank hdigit hp]
      exact hv
    rw [sanitizeTracerPid_hit hline hp hv, sanitizeTracerPid_nonZero hp' hv',
      tracerBlanks_stop hblank hp, tracerValue_stop hblank hdigit hp,
      behindValue_stop hblank hdigit hp, takeWhile_stop hstop, dropWhile_stop hstop,
      takeWhile_line hbehind, dropWhile_line hbehind, List.nil_append, passOver]
  | miss s hp hv ih =>
    have hp' : kNeedle <+: s ++ newline :: rest := List.prefix_append_of_prefix hp
    have hv' : ¬ nonZero (tracerValue (s ++ newline :: rest)) := by
      rw [tracerValue_stop hblank hdigit hp]
      exact hv
    rw [sanitizeTracerPid_zero hp hv, sanitizeTracerPid_zero hp' hv', tracerBlanks_stop hblank hp,
      tracerValue_stop hblank hdigit hp, behindValue_stop hblank hdigit hp, List.append_assoc _
      (passOver _ _)]
    congr 1
    cases heq : behindValue s with
    | nil => rfl
    | cons b tail =>
      have htail : newline ∉ tail := by
        intro hmem
        apply newline_not_mem_behind hline
        rw [heq]
        exact List.mem_cons_of_mem _ hmem
      rw [List.cons_append, passOver, passOver, ih b tail heq htail]
      rfl
  | next b tail hp ih =>
    rw [List.mem_cons, not_or] at hline
    rw [List.cons_append, sanitizeTracerPid_next hp, sanitizeTracerPid_next, ih hline.2]
    · rfl
    · intro h
      exact hp (needle_prefix_line h)

theorem mem_passOver {f : List UInt8 → List UInt8} {P : UInt8 → Prop} (hs : ∀ b ∈ s, P b)
    (h : ∀ c tail, s = c :: tail → ∀ b ∈ f tail, P b) : ∀ b ∈ passOver f s, P b := by
  cases s with
  | nil => exact hs
  | cons c tail =>
    intro b hb
    obtain hb | hb := List.mem_cons.1 hb
    · exact hs b (hb ▸ List.mem_cons_self)
    · exact h c tail rfl b hb

/-- The scan writes zeros and blanks only. -/
theorem forall_mem_sanitizeTracerPid {P : UInt8 → Prop} (hzero : P zero) (hspace : P space)
    (hs : ∀ b ∈ s, P b) : ∀ b ∈ sanitizeTracerPid s, P b := by
  induction s using tracer_induction with
  | nil => exact hs
  | hit s hp hv ih =>
    rw [tracer_parts hp] at hs
    simp only [List.forall_mem_append] at hs
    obtain ⟨⟨⟨hneedle, hblanks⟩, -⟩, hbehind⟩ := hs
    have hend : ∀ b ∈ (behindValue s).dropWhile (· ≠ newline), P b :=
      fun b hb => hbehind b ((List.dropWhile_suffix _).subset hb)
    have htail : ∀ b ∈ passOver sanitizeTracerPid ((behindValue s).dropWhile (· ≠ newline)), P b := by
      apply mem_passOver hend
      intro c tail heq
      apply ih c tail heq
      rw [heq] at hend
      exact (List.forall_mem_cons.1 hend).2
    rw [sanitizeTracerPid_nonZero hp hv]
    simp only [List.forall_mem_append, List.forall_mem_cons]
    refine ⟨⟨⟨hneedle, hblanks⟩, hzero, fun b hb => ?_⟩, htail⟩
    rw [List.eq_of_mem_replicate hb]
    exact hspace
  | miss s hp hv ih =>
    rw [tracer_parts hp, List.forall_mem_append] at hs
    have htail : ∀ b ∈ passOver sanitizeTracerPid (behindValue s), P b := by
      apply mem_passOver hs.2
      intro c tail heq
      apply ih c tail heq
      rw [heq] at hs
      exact (List.forall_mem_cons.1 hs.2).2
    rw [sanitizeTracerPid_zero hp hv, List.forall_mem_append]
    exact ⟨hs.1, htail⟩
  | next c tail hp ih =>
    rw [List.forall_mem_cons] at hs
    rw [sanitizeTracerPid_next hp, List.forall_mem_cons]
    exact ⟨hs.1, ih hs.2⟩

theorem newline_not_mem_tracerPid (hline : newline ∉ s) : newline ∉ sanitizeTracerPid s := by
  intro hmem
  have h : ∀ b ∈ sanitizeTracerPid s, b ≠ newline :=
    forall_mem_sanitizeTracerPid (by decide) (by decide) fun b hb heq => hline (heq ▸ hb)
  exact h newline hmem rfl

theorem newline_not_mem_line (hline : newline ∉ s) : newline ∉ sanitizeLine s := by
  by_cases h : marked s
  · obtain ⟨path, hp, hm⟩ := marked_iff.1 h
    rw [sanitizeLine_of_marked hp hm, List.mem_append, not_or]
    constructor
    · exact fun hmem => hline ((List.take_sublist _ _).subset hmem)
    · intro hmem
      exact absurd (List.eq_of_mem_replicate hmem) (by decide)
  · rw [sanitizeLine_of_not_marked h]
    exact hline

/-- The scan keeps the pieces apart. -/
theorem pieces_sanitizeTracerPid (s : List UInt8) :
    Lines.pieces newline [] (sanitizeTracerPid s) =
      (Lines.pieces newline [] s).map fun p => ⟨sanitizeTracerPid p.text, p.ended⟩ := by
  induction s using @Lines.line_induction _ _ newline with
  | last x hx =>
    rw [Lines.pieces_of_not_mem hx, Lines.pieces_of_not_mem (newline_not_mem_tracerPid hx)]
    rfl
  | line x rest hx ih =>
    rw [sanitizeTracerPid_line hx, Lines.pieces_line (newline_not_mem_tracerPid hx), ih,
      Lines.pieces_line hx]
    rfl

theorem sanitizeMapsFrom_line {x : List UInt8} (hx : newline ∉ x) (line rest : List UInt8) :
    sanitizeMapsFrom line (x ++ rest) = sanitizeMapsFrom (line ++ x) rest := by
  induction x generalizing line with
  | nil => rw [List.nil_append, List.append_nil]
  | cons b x ih =>
    rw [List.mem_cons, not_or] at hx
    rw [List.cons_append, sanitizeMapsFrom_cons (Ne.symm hx.1), ih hx.2, List.append_assoc]
    rfl

/-- A line whose end is not in the buffer is left alone. -/
theorem sanitizeMaps_last {x : List UInt8} (hx : newline ∉ x) : sanitizeMaps x = x := by
  have h := sanitizeMapsFrom_line hx [] []
  rw [List.append_nil] at h
  exact h

theorem sanitizeMaps_line {x : List UInt8} (hx : newline ∉ x) (rest : List UInt8) :
    sanitizeMaps (x ++ newline :: rest) = sanitizeLine x ++ newline :: sanitizeMaps rest := by
  rw [sanitizeMaps, sanitizeMapsFrom_line hx, sanitizeMapsFrom_cons_newline]
  rfl

/-- Only a piece with its line end is blanked. -/
theorem pieces_sanitizeMaps (s : List UInt8) :
    Lines.pieces newline [] (sanitizeMaps s) = (Lines.pieces newline [] s).map fun p =>
      ⟨if p.ended then sanitizeLine p.text else p.text, p.ended⟩ := by
  induction s using @Lines.line_induction _ _ newline with
  | last x hx =>
    rw [sanitizeMaps_last hx, Lines.pieces_of_not_mem hx]
    rfl
  | line x rest hx ih =>
    rw [sanitizeMaps_line hx, Lines.pieces_line (newline_not_mem_line hx), ih, Lines.pieces_line hx]
    rfl

/-- A line after the first sanitizer, piece by piece. -/
def tracerHidden (c : Cut UInt8) : Cut UInt8 :=
  ⟨c.front.map sanitizeTracerPid, c.last.map sanitizeTracerPid⟩

/-- What the caller sees of a line. -/
def shownLine (c : Cut UInt8) : List UInt8 :=
  (tracerHidden c).front.flatten ++ ((tracerHidden c).last.map sanitizeLine).getD []

/-- The lines the caller reads. -/
theorem lines_shown (chunks : List (List UInt8)) :
    Lines.lines newline (shownText chunks) = (Lines.cutLines newline chunks).map shownLine := by
  have hpieces (chunk : List UInt8) : Lines.pieces newline [] (shown chunk) =
      (Lines.pieces newline [] chunk).map fun p => ⟨if p.ended then
        sanitizeLine (sanitizeTracerPid p.text) else sanitizeTracerPid p.text, p.ended⟩ := by
    rw [shown_eq, pieces_sanitizeMaps, pieces_sanitizeTracerPid, List.map_map]
    rfl
  have hchunks : (chunks.map shown).flatMap (Lines.pieces newline []) =
      (chunks.flatMap (Lines.pieces newline [])).map fun p => ⟨if p.ended then
        sanitizeLine (sanitizeTracerPid p.text) else sanitizeTracerPid p.text, p.ended⟩ := by
    rw [List.flatMap_map, List.map_flatMap]
    exact List.flatMap_congr fun chunk _ => hpieces chunk
  have hcuts : Lines.cuts [] ((chunks.flatMap (Lines.pieces newline [])).map fun p => ⟨if p.ended then
      sanitizeLine (sanitizeTracerPid p.text) else sanitizeTracerPid p.text, p.ended⟩) =
      (Lines.cutLines newline chunks).map fun c => ⟨c.front.map sanitizeTracerPid,
        c.last.map fun text => sanitizeLine (sanitizeTracerPid text)⟩ :=
    Lines.cuts_map (f := sanitizeTracerPid)
      (g := fun text => sanitizeLine (sanitizeTracerPid text)) [] _
  rw [shownText, List.flatMap_def, Lines.lines_flatten, Lines.cutLines, hchunks, hcuts, List.map_map]
  apply List.map_congr_left
  intro c _
  rw [shownLine, tracerHidden, Option.map_map]
  rfl

/-! ### Pathnames -/

theorem afterRuns_nil {n : Nat} {path : List UInt8} (h : afterRuns n [] = some path) : path = [] := by
  cases n with
  | zero => exact (Option.some.inj h).symm
  | succ n => exact absurd h (Option.some_ne_none _).symm

/-- The step of `afterRuns`: a column and the blanks behind it. -/
theorem afterRuns_succ {n : Nat} (h : s.dropWhile (!isBlank ·) ≠ []) :
    afterRuns (n + 1) s = afterRuns n ((s.dropWhile (!isBlank ·)).dropWhile isBlank) := by
  rw [afterRuns]
  cases hrun : s.dropWhile (!isBlank ·) with
  | nil => exact absurd hrun h
  | cons b run => rfl

theorem afterRuns_succ_eq_some {n : Nat} {path : List UInt8} (h : afterRuns (n + 1) s = some path) :
    s.dropWhile (!isBlank ·) ≠ [] ∧
      afterRuns n ((s.dropWhile (!isBlank ·)).dropWhile isBlank) = some path := by
  by_cases hrun : s.dropWhile (!isBlank ·) = []
  · rw [afterRuns, hrun] at h
    exact absurd h (Option.some_ne_none _).symm
  · rw [afterRuns_succ hrun] at h
    exact ⟨hrun, h⟩

theorem dropWhile_append_ne_nil {p : UInt8 → Bool} (h : s.dropWhile p ≠ []) (t : List UInt8) :
    (s ++ t).dropWhile p = s.dropWhile p ++ t := by
  rw [List.dropWhile_append, if_neg]
  rw [List.isEmpty_iff]
  exact h

theorem dropWhile_append_nil {p : UInt8 → Bool} (h : s.dropWhile p = []) (t : List UInt8) :
    (s ++ t).dropWhile p = t.dropWhile p := by
  rw [List.dropWhile_append, if_pos]
  rw [List.isEmpty_iff]
  exact h

/-- More text only makes the pathname longer. -/
theorem afterRuns_append {n : Nat} {path : List UInt8} (h : afterRuns n s = some path)
    (hne : path ≠ []) (t : List UInt8) : afterRuns n (s ++ t) = some (path ++ t) := by
  induction n generalizing s with
  | zero =>
    rw [Option.some.inj h]
    rfl
  | succ n ih =>
    obtain ⟨hrun, hrest⟩ := afterRuns_succ_eq_some h
    have hrun' : (s.dropWhile (!isBlank ·)).dropWhile isBlank ≠ [] := by
      intro hnil
      rw [hnil] at hrest
      exact hne (afterRuns_nil hrest)
    have happ := dropWhile_append_ne_nil hrun t
    rw [afterRuns_succ, happ, dropWhile_append_ne_nil hrun', ih hrest]
    rw [happ]
    exact List.append_ne_nil_of_left_ne_nil hrun t

theorem hasMarker_append {path : List UInt8} (h : hasMarker path) (t : List UInt8) :
    hasMarker (path ++ t) := by
  obtain ⟨m, hm, hin⟩ := List.any_eq_true.1 h
  apply List.any_eq_true.2 ⟨m, hm, ?_⟩
  exact decide_eq_true ((of_decide_eq_true hin).trans (List.prefix_append path t).isInfix)

theorem ne_nil_of_hasMarker {path : List UInt8} (h : hasMarker path) : path ≠ [] := by
  rintro rfl
  exact absurd h (by decide)

theorem marked_append (h : marked s) (t : List UInt8) : marked (s ++ t) := by
  obtain ⟨path, hp, hm⟩ := marked_iff.1 h
  exact marked_iff.2 ⟨path ++ t, afterRuns_append hp (ne_nil_of_hasMarker hm) t, hasMarker_append hm t⟩

theorem dropWhile_spaces (n : Nat) : (spaces n).dropWhile isBlank = [] := by
  rw [List.dropWhile_eq_nil_iff]
  intro b hb
  rw [List.eq_of_mem_replicate hb]
  rfl

/-- Blanks at the end belong to the pathname, if there is one. -/
theorem afterRuns_of_append_spaces {n k : Nat} {path : List UInt8}
    (h : afterRuns n (s ++ spaces k) = some path) (hne : path ≠ []) :
    ∃ path', afterRuns n s = some path' ∧ path = path' ++ spaces k := by
  induction n generalizing s with
  | zero => exact ⟨s, rfl, (Option.some.inj h).symm⟩
  | succ n ih =>
    obtain ⟨hrun, hrest⟩ := afterRuns_succ_eq_some h
    have hblanks {t : List UInt8} (ht : t.dropWhile isBlank = []) :
        (t ++ spaces k).dropWhile isBlank = [] := by
      rw [dropWhile_append_nil ht, dropWhile_spaces]
    by_cases hcol : s.dropWhile (!isBlank ·) = []
    · -- the columns end before the blanks, which leave nothing for the pathname
      rw [dropWhile_append_nil hcol] at hrest
      have hnil : ((spaces k).dropWhile (!isBlank ·)).dropWhile isBlank = [] := by
        rw [List.dropWhile_eq_nil_iff]
        intro b hb
        rw [List.eq_of_mem_replicate ((List.dropWhile_suffix _).subset hb)]
        rfl
      rw [hnil] at hrest
      exact absurd (afterRuns_nil hrest) hne
    · rw [dropWhile_append_ne_nil hcol] at hrest
      by_cases hpath : (s.dropWhile (!isBlank ·)).dropWhile isBlank = []
      · rw [hblanks hpath] at hrest
        exact absurd (afterRuns_nil hrest) hne
      · rw [dropWhile_append_ne_nil hpath] at hrest
        rw [afterRuns_succ hcol]
        exact ih hrest

theorem infix_of_append_spaces {m path : List UInt8} {k : Nat} (hm : space ∉ m)
    (h : m <:+: path ++ spaces k) : m <:+: path := by
  induction k with
  | zero =>
    rw [spaces, List.replicate_zero, List.append_nil] at h
    exact h
  | succ k ih =>
    rw [spaces, List.replicate_succ', ← List.append_assoc, List.infix_concat_iff] at h
    obtain h | h := h
    · rw [List.suffix_concat_iff] at h
      obtain rfl | ⟨t, rfl, -⟩ := h
      · exact List.nil_infix
      · exact absurd (List.mem_append_right t (List.mem_singleton_self space)) hm
    · exact ih h

theorem marked_append_spaces (k : Nat) : marked (s ++ spaces k) ↔ marked s := by
  refine ⟨fun h => ?_, fun h => marked_append h _⟩
  obtain ⟨path, hp, hm⟩ := marked_iff.1 h
  obtain ⟨path', hp', rfl⟩ := afterRuns_of_append_spaces hp (ne_nil_of_hasMarker hm)
  refine marked_iff.2 ⟨path', hp', ?_⟩
  obtain ⟨m, hmem, hin⟩ := List.any_eq_true.1 hm
  have hmarkers : ∀ m ∈ kMarkers, space ∉ m := by decide
  apply List.any_eq_true.2 ⟨m, hmem, ?_⟩
  exact decide_eq_true (infix_of_append_spaces (hmarkers m hmem) (of_decide_eq_true hin))

/-- A line that names a marker is blanked if its last piece names one in its own sixth column, and no
marker shows before that column. -/
def PathSafe (c : Cut UInt8) : Prop :=
  marked (tracerHidden c).line → ∃ p, (tracerHidden c).last = some p ∧ marked p ∧
    ¬ marked ((tracerHidden c).front.flatten ++ columns p)

theorem not_marked_shownLine_iff (c : Cut UInt8) : ¬ marked (shownLine c) ↔ PathSafe c := by
  obtain ⟨front, last⟩ := c
  generalize hhidden : tracerHidden ⟨front, last⟩ = d
  obtain ⟨front', last'⟩ := d
  rw [PathSafe, shownLine, hhidden]
  cases last' with
  | none =>
    constructor
    · intro h hm
      exact absurd hm h
    · intro h hm
      obtain ⟨p, hp, -⟩ := h hm
      exact absurd hp (Option.some_ne_none p).symm
  | some p =>
    show ¬ marked (front'.flatten ++ sanitizeLine p) ↔ (marked (front'.flatten ++ p) → _)
    by_cases hmarked : marked p
    · obtain ⟨path, hpath, hm⟩ := marked_iff.1 hmarked
      rw [sanitizeLine_of_marked hpath hm, ← List.append_assoc, marked_append_spaces]
      constructor
      · intro h _
        exact ⟨p, rfl, hmarked, h⟩
      · intro h hcol
        have hline := marked_append hcol path
        rw [List.append_assoc, columns_append hpath] at hline
        obtain ⟨q, hq, -, hnot⟩ := h hline
        rw [← Option.some.inj hq] at hnot
        exact hnot hcol
    · rw [sanitizeLine_of_not_marked hmarked]
      constructor
      · intro h hline
        exact absurd hline h
      · intro h hline
        obtain ⟨q, hq, hq', -⟩ := h hline
        rw [← Option.some.inj hq] at hq'
        exact hmarked hq'

/-! ### Reading a line for its number -/

/-- How far a reader of a line is: `wants` what is left of the needle (nothing once it stands behind it),
in the `zeros` of the number, or decided. -/
inductive Scan where
  | wants (left : List UInt8)
  | zeros
  | found
  | dead
  deriving DecidableEq

def digitStep (b : UInt8) : Scan :=
  if isDigit b then if b = zero then .zeros else .found else .dead

def scanStep : Scan → UInt8 → Scan
  | .wants (c :: left), b => if b = c then .wants left else .dead
  | .wants [], b => if isBlank b then .wants [] else digitStep b
  | .zeros, b => digitStep b
  | .found, _ => .found
  | .dead, _ => .dead

def scan (st : Scan) (s : List UInt8) : Scan := s.foldl scanStep st

/-- The rest of the line makes no difference. -/
def Settled (st : Scan) : Prop := st = .found ∨ st = .dead

variable {st : Scan}

theorem scan_append (st : Scan) (s t : List UInt8) : scan st (s ++ t) = scan (scan st s) t :=
  List.foldl_append

theorem Settled.scan_eq (h : Settled st) (s : List UInt8) : scan st s = st := by
  induction s with
  | nil => rfl
  | cons b s ih => obtain rfl | rfl := h <;> exact ih

theorem digitStep_settled (hb : b ≠ zero) : Settled (digitStep b) := by
  rw [digitStep, if_neg hb]
  split
  · exact Or.inl rfl
  · exact Or.inr rfl

theorem digitStep_of_not_digit (hb : isDigit b = false) : digitStep b = .dead := by
  rw [digitStep, hb]
  rfl

theorem scan_zeros_iff (s : List UInt8) : scan .zeros s = .found ↔ nonZero (s.takeWhile isDigit) := by
  induction s with
  | nil => exact ⟨fun h => (by cases h), fun h => absurd h (by decide)⟩
  | cons b s ih =>
    show scan (digitStep b) s = .found ↔ _
    cases hdigit : isDigit b with
    | false =>
      rw [digitStep_of_not_digit hdigit, Settled.scan_eq (Or.inr rfl),
        List.takeWhile_cons_of_neg (by rw [hdigit]; exact Bool.false_ne_true)]
      exact ⟨fun h => (by cases h), fun h => absurd h (by decide)⟩
    | true =>
      rw [List.takeWhile_cons_of_pos hdigit, nonZero, List.any_cons, digitStep, hdigit, if_pos rfl]
      by_cases hb : b = zero
      · rw [if_pos hb, ih, hb]
        rfl
      · rw [if_neg hb, Settled.scan_eq (Or.inl rfl), decide_eq_true hb]
        exact ⟨fun _ => rfl, fun _ => rfl⟩

theorem scan_behind_iff (s : List UInt8) :
    scan (.wants []) s = .found ↔ nonZero ((s.dropWhile isBlank).takeWhile isDigit) := by
  induction s with
  | nil => exact ⟨fun h => (by cases h), fun h => absurd h (by decide)⟩
  | cons b s ih =>
    show scan (if isBlank b then .wants [] else digitStep b) s = .found ↔ _
    cases hblank : isBlank b with
    | true =>
      rw [if_pos rfl, List.dropWhile_cons_of_pos hblank]
      exact ih
    | false =>
      rw [if_neg Bool.false_ne_true,
        List.dropWhile_cons_of_neg (by rw [hblank]; exact Bool.false_ne_true)]
      exact scan_zeros_iff (b :: s)

theorem scan_wants_iff (w s : List UInt8) :
    scan (.wants w) s = .found ↔
      w <+: s ∧ nonZero (((s.drop w.length).dropWhile isBlank).takeWhile isDigit) := by
  induction w generalizing s with
  | nil =>
    rw [scan_behind_iff, List.length_nil, List.drop_zero]
    exact ⟨fun h => ⟨List.nil_prefix, h⟩, fun h => h.2⟩
  | cons c w ih =>
    cases s with
    | nil =>
      refine ⟨fun h => (by cases h), fun h => ?_⟩
      exact absurd (List.prefix_nil.1 h.1) (List.cons_ne_nil c w)
    | cons b s =>
      show scan (if b = c then .wants w else .dead) s = .found ↔ _
      rw [List.cons_prefix_cons, List.length_cons, List.drop_succ_cons]
      by_cases hb : b = c
      · rw [if_pos hb, ih]
        exact ⟨fun h => ⟨⟨hb.symm, h.1⟩, h.2⟩, fun h => ⟨h.1.2, h.2⟩⟩
      · rw [if_neg hb, Settled.scan_eq (Or.inr rfl)]
        exact ⟨fun h => (by cases h), fun h => absurd h.1.1.symm hb⟩

theorem scan_needle_iff (s : List UInt8) : scan (.wants kNeedle) s = .found ↔ TracerLine s :=
  scan_wants_iff kNeedle s

/-! ### Pieces after the first -/

/-- The first byte of the needle. -/
def needleHead : UInt8 := 84

/-- What is still wanted is an end of the needle. -/
def Reads (w : List UInt8) : Scan → Prop
  | .wants left => left <:+ w
  | _ => True

/-- The reader is past the first byte of the line. -/
def Past (st : Scan) : Prop := Reads kNeedle.tail st

theorem digitStep_reads (w : List UInt8) (b : UInt8) : Reads w (digitStep b) := by
  rw [digitStep]
  split
  · split <;> trivial
  · trivial

theorem Reads.step {w : List UInt8} (h : Reads w st) (b : UInt8) : Reads w (scanStep st b) := by
  cases st with
  | wants left =>
    cases left with
    | nil =>
      show Reads w (if isBlank b then .wants [] else digitStep b)
      split
      · exact List.nil_suffix
      · exact digitStep_reads w b
    | cons c left =>
      show Reads w (if b = c then .wants left else .dead)
      split
      · exact (List.suffix_cons c left).trans h
      · trivial
  | zeros => exact digitStep_reads w b
  | found => trivial
  | dead => trivial

theorem Reads.scan {w : List UInt8} (h : Reads w st) (s : List UInt8) : Reads w (scan st s) := by
  induction s generalizing st with
  | nil => exact h
  | cons b s ih => exact ih (h.step b)

theorem reads_first : Reads kNeedle (.wants kNeedle) := List.suffix_rfl

theorem kNeedle_eq : kNeedle = needleHead :: kNeedle.tail := by decide

theorem Past.reads (h : Past st) : Reads kNeedle st := by
  cases st with
  | wants left =>
    rw [kNeedle_eq]
    exact List.IsSuffix.trans h (List.suffix_cons _ _)
  | zeros => trivial
  | found => trivial
  | dead => trivial

/-- The first byte of a line leads behind the start of the needle. -/
theorem past_first (b : UInt8) : Past (scanStep (.wants kNeedle) b) := by
  rw [kNeedle_eq]
  show Past (if b = needleHead then .wants kNeedle.tail else .dead)
  split
  · exact List.suffix_rfl
  · trivial

theorem Past.settled (h : Past st) : Settled (scanStep st needleHead) := by
  cases st with
  | wants left =>
    cases left with
    | nil => exact Or.inr (by decide)
    | cons c left =>
      have htail : needleHead ∉ kNeedle.tail := by decide
      have hc : needleHead ≠ c := by
        intro heq
        apply htail
        rw [heq]
        exact List.IsSuffix.subset h List.mem_cons_self
      exact Or.inr (if_neg hc)
  | zeros => exact Or.inr (by decide)
  | found => exact Or.inl rfl
  | dead => exact Or.inr rfl

theorem needle_head (h : kNeedle <+: b :: rest) : b = needleHead := by
  obtain ⟨t, ht⟩ := h
  exact (List.cons.inj ht).1.symm

/-- The scan keeps the first byte. -/
theorem sanitizeTracerPid_cons (b : UInt8) (rest : List UInt8) :
    ∃ tail, sanitizeTracerPid (b :: rest) = b :: tail := by
  by_cases hp : kNeedle <+: b :: rest
  · rw [needle_head hp]
    rw [needle_head hp] at hp
    by_cases hv : nonZero (tracerValue (needleHead :: rest))
    · rw [sanitizeTracerPid_nonZero hp hv]
      exact ⟨_, rfl⟩
    · rw [sanitizeTracerPid_zero hp hv]
      exact ⟨_, rfl⟩
  · exact ⟨_, sanitizeTracerPid_next hp⟩

/-- Behind the start of the needle the first sanitizer makes no difference to the reader. -/
theorem Past.scan_sanitizeTracerPid (h : Past st) (s : List UInt8) :
    scan st (sanitizeTracerPid s) = scan st s := by
  induction s generalizing st with
  | nil => rfl
  | cons b rest ih =>
    by_cases hb : b = needleHead
    · obtain ⟨tail, htail⟩ := sanitizeTracerPid_cons b rest
      have hsettled := h.settled
      rw [htail, hb]
      show scan (scanStep st needleHead) tail = scan (scanStep st needleHead) rest
      rw [hsettled.scan_eq, hsettled.scan_eq]
    · rw [sanitizeTracerPid_next fun hp => hb (needle_head hp)]
      exact ih (h.step b)

/-! ### Blanks between columns -/

theorem not_isDigit_of_isBlank (hb : isBlank b) : isDigit b = false := by
  have hcases : b = space ∨ b = 9 := by
    rw [isBlank, Bool.or_eq_true, decide_eq_true_eq, decide_eq_true_eq] at hb
    exact hb
  obtain rfl | rfl := hcases <;> rfl

/-- A blank ends everything but the blanks behind the needle. -/
theorem Reads.blank (h : Reads kNeedle st) (hb : isBlank b) :
    scanStep st b = .wants [] ∨ Settled (scanStep st b) := by
  cases st with
  | wants left =>
    cases left with
    | nil => exact Or.inl (if_pos hb)
    | cons c left =>
      have hneedle : (kNeedle.all fun c => !isBlank c) = true := by decide
      have hnotBlank : ∀ c ∈ kNeedle, isBlank c = false := by
        intro c hc
        have hall := List.all_eq_true.1 hneedle c hc
        rwa [Bool.not_eq_true'] at hall
      have hc : b ≠ c := by
        intro heq
        have hmem : c ∈ kNeedle := List.IsSuffix.subset h List.mem_cons_self
        rw [heq, hnotBlank c hmem] at hb
        exact Bool.false_ne_true hb
      exact Or.inr (Or.inr (if_neg hc))
  | zeros => exact Or.inr (Or.inr (digitStep_of_not_digit (not_isDigit_of_isBlank hb)))
  | found => exact Or.inr (Or.inl rfl)
  | dead => exact Or.inr (Or.inr rfl)

theorem scan_blanks (h : Reads kNeedle st) (hs : ∀ b ∈ s, isBlank b) (hne : s ≠ []) :
    scan st s = .wants [] ∨ Settled (scan st s) := by
  induction s generalizing st with
  | nil => exact absurd rfl hne
  | cons b s ih =>
    rw [List.forall_mem_cons] at hs
    by_cases hnil : s = []
    · rw [hnil]
      exact h.blank hs.1
    · exact ih (h.step b) hs.2 hnil

theorem digitStep_cases (b : UInt8) : digitStep b = .zeros ∨ Settled (digitStep b) := by
  by_cases hb : b = zero
  · rw [hb]
    exact Or.inl (by decide)
  · exact Or.inr (digitStep_settled hb)

/-- A column leaves zeros at most. -/
theorem scan_column (h : st = .wants [] ∨ st = .zeros ∨ Settled st)
    (hs : ∀ b ∈ s, isBlank b = false) (hne : s ≠ []) : scan st s = .zeros ∨ Settled (scan st s) := by
  induction s generalizing st with
  | nil => exact absurd rfl hne
  | cons b s ih =>
    rw [List.forall_mem_cons] at hs
    have hstep : scanStep st b = .zeros ∨ Settled (scanStep st b) := by
      obtain rfl | rfl | hsettled := h
      · show (if isBlank b then .wants [] else digitStep b) = _ ∨ Settled (if isBlank b then _ else _)
        rw [if_neg (by rw [hs.1]; exact Bool.false_ne_true)]
        exact digitStep_cases b
      · exact digitStep_cases b
      · have heq : scanStep st b = st := hsettled.scan_eq [b]
        rw [heq]
        exact Or.inr hsettled
    by_cases hnil : s = []
    · rw [hnil]
      exact hstep
    · exact ih (Or.inr hstep) hs.2 hnil

theorem scan_blanks_settled (h : st = .zeros ∨ Settled st) (hs : ∀ b ∈ s, isBlank b)
    (hne : s ≠ []) : Settled (scan st s) := by
  cases s with
  | nil => exact absurd rfl hne
  | cons b s =>
    show Settled (scan (scanStep st b) s)
    have hstep : Settled (scanStep st b) := by
      obtain rfl | hsettled := h
      · exact Or.inr (digitStep_of_not_digit (not_isDigit_of_isBlank (hs b List.mem_cons_self)))
      · have heq : scanStep st b = st := hsettled.scan_eq [b]
        rw [heq]
        exact hsettled
    rw [hstep.scan_eq]
    exact hstep

theorem head_of_dropWhile {p : UInt8 → Bool} (h : s.dropWhile p = b :: rest) : p b = false := by
  have hne : s.dropWhile p ≠ [] := by
    rw [h]
    exact List.cons_ne_nil b rest
  have hhead := List.head_dropWhile_not p hne
  simp only [h, List.head_cons] at hhead
  exact hhead

/-- One column and the blanks behind it. -/
theorem column_parts {path : List UInt8} {n : Nat} (h : afterRuns (n + 1) s = some path) :
    ∃ column blanks mid, s = column ++ (blanks ++ mid) ∧ (∀ b ∈ column, isBlank b = false) ∧
      (∀ b ∈ blanks, isBlank b) ∧ blanks ≠ [] ∧ (∀ b tail, mid = b :: tail → isBlank b = false) ∧
      afterRuns n mid = some path := by
  obtain ⟨hne, hrest⟩ := afterRuns_succ_eq_some h
  refine ⟨s.takeWhile (!isBlank ·), (s.dropWhile (!isBlank ·)).takeWhile isBlank, _, ?_, ?_, ?_, ?_,
    ?_, hrest⟩
  · rw [List.takeWhile_append_dropWhile, List.takeWhile_append_dropWhile]
  · intro b hb
    have h := List.mem_takeWhile_imp hb
    rw [Bool.not_eq_true'] at h
    exact h
  · exact fun b hb => List.mem_takeWhile_imp hb
  · cases hrun : s.dropWhile (!isBlank ·) with
    | nil => exact absurd hrun hne
    | cons b run =>
      have hb := head_of_dropWhile hrun
      rw [Bool.not_eq_false'] at hb
      rw [List.takeWhile_cons_of_pos hb]
      exact List.cons_ne_nil _ _
  · exact fun b tail hmid => head_of_dropWhile hmid

/-- Behind two columns nothing is left to read. -/
theorem settled_of_afterRuns {path : List UInt8} (h : afterRuns 2 s = some path) :
    ∃ u, s = u ++ path ∧ ∀ st, Reads kNeedle st → Settled (scan st u) := by
  obtain ⟨column, blanks, mid, rfl, hcolumn, hblanks, hne, hmid, h⟩ := column_parts h
  obtain ⟨column', blanks', path', rfl, hcolumn', hblanks', hne', -, h⟩ := column_parts h
  obtain rfl : path' = path := Option.some.inj h
  have hcolne : column' ≠ [] := by
    rintro rfl
    cases blanks' with
    | nil => exact hne' rfl
    | cons b blanks' =>
      have hb := hblanks' b List.mem_cons_self
      rw [hmid b _ rfl] at hb
      exact Bool.false_ne_true hb
  refine ⟨column ++ (blanks ++ (column' ++ blanks')), ?_, ?_⟩
  · rw [List.append_assoc, List.append_assoc, List.append_assoc]
  · intro st hst
    rw [scan_append, scan_append, scan_append]
    apply scan_blanks_settled _ hblanks' hne'
    apply scan_column _ hcolumn' hcolne
    obtain h | h := scan_blanks (hst.scan column) hblanks hne
    · exact Or.inl h
    · exact Or.inr (Or.inr h)

theorem afterRuns_add (m n : Nat) (s : List UInt8) :
    afterRuns (m + n) s = (afterRuns m s).bind (afterRuns n) := by
  induction m generalizing s with
  | zero =>
    rw [Nat.zero_add]
    rfl
  | succ m ih =>
    rw [Nat.add_right_comm]
    by_cases h : s.dropWhile (!isBlank ·) = []
    · rw [afterRuns, afterRuns, h]
      rfl
    · rw [afterRuns_succ h, afterRuns_succ h, ih]

/-- The columns before a pathname decide a line. -/
theorem settled_columns {path : List UInt8} (h : pathname line = some path) (hst : Reads kNeedle st) :
    Settled (scan st (columns line)) := by
  have hsplit : (afterRuns 2 line).bind (afterRuns 3) = some path := by
    rw [← afterRuns_add]
    exact h
  obtain ⟨mid, hmid, hpath⟩ := Option.bind_eq_some_iff.1 hsplit
  obtain ⟨u, hu, hsettled⟩ := settled_of_afterRuns hmid
  obtain ⟨w, hw⟩ := afterRuns_suffix hpath
  have hcolumns : columns line = u ++ w := by
    have hline : columns line ++ path = u ++ w ++ path := by
      rw [columns_append h, List.append_assoc, hw, hu]
    exact List.append_cancel_right hline
  rw [hcolumns, scan_append, (hsettled st hst).scan_eq]
  exact hsettled st hst

/-- The second sanitizer makes no difference to the reader. -/
theorem scan_sanitizeLine (hst : Reads kNeedle st) (line : List UInt8) :
    scan st (sanitizeLine line) = scan st line := by
  by_cases h : marked line
  · obtain ⟨path, hp, hm⟩ := marked_iff.1 h
    have hsettled := settled_columns hp hst
    rw [sanitizeLine_of_marked hp hm]
    conv_rhs => rw [← columns_append hp]
    rw [scan_append, scan_append, hsettled.scan_eq, hsettled.scan_eq]
  · rw [sanitizeLine_of_not_marked h]

/-! ### The first piece of a line -/

theorem scan_prefix (w s : List UInt8) : scan (.wants w) (w ++ s) = scan (.wants []) s := by
  induction w with
  | nil => rfl
  | cons c w ih =>
    show scan (if c = c then .wants w else .dead) (w ++ s) = _
    rw [if_pos rfl]
    exact ih

theorem scan_behind_blanks (hs : ∀ b ∈ s, isBlank b) (t : List UInt8) :
    scan (.wants []) (s ++ t) = scan (.wants []) t := by
  induction s with
  | nil => rfl
  | cons b s ih =>
    rw [List.forall_mem_cons] at hs
    show scan (if isBlank b then .wants [] else digitStep b) (s ++ t) = _
    rw [if_pos hs.1]
    exact ih hs.2

/-- A reader that has passed the needle and the blanks. -/
theorem scan_needle_blanks (t : List UInt8) :
    scan (.wants kNeedle) (kNeedle ++ tracerBlanks s ++ t) = scan (.wants []) t := by
  rw [List.append_assoc, scan_prefix]
  exact scan_behind_blanks (fun b hb => List.mem_takeWhile_imp hb) t

/-- Zeros behind the needle. -/
theorem scan_zeros_value (hs : ∀ b ∈ s, b = zero) (hst : st = .wants [] ∨ st = .zeros) :
    scan st s = if s = [] then st else .zeros := by
  induction s generalizing st with
  | nil => rfl
  | cons b s ih =>
    rw [List.forall_mem_cons] at hs
    have hstep : scanStep st b = .zeros := by
      rw [hs.1]
      obtain rfl | rfl := hst <;> decide
    rw [if_neg (List.cons_ne_nil b s)]
    show scan (scanStep st b) s = .zeros
    rw [hstep, ih hs.2 (Or.inr rfl)]
    split <;> rfl

theorem eq_zero_of_not_nonZero (hv : ¬ nonZero s) : ∀ b ∈ s, b = zero := by
  intro b hb
  by_contra hne
  exact hv (List.any_eq_true.2 ⟨b, hb, decide_eq_true hne⟩)

/-- The byte behind a zero value is read by no one, so that the scan passes over it is no loss. -/
theorem scan_behind_settled (hv : ¬ nonZero (tracerValue s)) (hb : behindValue s = b :: rest) :
    Settled (scanStep (scan (.wants []) (tracerValue s)) b) := by
  have hdigit : isDigit b = false := head_of_dropWhile hb
  rw [scan_zeros_value (eq_zero_of_not_nonZero hv) (Or.inl rfl)]
  by_cases hnil : tracerValue s = []
  · have hblank : isBlank b = false := by
      have hall := List.takeWhile_append_dropWhile (p := isDigit)
        (l := (s.drop kNeedle.length).dropWhile isBlank)
      have hvalue : tracerValue s ++ behindValue s = (s.drop kNeedle.length).dropWhile isBlank := hall
      rw [hnil, hb, List.nil_append] at hvalue
      exact head_of_dropWhile hvalue.symm
    rw [if_pos hnil]
    show Settled (if isBlank b then .wants [] else digitStep b)
    rw [hblank, if_neg Bool.false_ne_true, digitStep_of_not_digit hdigit]
    exact Or.inr rfl
  · rw [if_neg hnil]
    exact Or.inr (digitStep_of_not_digit hdigit)

theorem tracerValue_append_of_behind (hp : kNeedle <+: s) (hb : behindValue s ≠ []) (t : List UInt8) :
    tracerValue (s ++ t) = tracerValue s := by
  have hne : (s.drop kNeedle.length).dropWhile isBlank ≠ [] := by
    intro hnil
    rw [behindValue, hnil] at hb
    exact hb rfl
  cases hbehind : behindValue s with
  | nil => exact absurd hbehind hb
  | cons c tail =>
    have hc : isDigit c = false := head_of_dropWhile hbehind
    have hvalue : tracerValue s ++ behindValue s = (s.drop kNeedle.length).dropWhile isBlank :=
      List.takeWhile_append_dropWhile
    have hdigits : (tracerValue s).takeWhile isDigit = tracerValue s :=
      List.takeWhile_eq_self_iff.2 fun b hb => mem_tracerValue hb
    rw [hbehind] at hvalue
    rw [tracerValue, drop_needle_append hp, dropWhile_append_ne_nil hne, ← hvalue, List.append_assoc,
      List.cons_append, takeWhile_stop hc, hdigits]

theorem tracerValue_append (hp : kNeedle <+: s) (hb : behindValue s = []) (hv : tracerValue s ≠ [])
    (t : List UInt8) : tracerValue (s ++ t) = tracerValue s ++ t.takeWhile isDigit := by
  have hvalue : tracerValue s ++ behindValue s = (s.drop kNeedle.length).dropWhile isBlank :=
    List.takeWhile_append_dropWhile
  rw [hb, List.append_nil] at hvalue
  have hne : (s.drop kNeedle.length).dropWhile isBlank ≠ [] := by
    rw [← hvalue]
    exact hv
  rw [tracerValue, drop_needle_append hp, dropWhile_append_ne_nil hne, ← hvalue,
    List.takeWhile_append_of_pos fun b hb => mem_tracerValue hb]

/-- A first piece without a number to hide is read as it was. -/
theorem scan_first_of_not_tracerLine (h : ¬ TracerLine s) :
    scan (.wants kNeedle) (sanitizeTracerPid s) = scan (.wants kNeedle) s := by
  by_cases hp : kNeedle <+: s
  · have hv : ¬ nonZero (tracerValue s) := fun hv => h ⟨hp, hv⟩
    rw [sanitizeTracerPid_zero hp hv]
    conv_rhs => rw [tracer_parts hp]
    rw [List.append_assoc _ (tracerValue s), List.append_assoc _ (tracerValue s), scan_needle_blanks,
      scan_needle_blanks, scan_append, scan_append]
    cases hb : behindValue s with
    | nil => rfl
    | cons b rest =>
      have hsettled := scan_behind_settled hv hb
      show scan (scanStep _ b) (sanitizeTracerPid rest) = scan (scanStep _ b) rest
      rw [hsettled.scan_eq, hsettled.scan_eq]
  · cases s with
    | nil => rfl
    | cons b rest =>
      rw [sanitizeTracerPid_next hp]
      exact (past_first b).scan_sanitizeTracerPid rest

/-- The part of a line in its first chunk keeps the number of the line hidden. -/
def FirstSafe (first line : List UInt8) : Prop :=
  TracerLine first ∧ ((tracerValue first).length = 1 → ¬ nonZero ((tracerValue line).drop 1))

theorem tracerLine_append (h : TracerLine s) (t : List UInt8) : TracerLine (s ++ t) := by
  rw [← scan_needle_iff] at h ⊢
  rw [scan_append, h]
  exact Settled.scan_eq (Or.inl rfl) t

theorem scan_first_of_tracerLine (hline : newline ∉ s) (h : TracerLine s) (t : List UInt8) :
    scan (scan (.wants kNeedle) (sanitizeTracerPid s)) t = .found ↔ ¬ FirstSafe s (s ++ t) := by
  obtain ⟨hp, hv⟩ := h
  have hne : tracerValue s ≠ [] := by
    intro hnil
    rw [hnil] at hv
    exact absurd hv (by decide)
  have hpos := List.length_pos_iff.2 hne
  rw [sanitizeTracerPid_hit hline hp hv, scan_needle_blanks]
  by_cases hk : (tracerValue s).length - 1 + (behindValue s).length = 0
  · -- the number is one digit at the end of the piece: the next piece goes on with it
    have hbehind : behindValue s = [] := List.length_eq_zero_iff.1 (by omega)
    have hone : (tracerValue s).length = 1 := by omega
    have hdrop : (tracerValue s ++ t.takeWhile isDigit).drop 1 = t.takeWhile isDigit := by
      rw [← hone, List.drop_left]
    have hzeros : scan (.wants []) (zero :: spaces 0) = .zeros := by decide
    rw [hk, hzeros, scan_zeros_iff, FirstSafe, tracerValue_append hp hbehind hne, hdrop]
    constructor
    · intro hrest hsafe
      exact hsafe.2 hone hrest
    · intro hunsafe
      by_contra hrest
      exact hunsafe ⟨⟨hp, hv⟩, fun _ => hrest⟩
  · obtain ⟨k, hk'⟩ := Nat.exists_eq_succ_of_ne_zero hk
    have hdead : scan (.wants []) (zero :: spaces (k + 1)) = .dead := by
      show scan .dead (spaces k) = .dead
      exact Settled.scan_eq (Or.inr rfl) _
    have hsafe : FirstSafe s (s ++ t) := by
      refine ⟨⟨hp, hv⟩, fun hone => ?_⟩
      have hbehind : behindValue s ≠ [] := by
        intro hnil
        rw [hnil, hone] at hk
        exact hk rfl
      rw [tracerValue_append_of_behind hp hbehind, List.drop_eq_nil_of_le (by omega)]
      exact Bool.false_ne_true
    rw [hk', hdead, Settled.scan_eq (Or.inr rfl)]
    exact ⟨fun h => (by cases h), fun h => absurd hsafe h⟩

/-- What the reader of a line finds, its first piece sanitized. -/
theorem scan_first (hline : newline ∉ s) (t : List UInt8) :
    scan (scan (.wants kNeedle) (sanitizeTracerPid s)) t = .found ↔
      TracerLine (s ++ t) ∧ ¬ FirstSafe s (s ++ t) := by
  by_cases h : TracerLine s
  · rw [scan_first_of_tracerLine hline h]
    exact ⟨fun hunsafe => ⟨tracerLine_append h t, hunsafe⟩, fun hboth => hboth.2⟩
  · rw [scan_first_of_not_tracerLine h, ← scan_append, scan_needle_iff]
    exact ⟨fun htracer => ⟨htracer, fun hsafe => h hsafe.1⟩, fun hboth => hboth.1⟩

/-! ### The pieces of a line -/

theorem scan_shownLine (hst : Past st) (c : Cut UInt8) : scan st (shownLine c) = scan st c.line := by
  obtain ⟨front, last⟩ := c
  induction front generalizing st with
  | nil =>
    cases last with
    | none => rfl
    | some p =>
      show scan st (sanitizeLine (sanitizeTracerPid p)) = scan st p
      rw [scan_sanitizeLine hst.reads, hst.scan_sanitizeTracerPid]
  | cons p front ih =>
    have hshown : shownLine ⟨p :: front, last⟩ = sanitizeTracerPid p ++ shownLine ⟨front, last⟩ :=
      List.append_assoc _ _ _
    have hline : Cut.line ⟨p :: front, last⟩ = p ++ Cut.line ⟨front, last⟩ := List.append_assoc _ _ _
    rw [hshown, hline, scan_append, scan_append, hst.scan_sanitizeTracerPid]
    exact ih (Reads.scan hst p)

/-- The part of a line in the first chunk that holds any of it. -/
def firstPiece (c : Cut UInt8) : List UInt8 :=
  ((c.front ++ c.last.toList).find? (!·.isEmpty)).getD []

/-- A line with a number that is not zero is hidden if its first piece holds the needle and a digit other
than 0, and no such digit follows a piece that ends with the first digit. -/
def TracerSafe (c : Cut UInt8) : Prop := TracerLine c.line → FirstSafe (firstPiece c) c.line

theorem not_tracerLine_nil : ¬ TracerLine [] := fun h => absurd h.1 (by decide)

theorem past_scan_first (hne : s ≠ []) : Past (scan (.wants kNeedle) (sanitizeTracerPid s)) := by
  cases s with
  | nil => exact absurd rfl hne
  | cons b rest =>
    obtain ⟨tail, htail⟩ := sanitizeTracerPid_cons b rest
    rw [htail]
    exact (past_first b).scan tail

theorem not_tracerLine_shownLine_iff (c : Cut UInt8) (hfront : ∀ t ∈ c.front, newline ∉ t)
    (hlast : ∀ t ∈ c.last, newline ∉ t) : ¬ TracerLine (shownLine c) ↔ TracerSafe c := by
  have key (first line : List UInt8) :
      ¬ (TracerLine line ∧ ¬ FirstSafe first line) ↔ (TracerLine line → FirstSafe first line) := by
    rw [not_and, not_not]
  obtain ⟨front, last⟩ := c
  induction front with
  | nil =>
    cases last with
    | none =>
      exact ⟨fun _ h => absurd h not_tracerLine_nil, fun _ => not_tracerLine_nil⟩
    | some p =>
      by_cases hne : p = []
      · rw [hne]
        exact ⟨fun _ h => absurd h not_tracerLine_nil, fun _ => not_tracerLine_nil⟩
      · have hfirst : firstPiece ⟨[], some p⟩ = p := by
          rw [firstPiece]
          cases p with
          | nil => exact absurd rfl hne
          | cons b p => rfl
        have hscan := scan_first (hlast p rfl) []
        rw [List.append_nil] at hscan
        have hline : Cut.line ⟨[], some p⟩ = p := rfl
        rw [TracerSafe, hfirst, hline, ← key, ← hscan, ← scan_needle_iff]
        show ¬ scan _ (sanitizeLine (sanitizeTracerPid p)) = _ ↔ _
        rw [scan_sanitizeLine reads_first]
        exact Iff.rfl
  | cons p front ih =>
    rw [List.forall_mem_cons] at hfront
    by_cases hne : p = []
    · rw [hne]
      exact ih hfront.2 hlast
    · have hfirst : firstPiece ⟨p :: front, last⟩ = p := by
        rw [firstPiece]
        cases p with
        | nil => exact absurd rfl hne
        | cons b p => rfl
      have hshown : shownLine ⟨p :: front, last⟩ = sanitizeTracerPid p ++ shownLine ⟨front, last⟩ :=
        List.append_assoc _ _ _
      have hline : Cut.line ⟨p :: front, last⟩ = p ++ Cut.line ⟨front, last⟩ :=
        List.append_assoc _ _ _
      rw [TracerSafe, hfirst, hline, ← key, ← scan_first hfront.1, ← scan_needle_iff, hshown,
        scan_append, scan_shownLine (past_scan_first hne)]

/-! ### Hiding -/

/-- However the text is cut, the caller sees no marker and no tracer exactly if every line is cut at a safe
place. -/
theorem shownText_hides_iff (chunks : List (List UInt8)) :
    Hides (shownText chunks) ↔
      ∀ c ∈ Lines.cutLines newline chunks, PathSafe c ∧ TracerSafe c := by
  have hline {c : Cut UInt8} (hc : c ∈ Lines.cutLines newline chunks) :
      (¬ marked (shownLine c) ∧ ¬ TracerLine (shownLine c)) ↔ (PathSafe c ∧ TracerSafe c) := by
    obtain ⟨hfront, hlast⟩ := Lines.sep_not_mem_cutLines hc
    rw [not_marked_shownLine_iff, not_tracerLine_shownLine_iff c hfront hlast]
  rw [Hides, lines_shown, List.forall_mem_map]
  constructor
  · intro h c hc
    exact (hline hc).1 (h c hc)
  · intro h c hc
    exact (hline hc).2 (h c hc)

instance (s : List UInt8) : Decidable (Hides s) :=
  inferInstanceAs (Decidable (∀ line ∈ Lines.lines newline s, ¬ marked line ∧ ¬ TracerLine line))

/-- A maps line cut inside a marker and a status line cut inside the number. The same texts are hidden if
one call reads them. -/
theorem shownText_cut :
    Hides (shownText [ascii "1-2 r-xp 0 fe:00 5 /memfd:jit\nTracerPid:\t12\n"]) ∧
      ¬ Hides (shownText [ascii "1-2 r-xp 0 fe:00 5 /mem", ascii "fd:jit\n"]) ∧
        ¬ Hides (shownText [ascii "TracerPid:\t1", ascii "2\n"]) := by
  decide

end OnyxZygisk.Loader
