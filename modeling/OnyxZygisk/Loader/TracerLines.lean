import Mathlib.Data.List.Forall2
import OnyxZygisk.Loader.ChunkedReads

/-!
# The TracerPid scan as a map over lines

The scan walks over a buffer and jumps behind what it has dealt with. Where the needle stands at the
start of lines only, this comes to a function of each line (`LineShown`): a `TracerPid:` line whose
number is not zero shows a 0 and blanks up to its old length, and any other line is kept, the last one
too if it has no end.
-/

namespace OnyxZygisk.Loader

/-! ### What a line shows -/

/-- `line` is the needle, blanks, digits that are not all zero, and whatever follows. -/
structure Traced (line blanks digits rest : List UInt8) : Prop where
  line_eq : line = kNeedle ++ blanks ++ digits ++ rest
  blank : ∀ b ∈ blanks, isBlank b
  digit : ∀ d ∈ digits, isDigit d
  nonZero : ∃ d ∈ digits, d ≠ zero

/-- What becomes of a line. -/
inductive LineShown : List UInt8 → List UInt8 → Prop where
  | hidden {line blanks digits rest : List UInt8} (n : Nat) : Traced line blanks digits rest →
      (kNeedle ++ blanks ++ zero :: spaces n).length = line.length →
      LineShown line (kNeedle ++ blanks ++ zero :: spaces n)
  | kept {line : List UInt8} : (∀ blanks digits rest, ¬ Traced line blanks digits rest) →
      LineShown line line

/-- The needle begins a line wherever it occurs. -/
def AtLineStart (s : List UInt8) : Prop :=
  ∀ front back, s = front ++ kNeedle ++ back → front = [] ∨ front.getLast? = some newline

/-- It is enough to look at each offset of the buffer. -/
theorem atLineStart_iff (s : List UInt8) :
    AtLineStart s ↔ ∀ n < s.length + 1, kNeedle <+: s.drop n →
      s.take n = [] ∨ (s.take n).getLast? = some newline := by
  constructor
  · rintro h n - ⟨back, hback⟩
    apply h (s.take n) back
    rw [List.append_assoc, hback, List.take_append_drop]
  · intro h front back heq
    have hs : s = front ++ (kNeedle ++ back) := by rw [heq, List.append_assoc]
    have hlen : front.length < s.length + 1 := by
      rw [hs, List.length_append]
      omega
    have hn := h front.length hlen
    rw [hs, List.drop_left, List.take_left] at hn
    exact hn (List.prefix_append _ _)

instance (s : List UInt8) : Decidable (AtLineStart s) := decidable_of_iff' _ (atLineStart_iff s)

variable {s line blanks digits rest : List UInt8}

/-! ### The scan reads the parts of a line -/

section Traced

variable (h : Traced line blanks digits rest)

include h

theorem Traced.needle_prefix : kNeedle <+: line := by
  refine ⟨blanks ++ digits ++ rest, ?_⟩
  rw [h.line_eq, List.append_assoc, List.append_assoc, List.append_assoc]

theorem Traced.drop_needle : line.drop kNeedle.length = blanks ++ (digits ++ rest) := by
  rw [h.line_eq, List.append_assoc, List.append_assoc, List.drop_left]

/-- A digit ends the blanks. -/
theorem Traced.digits_head : ∃ d digits', digits = d :: digits' ∧ isBlank d = false := by
  obtain ⟨d, hd, -⟩ := h.nonZero
  cases hdigits : digits with
  | nil =>
    rw [hdigits] at hd
    exact absurd hd List.not_mem_nil
  | cons c digits' =>
    refine ⟨c, digits', rfl, ?_⟩
    have hc : isDigit c := h.digit c (hdigits ▸ List.mem_cons_self)
    have hdisjoint : ∀ b : UInt8, isDigit b → isBlank b = false := by
      intro b hb
      simp only [isDigit, isBlank, space, Bool.and_eq_true, decide_eq_true_eq, Bool.or_eq_false_iff,
        decide_eq_false_iff_not, UInt8.le_iff_toNat_le, ← UInt8.toNat_inj] at hb ⊢
      have h48 : (48 : UInt8).toNat = 48 := rfl
      have h32 : (32 : UInt8).toNat = 32 := rfl
      have h9 : (9 : UInt8).toNat = 9 := rfl
      omega
    exact hdisjoint c hc

theorem Traced.tracerBlanks_eq : tracerBlanks line = blanks := by
  obtain ⟨d, digits', hdigits, hd⟩ := h.digits_head
  rw [tracerBlanks, h.drop_needle, List.takeWhile_append_of_pos h.blank, hdigits, List.cons_append,
    List.takeWhile_cons_of_neg (by rw [hd]; exact Bool.false_ne_true), List.append_nil]

theorem Traced.dropWhile_blank : (line.drop kNeedle.length).dropWhile isBlank = digits ++ rest := by
  obtain ⟨d, digits', hdigits, hd⟩ := h.digits_head
  rw [h.drop_needle, List.dropWhile_append_of_pos h.blank, hdigits, List.cons_append,
    List.dropWhile_cons_of_neg (by rw [hd]; exact Bool.false_ne_true)]

theorem Traced.tracerValue_eq : tracerValue line = digits ++ rest.takeWhile isDigit := by
  rw [tracerValue, h.dropWhile_blank, List.takeWhile_append_of_pos h.digit]

theorem Traced.tracerLine : TracerLine line := by
  obtain ⟨d, hd, hne⟩ := h.nonZero
  refine ⟨h.needle_prefix, List.any_eq_true.2 ⟨d, ?_, decide_eq_true hne⟩⟩
  rw [h.tracerValue_eq]
  exact List.mem_append_left _ hd

end Traced

/-- What the scan reads of a line with a number. -/
theorem TracerLine.traced (h : TracerLine line) :
    Traced line (tracerBlanks line) (tracerValue line) (behindValue line) := by
  obtain ⟨hp, hv⟩ := h
  obtain ⟨d, hd, hne⟩ := List.any_eq_true.1 hv
  exact ⟨tracer_parts hp, fun b hb => List.mem_takeWhile_imp hb, fun d hd => mem_tracerValue hd,
    d, hd, of_decide_eq_true hne⟩

/-- A line shows one thing only. -/
theorem LineShown.unique {out out' : List UInt8} (h : LineShown line out) (h' : LineShown line out') :
    out = out' := by
  cases h with
  | kept hkept =>
    cases h' with
    | kept => rfl
    | hidden n ht => exact absurd ht (hkept _ _ _)
  | hidden n ht hlen =>
    cases h' with
    | kept hkept => exact absurd ht (hkept _ _ _)
    | hidden m ht' hlen' =>
      have hblanks := ht.tracerBlanks_eq.symm.trans ht'.tracerBlanks_eq
      have hn := hlen.trans hlen'.symm
      rw [hblanks] at hn ⊢
      simp only [spaces, List.length_append, List.length_cons, List.length_replicate] at hn
      have hnm : n = m := by omega
      rw [hnm]

/-! ### One line -/

/-- Without the needle nothing is found. -/
theorem not_meets (h : ¬ kNeedle <:+: s) : ¬ Meets s := by
  intro hm
  induction hm with
  | here s hp _ => exact h hp.isInfix
  | behind s b rest hp _ _ _ _ => exact h hp.isInfix
  | next b rest _ _ ih => exact ih fun hin => h (List.infix_cons hin)

theorem needle_infix_iff : kNeedle <:+: s ↔ ∃ front back, s = front ++ kNeedle ++ back :=
  ⟨fun ⟨front, back, h⟩ => ⟨front, back, h.symm⟩, fun ⟨front, back, h⟩ => ⟨front, back, h.symm⟩⟩

/-- In a line the needle stands at the very start. -/
theorem AtLineStart.nil_of_line (h : AtLineStart line) (hline : newline ∉ line) {front back : List UInt8}
    (heq : line = front ++ kNeedle ++ back) : front = [] := by
  obtain hnil | hlast := h front back heq
  · exact hnil
  · have hmem : newline ∈ front := List.mem_of_getLast? hlast
    rw [heq] at hline
    exact absurd (List.mem_append_left _ (List.mem_append_left _ hmem)) hline

/-- What stands behind a zero holds no needle. -/
theorem sanitizeTracerPid_behind (h : AtLineStart line) (hline : newline ∉ line) (hp : kNeedle <+: line) :
    passOver sanitizeTracerPid (behindValue line) = behindValue line := by
  cases hb : behindValue line with
  | nil => rfl
  | cons b tail =>
    rw [passOver, sanitizeTracerPid_of_not_meets]
    apply not_meets
    rintro ⟨front, back, htail⟩
    have hparts := tracer_parts hp
    have hfront : kNeedle ++ tracerBlanks line ++ tracerValue line ++ b :: front = [] := by
      refine h.nil_of_line hline (?_ : line = _ ++ kNeedle ++ back)
      conv_lhs => rw [hparts, hb, ← htail]
      simp only [List.append_assoc, List.cons_append]
    exact absurd hfront (List.append_ne_nil_of_right_ne_nil _ (List.cons_ne_nil _ _))

/-- A line without a number that is not zero is kept. -/
theorem sanitizeTracerPid_kept (h : AtLineStart line) (hline : newline ∉ line) (hv : ¬ TracerLine line) :
    sanitizeTracerPid line = line := by
  by_cases hp : kNeedle <+: line
  · rw [sanitizeTracerPid_zero hp fun hz => hv ⟨hp, hz⟩, sanitizeTracerPid_behind h hline hp]
    exact (tracer_parts hp).symm
  · apply sanitizeTracerPid_of_not_meets
    apply not_meets
    rw [needle_infix_iff]
    rintro ⟨front, back, heq⟩
    rw [h.nil_of_line hline heq, List.nil_append] at heq
    exact hp ⟨back, heq.symm⟩

theorem lineShown_sanitize (h : AtLineStart line) (hline : newline ∉ line) :
    LineShown line (sanitizeTracerPid line) := by
  by_cases ht : TracerLine line
  · rw [sanitizeTracerPid_hit hline ht.1 ht.2]
    refine .hidden _ ht.traced ?_
    obtain ⟨d, digits, hdigits, -⟩ := ht.traced.digits_head
    have hlen := congrArg List.length (tracer_parts ht.1)
    rw [hdigits] at hlen ⊢
    simp only [spaces, List.length_append, List.length_cons, List.length_replicate] at hlen ⊢
    omega
  · rw [sanitizeTracerPid_kept h hline ht]
    exact .kept fun blanks digits rest htraced => ht htraced.tracerLine

/-- The scan leaves a 0 with blanks behind it alone. -/
theorem sanitizeTracerPid_shown {n : Nat} (hblanks : ∀ b ∈ blanks, isBlank b) :
    sanitizeTracerPid (kNeedle ++ blanks ++ zero :: spaces n) = kNeedle ++ blanks ++ zero :: spaces n := by
  have hp : kNeedle <+: kNeedle ++ blanks ++ zero :: spaces n :=
    ⟨blanks ++ zero :: spaces n, (List.append_assoc _ _ _).symm⟩
  have hdrop : ((kNeedle ++ blanks ++ zero :: spaces n).drop kNeedle.length).dropWhile isBlank =
      zero :: spaces n := by
    rw [List.append_assoc, List.drop_left, List.dropWhile_append_of_pos hblanks]
    exact List.dropWhile_cons_of_neg (by decide)
  have hend : (spaces n).takeWhile isDigit = [] ∧ (spaces n).dropWhile isDigit = spaces n := by
    cases n with
    | zero => exact ⟨rfl, rfl⟩
    | succ n => exact ⟨rfl, rfl⟩
  have hvalue : tracerValue (kNeedle ++ blanks ++ zero :: spaces n) = [zero] := by
    rw [tracerValue, hdrop, List.takeWhile_cons_of_pos (by decide), hend.1]
  have hbehind : behindValue (kNeedle ++ blanks ++ zero :: spaces n) = spaces n := by
    rw [behindValue, hdrop, List.dropWhile_cons_of_pos (by decide), hend.2]
  have hzero : ¬ nonZero (tracerValue (kNeedle ++ blanks ++ zero :: spaces n)) := by
    rw [hvalue]
    decide
  have hspaces (m : Nat) : sanitizeTracerPid (spaces m) = spaces m := by
    apply sanitizeTracerPid_of_not_meets
    apply not_meets
    intro hin
    have hfirst : (84 : UInt8) ∈ spaces m := hin.subset (by decide)
    exact absurd (List.eq_of_mem_replicate hfirst) (by decide)
  have hover : passOver sanitizeTracerPid (spaces n) = spaces n := by
    cases n with
    | zero => rfl
    | succ n => exact congrArg (space :: ·) (hspaces n)
  conv_rhs => rw [tracer_parts hp, hbehind]
  rw [sanitizeTracerPid_zero hp hzero, hbehind, hover]

/-- What a line shows it shows again. -/
theorem sanitizeTracerPid_again (h : AtLineStart line) (hline : newline ∉ line) :
    sanitizeTracerPid (sanitizeTracerPid line) = sanitizeTracerPid line := by
  by_cases ht : TracerLine line
  · rw [sanitizeTracerPid_hit hline ht.1 ht.2]
    exact sanitizeTracerPid_shown ht.traced.blank
  · rw [sanitizeTracerPid_kept h hline ht, sanitizeTracerPid_kept h hline ht]

/-! ### A buffer -/

theorem AtLineStart.front {rest : List UInt8} (h : AtLineStart (s ++ newline :: rest)) (hs : newline ∉ s) :
    AtLineStart s := by
  intro front back heq
  obtain hnil | hlast := h front (back ++ newline :: rest) (by rw [heq, List.append_assoc])
  · exact .inl hnil
  · have hmem : newline ∈ front := List.mem_of_getLast? hlast
    rw [heq] at hs
    exact absurd (List.mem_append_left _ (List.mem_append_left _ hmem)) hs

theorem AtLineStart.behind {rest : List UInt8} (h : AtLineStart (s ++ newline :: rest)) : AtLineStart rest := by
  intro front back heq
  obtain hnil | hlast := h (s ++ newline :: front) back (by simp only [heq, List.append_assoc, List.cons_append])
  · exact absurd hnil (List.append_ne_nil_of_right_ne_nil _ (List.cons_ne_nil _ _))
  · cases front with
    | nil => exact .inl rfl
    | cons b front =>
      right
      rw [List.getLast?_append_of_ne_nil _ (List.cons_ne_nil _ _), List.getLast?_cons_cons] at hlast
      exact hlast

/-- The needle begins each line that it occurs in. -/
theorem AtLineStart.pieces (h : AtLineStart s) :
    ∀ p ∈ Lines.pieces newline [] s, AtLineStart p.text ∧ newline ∉ p.text := by
  induction s using @Lines.line_induction _ _ newline with
  | last x hx =>
    rw [Lines.pieces_of_not_mem hx, List.forall_mem_singleton]
    exact ⟨h, hx⟩
  | line x rest hx ih =>
    rw [Lines.pieces_line hx, List.forall_mem_cons]
    exact ⟨⟨h.front hx, hx⟩, ih h.behind⟩

theorem LineShown.length {out : List UInt8} (h : LineShown line out) : out.length = line.length := by
  cases h with
  | hidden n _ hlen => exact hlen
  | kept => rfl

theorem length_sanitizeTracerPid (h : AtLineStart s) : (sanitizeTracerPid s).length = s.length := by
  induction s using @Lines.line_induction _ _ newline with
  | last x hx => exact (lineShown_sanitize h hx).length
  | line x rest hx ih =>
    rw [sanitizeTracerPid_line hx, List.length_append, List.length_append, List.length_cons,
      List.length_cons, ih h.behind, (lineShown_sanitize (h.front hx) hx).length]

theorem sanitizeTracerPid_twice (h : AtLineStart s) :
    sanitizeTracerPid (sanitizeTracerPid s) = sanitizeTracerPid s := by
  induction s using @Lines.line_induction _ _ newline with
  | last x hx => exact sanitizeTracerPid_again h hx
  | line x rest hx ih =>
    rw [sanitizeTracerPid_line hx, sanitizeTracerPid_line (newline_not_mem_tracerPid hx), ih h.behind,
      sanitizeTracerPid_again (h.front hx) hx]

/-- Where the needle only begins lines, the scan is its meaning line by line: the same lines, each with
what it shows, in a buffer of the same length that a second scan leaves alone. -/
theorem sanitizeTracerPid_lines (buf : List UInt8) (h : AtLineStart buf) :
    List.Forall₂ (fun p q : Lines.Piece UInt8 => LineShown p.text q.text ∧ q.ended = p.ended)
        (Lines.pieces newline [] buf) (Lines.pieces newline [] (sanitizeTracerPid buf)) ∧
      (sanitizeTracerPid buf).length = buf.length ∧
      sanitizeTracerPid (sanitizeTracerPid buf) = sanitizeTracerPid buf := by
  refine ⟨?_, length_sanitizeTracerPid h, sanitizeTracerPid_twice h⟩
  rw [pieces_sanitizeTracerPid, List.forall₂_map_right_iff, List.forall₂_same]
  intro p hp
  obtain ⟨hstart, hline⟩ := h.pieces p hp
  exact ⟨lineShown_sanitize hstart hline, rfl⟩

/-- A status file whose last line has no end. -/
theorem sanitizeTracerPid_status :
    sanitizeTracerPid (sanitizeTracerPid (ascii "PPid:\t1\nTracerPid:\t42\nTracerPid: 07 x")) =
      ascii "PPid:\t1\nTracerPid:\t0 \nTracerPid: 0   " := by
  have h : AtLineStart (ascii "PPid:\t1\nTracerPid:\t42\nTracerPid: 07 x") := by decide +kernel
  rw [(sanitizeTracerPid_lines _ h).2.2]
  decide +kernel

end OnyxZygisk.Loader
