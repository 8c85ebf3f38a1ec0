import Mathlib.Data.List.Infix
import Mathlib.Data.List.TakeWhile
import OnyxZygisk.Lib.Lines
import Mathlib.Tactic.Common

/-!
# The hook on `read`

`new_read` passes what `read` returned through two sanitizers: one replaces the number behind
`TracerPid:` by 0, the other blanks the pathname of a maps line that names a marker. Both look at the
bytes only, so a read of any other file that holds such bytes is changed too, and no other
(`newRead_unchanged_iff`).
-/

namespace OnyxZygisk.Loader

/-! ### Bytes -/

/-- The bytes of an ASCII text. -/
def ascii (s : String) : List UInt8 := s.toList.map fun c => UInt8.ofNat c.toNat

def space : UInt8 := 32

def newline : UInt8 := 10

/-- `'0'` -/
def zero : UInt8 := 48

def isBlank (b : UInt8) : Bool := b = space || b = 9

def isDigit (b : UInt8) : Bool := 48 ≤ b && b ≤ 57

def spaces (n : Nat) : List UInt8 := List.replicate n space

/-! ### TracerPid -/

def kNeedle : List UInt8 := ascii "TracerPid:"

/-- What stands between the needle and its number. -/
def tracerBlanks (s : List UInt8) : List UInt8 := (s.drop kNeedle.length).takeWhile isBlank

/-- The digits behind the needle. -/
def tracerValue (s : List UInt8) : List UInt8 :=
  ((s.drop kNeedle.length).dropWhile isBlank).takeWhile isDigit

def behindValue (s : List UInt8) : List UInt8 :=
  ((s.drop kNeedle.length).dropWhile isBlank).dropWhile isDigit

def nonZero (value : List UInt8) : Bool := value.any (· ≠ zero)

/-- The byte the loop index stands on after a match is passed over by its increment. -/
def passOver (scan : List UInt8 → List UInt8) : List UInt8 → List UInt8
  | [] => []
  | b :: rest => b :: scan rest

/-- The loop of `sanitize_tracer_pid_in_buffer`, from an offset to the end of the buffer. -/
def sanitizeTracerFrom : Nat → List UInt8 → List UInt8
  | 0, s => s
  | _ + 1, [] => []
  | fuel + 1, b :: rest =>
    if kNeedle.length < (b :: rest).length ∧ kNeedle.isPrefixOf (b :: rest) then
      if nonZero (tracerValue (b :: rest)) then
        let line := (behindValue (b :: rest)).takeWhile (· ≠ newline)
        let end_ := (behindValue (b :: rest)).dropWhile (· ≠ newline)
        kNeedle ++ tracerBlanks (b :: rest) ++
          zero :: spaces ((tracerValue (b :: rest)).length - 1 + line.length) ++
          passOver (sanitizeTracerFrom fuel) end_
      else
        kNeedle ++ tracerBlanks (b :: rest) ++ tracerValue (b :: rest) ++
          passOver (sanitizeTracerFrom fuel) (behindValue (b :: rest))
    else b :: sanitizeTracerFrom fuel rest

def sanitizeTracerPid (buf : List UInt8) : List UInt8 := sanitizeTracerFrom buf.length buf

/-! ### Maps -/

def kMarkers : List (List UInt8) := [ascii "jit-cache-zygisk", ascii "memfd:", ascii "zygisk-module"]

/-- What follows `n` runs of blanks. -/
def afterRuns : Nat → List UInt8 → Option (List UInt8)
  | 0, s => some s
  | n + 1, s =>
    match s.dropWhile (!isBlank ·) with
    | [] => none
    | run => afterRuns n (run.dropWhile isBlank)

/-- The sixth column of a maps line. -/
def pathname (line : List UInt8) : Option (List UInt8) := afterRuns 5 line

def hasMarker (path : List UInt8) : Bool := kMarkers.any fun m => decide (m <:+: path)

/-- The pathname names a marker. -/
def marked (line : List UInt8) : Bool := (pathname line).any hasMarker

/-- A complete line, its pathname blanked if it names a marker. -/
def sanitizeLine (line : List UInt8) : List UInt8 :=
  match pathname line with
  | none => line
  | some path =>
    if hasMarker path then line.take (line.length - path.length) ++ spaces path.length else line

/-- The loop of `sanitize_maps_in_buffer`; `line` was read since the last line end. -/
def sanitizeMapsFrom (line : List UInt8) : List UInt8 → List UInt8
  | [] => line
  | b :: rest =>
    if b = newline then sanitizeLine line ++ newline :: sanitizeMapsFrom [] rest
    else sanitizeMapsFrom (line ++ [b]) rest

def sanitizeMaps (buf : List UInt8) : List UInt8 := sanitizeMapsFrom [] buf

/-! ### The hook -/

/-- `new_read`, where the original `read` returned `ret` and filled `buf`: the return value and what the
buffer holds. -/
def newRead (ret : Int) (buf : List UInt8) : Int × List UInt8 :=
  if ret > 0 then
    (ret, sanitizeMaps (sanitizeTracerPid (buf.take ret.toNat)) ++ buf.drop ret.toNat)
  else (ret, buf)

/-! ### The TracerPid scan -/

variable {s rest line : List UInt8} {b : UInt8}

@[simp] theorem sanitizeTracerFrom_nil (fuel : Nat) : sanitizeTracerFrom fuel [] = [] := by
  cases fuel <;> rfl

theorem length_behindValue (s : List UInt8) : (behindValue s).length ≤ s.length - kNeedle.length := by
  rw [← List.length_drop]
  exact ((List.dropWhile_suffix _).trans (List.dropWhile_suffix _)).length_le

theorem passOver_congr {f g : List UInt8 → List UInt8} {n : Nat} (hs : s.length ≤ n + 1)
    (h : ∀ t : List UInt8, t.length ≤ n → f t = g t) : passOver f s = passOver g s := by
  cases s with
  | nil => rfl
  | cons b rest =>
    rw [List.length_cons] at hs
    rw [passOver, passOver, h rest (by omega)]

/-- Fuel beyond the length of the buffer makes no difference. -/
theorem sanitizeTracerFrom_eq (n m : Nat) (s : List UInt8) (hn : s.length ≤ n) (hm : s.length ≤ m) :
    sanitizeTracerFrom n s = sanitizeTracerFrom m s := by
  induction n generalizing m s with
  | zero =>
    rw [Nat.le_zero, List.length_eq_zero_iff] at hn
    rw [hn, sanitizeTracerFrom_nil, sanitizeTracerFrom_nil]
  | succ n ih =>
    match s, m with
    | [], m => rw [sanitizeTracerFrom_nil, sanitizeTracerFrom_nil]
    | b :: rest, 0 => exact absurd hm (Nat.not_succ_le_zero _)
    | b :: rest, m + 1 =>
      rw [List.length_cons] at hn hm
      have hrest : rest.length ≤ min n m := by omega
      have htail (t : List UInt8) (ht : t.length ≤ min n m) :
          sanitizeTracerFrom n t = sanitizeTracerFrom m t :=
        ih m t (by omega) (by omega)
      have hbehind := length_behindValue (b :: rest)
      rw [List.length_cons] at hbehind
      have hend := (List.dropWhile_suffix (l := behindValue (b :: rest)) (· ≠ newline)).length_le
      rw [sanitizeTracerFrom, sanitizeTracerFrom, htail rest hrest]
      rw [passOver_congr (s := behindValue (b :: rest)) (n := min n m) (by omega) htail]
      simp only []
      rw [passOver_congr (s := (behindValue (b :: rest)).dropWhile (· ≠ newline)) (n := min n m)
        (by omega) htail]

theorem sanitizeTracerPid_next (h : ¬ kNeedle <+: b :: rest) :
    sanitizeTracerPid (b :: rest) = b :: sanitizeTracerPid rest := by
  have hscan : ¬ (kNeedle.length < (b :: rest).length ∧ kNeedle.isPrefixOf (b :: rest)) :=
    fun hif => h (List.isPrefixOf_iff_prefix.1 hif.2)
  show sanitizeTracerFrom (rest.length + 1) (b :: rest) = _
  rw [sanitizeTracerFrom, if_neg hscan]
  rfl

/-- A buffer is what stands at the needle, the blanks, the number and the rest of it. -/
theorem tracer_parts (h : kNeedle <+: s) :
    s = kNeedle ++ tracerBlanks s ++ tracerValue s ++ behindValue s := by
  obtain ⟨t, rfl⟩ := h
  rw [tracerBlanks, tracerValue, behindValue, List.drop_left, List.append_assoc _ (t.takeWhile _),
    List.append_assoc, List.append_assoc, List.takeWhile_append_dropWhile,
    List.takeWhile_append_dropWhile]

/-- A text no longer than the needle is not changed. -/
theorem sanitizeTracerPid_short (hlen : s.length ≤ kNeedle.length) : sanitizeTracerPid s = s := by
  induction s with
  | nil => rfl
  | cons b rest ih =>
    have hscan : ¬ (kNeedle.length < (b :: rest).length ∧ kNeedle.isPrefixOf (b :: rest)) :=
      fun hif => Nat.not_lt.2 hlen hif.1
    show sanitizeTracerFrom (rest.length + 1) (b :: rest) = _
    rw [List.length_cons] at hlen
    rw [sanitizeTracerFrom, if_neg hscan]
    exact congrArg (b :: ·) (ih (by omega))

theorem length_lt_of_value (h : kNeedle <+: s) (hne : tracerValue s ++ behindValue s ≠ []) :
    kNeedle.length < s.length := by
  have hlen := congrArg List.length (tracer_parts h)
  have hpos := List.length_pos_iff.2 hne
  simp only [List.length_append] at hlen hpos
  omega

theorem passOver_scan (hs : s.length ≤ rest.length + 1) :
    passOver (sanitizeTracerFrom rest.length) s = passOver sanitizeTracerPid s := by
  apply passOver_congr hs
  intro t ht
  exact sanitizeTracerFrom_eq _ _ t ht (Nat.le_refl _)

/-- A number that is not zero is replaced, with the rest of its line. -/
theorem sanitizeTracerPid_nonZero (h : kNeedle <+: s) (hv : nonZero (tracerValue s)) :
    sanitizeTracerPid s = kNeedle ++ tracerBlanks s ++
      zero :: spaces ((tracerValue s).length - 1 +
        ((behindValue s).takeWhile (· ≠ newline)).length) ++
      passOver sanitizeTracerPid ((behindValue s).dropWhile (· ≠ newline)) := by
  have hne : tracerValue s ++ behindValue s ≠ [] := by
    intro hnil
    rw [(List.append_eq_nil_iff.1 hnil).1] at hv
    exact absurd hv (by decide)
  have hlen := length_lt_of_value h hne
  cases s with
  | nil => exact absurd hlen (Nat.not_lt_zero _)
  | cons b rest =>
    have hbehind := length_behindValue (b :: rest)
    have hend := (List.dropWhile_suffix (l := behindValue (b :: rest)) (· ≠ newline)).length_le
    rw [List.length_cons] at hbehind
    show sanitizeTracerFrom (rest.length + 1) (b :: rest) = _
    rw [sanitizeTracerFrom, if_pos ⟨hlen, List.isPrefixOf_iff_prefix.2 h⟩, if_pos hv]
    simp only []
    rw [passOver_scan (by omega)]

/-- A number that is zero is passed over, with the byte behind it. -/
theorem sanitizeTracerPid_zero (h : kNeedle <+: s) (hv : ¬ nonZero (tracerValue s)) :
    sanitizeTracerPid s = kNeedle ++ tracerBlanks s ++ tracerValue s ++
      passOver sanitizeTracerPid (behindValue s) := by
  by_cases hlen : kNeedle.length < s.length
  · cases s with
    | nil => exact absurd hlen (Nat.not_lt_zero _)
    | cons b rest =>
      have hbehind := length_behindValue (b :: rest)
      rw [List.length_cons] at hbehind
      show sanitizeTracerFrom (rest.length + 1) (b :: rest) = _
      rw [sanitizeTracerFrom, if_pos ⟨hlen, List.isPrefixOf_iff_prefix.2 h⟩, if_neg hv,
        passOver_scan (by omega)]
  · have hs : s = kNeedle := (h.eq_of_length_le (Nat.not_lt.1 hlen)).symm
    rw [sanitizeTracerPid_short (Nat.not_lt.1 hlen), hs]
    decide

/-- The cases of the scan, for an induction on what is left of the buffer. -/
@[elab_as_elim]
theorem tracer_induction {motive : List UInt8 → Prop} (nil : motive [])
    (hit : ∀ s, kNeedle <+: s → nonZero (tracerValue s) →
      (∀ b rest, (behindValue s).dropWhile (· ≠ newline) = b :: rest → motive rest) → motive s)
    (miss : ∀ s, kNeedle <+: s → ¬ nonZero (tracerValue s) →
      (∀ b rest, behindValue s = b :: rest → motive rest) → motive s)
    (next : ∀ b rest, ¬ kNeedle <+: b :: rest → motive rest → motive (b :: rest))
    (s : List UInt8) : motive s := by
  induction hn : s.length using Nat.strong_induction_on generalizing s with
  | _ n ih =>
    by_cases h : kNeedle <+: s
    · have hbehind := length_behindValue s
      have hpos : kNeedle.length = 10 := rfl
      have hle := h.length_le
      by_cases hv : nonZero (tracerValue s)
      · apply hit s h hv
        intro b rest heq
        have hend := (List.dropWhile_suffix (l := behindValue s) (· ≠ newline)).length_le
        rw [heq, List.length_cons] at hend
        exact ih rest.length (by omega) rest rfl
      · apply miss s h hv
        intro b rest heq
        rw [heq, List.length_cons] at hbehind
        exact ih rest.length (by omega) rest rfl
    · cases s with
      | nil => exact nil
      | cons b rest =>
        rw [List.length_cons] at hn
        exact next b rest h (ih rest.length (by omega) rest rfl)

/-- The scan finds a number that is not zero. It steps over the byte behind a zero, so a needle that
begins there is not found. -/
inductive Meets : List UInt8 → Prop where
  | here (s : List UInt8) : kNeedle <+: s → nonZero (tracerValue s) → Meets s
  | behind (s : List UInt8) (b : UInt8) (rest : List UInt8) : kNeedle <+: s →
      ¬ nonZero (tracerValue s) → behindValue s = b :: rest → Meets rest → Meets s
  | next (b : UInt8) (rest : List UInt8) : ¬ kNeedle <+: b :: rest → Meets rest → Meets (b :: rest)

theorem sanitizeTracerPid_of_not_meets (h : ¬ Meets s) : sanitizeTracerPid s = s := by
  induction s using tracer_induction with
  | nil => rfl
  | hit s hp hv _ => exact absurd (Meets.here s hp hv) h
  | miss s hp hv ih =>
    rw [sanitizeTracerPid_zero hp hv]
    conv_rhs => rw [tracer_parts hp]
    congr 1
    cases heq : behindValue s with
    | nil => rfl
    | cons b rest =>
      rw [passOver, ih b rest heq]
      exact fun hm => h (Meets.behind s b rest hp hv heq hm)
  | next b rest hp ih =>
    rw [sanitizeTracerPid_next hp, ih]
    exact fun hm => h (Meets.next b rest hp hm)

/-! ### Digits left -/

/-- The digits other than 0. -/
def isLit (b : UInt8) : Bool := isDigit b && b ≠ zero

/-- How many of them a text holds. The hook never adds one. -/
def lit (s : List UInt8) : Nat := s.countP isLit

theorem lit_append (s t : List UInt8) : lit (s ++ t) = lit s + lit t := List.countP_append

theorem lit_cons_le (b : UInt8) (h : lit s ≤ lit rest) : lit (b :: s) ≤ lit (b :: rest) := by
  rw [lit, lit, List.countP_cons, List.countP_cons]
  exact Nat.add_le_add_right h _

@[simp] theorem lit_spaces (n : Nat) : lit (spaces n) = 0 := by
  rw [lit, List.countP_eq_zero]
  intro b hb
  rw [List.eq_of_mem_replicate hb]
  decide

theorem lit_zero_cons (s : List UInt8) : lit (zero :: s) = lit s := by
  rw [lit, lit, List.countP_cons]
  rfl

theorem mem_tracerValue (hb : b ∈ tracerValue s) : isDigit b := List.mem_takeWhile_imp hb

theorem lit_pos_of_nonZero (hv : nonZero (tracerValue s)) : 0 < lit (tracerValue s) := by
  obtain ⟨b, hb, hne⟩ := List.any_eq_true.1 hv
  apply List.countP_pos_iff.2 ⟨b, hb, ?_⟩
  rw [isLit, mem_tracerValue hb]
  exact hne

theorem lit_passOver {f : List UInt8 → List UInt8}
    (h : ∀ b rest, s = b :: rest → lit (f rest) ≤ lit rest) : lit (passOver f s) ≤ lit s := by
  cases s with
  | nil => exact Nat.le_refl _
  | cons b rest => exact lit_cons_le b (h b rest rfl)

/-- What the rewritten line and the rest of the buffer have left. -/
theorem lit_rewritten {n : Nat} {tail : List UInt8} (hp : kNeedle <+: s)
    (ht : lit tail ≤ lit (behindValue s)) :
    lit (kNeedle ++ tracerBlanks s ++ zero :: spaces n ++ tail) + lit (tracerValue s) ≤ lit s := by
  have hs := congrArg lit (tracer_parts hp)
  simp only [lit_append, lit_zero_cons, lit_spaces] at hs ⊢
  omega

theorem lit_dropWhile (p : UInt8 → Bool) (s : List UInt8) : lit (s.dropWhile p) ≤ lit s :=
  (List.dropWhile_suffix p).sublist.countP_le

theorem lit_sanitizeTracerPid (s : List UInt8) : lit (sanitizeTracerPid s) ≤ lit s := by
  induction s using tracer_induction with
  | nil => exact Nat.le_refl _
  | hit s hp hv ih =>
    rw [sanitizeTracerPid_nonZero hp hv]
    have htail := Nat.le_trans (lit_passOver ih) (lit_dropWhile (· ≠ newline) (behindValue s))
    have h := lit_rewritten (n := (tracerValue s).length - 1 +
      ((behindValue s).takeWhile (· ≠ newline)).length) hp htail
    omega
  | miss s hp hv ih =>
    have hs := congrArg lit (tracer_parts hp)
    have htail := lit_passOver ih
    rw [sanitizeTracerPid_zero hp hv]
    simp only [lit_append] at hs ⊢
    omega
  | next b rest hp ih =>
    rw [sanitizeTracerPid_next hp]
    exact lit_cons_le b ih

/-- A number that is found is gone. -/
theorem lit_lt_of_meets (h : Meets s) : lit (sanitizeTracerPid s) < lit s := by
  induction h with
  | here s hp hv =>
    rw [sanitizeTracerPid_nonZero hp hv]
    have htail := Nat.le_trans (lit_passOver fun b rest _ => lit_sanitizeTracerPid rest)
      (lit_dropWhile (· ≠ newline) (behindValue s))
    have h := lit_rewritten (n := (tracerValue s).length - 1 +
      ((behindValue s).takeWhile (· ≠ newline)).length) hp htail
    have hpos := lit_pos_of_nonZero hv
    omega
  | behind s b rest hp hv heq _ ih =>
    have hs := congrArg lit (tracer_parts hp)
    rw [sanitizeTracerPid_zero hp hv, heq]
    rw [heq] at hs
    show lit (_ ++ b :: sanitizeTracerPid rest) < lit s
    have hb : lit (b :: rest) = lit [b] + lit rest := lit_append [b] rest
    have hb' : lit (b :: sanitizeTracerPid rest) = lit [b] + lit (sanitizeTracerPid rest) :=
      lit_append [b] _
    simp only [lit_append] at hs ⊢
    omega
  | next b rest hp _ ih =>
    rw [sanitizeTracerPid_next hp]
    have hb : lit (b :: rest) = lit [b] + lit rest := lit_append [b] rest
    have hb' : lit (b :: sanitizeTracerPid rest) = lit [b] + lit (sanitizeTracerPid rest) :=
      lit_append [b] _
    omega

/-! ### Blanked lines -/

theorem afterRuns_suffix {n : Nat} {path : List UInt8} (h : afterRuns n s = some path) :
    path <:+ s := by
  induction n generalizing s with
  | zero =>
    rw [afterRuns, Option.some.injEq] at h
    rw [h]
  | succ n ih =>
    rw [afterRuns] at h
    cases hrun : s.dropWhile (!isBlank ·) with
    | nil =>
      rw [hrun] at h
      exact absurd h (Option.some_ne_none _).symm
    | cons b run =>
      rw [hrun] at h
      have hs := List.dropWhile_suffix (l := s) (!isBlank ·)
      rw [hrun] at hs
      exact ((ih h).trans (List.dropWhile_suffix _)).trans hs

/-- What stands before the pathname. -/
def columns (line : List UInt8) : List UInt8 :=
  line.take (line.length - ((pathname line).getD []).length)

theorem columns_append {path : List UInt8} (h : pathname line = some path) :
    columns line ++ path = line := by
  obtain ⟨t, ht⟩ := afterRuns_suffix h
  rw [columns, h, Option.getD_some, ← ht, List.length_append, Nat.add_sub_cancel, List.take_left]

theorem sanitizeLine_of_not_marked (h : ¬ marked line) : sanitizeLine line = line := by
  rw [sanitizeLine]
  cases hp : pathname line with
  | none => rfl
  | some path =>
    have hpath : ¬ hasMarker path := by
      rw [marked, hp] at h
      exact h
    exact if_neg hpath

theorem sanitizeLine_of_marked {path : List UInt8} (hp : pathname line = some path)
    (h : hasMarker path) : sanitizeLine line = columns line ++ spaces path.length := by
  rw [sanitizeLine, columns, hp]
  exact if_pos h

theorem marked_iff : marked line ↔ ∃ path, pathname line = some path ∧ hasMarker path := by
  rw [marked, Option.any_eq_true]

@[simp] theorem length_sanitizeLine (line : List UInt8) : (sanitizeLine line).length = line.length := by
  by_cases h : marked line
  · obtain ⟨path, hp, hm⟩ := marked_iff.1 h
    rw [sanitizeLine_of_marked hp hm]
    conv_rhs => rw [← columns_append hp]
    rw [List.length_append, List.length_append, spaces, List.length_replicate]
  · rw [sanitizeLine_of_not_marked h]

/-- A marker is no blank text. -/
theorem not_hasMarker_spaces (n : Nat) : ¬ hasMarker (spaces n) := by
  intro h
  obtain ⟨m, hm, hin⟩ := List.any_eq_true.1 h
  have hmarkers : ∀ m ∈ kMarkers, ∃ b ∈ m, b ≠ space := by decide
  obtain ⟨b, hb, hne⟩ := hmarkers m hm
  exact hne (List.eq_of_mem_replicate ((of_decide_eq_true hin).subset hb))

theorem sanitizeLine_eq_iff : sanitizeLine line = line ↔ ¬ marked line := by
  refine ⟨fun h hmarked => ?_, sanitizeLine_of_not_marked⟩
  obtain ⟨path, hp, hm⟩ := marked_iff.1 hmarked
  rw [sanitizeLine_of_marked hp hm] at h
  have hpath : spaces path.length = path := by
    have hline : columns line ++ spaces path.length = columns line ++ path := by
      rw [h, columns_append hp]
    exact List.append_cancel_left hline
  rw [← hpath] at hm
  exact not_hasMarker_spaces _ hm

theorem lit_sanitizeLine (line : List UInt8) : lit (sanitizeLine line) ≤ lit line := by
  by_cases h : marked line
  · obtain ⟨path, hp, hm⟩ := marked_iff.1 h
    rw [sanitizeLine_of_marked hp hm]
    conv_rhs => rw [← columns_append hp]
    rw [lit_append, lit_append, lit_spaces]
    omega
  · rw [sanitizeLine_of_not_marked h]

theorem lit_sanitizeMapsFrom (line s : List UInt8) :
    lit (sanitizeMapsFrom line s) ≤ lit line + lit s := by
  induction s generalizing line with
  | nil => exact Nat.le_refl _
  | cons b rest ih =>
    have hcons : lit (b :: rest) = lit [b] + lit rest := lit_append [b] rest
    rw [sanitizeMapsFrom]
    by_cases hb : b = newline
    · have h := ih []
      have hline := lit_sanitizeLine line
      have hnil : lit [] = 0 := rfl
      have hnew : lit (newline :: sanitizeMapsFrom [] rest) = lit [newline] +
        lit (sanitizeMapsFrom [] rest) := lit_append [newline] _
      rw [if_pos hb, lit_append]
      rw [hb] at hcons ⊢
      omega
    · have h := ih (line ++ [b])
      rw [lit_append] at h
      rw [if_neg hb]
      omega

/-- The line ends of a buffer stay where they are. -/
theorem sanitizeMapsFrom_cons_newline (line rest : List UInt8) :
    sanitizeMapsFrom line (newline :: rest) = sanitizeLine line ++ newline :: sanitizeMapsFrom [] rest :=
  if_pos rfl

theorem sanitizeMapsFrom_cons (hb : b ≠ newline) (line rest : List UInt8) :
    sanitizeMapsFrom line (b :: rest) = sanitizeMapsFrom (line ++ [b]) rest :=
  if_neg hb

theorem sanitizeMapsFrom_eq_iff (line s : List UInt8) :
    sanitizeMapsFrom line s = line ++ s ↔
      ∀ p ∈ Lines.pieces newline line s, p.ended → ¬ marked p.text := by
  induction s generalizing line with
  | nil =>
    rw [sanitizeMapsFrom, List.append_nil, Lines.pieces]
    refine ⟨fun _ p hp hended => ?_, fun _ => rfl⟩
    rw [List.mem_singleton.1 hp] at hended
    exact absurd hended Bool.false_ne_true
  | cons b rest ih =>
    by_cases hb : b = newline
    · rw [hb, sanitizeMapsFrom_cons_newline, Lines.pieces_sep, List.forall_mem_cons, ← ih []]
      constructor
      · intro h
        obtain ⟨hline, hrest⟩ := List.append_inj h (length_sanitizeLine line)
        exact ⟨fun _ => sanitizeLine_eq_iff.1 hline, (List.cons.inj hrest).2⟩
      · intro h
        rw [sanitizeLine_of_not_marked (h.1 rfl), h.2]
        rfl
    · rw [sanitizeMapsFrom_cons hb, Lines.pieces_cons hb, ← ih, List.append_assoc]
      rfl

theorem sanitizeMaps_eq_iff (s : List UInt8) :
    sanitizeMaps s = s ↔ ∀ p ∈ Lines.pieces newline [] s, p.ended → ¬ marked p.text :=
  sanitizeMapsFrom_eq_iff [] s

theorem lit_sanitizeMaps (s : List UInt8) : lit (sanitizeMaps s) ≤ lit s := by
  have h := lit_sanitizeMapsFrom [] s
  have hnil : lit [] = 0 := rfl
  rw [hnil, Nat.zero_add] at h
  exact h

/-- The second sanitizer does not bring back what the first one took. -/
theorem sanitize_eq_iff (s : List UInt8) :
    sanitizeMaps (sanitizeTracerPid s) = s ↔
      ¬ Meets s ∧ ∀ p ∈ Lines.pieces newline [] s, p.ended → ¬ marked p.text := by
  constructor
  · intro h
    have hmeets : ¬ Meets s := by
      intro hm
      have hlt := lit_lt_of_meets hm
      have hle := lit_sanitizeMaps (sanitizeTracerPid s)
      rw [h] at hle
      omega
    rw [sanitizeTracerPid_of_not_meets hmeets, sanitizeMaps_eq_iff] at h
    exact ⟨hmeets, h⟩
  · rintro ⟨hmeets, hlines⟩
    rw [sanitizeTracerPid_of_not_meets hmeets, sanitizeMaps_eq_iff]
    exact hlines

/-! ### Reads of other files -/

/-- A read comes back as it was exactly if the bytes it returned hold no number the scan finds and no
complete line whose sixth column names a marker. What the descriptor refers to makes no difference. -/
theorem newRead_unchanged_iff (ret : Int) (buf : List UInt8) :
    newRead ret buf = (ret, buf) ↔
      ¬ Meets (buf.take ret.toNat) ∧
        ∀ p ∈ Lines.pieces newline [] (buf.take ret.toNat), p.ended → ¬ marked p.text := by
  rw [← sanitize_eq_iff, newRead]
  by_cases hret : ret > 0
  · rw [if_pos hret, Prod.mk.injEq]
    conv_lhs => rhs; rhs; rw [← List.take_append_drop ret.toNat buf]
    constructor
    · intro h
      exact List.append_cancel_right h.2
    · intro h
      exact ⟨rfl, congrArg (· ++ _) h⟩
  · have hzero : ret.toNat = 0 := by omega
    rw [if_neg hret, hzero, List.take_zero]
    exact ⟨fun _ => rfl, fun _ => rfl⟩

/-- A note in a regular file loses its number. -/
theorem newRead_note :
    newRead 13 (ascii "TracerPid:\t7\n") ≠ (13, ascii "TracerPid:\t7\n") := by
  decide

end OnyxZygisk.Loader
