import Mathlib.Algebra.Group.Nat.Defs
import Mathlib.Data.List.Basic
import Mathlib.Data.List.Infix
import Mathlib.Tactic.Common
import OnyxZygisk.Lib.Lines

/-!
# Text a program parses

The string functions of the Rust standard library a daemon reads its files with (`trim`, `split`,
`strip_suffix`, `contains`, integer `parse`), and the round trip of a record printed with separators.
They go through the list of characters, so the kernel evaluates them.
-/

namespace Text

/-- Unicode `White_Space`. -/
def isWhitespace (c : Char) : Bool :=
  (9 ≤ c.toNat && c.toNat ≤ 13) || c.toNat == 0x20 || c.toNat == 0x85 || c.toNat == 0xa0 ||
    c.toNat == 0x1680 || (0x2000 ≤ c.toNat && c.toNat ≤ 0x200a) || c.toNat == 0x2028 ||
    c.toNat == 0x2029 || c.toNat == 0x202f || c.toNat == 0x205f || c.toNat == 0x3000

def trimEnd (cs : List Char) : List Char := (cs.reverse.dropWhile isWhitespace).reverse

def trim (s : String) : String := String.ofList (trimEnd (s.toList.dropWhile isWhitespace))

def split (sep : Char) (s : String) : List String := (s.toList.splitOn sep).map String.ofList

def stripSuffix (suffix s : String) : Option String :=
  if suffix.toList <:+ s.toList then
    some (String.ofList (s.toList.take (s.toList.length - suffix.toList.length)))
  else none

def stripPrefix (front s : String) : Option String :=
  if front.toList <+: s.toList then some (String.ofList (s.toList.drop front.toList.length)) else none

/-- `char::is_ascii_whitespace`. -/
def isAsciiWhitespace (c : Char) : Bool := c = ' ' || c = '\t' || c = '\n' || c = '\x0c' || c = '\r'

/-- `str::split_ascii_whitespace`. -/
def splitAsciiWhitespace (cs : List Char) : List (List Char) := (cs.splitOnP isAsciiWhitespace).filter (· ≠ [])

def contains (needle s : String) : Bool := decide (needle.toList <:+: s.toList)

/-- What follows the first occurrence of `needle`. -/
def after (needle : List Char) : List Char → Option (List Char)
  | [] => if needle = [] then some [] else none
  | c :: cs =>
    if needle <+: c :: cs then some ((c :: cs).drop needle.length) else after needle cs

/-- What stands before and behind the last occurrence of `sep`. -/
def rsplitOnce (sep : Char) : List Char → Option (List Char × List Char)
  | [] => none
  | c :: cs =>
    match rsplitOnce sep cs with
    | some (front, back) => some (c :: front, back)
    | none => if c = sep then some ([], cs) else none

/-- A line without the carriage return at its end. -/
def stripCr (line : List Char) : List Char :=
  if line.getLast? = some '\r' then line.dropLast else line

/-- `str::lines`: a carriage return in front of the line feed belongs to the line's end. -/
def lines (s : String) : List String :=
  ((Lines.pieces '\n' [] s.toList).filter fun p => p.ended || p.text ≠ []).map fun p =>
    String.ofList (if p.ended then stripCr p.text else p.text)

/-! ### Classes of characters -/

theorem isUpper_iff {c : Char} : c.isUpper = true ↔ 65 ≤ c.toNat ∧ c.toNat ≤ 90 := by
  have h : c.isUpper = decide (c.val ≥ 'A'.val ∧ c.val ≤ 'Z'.val) := rfl
  rw [h, decide_eq_true_iff]
  exact Iff.rfl

theorem isLower_iff {c : Char} : c.isLower = true ↔ 97 ≤ c.toNat ∧ c.toNat ≤ 122 := by
  have h : c.isLower = (decide (c.val ≥ 'a'.val) && decide (c.val ≤ 'z'.val)) := rfl
  rw [h, Bool.and_eq_true, decide_eq_true_iff, decide_eq_true_iff]
  exact Iff.rfl

theorem isDigit_iff {c : Char} : c.isDigit = true ↔ 48 ≤ c.toNat ∧ c.toNat ≤ 57 := by
  have h : c.isDigit = (decide (c.val ≥ '0'.val) && decide (c.val ≤ '9'.val)) := rfl
  rw [h, Bool.and_eq_true, decide_eq_true_iff, decide_eq_true_iff]
  exact Iff.rfl

theorem isAlphanum_iff {c : Char} :
    c.isAlphanum = true ↔ (c.isUpper = true ∨ c.isLower = true) ∨ c.isDigit = true := by
  have h : c.isAlphanum = (c.isUpper || c.isLower || c.isDigit) := rfl
  rw [h, Bool.or_eq_true, Bool.or_eq_true]

/-! ### Integers -/

def digits (cs : List Char) : Option Nat :=
  if cs ≠ [] ∧ cs.all Char.isDigit then some (Nat.ofDigitChars 10 cs 0) else none

/-- `str::parse::<u8>()`. -/
def parseU8 (s : String) : Option UInt8 :=
  let cs := match s.toList with
    | '+' :: cs => cs
    | cs => cs
  (digits cs).bind fun n => if n < 2 ^ 8 then some (UInt8.ofNat n) else none

/-- `str::parse::<u32>()`. -/
def parseU32 (s : String) : Option UInt32 :=
  let cs := match s.toList with
    | '+' :: cs => cs
    | cs => cs
  (digits cs).bind fun n => if n < 2 ^ 32 then some (UInt32.ofNat n) else none

/-- `str::parse::<u64>()`. -/
def parseU64 (s : String) : Option UInt64 :=
  let cs := match s.toList with
    | '+' :: cs => cs
    | cs => cs
  (digits cs).bind fun n => if n < 2 ^ 64 then some (UInt64.ofNat n) else none

/-- `str::parse::<i32>()`. -/
def parseI32 (s : String) : Option Int32 :=
  match s.toList with
  | '-' :: cs => (digits cs).bind fun n => if n ≤ 2 ^ 31 then some (Int32.ofInt (-n)) else none
  | '+' :: cs => (digits cs).bind fun n => if n < 2 ^ 31 then some (Int32.ofInt n) else none
  | cs => (digits cs).bind fun n => if n < 2 ^ 31 then some (Int32.ofInt n) else none

def printU32 (n : UInt32) : String := n.toNat.repr

def printU64 (n : UInt64) : String := n.toNat.repr

def printI32 (z : Int32) : String :=
  if z.toInt < 0 then "-" ++ z.toInt.natAbs.repr else z.toInt.natAbs.repr

theorem digits_toDigits (n : Nat) : digits (Nat.toDigits 10 n) = some n := by
  have hall : (Nat.toDigits 10 n).all Char.isDigit = true := by
    rw [List.all_eq_true]
    exact fun c hc => Nat.isDigit_of_mem_toDigits (by decide) (by decide) hc
  rw [digits, if_pos ⟨Nat.toDigits_ne_nil, hall⟩, Nat.ofDigitChars_ten_toDigits]

/-- No sign stands in front of a printed natural number. -/
theorem toDigits_head (n : Nat) :
    ∃ c cs, Nat.toDigits 10 n = c :: cs ∧ c.isDigit = true := by
  cases h : Nat.toDigits 10 n with
  | nil => exact absurd h Nat.toDigits_ne_nil
  | cons c cs =>
    exact ⟨c, cs, rfl, Nat.isDigit_of_mem_toDigits (by decide) (by decide)
      (h ▸ List.mem_cons_self : c ∈ Nat.toDigits 10 n)⟩

theorem stripPlus_repr (n : Nat) :
    (match n.repr.toList with
      | '+' :: cs => cs
      | cs => cs) = Nat.toDigits 10 n := by
  obtain ⟨c, cs, hd, hc⟩ := toDigits_head n
  rw [Nat.toList_repr, hd]
  split
  · rename_i h
    obtain ⟨rfl, -⟩ := List.cons.inj h
    simp [Char.isDigit] at hc
  · rfl

theorem parseU32_printU32 (n : UInt32) : parseU32 (printU32 n) = some n := by
  simp only [parseU32, printU32, stripPlus_repr, digits_toDigits, Option.bind_some]
  rw [if_pos n.toNat_lt, UInt32.ofNat_toNat]

theorem parseU64_printU64 (n : UInt64) : parseU64 (printU64 n) = some n := by
  simp only [parseU64, printU64, stripPlus_repr, digits_toDigits, Option.bind_some]
  rw [if_pos n.toNat_lt, UInt64.ofNat_toNat]

theorem parseI32_printI32 (z : Int32) : parseI32 (printI32 z) = some z := by
  have hlo := z.le_toInt
  have hhi := z.toInt_lt
  unfold printI32
  split_ifs with hz
  · have hl : ("-" ++ z.toInt.natAbs.repr).toList = '-' :: Nat.toDigits 10 z.toInt.natAbs := by
      rw [String.toList_append, Nat.toList_repr]
      rfl
    simp only [parseI32, hl, digits_toDigits, Option.bind_some]
    rw [if_pos (by omega)]
    have habs : -(z.toInt.natAbs : Int) = z.toInt := by omega
    rw [habs, Int32.ofInt_toInt]
  · obtain ⟨c, cs, hd, hc⟩ := toDigits_head z.toInt.natAbs
    have habs : (z.toInt.natAbs : Int) = z.toInt := by omega
    simp only [parseI32, Nat.toList_repr, hd]
    split
    · rename_i h
      obtain ⟨rfl, -⟩ := List.cons.inj h
      simp [Char.isDigit] at hc
    · rename_i h
      obtain ⟨rfl, -⟩ := List.cons.inj h
      simp [Char.isDigit] at hc
    · rw [← hd, digits_toDigits, Option.bind_some, if_pos (by omega), habs, Int32.ofInt_toInt]

/-- What a printed integer consists of. -/
theorem mem_printU32 {n : UInt32} {c : Char} (h : c ∈ (printU32 n).toList) : c.isDigit = true := by
  rw [printU32, Nat.toList_repr] at h
  exact Nat.isDigit_of_mem_toDigits (by decide) (by decide) h

theorem mem_printI32 {z : Int32} {c : Char} (h : c ∈ (printI32 z).toList) :
    c = '-' ∨ c.isDigit = true := by
  have hdigit : ∀ n : Nat, c ∈ n.repr.toList → c.isDigit = true := by
    intro n hn
    rw [Nat.toList_repr] at hn
    exact Nat.isDigit_of_mem_toDigits (by decide) (by decide) hn
  unfold printI32 at h
  split_ifs at h
  · rw [String.toList_append] at h
    rcases List.mem_append.1 h with h | h
    · left
      simpa using h
    · exact .inr (hdigit _ h)
  · exact .inr (hdigit _ h)

theorem printU32_ne_nil (n : UInt32) : (printU32 n).toList ≠ [] := by
  rw [printU32, Nat.toList_repr]
  exact Nat.toDigits_ne_nil

/-! ### Lines -/

theorem stripCr_of_getLast? {line : List Char} (h : line.getLast? ≠ some '\r') : stripCr line = line :=
  if_neg h

theorem lines_line {line : List Char} (h : '\n' ∉ line) (rest : String) :
    lines (String.ofList (line ++ ['\n']) ++ rest) = String.ofList (stripCr line) :: lines rest := by
  have htext : (String.ofList (line ++ ['\n']) ++ rest).toList = line ++ '\n' :: rest.toList := by
    rw [String.toList_append, String.toList_ofList, List.append_assoc]
    rfl
  rw [lines, htext, Lines.pieces_line h]
  rfl

/-- No line holds a line feed. -/
theorem lf_not_mem_lines {s line : String} (h : line ∈ lines s) : '\n' ∉ line.toList := by
  obtain ⟨p, hp, rfl⟩ := List.mem_map.1 h
  have htext : '\n' ∉ p.text := Lines.sep_not_mem List.not_mem_nil (List.mem_filter.1 hp).1
  rw [String.toList_ofList]
  unfold stripCr
  split
  · split
    · exact fun hmem => htext (List.mem_of_mem_dropLast hmem)
    · exact htext
  · exact htext

/-! ### Trimming, splitting, suffixes -/

theorem dropWhile_of_head {p : Char → Bool} {cs : List Char} (h : ∀ c ∈ cs.head?, p c = false) :
    cs.dropWhile p = cs := by
  cases cs with
  | nil => rfl
  | cons c cs => rw [List.dropWhile_cons_of_neg (by simp [h c (by simp)])]

theorem trim_eq_self {s : String} (hhead : ∀ c ∈ s.toList.head?, isWhitespace c = false)
    (hlast : ∀ c ∈ s.toList.getLast?, isWhitespace c = false) : trim s = s := by
  rw [trim, dropWhile_of_head hhead, trimEnd, dropWhile_of_head (by simpa using hlast)]
  simp

theorem trim_of_dense {s : String} (h : ∀ c ∈ s.toList, isWhitespace c = false) : trim s = s :=
  trim_eq_self (fun c hc => h c (List.mem_of_head? hc)) (fun c hc => h c (List.mem_of_getLast? hc))

/-- A line without white space, as it is read with its newline. -/
theorem trim_line {s : String} (hne : s ≠ "") (h : ∀ c ∈ s.toList, isWhitespace c = false) :
    trim (s ++ "\n") = s := by
  have hhead : (s.toList ++ ['\n']).dropWhile isWhitespace = s.toList ++ ['\n'] := by
    refine dropWhile_of_head fun c hc => h c ?_
    rw [List.head?_append_of_ne_nil _ (fun hnil => hne (String.toList_injective hnil))] at hc
    exact List.mem_of_head? hc
  have hlast : s.toList.reverse.dropWhile isWhitespace = s.toList.reverse := by
    refine dropWhile_of_head fun c hc => h c ?_
    rw [List.head?_reverse] at hc
    exact List.mem_of_getLast? hc
  rw [trim, String.toList_append]
  change String.ofList (trimEnd ((s.toList ++ ['\n']).dropWhile isWhitespace)) = s
  rw [hhead, trimEnd, List.reverse_append, List.reverse_singleton, List.singleton_append,
    List.dropWhile_cons_of_pos (by decide), hlast, List.reverse_reverse, String.ofList_toList]

/-- A trimmed text does not start with white space. -/
theorem head_trim (s : String) : ∀ c ∈ (trim s).toList.head?, isWhitespace c = false := by
  intro c hc
  have hpre : trimEnd (s.toList.dropWhile isWhitespace) <+: s.toList.dropWhile isWhitespace := by
    rw [trimEnd, ← List.reverse_suffix, List.reverse_reverse]
    exact List.dropWhile_suffix _
  rw [trim, String.toList_ofList] at hc
  obtain ⟨r, hr⟩ := hpre
  cases ht : trimEnd (s.toList.dropWhile isWhitespace) with
  | nil => simp [ht] at hc
  | cons d ds =>
    obtain rfl : d = c := by simpa [ht] using hc
    have hd : (s.toList.dropWhile isWhitespace).head? = some d := by
      rw [← hr, ht]
      rfl
    have hnot := List.head?_dropWhile_not isWhitespace s.toList
    rw [hd] at hnot
    simpa using hnot

/-- Nor does it end with white space. -/
theorem getLast?_trim (s : String) : ∀ c ∈ (trim s).toList.getLast?, isWhitespace c = false := by
  intro c hc
  rw [trim, String.toList_ofList, trimEnd, List.getLast?_reverse] at hc
  have hnot := List.head?_dropWhile_not isWhitespace (s.toList.dropWhile isWhitespace).reverse
  rw [hc] at hnot
  simpa using hnot

theorem mem_of_mem_trim {s : String} {c : Char} (h : c ∈ (trim s).toList) : c ∈ s.toList := by
  rw [trim, String.toList_ofList, trimEnd, List.mem_reverse] at h
  have hrev := List.mem_reverse.1 ((List.dropWhile_sublist _).mem h)
  exact (List.dropWhile_sublist _).mem hrev

theorem stripSuffix_append (s suffix : String) : stripSuffix suffix (s ++ suffix) = some s := by
  simp [stripSuffix]

theorem stripSuffix_eq_some {suffix s t : String} :
    stripSuffix suffix s = some t ↔ s = t ++ suffix := by
  constructor
  · intro h
    unfold stripSuffix at h
    split_ifs at h with hs
    obtain ⟨r, hr⟩ := hs
    obtain rfl := Option.some.inj h
    apply String.toList_injective
    simp [← hr]
  · rintro rfl
    exact stripSuffix_append t suffix

/-- The text after the last dot of a dotted name determines both sides. -/
theorem append_dot_inj {a b s t : List Char} (hs : '.' ∉ s) (ht : '.' ∉ t)
    (h : a ++ '.' :: s = b ++ '.' :: t) : a = b ∧ s = t := by
  rcases List.append_eq_append_iff.1 h with ⟨r, rfl, hr⟩ | ⟨r, rfl, hr⟩
  · cases r with
    | nil => simpa using hr
    | cons c r =>
      obtain ⟨rfl, rfl⟩ := List.cons.inj hr
      exact absurd (by simp) hs
  · cases r with
    | nil => simpa [eq_comm] using hr
    | cons c r =>
      obtain ⟨rfl, rfl⟩ := List.cons.inj hr
      exact absurd (by simp) ht

theorem sep_not_mem_split {sep : Char} {s part : String} (h : part ∈ split sep s) :
    sep ∉ part.toList := by
  obtain ⟨cs, hcs, rfl⟩ := List.mem_map.1 h
  rw [String.toList_ofList]
  have hparts : ∀ cs ∈ s.toList.splitOn sep, sep ∉ cs := by
    refine @Lines.line_induction Char _ sep (fun text => ∀ cs ∈ text.splitOn sep, sep ∉ cs)
      (fun x hx => ?_) (fun x rest hx ih => ?_) s.toList
    · rw [List.splitOn_eq_singleton hx]
      exact fun cs hcs => List.mem_singleton.1 hcs ▸ hx
    · rw [List.splitOn_append_cons_self_of_not_mem hx, List.forall_mem_cons]
      exact ⟨hx, ih⟩
  exact hparts cs hcs

/-- A part of a list stands in it. -/
theorem infix_of_mem_splitOn {α : Type} [DecidableEq α] {sep : α} {part text : List α} (h : part ∈ text.splitOn sep) :
    part <:+: text := by
  have hparts : ∀ part ∈ text.splitOn sep, part <:+: text := by
    refine @Lines.line_induction α _ sep (fun text => ∀ part ∈ text.splitOn sep, part <:+: text)
      (fun x hx => ?_) (fun x rest hx ih => ?_) text
    · rw [List.splitOn_eq_singleton hx]
      exact fun part hpart => List.mem_singleton.1 hpart ▸ List.infix_rfl
    · rw [List.splitOn_append_cons_self_of_not_mem hx, List.forall_mem_cons]
      refine ⟨(List.prefix_append x _).isInfix, fun part hpart => (ih part hpart).trans ?_⟩
      exact ((List.suffix_cons sep rest).trans (List.suffix_append x _)).isInfix
  exact hparts part h

theorem infix_of_mem_split {sep : Char} {s part : String} (h : part ∈ split sep s) : part.toList <:+: s.toList := by
  obtain ⟨cs, hcs, rfl⟩ := List.mem_map.1 h
  rw [String.toList_ofList]
  exact infix_of_mem_splitOn hcs

theorem stripPrefix_eq_some {front s rest : String} (h : stripPrefix front s = some rest) : s = front ++ rest := by
  unfold stripPrefix at h
  split_ifs at h with hfront
  obtain ⟨tail, htail⟩ := hfront
  rw [← Option.some.inj h, ← htail, List.drop_left, ← String.toList_inj, String.toList_append,
    String.toList_ofList, htail]

theorem split_cons {sep : Char} {a : String} (b : String) (h : sep ∉ a.toList) :
    split sep (a ++ String.singleton sep ++ b) = a :: split sep b := by
  have hl : (a ++ String.singleton sep ++ b).toList = a.toList ++ sep :: b.toList := by simp
  rw [split, hl, List.splitOn_append_cons_self_of_not_mem h]
  simp [split]

theorem split_single {sep : Char} {a : String} (h : sep ∉ a.toList) : split sep a = [a] := by
  rw [split, List.splitOn_eq_singleton h]
  simp

/-- Splitting finds the parts that were joined. -/
theorem split_intercalate {sep : Char} {parts : List String} (hne : parts ≠ [])
    (h : ∀ p ∈ parts, sep ∉ p.toList) : split sep ((String.singleton sep).intercalate parts) = parts := by
  rw [split, String.toList_intercalate, String.toList_singleton, List.splitOn_intercalate]
  · rw [List.map_map]
    exact List.map_id'' (fun p => String.ofList_toList) parts
  · intro cs hcs
    obtain ⟨p, hp, rfl⟩ := List.mem_map.1 hcs
    exact h p hp
  · exact fun hnil => hne (List.map_eq_nil_iff.1 hnil)

theorem mem_intercalate {sep : Char} {parts : List String} {c : Char}
    (h : c ∈ ((String.singleton sep).intercalate parts).toList) : c = sep ∨ ∃ p ∈ parts, c ∈ p.toList := by
  induction parts with
  | nil => simp at h
  | cons p parts ih =>
    cases parts with
    | nil =>
      rw [String.intercalate_singleton] at h
      exact .inr ⟨p, List.mem_singleton_self p, h⟩
    | cons p' parts =>
      rw [String.intercalate_cons_cons, String.toList_append, String.toList_append, List.mem_append,
        List.mem_append, String.toList_singleton, List.mem_singleton] at h
      rcases h with (h | h) | h
      · exact .inr ⟨p, List.mem_cons_self, h⟩
      · exact .inl h
      · rcases ih h with h | ⟨p'', hp'', h⟩
        · exact .inl h
        · exact .inr ⟨p'', List.mem_cons_of_mem p hp'', h⟩

theorem after_char {sep : Char} {front : List Char} (h : sep ∉ front) (back : List Char) :
    after [sep] (front ++ sep :: back) = some back := by
  induction front with
  | nil =>
    have hprefix : [sep] <+: sep :: back := List.prefix_append [sep] back
    rw [List.nil_append, after, if_pos hprefix]
    rfl
  | cons c front ih =>
    rw [List.mem_cons, not_or] at h
    rw [List.cons_append, after, if_neg, ih h.2]
    exact fun hprefix => h.1 (List.cons_prefix_cons.1 hprefix).1

theorem rsplitOnce_eq_none {sep : Char} {cs : List Char} (h : sep ∉ cs) : rsplitOnce sep cs = none := by
  induction cs with
  | nil => rfl
  | cons c cs ih =>
    rw [List.mem_cons, not_or] at h
    simp only [rsplitOnce, ih h.2]
    exact if_neg (Ne.symm h.1)

theorem rsplitOnce_append {sep : Char} {back : List Char} (h : sep ∉ back) (front : List Char) :
    rsplitOnce sep (front ++ sep :: back) = some (front, back) := by
  induction front with
  | nil =>
    simp only [List.nil_append, rsplitOnce, rsplitOnce_eq_none h]
    rfl
  | cons c front ih => simp only [List.cons_append, rsplitOnce, ih]

theorem splitAsciiWhitespace_cons {c : Char} (hc : isAsciiWhitespace c) (cs : List Char) :
    splitAsciiWhitespace (c :: cs) = splitAsciiWhitespace cs := by
  rw [splitAsciiWhitespace, List.splitOnP_cons_eq_if_modifyHead, if_pos hc, List.filter_cons_of_neg (by simp), ← splitAsciiWhitespace]

theorem splitAsciiWhitespace_word {word : List Char} (hne : word ≠ [])
    (hword : ∀ c ∈ word, isAsciiWhitespace c = false) {c : Char} (hc : isAsciiWhitespace c) (cs : List Char) :
    splitAsciiWhitespace (word ++ c :: cs) = word :: splitAsciiWhitespace cs := by
  rw [splitAsciiWhitespace, List.splitOnP_append_cons_of_forall_mem hword c hc,
    List.filter_cons_of_pos (by simpa using hne), ← splitAsciiWhitespace]

/-- The line of some fields, with a blank before each. -/
def fieldLine (fields : List (List Char)) : List Char := fields.flatMap (' ' :: ·) ++ ['\n']

theorem fieldLine_head (fields : List (List Char)) :
    ∃ c cs, fieldLine fields = c :: cs ∧ isAsciiWhitespace c := by
  cases fields with
  | nil => exact ⟨'\n', [], rfl, rfl⟩
  | cons field fields => exact ⟨' ', field ++ fieldLine fields, by simp [fieldLine], rfl⟩

/-- Splitting finds the fields. -/
theorem splitAsciiWhitespace_fieldLine {fields : List (List Char)}
    (h : ∀ field ∈ fields, field ≠ [] ∧ ∀ c ∈ field, isAsciiWhitespace c = false) :
    splitAsciiWhitespace (fieldLine fields) = fields := by
  induction fields with
  | nil => rfl
  | cons field fields ih =>
    rw [List.forall_mem_cons] at h
    have hline : fieldLine (field :: fields) = ' ' :: (field ++ fieldLine fields) := by simp [fieldLine]
    obtain ⟨c, cs, hrest, hc⟩ := fieldLine_head fields
    rw [hline, splitAsciiWhitespace_cons rfl, hrest, splitAsciiWhitespace_word h.1.1 h.1.2 hc,
      ← splitAsciiWhitespace_cons hc, ← hrest, ih h.2]

theorem mem_fieldLine {fields : List (List Char)} {c : Char} (h : c ∈ fieldLine fields) :
    isAsciiWhitespace c ∨ ∃ field ∈ fields, c ∈ field := by
  rcases List.mem_append.1 h with h | h
  · obtain ⟨field, hfield, hc⟩ := List.mem_flatMap.1 h
    rcases List.mem_cons.1 hc with rfl | hc
    · exact .inl rfl
    · exact .inr ⟨field, hfield, hc⟩
  · rw [List.mem_singleton.1 h]
    exact .inl rfl

end Text
