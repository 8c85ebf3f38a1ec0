import Mathlib.Algebra.Group.Nat.Defs
import Mathlib.Data.List.TakeWhile
import Mathlib.Tactic.Common

/-!
# Extraction from a stream

What `>>` and `getline` take from a stream of bytes, in the C locale, and what they give on fields that stand
between single blanks.
-/

namespace Istream

variable {b : UInt8} {s w rest : List UInt8} {n : Nat}

/-! ### Words -/

/-- `isspace` -/
def isSpace (b : UInt8) : Bool := b == 0x20 || (0x09 ≤ b && b ≤ 0x0d)

/-- `>>` into a string: the word behind any space, and what follows it. -/
def word (s : List UInt8) : Option (List UInt8 × List UInt8) :=
  let s := s.dropWhile isSpace
  if s.isEmpty then none else some (s.takeWhile fun b => !isSpace b, s.dropWhile fun b => !isSpace b)

/-- A word is not empty, and has no space in it. -/
def IsWord (w : List UInt8) : Prop := w ≠ [] ∧ ∀ b ∈ w, isSpace b = false

instance : DecidablePred IsWord := fun _ => inferInstanceAs (Decidable (_ ∧ _))

theorem head_dropWhile {p : UInt8 → Bool} (h : (s.dropWhile p).isEmpty = false) :
    ∃ b rest, s.dropWhile p = b :: rest ∧ p b = false := by
  induction s with
  | nil => nomatch h
  | cons a s ih =>
    rw [List.dropWhile_cons] at h ⊢
    split_ifs at h ⊢ with ha
    · exact ih h
    · exact ⟨a, s, rfl, Bool.eq_false_iff.2 ha⟩

theorem isWord_of_word (h : word s = some (w, rest)) : IsWord w := by
  unfold word at h
  dsimp only at h
  split_ifs at h with hempty
  obtain ⟨hw, -⟩ := Prod.mk.inj (Option.some.inj h)
  obtain ⟨b, tail, hs, hb⟩ := head_dropWhile (Bool.eq_false_iff.2 hempty)
  rw [hs] at hw
  refine ⟨?_, ?_⟩
  · rw [← hw, List.takeWhile_cons_of_pos (by rw [hb]; rfl)]
    exact List.cons_ne_nil _ _
  · intro c hc
    rw [← hw] at hc
    have hnot := List.mem_takeWhile_imp hc
    exact Bool.not_eq_true' _ ▸ hnot

/-- What is left ends the word. -/
def Ends (rest : List UInt8) : Prop := ∀ b ∈ rest.head?, isSpace b = true

theorem ends_nil : Ends [] := nofun

theorem not_space_of_all (h : w.all (fun b => !isSpace b) = true) : ∀ b ∈ w, isSpace b = false := by
  intro b hb
  exact Bool.not_eq_true' _ ▸ List.all_eq_true.1 h b hb

theorem ends_blank (s : List UInt8) : Ends (0x20 :: s) := by
  intro b hb
  rw [← Option.some.inj hb]
  decide

theorem takeWhile_word {p : UInt8 → Bool} (hw : ∀ b ∈ w, p b = true) (hrest : ∀ b ∈ rest.head?, p b = false) :
    (w ++ rest).takeWhile p = w ∧ (w ++ rest).dropWhile p = rest := by
  rw [List.takeWhile_append_of_pos hw, List.dropWhile_append_of_pos hw]
  cases rest with
  | nil => exact ⟨List.append_nil w, rfl⟩
  | cons b rest =>
    have hb : ¬ p b = true := Bool.eq_false_iff.1 (hrest b rfl)
    rw [List.takeWhile_cons_of_neg hb, List.dropWhile_cons_of_neg hb, List.append_nil]
    exact ⟨rfl, rfl⟩

theorem word_append (hw : IsWord w) (hrest : Ends rest) : word (w ++ rest) = some (w, rest) := by
  obtain ⟨hne, hspace⟩ := hw
  have hstart : (w ++ rest).dropWhile isSpace = w ++ rest := by
    cases w with
    | nil => exact absurd rfl hne
    | cons b w => exact List.dropWhile_cons_of_neg (Bool.eq_false_iff.1 (hspace b List.mem_cons_self))
  have hw : ∀ b ∈ w, (!isSpace b) = true := fun b hb => by rw [hspace b hb]; rfl
  have hr : ∀ b ∈ rest.head?, (!isSpace b) = false := fun b hb => by rw [hrest b hb]; rfl
  have hcut := takeWhile_word hw hr
  have hempty : ¬ (w ++ rest).isEmpty = true := by
    rw [List.isEmpty_iff, List.append_eq_nil_iff]
    exact fun h => hne h.1
  unfold word
  dsimp only
  rw [hstart, if_neg hempty, hcut.1, hcut.2]

theorem word_blank (s : List UInt8) : word (0x20 :: s) = word s := by
  unfold word
  rw [List.dropWhile_cons_of_pos (by decide)]

theorem word_nil : word [] = none := rfl

/-! ### Numbers -/

def isDigit (b : UInt8) : Bool := 0x30 ≤ b && b ≤ 0x39

def decimalValue (ds : List UInt8) : Nat := Nat.ofDigitChars 10 (ds.map fun b => Char.ofNat b.toNat) 0

/-- A sign, and whether it is a minus. -/
def sign : List UInt8 → Bool × List UInt8
  | 0x2d :: s => (true, s)
  | 0x2b :: s => (false, s)
  | s => (false, s)

/-- `>>` into an unsigned number of 32 bits: it fails without a digit and on overflow, and a minus negates. -/
def unsigned (s : List UInt8) : Option (Nat × List UInt8) :=
  let (negative, s) := sign (s.dropWhile isSpace)
  let digits := s.takeWhile isDigit
  let n := decimalValue digits
  if digits.isEmpty || 2 ^ 32 ≤ n then none
  else some (if negative then (2 ^ 32 - n) % 2 ^ 32 else n, s.dropWhile isDigit)

/-- `%u`: like `>>`, but without a check for overflow. -/
def scanUnsigned (s : List UInt8) : Option (Nat × List UInt8) :=
  let (negative, s) := sign (s.dropWhile isSpace)
  let digits := s.takeWhile isDigit
  let n := decimalValue digits
  if digits.isEmpty then none
  else some ((if negative then 2 ^ 32 - n % 2 ^ 32 else n) % 2 ^ 32, s.dropWhile isDigit)

/-- `%u` as the printing side writes it. -/
def decimal (n : Nat) : List UInt8 := (Nat.toDigits 10 n).map fun c => UInt8.ofNat c.toNat

theorem byte_digit {c : Char} (h : c.isDigit = true) :
    Char.ofNat (UInt8.ofNat c.toNat).toNat = c ∧ isDigit (UInt8.ofNat c.toNat) = true := by
  have hrange : c.toNat ∈ List.range' 48 10 := by
    rw [List.mem_range'_1]
    unfold Char.isDigit at h
    rw [Bool.and_eq_true, decide_eq_true_eq, decide_eq_true_eq] at h
    have hlow : 48 ≤ c.toNat := h.1
    have hhigh : c.toNat ≤ 57 := h.2
    omega
  have hall : ∀ n ∈ List.range' 48 10, (UInt8.ofNat n).toNat = n ∧ isDigit (UInt8.ofNat n) = true := by decide
  obtain ⟨hback, hdigit⟩ := hall _ hrange
  refine ⟨?_, hdigit⟩
  rw [hback]
  exact Char.ofNat_toNat c

theorem decimal_digits (n : Nat) : (∀ b ∈ decimal n, isDigit b = true) ∧ decimal n ≠ [] ∧ decimalValue (decimal n) = n := by
  have hdigit : ∀ c ∈ Nat.toDigits 10 n, c.isDigit = true := fun c hc =>
    Nat.isDigit_of_mem_toDigits (by decide) (by decide) hc
  refine ⟨?_, ?_, ?_⟩
  · intro b hb
    obtain ⟨c, hc, rfl⟩ := List.mem_map.1 hb
    exact (byte_digit (hdigit c hc)).2
  · rw [decimal, ne_eq, List.map_eq_nil_iff]
    exact Nat.toDigits_ne_nil
  · have hback : (decimal n).map (fun b => Char.ofNat b.toNat) = Nat.toDigits 10 n := by
      rw [decimal, List.map_map]
      conv_rhs => rw [← List.map_id (Nat.toDigits 10 n)]
      apply List.map_congr_left
      intro c hc
      exact (byte_digit (hdigit c hc)).1
    rw [decimalValue, hback, Nat.ofDigitChars_ten_toDigits]

theorem isDigit_not_space (h : isDigit b = true) : isSpace b = false ∧ b ≠ 0x2d ∧ b ≠ 0x2b := by
  unfold isDigit at h
  unfold isSpace
  simp only [Bool.and_eq_true, decide_eq_true_eq, UInt8.le_iff_toNat_le, UInt8.reduceToNat] at h
  simp only [Bool.or_eq_false_iff, beq_eq_false_iff_ne, Bool.and_eq_false_iff, decide_eq_false_iff_not, ne_eq,
    UInt8.le_iff_toNat_le, ← UInt8.toNat_inj, UInt8.reduceToNat]
  omega

/-- What is left ends the number. -/
def EndsDigits (rest : List UInt8) : Prop := ∀ b ∈ rest.head?, isDigit b = false

theorem cut_decimal (n : Nat) (hrest : EndsDigits rest) :
    sign ((decimal n ++ rest).dropWhile isSpace) = (false, decimal n ++ rest) ∧
      (decimal n ++ rest).takeWhile isDigit = decimal n ∧ (decimal n ++ rest).dropWhile isDigit = rest := by
  obtain ⟨hdigits, hne, -⟩ := decimal_digits n
  refine ⟨?_, takeWhile_word hdigits hrest⟩
  cases hd : decimal n with
  | nil => exact absurd hd hne
  | cons b ds =>
    obtain ⟨hspace, hminus, hplus⟩ := isDigit_not_space (hdigits b (hd ▸ List.mem_cons_self))
    rw [List.cons_append, List.dropWhile_cons_of_neg (Bool.eq_false_iff.1 hspace)]
    unfold sign
    split
    · next heq => exact absurd (List.cons.inj heq).1 hminus
    · next heq => exact absurd (List.cons.inj heq).1 hplus
    · rfl

theorem unsigned_decimal (hn : n < 2 ^ 32) (hrest : EndsDigits rest) : unsigned (decimal n ++ rest) = some (n, rest) := by
  obtain ⟨hsign, htake, hdrop⟩ := cut_decimal n hrest
  obtain ⟨-, hne, hvalue⟩ := decimal_digits n
  have hempty : (decimal n).isEmpty = false := by
    rw [← Bool.not_eq_true, List.isEmpty_iff]
    exact hne
  unfold unsigned
  rw [hsign]
  dsimp only
  rw [htake, hdrop, hvalue, hempty, decide_eq_false (Nat.not_le.2 hn)]
  rfl

theorem scanUnsigned_decimal (hn : n < 2 ^ 32) (hrest : EndsDigits rest) :
    scanUnsigned (decimal n ++ rest) = some (n, rest) := by
  obtain ⟨hsign, htake, hdrop⟩ := cut_decimal n hrest
  obtain ⟨-, hne, hvalue⟩ := decimal_digits n
  have hempty : ¬ (decimal n).isEmpty = true := by
    rw [List.isEmpty_iff]
    exact hne
  unfold scanUnsigned
  rw [hsign]
  dsimp only
  rw [htake, hdrop, hvalue, if_neg hempty, if_neg Bool.false_ne_true, Nat.mod_eq_of_lt hn]

theorem unsigned_blank (s : List UInt8) : unsigned (0x20 :: s) = unsigned s := by
  unfold unsigned
  rw [List.dropWhile_cons_of_pos (by decide)]

theorem endsDigits_blank (s : List UInt8) : EndsDigits (0x20 :: s) := by
  intro b hb
  rw [← Option.some.inj hb]
  decide

theorem isWord_decimal (n : Nat) : IsWord (decimal n) := by
  obtain ⟨hdigits, hne, -⟩ := decimal_digits n
  exact ⟨hne, fun b hb => (isDigit_not_space (hdigits b hb)).1⟩

/-! ### Lines -/

/-- The lines `getline` gives: what follows the last line feed is one unless it is empty. -/
def getlines : List UInt8 → List (List UInt8)
  | [] => []
  | b :: s =>
    if b = 0x0a then [] :: getlines s
    else
      match getlines s with
      | [] => [[b]]
      | line :: lines => (b :: line) :: lines

theorem getlines_append {line : List UInt8} (h : 0x0a ∉ line) (s : List UInt8) :
    getlines (line ++ 0x0a :: s) = line :: getlines s := by
  induction line with
  | nil => exact if_pos rfl
  | cons b line ih =>
    rw [List.mem_cons, not_or] at h
    rw [List.cons_append, getlines, if_neg (Ne.symm h.1), ih h.2]

theorem getlines_flatMap {α : Type} {line : α → List UInt8} {xs : List α} (h : ∀ x ∈ xs, 0x0a ∉ line x) :
    getlines (xs.flatMap fun x => line x ++ [0x0a]) = xs.map line := by
  induction xs with
  | nil => rfl
  | cons x xs ih =>
    rw [List.forall_mem_cons] at h
    rw [List.flatMap_cons, List.append_assoc, List.singleton_append, getlines_append h.1, ih h.2, List.map_cons]

/-- What a loop of `fgets` gives with a buffer of `size + 1` bytes, of which `room` are left: a line feed ends a
chunk, and so does a full buffer. -/
def fgetsAll (size : Nat) : Nat → List UInt8 → List (List UInt8)
  | _, [] => []
  | room, b :: s =>
    if b = 0x0a ∨ room ≤ 1 then [b] :: fgetsAll size size s
    else
      match fgetsAll size (room - 1) s with
      | [] => [[b]]
      | chunk :: chunks => (b :: chunk) :: chunks

/-- The line at which a stream stands. -/
def firstLine (s : List UInt8) : List UInt8 := (getlines s).headD []

theorem firstLine_cons {b : UInt8} (hb : b ≠ 0x0a) (s : List UInt8) : firstLine (b :: s) = b :: firstLine s := by
  rw [firstLine, firstLine, getlines, if_neg hb]
  cases getlines s <;> rfl

theorem tail_getlines_cons {b : UInt8} (hb : b ≠ 0x0a) (s : List UInt8) :
    (getlines (b :: s)).tail = (getlines s).tail := by
  rw [getlines, if_neg hb]
  cases getlines s <;> rfl

/-- The chunk that is being filled. -/
def firstChunk (size room : Nat) (s : List UInt8) : List UInt8 := (fgetsAll size room s).headD []

section Chunks

variable {size room : Nat} {s : List UInt8} {b : UInt8}

theorem fgetsAll_full (h : b = 0x0a ∨ room ≤ 1) : fgetsAll size room (b :: s) = [b] :: fgetsAll size size s := by
  rw [fgetsAll, if_pos h]

theorem firstChunk_cons (h : ¬(b = 0x0a ∨ room ≤ 1)) :
    firstChunk size room (b :: s) = b :: firstChunk size (room - 1) s := by
  rw [firstChunk, firstChunk, fgetsAll, if_neg h]
  cases fgetsAll size (room - 1) s <;> rfl

theorem tail_fgetsAll_cons (h : ¬(b = 0x0a ∨ room ≤ 1)) :
    (fgetsAll size room (b :: s)).tail = (fgetsAll size (room - 1) s).tail := by
  rw [fgetsAll, if_neg h]
  cases fgetsAll size (room - 1) s <;> rfl

/-- As far as a chunk goes it begins like its line. -/
theorem prefix_firstChunk {needle : List UInt8} (hline : 0x0a ∉ needle) (hroom : needle.length ≤ room) :
    needle <+: firstChunk size room s ↔ needle <+: firstLine s := by
  induction s generalizing needle room with
  | nil => rfl
  | cons b s ih =>
    cases needle with
    | nil => exact iff_of_true (List.nil_prefix) (List.nil_prefix)
    | cons x needle =>
      rw [List.mem_cons, not_or] at hline
      rw [List.length_cons] at hroom
      by_cases hb : b = 0x0a
      · have hchunk : firstChunk size room (b :: s) = [b] := by rw [firstChunk, fgetsAll_full (.inl hb)]; rfl
        have hfirst : firstLine (b :: s) = [] := by rw [firstLine, getlines, if_pos hb]; rfl
        rw [hchunk, hfirst, hb, List.cons_prefix_cons]
        exact iff_of_false (fun h => hline.1 h.1.symm) (fun h => List.cons_ne_nil _ _ (List.prefix_nil.1 h))
      · rw [firstLine_cons hb, List.cons_prefix_cons]
        by_cases hfull : room ≤ 1
        · have hchunk : firstChunk size room (b :: s) = [b] := by
            rw [firstChunk, fgetsAll_full (.inr hfull)]; rfl
          have hnil : needle = [] := List.eq_nil_of_length_eq_zero (by omega)
          rw [hchunk, hnil, List.cons_prefix_cons]
          exact and_congr_right fun _ => iff_of_true List.nil_prefix List.nil_prefix
        · rw [firstChunk_cons (not_or.2 ⟨hb, hfull⟩), List.cons_prefix_cons, ih hline.2 (by omega)]

theorem exists_mem_iff_headD {P : List UInt8 → Prop} (h : ¬P []) (xs : List (List UInt8)) :
    (∃ x ∈ xs, P x) ↔ P (xs.headD []) ∨ ∃ x ∈ xs.tail, P x := by
  cases xs with
  | nil => simp [h]
  | cons x xs => simp

variable {needle : List UInt8} (hne : needle ≠ []) (hline : 0x0a ∉ needle) (hsize : needle.length ≤ size)
include hne

theorem not_prefix_drop_nil : ¬∃ k, needle <+: ([] : List UInt8).drop (size * k) := by
  rintro ⟨k, hk⟩
  rw [List.drop_nil, List.prefix_nil] at hk
  exact hne hk

include hline hsize

/-- With a fresh buffer the chunks begin in their line at every multiple of its size. -/
theorem exists_prefix_of_tail
    (htail : (∃ chunk ∈ (fgetsAll size size s).tail, needle <+: chunk) ↔
      (∃ k, needle <+: (firstLine s).drop (size + size * k)) ∨
        ∃ line ∈ (getlines s).tail, ∃ k, needle <+: line.drop (size * k)) :
    (∃ chunk ∈ fgetsAll size size s, needle <+: chunk) ↔
      ∃ line ∈ getlines s, ∃ k, needle <+: line.drop (size * k) := by
  have hnil : ¬needle <+: [] := fun h => hne (List.prefix_nil.1 h)
  have hfirst : needle <+: (fgetsAll size size s).headD [] ↔ needle <+: firstLine s :=
    prefix_firstChunk hline hsize
  rw [exists_mem_iff_headD hnil, hfirst, htail, ← or_assoc,
    exists_mem_iff_headD (P := fun line => ∃ k, needle <+: line.drop (size * k)) (not_prefix_drop_nil hne)
      (getlines s)]
  refine or_congr_left ?_
  constructor
  · rintro (h | ⟨k, hk⟩)
    · exact ⟨0, h⟩
    · exact ⟨k + 1, by rwa [Nat.mul_succ, Nat.add_comm]⟩
  · rintro ⟨k, hk⟩
    cases k with
    | zero => exact .inl hk
    | succ k => exact .inr ⟨k, by rwa [Nat.mul_succ, Nat.add_comm] at hk⟩

/-- The chunks behind the one that is being filled. -/
theorem exists_prefix_tail (hroom : 1 ≤ room) :
    (∃ chunk ∈ (fgetsAll size room s).tail, needle <+: chunk) ↔
      (∃ k, needle <+: (firstLine s).drop (room + size * k)) ∨
        ∃ line ∈ (getlines s).tail, ∃ k, needle <+: line.drop (size * k) := by
  have hpos : 1 ≤ size := Nat.le_trans (List.length_pos_iff.2 hne) hsize
  induction s generalizing room with
  | nil => simp [fgetsAll, firstLine, getlines, hne]
  | cons b s ih =>
    have hfresh := exists_prefix_of_tail hne hline hsize (ih hpos)
    by_cases hb : b = 0x0a
    · have hfirst : firstLine (b :: s) = [] := by rw [firstLine, getlines, if_pos hb]; rfl
      have htail : (getlines (b :: s)).tail = getlines s := by rw [getlines, if_pos hb]; rfl
      rw [fgetsAll_full (.inl hb), List.tail_cons, hfresh, hfirst, htail]
      simp only [List.drop_nil, List.prefix_nil, hne, exists_false, false_or]
    · rw [firstLine_cons hb, tail_getlines_cons hb]
      by_cases hfull : room ≤ 1
      · rw [fgetsAll_full (.inr hfull), List.tail_cons, hfresh, exists_mem_iff_headD (not_prefix_drop_nil hne),
          Nat.le_antisymm hfull hroom]
        simp only [Nat.add_comm 1, List.drop_succ_cons]
        rfl
      · rw [tail_fgetsAll_cons (not_or.2 ⟨hb, hfull⟩)]
        refine (ih (by omega)).trans (or_congr_left (exists_congr fun k => ?_))
        rw [show room + size * k = room - 1 + size * k + 1 by omega, List.drop_succ_cons]

/-- A loop of `fgets` finds a text at the start of a chunk if and only if it stands in a line behind a multiple of
the buffer. -/
theorem exists_prefix_fgetsAll :
    (∃ chunk ∈ fgetsAll size size s, needle <+: chunk) ↔
      ∃ line ∈ getlines s, ∃ k, needle <+: line.drop (size * k) :=
  exists_prefix_of_tail hne hline hsize <|
    exists_prefix_tail hne hline hsize (Nat.le_trans (List.length_pos_iff.2 hne) hsize)

end Chunks

/-! ### Fields -/

/-- Fields with a blank between each two. -/
def joined (fields : List (List UInt8)) : List UInt8 := [0x20].intercalate fields

variable {field : List UInt8} {fields fields' : List (List UInt8)}

theorem joined_cons (h : fields ≠ []) : joined (field :: fields) = field ++ 0x20 :: joined fields := by
  rw [joined, List.intercalate_cons_of_ne_nil h, List.append_assoc]
  rfl

theorem joined_singleton (field : List UInt8) : joined [field] = field := List.intercalate_singleton

theorem mem_joined (h : b ∈ joined fields) : b = 0x20 ∨ ∃ f ∈ fields, b ∈ f := by
  induction fields with
  | nil => nomatch h
  | cons field fields ih =>
    by_cases hne : fields = []
    · rw [hne, joined_singleton] at h
      exact .inr ⟨field, List.mem_cons_self, h⟩
    · rw [joined_cons hne, List.mem_append, List.mem_cons] at h
      rcases h with h | h | h
      · exact .inr ⟨field, List.mem_cons_self, h⟩
      · exact .inl h
      · exact (ih h).imp_right fun ⟨f, hf, hin⟩ => ⟨f, List.mem_cons_of_mem _ hf, hin⟩

/-- `find(" - ")`: what stands in front of the first one, and behind it. -/
def splitDash : List UInt8 → Option (List UInt8 × List UInt8)
  | [] => none
  | b :: s =>
    if [0x20, 0x2d, 0x20] <+: b :: s then some ([], (b :: s).drop 3)
    else (splitDash s).map fun (before, after) => (b :: before, after)

theorem splitDash_append (h : 0x20 ∉ w) (s : List UInt8) :
    splitDash (w ++ s) = (splitDash s).map fun (before, after) => (w ++ before, after) := by
  induction w with
  | nil => exact Option.map_id_fun'.symm ▸ rfl
  | cons b w ih =>
    rw [List.mem_cons, not_or] at h
    have hno : ¬ [0x20, 0x2d, 0x20] <+: b :: (w ++ s) := by
      rw [List.cons_prefix_cons]
      exact fun hp => h.1 hp.1
    rw [List.cons_append, splitDash, if_neg hno, ih h.2, Option.map_map]
    rfl

/-- A field that is not the dash does not begin the separator. -/
theorem not_separator (hblank : 0x20 ∉ field) (hdash : field ≠ [0x2d]) (s : List UInt8) :
    ¬ [0x20, 0x2d, 0x20] <+: 0x20 :: (field ++ 0x20 :: s) := by
  rw [List.cons_prefix_cons]
  rintro ⟨-, hp⟩
  cases field with
  | nil => exact absurd (List.cons_prefix_cons.1 hp).1 (by decide)
  | cons b field =>
    rw [List.cons_append, List.cons_prefix_cons] at hp
    obtain ⟨rfl, hp⟩ := hp
    cases field with
    | nil => exact hdash rfl
    | cons c field =>
      rw [List.cons_append, List.cons_prefix_cons] at hp
      exact hblank (hp.1 ▸ List.mem_cons_of_mem _ List.mem_cons_self)

/-- The first field that is a dash, behind another one, is where the line is cut. -/
theorem splitDash_joined (hne : fields ≠ []) (hne' : fields' ≠ []) (hblank : ∀ f ∈ fields, 0x20 ∉ f)
    (hdash : [0x2d] ∉ fields.tail) :
    splitDash (joined (fields ++ [0x2d] :: fields')) = some (joined fields, joined fields') := by
  induction fields with
  | nil => exact absurd rfl hne
  | cons a fields ih =>
    rw [List.forall_mem_cons] at hblank
    rw [List.cons_append, joined_cons (by simp), splitDash_append hblank.1]
    cases fields with
    | nil =>
      rw [List.nil_append, joined_cons hne', splitDash, if_pos ⟨joined fields', rfl⟩, joined_singleton]
      show some (a ++ [], joined fields') = some (a, joined fields')
      rw [List.append_nil]
    | cons a' fields =>
      rw [List.tail_cons, List.mem_cons, not_or] at hdash
      have hcut := ih (List.cons_ne_nil _ _) hblank.2 hdash.2
      have hno := not_separator (hblank.2 a' List.mem_cons_self) (Ne.symm hdash.1) (joined (fields ++ [0x2d] :: fields'))
      rw [← joined_cons (by simp), ← List.cons_append] at hno
      rw [splitDash, if_neg hno, hcut, joined_cons (List.cons_ne_nil _ _)]
      rfl

/-- The first field comes off, if it is a word. -/
theorem word_joined (hw : IsWord field) (hne : fields ≠ []) :
    word (joined (field :: fields)) = some (field, 0x20 :: joined fields) := by
  rw [joined_cons hne]
  exact word_append hw (ends_blank _)

theorem unsigned_joined (hn : n < 2 ^ 32) (hne : fields ≠ []) :
    unsigned (joined (decimal n :: fields)) = some (n, 0x20 :: joined fields) := by
  rw [joined_cons hne]
  exact unsigned_decimal hn (endsDigits_blank _)

end Istream
