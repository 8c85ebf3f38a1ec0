import Mathlib.Data.List.Infix
import OnyxZygisk.Lib.Text

/-!
# Words and lines of a shell script

A shell script keeps a list in a variable, with a blank before each word. It goes through the list by field
splitting, and looks a word up as a part of the text, with a blank on both sides. It prints line by line.
-/

namespace Words

/-- What field splitting splits at. -/
def isBlank (c : Char) : Bool := c = ' ' || c = '\t' || c = '\n'

/-- The fields of a text. -/
def fields (s : String) : List String :=
  ((s.toList.splitOnP isBlank).filter (· ≠ [])).map String.ofList

/-- The text of a list of words. -/
def spaced (ws : List String) : String := ws.foldl (fun s w => s ++ " " ++ w) ""

/-- A word that field splitting leaves as it is. -/
structure Whole (w : String) : Prop where
  ne : w ≠ ""
  noBlank : ∀ c ∈ w.toList, isBlank c = false

variable {w : String} {ws : List String}

theorem spaced_concat (ws : List String) (w : String) : spaced (ws ++ [w]) = spaced ws ++ " " ++ w := by
  rw [spaced, List.foldl_append]
  rfl

theorem toList_spaced (ws : List String) : (spaced ws).toList = ws.flatMap fun w => ' ' :: w.toList := by
  induction ws using List.reverseRecOn with
  | nil => rfl
  | append_singleton ws w ih =>
    rw [spaced_concat, String.toList_append, String.toList_append, ih, List.flatMap_append,
      List.flatMap_singleton, List.append_assoc]
    rfl

theorem fields_concat (s : String) (h : Whole w) : fields (s ++ " " ++ w) = fields s ++ [w] := by
  have hne : w.toList ≠ [] := fun hnil => h.ne (String.toList_injective hnil)
  have hsplit : (s ++ " " ++ w).toList.splitOnP isBlank = s.toList.splitOnP isBlank ++ [w.toList] := by
    rw [String.toList_append, String.toList_append, List.append_assoc]
    rw [← List.splitOnP_eq_singleton h.noBlank]
    exact List.splitOnP_append_cons _ _ (by decide)
  rw [fields, hsplit, List.filter_append, List.map_append, ← fields, List.filter_cons_of_pos (by simpa using hne)]
  simp

/-- Field splitting gives the words back. -/
theorem fields_spaced (h : ∀ w ∈ ws, Whole w) : fields (spaced ws) = ws := by
  induction ws using List.reverseRecOn with
  | nil => rfl
  | append_singleton ws w ih =>
    rw [List.forall_mem_append] at h
    rw [spaced_concat, fields_concat _ (h.2 w (List.mem_singleton_self w)), ih h.1]

theorem intercalate_append {α : Type} {sep : α} {front back : List (List α)} (hfront : front ≠ [])
    (hback : back ≠ []) :
    [sep].intercalate (front ++ back) = [sep].intercalate front ++ sep :: [sep].intercalate back := by
  induction front with
  | nil => exact absurd rfl hfront
  | cons part front ih =>
    by_cases hnil : front = []
    · rw [hnil, List.singleton_append, List.intercalate_cons_of_ne_nil hback, List.intercalate_singleton,
        List.append_assoc, List.singleton_append]
    · rw [List.cons_append, List.intercalate_cons_of_ne_nil (List.append_ne_nil_of_left_ne_nil hnil back), ih hnil,
        List.intercalate_cons_of_ne_nil hnil, List.append_assoc, List.append_assoc, List.append_assoc]

/-- A part between two separators is one of the parts that are neither the first nor the last. -/
theorem between_iff {α : Type} [DecidableEq α] {sep : α} {part text : List α} (hpart : sep ∉ part) :
    sep :: (part ++ [sep]) <:+: text ↔ part ∈ (text.splitOn sep).tail.dropLast := by
  constructor
  · rintro ⟨front, back, rfl⟩
    have hsplit : (front ++ sep :: (part ++ [sep]) ++ back).splitOn sep =
        front.splitOn sep ++ part :: back.splitOn sep := by
      rw [List.append_assoc, List.cons_append, List.append_assoc, List.singleton_append,
        List.splitOn_append_cons_self, List.splitOn_append_cons_self_of_not_mem hpart]
    rw [hsplit, List.tail_append_of_ne_nil (List.splitOn_ne_nil sep front),
      List.dropLast_append_of_ne_nil (List.cons_ne_nil _ _),
      List.dropLast_cons_of_ne_nil (List.splitOn_ne_nil sep back)]
    exact List.mem_append_right _ List.mem_cons_self
  · intro hmem
    obtain ⟨first, rest, hsplit⟩ := List.exists_cons_of_ne_nil (List.splitOn_ne_nil sep text)
    rw [hsplit, List.tail_cons] at hmem
    have hrest : rest ≠ [] := by
      rintro rfl
      exact List.not_mem_nil hmem
    obtain ⟨last, hlast⟩ : ∃ last, rest.dropLast ++ [last] = rest := ⟨_, List.dropLast_append_getLast hrest⟩
    obtain ⟨pre, post, hcut⟩ := List.append_of_mem hmem
    have hparts : first :: rest = (first :: pre) ++ ([part] ++ (post ++ [last])) := by
      rw [← hlast, hcut]
      simp
    have htext : [sep].intercalate (text.splitOn sep) = text := List.intercalate_splitOn sep
    rw [hsplit, hparts, intercalate_append (List.cons_ne_nil _ _) (by simp),
      intercalate_append (List.cons_ne_nil _ _) (by simp), List.intercalate_singleton] at htext
    refine ⟨[sep].intercalate (first :: pre), [sep].intercalate (post ++ [last]), ?_⟩
    rw [← htext]
    simp

/-- A text without a separator stands on one side of it. -/
theorem infix_append_cons {α : Type} {sep : α} {needle front back : List α} (hneedle : sep ∉ needle) :
    needle <:+: front ++ sep :: back ↔ needle <:+: front ∨ needle <:+: back := by
  constructor
  · rintro ⟨u, v, huv⟩
    rcases List.append_eq_append_iff.1 huv with ⟨w, hfront, -⟩ | ⟨w, hw, hback⟩
    · exact .inl ⟨u, w, hfront.symm⟩
    · cases w with
      | nil =>
        rw [List.append_nil] at hw
        exact .inl ⟨u, [], by rw [List.append_nil, hw]⟩
      | cons c w =>
        obtain ⟨rfl, rfl⟩ := List.cons.inj hback
        rcases List.append_eq_append_iff.1 hw with ⟨w₂, -, hneed⟩ | ⟨w₂, -, hneed⟩
        · exact absurd (hneed ▸ List.mem_append_right w₂ List.mem_cons_self) hneedle
        · cases w₂ with
          | nil =>
            rw [List.nil_append] at hneed
            exact absurd (hneed ▸ List.mem_cons_self) hneedle
          | cons c w₃ =>
            obtain ⟨rfl, rfl⟩ := List.cons.inj hneed
            exact .inr ⟨w₃, v, rfl⟩
  · rintro (h | h)
    · exact h.trans (List.prefix_append _ _).isInfix
    · exact h.trans ((List.suffix_cons _ _).trans (List.suffix_append _ _)).isInfix

/-- A text without a separator stands in one of the parts. -/
theorem infix_iff_splitOn {α : Type} [DecidableEq α] {sep : α} {needle text : List α} (hneedle : sep ∉ needle) :
    needle <:+: text ↔ ∃ part ∈ text.splitOn sep, needle <:+: part := by
  constructor
  · refine @Lines.line_induction α _ sep (fun text => needle <:+: text → ∃ part ∈ text.splitOn sep, needle <:+: part)
      (fun x hx h => ?_) (fun x rest hx ih h => ?_) text
    · rw [List.splitOn_eq_singleton hx]
      exact ⟨x, List.mem_singleton_self x, h⟩
    · rw [List.splitOn_append_cons_self_of_not_mem hx]
      rcases (infix_append_cons hneedle).1 h with h | h
      · exact ⟨x, List.mem_cons_self, h⟩
      · obtain ⟨part, hpart, hinfix⟩ := ih h
        exact ⟨part, List.mem_cons_of_mem x hpart, hinfix⟩
  · rintro ⟨part, hpart, h⟩
    exact h.trans (Text.infix_of_mem_splitOn hpart)

theorem contains_iff_split {sep : Char} {needle s : String} (hneedle : sep ∉ needle.toList) :
    Text.contains needle s = true ↔ ∃ part ∈ Text.split sep s, Text.contains needle part = true := by
  simp only [Text.contains, Text.split, decide_eq_true_eq, List.mem_map]
  rw [infix_iff_splitOn hneedle]
  constructor
  · rintro ⟨part, hpart, h⟩
    exact ⟨_, ⟨part, hpart, rfl⟩, String.toList_ofList ▸ h⟩
  · rintro ⟨_, ⟨part, hpart, rfl⟩, h⟩
    rw [String.toList_ofList] at h
    exact ⟨part, hpart, h⟩

theorem splitOn_words (ws : List String) :
    (ws.flatMap fun w => ' ' :: w.toList).splitOn ' ' = [] :: ws.flatMap fun w => w.toList.splitOn ' ' := by
  induction ws using List.reverseRecOn with
  | nil => rfl
  | append_singleton ws w ih =>
    rw [List.flatMap_append, List.flatMap_singleton, List.splitOn_append_cons_self, ih, List.flatMap_append,
      List.flatMap_singleton, List.cons_append]

/-- A word without a blank is found in a list if it is a word of one of the texts, and the empty word always is. -/
theorem contains_spaced_iff {w : String} (ws : List String) (hw : ' ' ∉ w.toList) :
    Text.contains (" " ++ w ++ " ") (" " ++ spaced ws ++ " ") = true ↔ w = "" ∨ ∃ t ∈ ws, w ∈ Text.split ' ' t := by
  have hsplit : (" " ++ spaced ws ++ " ").toList.splitOn ' ' =
      [] :: [] :: ((ws.flatMap fun t => t.toList.splitOn ' ') ++ [[]]) := by
    have htext : (" " ++ spaced ws ++ " ").toList = ("" :: (ws ++ [""])).flatMap fun w => ' ' :: w.toList := by
      rw [String.toList_append, String.toList_append, toList_spaced, List.flatMap_cons, List.flatMap_append,
        List.flatMap_singleton, List.append_assoc]
      rfl
    rw [htext, splitOn_words, List.flatMap_cons, List.flatMap_append]
    rfl
  have hneedle : (" " ++ w ++ " ").toList = ' ' :: (w.toList ++ [' ']) := by simp
  rw [Text.contains, decide_eq_true_eq, hneedle, between_iff hw, hsplit, List.tail_cons,
    ← List.cons_append, List.dropLast_concat, List.mem_cons, List.mem_flatMap]
  constructor
  · rintro (hnil | ⟨t, ht, hpart⟩)
    · exact .inl (String.toList_injective hnil)
    · exact .inr ⟨t, ht, List.mem_map.2 ⟨_, hpart, String.ofList_toList⟩⟩
  · rintro (rfl | ⟨t, ht, hpart⟩)
    · exact .inl rfl
    · obtain ⟨part, hpart, rfl⟩ := List.mem_map.1 hpart
      exact .inr ⟨t, ht, by rwa [String.toList_ofList]⟩

/-- In a list of words without a blank, a word is found if it is one of them. -/
theorem contains_spaced {w : String} {ws : List String} (hw : ' ' ∉ w.toList) (h : ∀ w ∈ ws, ' ' ∉ w.toList) :
    Text.contains (" " ++ w ++ " ") (" " ++ spaced ws ++ " ") = true ↔ w = "" ∨ w ∈ ws := by
  rw [contains_spaced_iff ws hw]
  apply or_congr_right
  constructor
  · rintro ⟨t, ht, hpart⟩
    rw [Text.split_single (h t ht), List.mem_singleton] at hpart
    exact hpart ▸ ht
  · intro hmem
    exact ⟨w, hmem, by rw [Text.split_single hw]; exact List.mem_singleton_self w⟩

theorem Whole.noSpace (h : Whole w) : ' ' ∉ w.toList := fun hmem => absurd (h.noBlank ' ' hmem) (by decide)

/-- A word is put at the end of a list, if the list does not have it. -/
theorem add_spaced (hw : Whole w) (h : ∀ w ∈ ws, Whole w) :
    (if Text.contains (" " ++ w ++ " ") (" " ++ spaced ws ++ " ") then spaced ws else spaced ws ++ " " ++ w) =
      spaced (if w ∈ ws then ws else ws ++ [w]) := by
  have hfound := contains_spaced hw.noSpace fun w hw => (h w hw).noSpace
  by_cases hmem : w ∈ ws
  · rw [if_pos (hfound.2 (.inr hmem)), if_pos hmem]
  · rw [if_neg fun hc => (hfound.1 hc).elim hw.ne hmem, if_neg hmem, spaced_concat]

/-! ### Lines -/

/-- What `echo` prints of each line in turn. -/
def echoed : List String → String
  | [] => ""
  | line :: lines => line ++ "\n" ++ echoed lines

theorem split_echoed_append {lines : List String} (h : ∀ line ∈ lines, '\n' ∉ line.toList) (rest : String) :
    Text.split '\n' (echoed lines ++ rest) = lines ++ Text.split '\n' rest := by
  induction lines with
  | nil => exact congrArg (Text.split '\n') String.empty_append
  | cons line lines ih =>
    rw [List.forall_mem_cons] at h
    rw [List.cons_append, ← ih h.2, echoed, String.append_assoc]
    exact Text.split_cons _ h.1

/-- The parts of the lines are the lines, and the empty part after the last line feed. -/
theorem split_echoed {lines : List String} (h : ∀ line ∈ lines, '\n' ∉ line.toList) :
    Text.split '\n' (echoed lines) = lines ++ [""] := by
  have happend := split_echoed_append h ""
  rwa [String.append_empty] at happend

theorem split_append (sep : Char) (a b : String) :
    Text.split sep (a ++ String.singleton sep ++ b) = Text.split sep a ++ Text.split sep b := by
  have hl : (a ++ String.singleton sep ++ b).toList = a.toList ++ sep :: b.toList := by simp
  rw [Text.split, hl, List.splitOn_append_cons_self, List.map_append]
  rfl

/-- A text put together of fields splits into the parts of the fields. -/
theorem split_fields (sep : Char) {parts : List String} (h : parts ≠ []) :
    Text.split sep ((String.singleton sep).intercalate parts) = parts.flatMap (Text.split sep) := by
  induction parts with
  | nil => exact absurd rfl h
  | cons part parts ih =>
    cases parts with
    | nil => rw [String.intercalate_singleton, List.flatMap_singleton]
    | cons part' parts =>
      rw [String.intercalate_cons_cons, split_append, ih (List.cons_ne_nil _ _)]
      rfl

/-- A separator makes two parts. -/
theorem two_le_length_split {sep : Char} {s : String} (h : sep ∈ s.toList) : 2 ≤ (Text.split sep s).length := by
  obtain ⟨front, back, hs⟩ := List.append_of_mem h
  have hfront := List.length_pos_of_ne_nil (List.splitOn_ne_nil sep front)
  have hback := List.length_pos_of_ne_nil (List.splitOn_ne_nil sep back)
  rw [Text.split, hs, List.splitOn_append_cons_self, List.length_map, List.length_append]
  omega

theorem one_le_length_split (sep : Char) (s : String) : 1 ≤ (Text.split sep s).length := by
  rw [Text.split, List.length_map]
  exact List.length_pos_of_ne_nil (List.splitOn_ne_nil sep s.toList)

end Words
