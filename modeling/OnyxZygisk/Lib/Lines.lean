import Mathlib.Data.List.Basic
import Mathlib.Tactic.Common

/-!
# The lines of a stream read in chunks

A chunk holds pieces of lines: all but its last piece end with a separator. `cuts` puts the pieces of
successive chunks together, each line with the places where a chunk ended inside it, and the lines so
found are those of the whole stream (`lines_flatten`), however it is split.
-/

namespace Lines

/-- A part of a line inside one chunk; `ended` says that a separator follows. -/
structure Piece (α : Type) where
  text : List α
  ended : Bool

/-- A line, cut at the ends of the chunks. The pieces of `front` were the last of their chunks; `last` is
what stands before the separator, if there is one. -/
structure Cut (α : Type) where
  front : List (List α)
  last : Option (List α)

def Cut.line {α : Type} (c : Cut α) : List α := c.front.flatten ++ c.last.getD []

/-- The text of whole lines: each with a separator behind it. -/
def text {α : Type} (sep : α) (lines : List (List α)) : List α := lines.flatMap (· ++ [sep])

theorem text_cons {α : Type} (sep : α) (line : List α) (lines : List (List α)) :
    text sep (line :: lines) = line ++ sep :: text sep lines := by
  rw [text, List.flatMap_cons, List.append_assoc]
  rfl

variable {α : Type} [DecidableEq α] (sep : α)

/-- The pieces of a chunk; `cur` was read since the last separator. -/
def pieces (cur : List α) : List α → List (Piece α)
  | [] => [⟨cur, false⟩]
  | b :: rest => if b = sep then ⟨cur, true⟩ :: pieces [] rest else pieces (cur ++ [b]) rest

/-- The lines of a text, with what follows its last separator. -/
def lines (s : List α) : List (List α) := (pieces sep [] s).map Piece.text

omit [DecidableEq α] in
/-- The lines that the pieces of successive chunks make up. -/
def cuts (front : List (List α)) : List (Piece α) → List (Cut α)
  | [] => [⟨front, none⟩]
  | p :: ps => if p.ended then ⟨front, some p.text⟩ :: cuts [] ps else cuts (front ++ [p.text]) ps

/-- The lines of a stream with the places of the cuts. -/
def cutLines (chunks : List (List α)) : List (Cut α) := cuts [] (chunks.flatMap (pieces sep []))

variable {sep}

@[simp] theorem pieces_sep (cur rest : List α) :
    pieces sep cur (sep :: rest) = ⟨cur, true⟩ :: pieces sep [] rest := by
  rw [pieces, if_pos rfl]

theorem pieces_cons {b : α} (hb : b ≠ sep) (cur rest : List α) :
    pieces sep cur (b :: rest) = pieces sep (cur ++ [b]) rest := by
  rw [pieces, if_neg hb]

/-- What is read up to the next separator joins the current line. -/
theorem pieces_append {x : List α} (hx : sep ∉ x) (cur y : List α) :
    pieces sep cur (x ++ y) = pieces sep (cur ++ x) y := by
  induction x generalizing cur with
  | nil => rw [List.nil_append, List.append_nil]
  | cons b x ih =>
    rw [List.mem_cons, not_or] at hx
    rw [List.cons_append, pieces_cons (Ne.symm hx.1), ih hx.2, List.append_assoc]
    rfl

theorem pieces_of_not_mem {x : List α} (hx : sep ∉ x) : pieces sep [] x = [⟨x, false⟩] := by
  have h := pieces_append hx [] []
  rw [List.append_nil, List.nil_append] at h
  exact h

theorem pieces_line {x : List α} (hx : sep ∉ x) (rest : List α) :
    pieces sep [] (x ++ sep :: rest) = ⟨x, true⟩ :: pieces sep [] rest := by
  rw [pieces_append hx, List.nil_append, pieces_sep]

/-- A text is one line, or a line, a separator and a text. -/
@[elab_as_elim]
theorem line_induction {motive : List α → Prop} (last : ∀ x, sep ∉ x → motive x)
    (line : ∀ x rest, sep ∉ x → motive rest → motive (x ++ sep :: rest)) (s : List α) : motive s := by
  have key : ∀ x, sep ∉ x → motive (x ++ s) := by
    induction s with
    | nil =>
      intro x hx
      rw [List.append_nil]
      exact last x hx
    | cons b rest ih =>
      intro x hx
      by_cases hb : b = sep
      · rw [hb]
        exact line x rest hx (ih [] List.not_mem_nil)
      · have hxb : sep ∉ x ++ [b] := by
          intro hmem
          obtain hmem | hmem := List.mem_append.1 hmem
          · exact hx hmem
          · exact hb (List.mem_singleton.1 hmem).symm
        have h := ih (x ++ [b]) hxb
        rw [List.append_assoc] at h
        exact h
  exact key [] List.not_mem_nil

/-- A piece holds no separator. -/
theorem sep_not_mem {p : Piece α} {cur s : List α} (hcur : sep ∉ cur) (hp : p ∈ pieces sep cur s) :
    sep ∉ p.text := by
  induction s generalizing cur with
  | nil =>
    rw [pieces, List.mem_singleton] at hp
    rw [hp]
    exact hcur
  | cons b rest ih =>
    by_cases hb : b = sep
    · rw [hb, pieces_sep, List.mem_cons] at hp
      obtain hp | hp := hp
      · rw [hp]
        exact hcur
      · exact ih List.not_mem_nil hp
    · rw [pieces_cons hb] at hp
      apply ih _ hp
      intro hmem
      obtain hmem | hmem := List.mem_append.1 hmem
      · exact hcur hmem
      · exact hb (List.mem_singleton.1 hmem).symm

/-- The pieces of one more chunk in front. -/
theorem line_cuts_append {x y : List α} {ps : List (Piece α)}
    (hy : ∀ front, (cuts front ps).map Cut.line = (pieces sep front.flatten y).map Piece.text)
    (front : List (List α)) (cur : List α) :
    (cuts front (pieces sep cur x ++ ps)).map Cut.line =
      (pieces sep (front.flatten ++ cur) (x ++ y)).map Piece.text := by
  induction x generalizing front cur with
  | nil =>
    show (cuts (front ++ [cur]) ps).map Cut.line = _
    rw [hy, List.flatten_append, List.flatten_cons, List.flatten_nil, List.append_nil]
    rfl
  | cons b x ih =>
    by_cases hb : b = sep
    · rw [hb, List.cons_append, pieces_sep, pieces_sep, List.cons_append]
      show _ :: (cuts [] (pieces sep [] x ++ ps)).map Cut.line = _ :: _
      rw [ih]
      rfl
    · rw [List.cons_append, pieces_cons hb, pieces_cons hb, ih, List.append_assoc]

/-- The lines of the stream are those of its chunks put together. -/
theorem lines_flatten (chunks : List (List α)) :
    lines sep chunks.flatten = (cutLines sep chunks).map Cut.line := by
  have key : ∀ front : List (List α), (cuts front (chunks.flatMap (pieces sep []))).map Cut.line =
      (pieces sep front.flatten chunks.flatten).map Piece.text := by
    induction chunks with
    | nil =>
      intro front
      show [front.flatten ++ []] = [front.flatten]
      rw [List.append_nil]
    | cons c chunks ih =>
      intro front
      rw [List.flatMap_cons, List.flatten_cons, line_cuts_append ih, List.append_nil]
  exact (key []).symm

omit [DecidableEq α] in
/-- A change of each piece by itself is a change of the pieces of each line. -/
theorem cuts_map {f g : List α → List α} (front : List (List α)) (ps : List (Piece α)) :
    cuts (front.map f) (ps.map fun p => ⟨if p.ended then g p.text else f p.text, p.ended⟩) =
      (cuts front ps).map fun c => ⟨c.front.map f, c.last.map g⟩ := by
  induction ps generalizing front with
  | nil => rfl
  | cons p ps ih =>
    obtain ⟨text, ended⟩ := p
    cases ended with
    | true =>
      show ⟨front.map f, some (g text)⟩ :: cuts ([].map f) _ = _ :: _
      rw [ih]
      rfl
    | false =>
      show cuts (front.map f ++ [text].map f) _ = (cuts (front ++ [text]) ps).map _
      rw [← List.map_append, ih]

omit [DecidableEq α] in
/-- What holds of every piece holds of the pieces of every line. -/
theorem cuts_forall {P : List α → Prop} {front : List (List α)} {ps : List (Piece α)}
    (hfront : ∀ t ∈ front, P t) (hps : ∀ p ∈ ps, P p.text) :
    ∀ c ∈ cuts front ps, (∀ t ∈ c.front, P t) ∧ ∀ t ∈ c.last, P t := by
  induction ps generalizing front with
  | nil =>
    intro c hc
    rw [List.mem_singleton.1 hc]
    exact ⟨hfront, fun t ht => absurd ht (Option.not_mem_none t)⟩
  | cons p ps ih =>
    rw [List.forall_mem_cons] at hps
    intro c hc
    rw [cuts] at hc
    split at hc
    · obtain hc | hc := List.mem_cons.1 hc
      · rw [hc]
        refine ⟨hfront, fun t ht => ?_⟩
        rw [← Option.some.inj ht]
        exact hps.1
      · exact ih (fun t ht => absurd ht List.not_mem_nil) hps.2 c hc
    · apply ih _ hps.2 c hc
      intro t ht
      obtain ht | ht := List.mem_append.1 ht
      · exact hfront t ht
      · rw [List.mem_singleton.1 ht]
        exact hps.1

/-- No piece of a line holds a separator. -/
theorem sep_not_mem_cutLines {chunks : List (List α)} {c : Cut α} (hc : c ∈ cutLines sep chunks) :
    (∀ t ∈ c.front, sep ∉ t) ∧ ∀ t ∈ c.last, sep ∉ t := by
  apply cuts_forall _ _ c hc
  · exact fun t ht => absurd ht List.not_mem_nil
  · intro p hp
    obtain ⟨chunk, -, hp⟩ := List.mem_flatMap.1 hp
    exact sep_not_mem List.not_mem_nil hp

end Lines
