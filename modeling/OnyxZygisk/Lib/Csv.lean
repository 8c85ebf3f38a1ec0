import Mathlib.Data.List.Basic
import Mathlib.Tactic.Common

/-!
# Fields of a line

A line holds fields with `sep` between them. A field that contains `sep`, `quote` or another character of
`special` stands in quotes, with each of its own quotes doubled. What `escape` writes, `parse` reads back
(`parse_line`), whatever the fields are, as long as the line is read as one.
-/

namespace Csv

variable {α : Type} [DecidableEq α] (sep quote : α)

/-- The fields of the rest of a line: `field` was read of the current one, `inQuotes` says whether a quote
is open. -/
def fields (field : List α) (inQuotes : Bool) : List α → List (List α)
  | [] => [field]
  | c :: rest =>
    if c = quote ∧ inQuotes then
      match rest with
      | d :: rest' =>
        if d = quote then fields (field ++ [quote]) true rest' else fields field false (d :: rest')
      | [] => fields field false []
    else if c = quote then fields field true rest
    else if c = sep ∧ !inQuotes then field :: fields [] false rest
    else fields (field ++ [c]) inQuotes rest

def parse (line : List α) : List (List α) := fields sep quote [] false line

/-- A text with its quotes doubled. -/
def double (text : List α) : List α := text.flatMap fun c => if c = quote then [quote, quote] else [c]

def escape (special : List α) (field : List α) : List α :=
  if field.any special.contains then quote :: double quote field ++ [quote] else field

variable {sep quote}

/-! ### One field -/

theorem fields_cons (field : List α) (inQuotes : Bool) (c : α) (rest : List α) :
    fields sep quote field inQuotes (c :: rest) =
      if c = quote ∧ inQuotes then
        if rest.head? = some quote then fields sep quote (field ++ [quote]) true rest.tail
        else fields sep quote field false rest
      else if c = quote then fields sep quote field true rest
      else if c = sep ∧ !inQuotes then field :: fields sep quote [] false rest
      else fields sep quote (field ++ [c]) inQuotes rest := by
  cases rest with
  | nil =>
    rw [fields.eq_def]
    rfl
  | cons d rest =>
    rw [fields.eq_def]
    simp only [List.head?_cons, Option.some.injEq, List.tail_cons]

theorem fields_open (field rest : List α) :
    fields sep quote field false (quote :: rest) = fields sep quote field true rest := by
  rw [fields_cons, if_neg (by simp), if_pos rfl]

theorem fields_doubled (field rest : List α) :
    fields sep quote field true (quote :: quote :: rest) =
      fields sep quote (field ++ [quote]) true rest := by
  rw [fields_cons, if_pos ⟨rfl, rfl⟩, if_pos List.head?_cons, List.tail_cons]

/-- A quote closes when no other one follows. -/
theorem fields_close {rest : List α} (field : List α) (h : rest.head? ≠ some quote) :
    fields sep quote field true (quote :: rest) = fields sep quote field false rest := by
  rw [fields_cons, if_pos ⟨rfl, rfl⟩, if_neg h]

theorem fields_sep (hne : sep ≠ quote) (field rest : List α) :
    fields sep quote field false (sep :: rest) = field :: fields sep quote [] false rest := by
  rw [fields_cons, if_neg fun h => hne h.1, if_neg hne, if_pos ⟨rfl, rfl⟩]

theorem fields_char {c : α} {inQuotes : Bool} (hquote : c ≠ quote) (hsep : c = sep → inQuotes = true)
    (field rest : List α) :
    fields sep quote field inQuotes (c :: rest) = fields sep quote (field ++ [c]) inQuotes rest := by
  rw [fields_cons, if_neg fun h => hquote h.1, if_neg hquote, if_neg]
  rintro ⟨hc, hout⟩
  rw [hsep hc] at hout
  exact Bool.noConfusion hout

theorem fields_plain {text : List α} (h : ∀ c ∈ text, c ≠ quote ∧ c ≠ sep) (field rest : List α) :
    fields sep quote field false (text ++ rest) = fields sep quote (field ++ text) false rest := by
  induction text generalizing field with
  | nil => rw [List.nil_append, List.append_nil]
  | cons c text ih =>
    rw [List.forall_mem_cons] at h
    rw [List.cons_append, fields_char h.1.1 fun hc => absurd hc h.1.2, ih h.2, List.append_assoc]
    rfl

/-- Inside quotes everything is text, up to the quote that is not doubled. -/
theorem fields_double (text field : List α) {rest : List α} (h : rest.head? ≠ some quote) :
    fields sep quote field true (double quote text ++ quote :: rest) =
      fields sep quote (field ++ text) false rest := by
  induction text generalizing field with
  | nil =>
    rw [List.append_nil]
    exact fields_close field h
  | cons c text ih =>
    rw [double, List.flatMap_cons, ← double]
    by_cases hc : c = quote
    · rw [if_pos hc, hc, List.append_assoc]
      show fields sep quote field true (quote :: quote :: (double quote text ++ quote :: rest)) = _
      rw [fields_doubled, ih, List.append_assoc]
      rfl
    · rw [if_neg hc, List.append_assoc]
      show fields sep quote field true (c :: (double quote text ++ quote :: rest)) = _
      rw [fields_char hc fun _ => rfl, ih, List.append_assoc]
      rfl

/-- A field that was escaped is read as it was. -/
theorem fields_escape {special : List α} (hsep : sep ∈ special) (hquote : quote ∈ special)
    (field : List α) {rest : List α} (h : rest.head? ≠ some quote) :
    fields sep quote [] false (escape quote special field ++ rest) =
      fields sep quote field false rest := by
  unfold escape
  split
  · rw [List.cons_append, List.cons_append, List.append_assoc]
    show fields sep quote [] false (quote :: (double quote field ++ quote :: rest)) = _
    rw [fields_open, fields_double _ _ h]
    rfl
  · rename_i hplain
    apply fields_plain
    simp only [List.any_eq_true, List.contains_iff_mem, not_exists, not_and] at hplain
    exact fun c hc => ⟨fun heq => hplain c hc (heq ▸ hquote), fun heq => hplain c hc (heq ▸ hsep)⟩

theorem mem_of_mem_escape {special field : List α} {c : α} (h : c ∈ escape quote special field) :
    c = quote ∨ c ∈ field := by
  unfold escape at h
  split at h
  · rw [List.cons_append, List.mem_cons, List.mem_append, List.mem_singleton, double,
      List.mem_flatMap] at h
    rcases h with h | ⟨d, hd, h⟩ | h
    · exact .inl h
    · split at h
      · left
        simpa using h
      · rw [List.mem_singleton] at h
        exact .inr (h ▸ hd)
    · exact .inl h
  · exact .inr h

/-! ### A line -/

/-- The fields of a line are read back. -/
theorem parse_line {special : List α} (hne : sep ≠ quote) (hsep : sep ∈ special)
    (hquote : quote ∈ special) (field : List α) (others : List (List α)) :
    parse sep quote ([sep].intercalate ((field :: others).map (escape quote special))) =
      field :: others := by
  induction others generalizing field with
  | nil =>
    have hhead : ([] : List α).head? ≠ some quote := by simp
    have h := fields_escape hsep hquote field hhead
    rw [List.append_nil] at h
    simp only [List.map_cons, List.map_nil, List.intercalate_singleton, parse]
    rw [h]
    rfl
  | cons other others ih =>
    rw [List.map_cons, List.map_cons, List.intercalate_cons_cons, List.append_assoc, ← List.map_cons]
    rw [parse, fields_escape hsep hquote field (by simp [hne])]
    rw [List.singleton_append, fields_sep hne, ← parse, ih]

/-- No character of a field is made up. -/
theorem mem_of_mem_fields {line : List α} {f : List α} {c : α} (hc : c ∈ f) (field : List α)
    (inQuotes : Bool) (h : f ∈ fields sep quote field inQuotes line) : c ∈ field ∨ c ∈ line := by
  fun_induction fields sep quote field inQuotes line <;> grind

theorem mem_of_mem_parse {line f : List α} {c : α} (h : f ∈ parse sep quote line) (hc : c ∈ f) :
    c ∈ line :=
  (mem_of_mem_fields hc [] false h).resolve_left List.not_mem_nil

end Csv
