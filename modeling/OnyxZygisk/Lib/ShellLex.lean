import Mathlib.Data.List.Basic
import Mathlib.Tactic.Common

/-!
# Quoting in the shell

The POSIX shell's split of a command into words and operators: unquoted blanks end a word, unquoted operator
characters and line ends are tokens of their own, and backslash, single quotes and double quotes take the
meaning from what they quote and are removed. Each character of a word says how it was quoted, so that what
the later stages (expansions, globbing) act on can be told from what they leave alone. Input that ends inside
quotes or behind a backslash has no tokens.

What is lexed behind a blank does not depend on what stood before (`lex_blank`).
-/

namespace ShellLex

inductive Quoting where
  | bare
  | double
  | literal
  deriving DecidableEq

abbrev Word : Type := List (Char × Quoting)

inductive Token where
  | word (w : Word)
  | operator (op : List Char)
  deriving DecidableEq

/-- The text of a word, its quotes removed. -/
def Word.text (w : Word) : List Char := w.map Prod.fst

/-- A text of which nothing has a meaning to the shell. -/
def literalWord (s : List Char) : Word := s.map fun c => (c, .literal)

theorem text_literalWord (s : List Char) : Word.text (literalWord s) = s := by
  rw [Word.text, literalWord, List.map_map]
  exact List.map_id s

def operators : List (List Char) :=
  ["&", "|", ";", "<", ">", "(", ")", "\n", "&&", "||", ";;", "<<", ">>", "<&", ">&", "<>", "<<-", ">|"].map
    String.toList

def isBlank (c : Char) : Bool := c = ' ' || c = '\t'

/-- The quotes that the next character stands in. -/
inductive Mode where
  | unquoted
  | escaped
  | single
  | double
  | doubleEscaped
  deriving DecidableEq

/-- The word or the operator that has been read so far. -/
inductive State where
  | text (word : Option Word) (mode : Mode)
  | operator (op : List Char)
  | operatorEscaped (op : List Char)
  deriving DecidableEq

def start : State := .text none .unquoted

def wordToken (word : Option Word) : List Token := word.toList.map .word

/-- A character that is in no quotes. -/
def stepUnquoted (word : Option Word) (c : Char) : List Token × State :=
  if c = '\'' then ([], .text (some (word.getD [])) .single)
  else if c = '"' then ([], .text (some (word.getD [])) .double)
  else if c = '\\' then ([], .text word .escaped)
  else if isBlank c then (wordToken word, start)
  else if [c] ∈ operators then (wordToken word, .operator [c])
  else ([], .text (some (word.getD [] ++ [(c, .bare)])) .unquoted)

/-- A character behind an unquoted backslash; an escaped line end is removed. -/
def stepEscaped (word : Option Word) (c : Char) : List Token × State :=
  if c = '\n' then ([], .text word .unquoted)
  else ([], .text (some (word.getD [] ++ [(c, .literal)])) .unquoted)

def step : State → Char → List Token × State
  | .text word .unquoted, c => stepUnquoted word c
  | .text word .escaped, c => stepEscaped word c
  | .text word .single, c =>
    if c = '\'' then ([], .text word .unquoted)
    else ([], .text (some (word.getD [] ++ [(c, .literal)])) .single)
  | .text word .double, c =>
    if c = '"' then ([], .text word .unquoted)
    else if c = '\\' then ([], .text word .doubleEscaped)
    else ([], .text (some (word.getD [] ++ [(c, .double)])) .double)
  | .text word .doubleEscaped, c =>
    if c = '\n' then ([], .text word .double)
    else if c ∈ ['$', '`', '"', '\\'] then ([], .text (some (word.getD [] ++ [(c, .literal)])) .double)
    else ([], .text (some (word.getD [] ++ [('\\', .double), (c, .double)])) .double)
  | .operator op, c =>
    if op ++ [c] ∈ operators then ([], .operator (op ++ [c]))
    else if c = '\\' then ([], .operatorEscaped op)
    else (.operator op :: (stepUnquoted none c).1, (stepUnquoted none c).2)
  | .operatorEscaped op, c =>
    if c = '\n' then ([], .operator op) else (.operator op :: (stepEscaped none c).1, (stepEscaped none c).2)

/-- The last token, unless quotes are open. -/
def finish : State → Option (List Token)
  | .text word .unquoted => some (wordToken word)
  | .operator op => some [.operator op]
  | _ => none

def scan : State → List Char → List Token × State
  | s, [] => ([], s)
  | s, c :: cs => ((step s c).1 ++ (scan (step s c).2 cs).1, (scan (step s c).2 cs).2)

/-- The tokens of a command. -/
def lex (input : List Char) : Option (List Token) :=
  (finish (scan start input).2).map ((scan start input).1 ++ ·)

variable {s : State} {cs ds : List Char} {word : Option Word}

theorem scan_append (s : State) (cs ds : List Char) :
    scan s (cs ++ ds) = ((scan s cs).1 ++ (scan (scan s cs).2 ds).1, (scan (scan s cs).2 ds).2) := by
  induction cs generalizing s with
  | nil => rfl
  | cons c cs ih =>
    rw [List.cons_append, scan, ih, scan]
    simp only [List.append_assoc]

/-- A blank ends the word or the operator, and nothing is left of it. -/
theorem step_blank {last : List Token} (h : finish s = some last) : step s ' ' = (last, start) := by
  have hblank : stepUnquoted none ' ' = ([], start) := rfl
  cases s with
  | text word mode =>
    cases mode with
    | unquoted =>
      rw [← Option.some.inj h]
      rfl
    | escaped => cases h
    | single => cases h
    | double => cases h
    | doubleEscaped => cases h
  | operator op =>
    have hno : op ++ [' '] ∉ operators := by
      intro hmem
      have hall : ∀ op ∈ operators, ' ' ∉ op := by decide
      exact hall _ hmem (List.mem_append_right _ (List.mem_singleton_self _))
    rw [step, if_neg hno, if_neg (by decide), hblank, ← Option.some.inj h]
  | operatorEscaped op => cases h

/-- The tokens on the two sides of a blank are the tokens of the two sides. -/
theorem lex_blank {front : List Token} (h : lex cs = some front) (ds : List Char) :
    lex (cs ++ ' ' :: ds) = (lex ds).map (front ++ ·) := by
  rw [lex, Option.map_eq_some_iff] at h
  obtain ⟨last, hlast, rfl⟩ := h
  have hscan : scan start (cs ++ ' ' :: ds) =
      ((scan start cs).1 ++ (last ++ (scan start ds).1), (scan start ds).2) := by
    rw [scan_append, scan, step_blank hlast]
  rw [lex, hscan, lex, Option.map_map]
  congr 1
  funext tokens
  simp only [Function.comp_apply, List.append_assoc]

/-- A command that is one word up to its end. -/
theorem lex_word {w : Word} (h : scan start cs = ([], .text (some w) .unquoted)) : lex cs = some [.word w] := by
  rw [lex, h]
  rfl

/-! ### Single quotes -/

/-- In single quotes every other character is literal. -/
theorem scan_single {c : Char} (hc : c ≠ '\'') (w : Word) (cs : List Char) :
    scan (.text (some w) .single) (c :: cs) = scan (.text (some (w ++ [(c, .literal)])) .single) cs := by
  rw [scan, step, if_neg hc]
  rfl

/-- A quote closes them, an escaped one follows, and they are opened again. -/
theorem scan_reopened (w : Word) (cs : List Char) :
    scan (.text (some w) .single) ('\'' :: '\\' :: '\'' :: '\'' :: cs) =
      scan (.text (some (w ++ [('\'', .literal)])) .single) cs := rfl

end ShellLex
