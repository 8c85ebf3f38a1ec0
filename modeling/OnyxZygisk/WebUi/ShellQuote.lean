import OnyxZygisk.Lib.ShellLex

/-!
# Texts in the WebUI's root commands

The WebUI runs its commands as root and puts ids, paths and modes into them through `shellQuote`. Wherever
the quoted text stands between blanks, the shell reads it as one word that is the text, literal to its last
character (`lex_shellQuote`); so the commands of the switches have the words they were written with,
whatever the id is.
-/

namespace OnyxZygisk.WebUi

open ShellLex

/-- `value.replaceAll("'", ...)`: each quote closes the quotes, stands there escaped and opens them again. -/
def replaceQuotes (value : List Char) : List Char :=
  value.flatMap fun c => if c = '\'' then ['\'', '\\', '\'', '\''] else [c]

def shellQuote (value : String) : String := String.ofList ('\'' :: replaceQuotes value.toList ++ ['\''])

/-! ### What the shell reads -/

/-- Inside the quotes the text is read as it was. -/
theorem scan_replaceQuotes (w : Word) (value cs : List Char) :
    scan (.text (some w) .single) (replaceQuotes value ++ cs) =
      scan (.text (some (w ++ literalWord value)) .single) cs := by
  induction value generalizing w with
  | nil =>
    rw [literalWord, List.map_nil, List.append_nil]
    rfl
  | cons c value ih =>
    have hword : w ++ literalWord (c :: value) = w ++ [(c, Quoting.literal)] ++ literalWord value := by
      rw [List.append_assoc]
      rfl
    rw [replaceQuotes, List.flatMap_cons, ← replaceQuotes, List.append_assoc, hword]
    by_cases hc : c = '\''
    · rw [if_pos hc, hc]
      exact (scan_reopened w _).trans (ih _)
    · rw [if_neg hc]
      exact (scan_single hc w _).trans (ih _)

/-- The state behind the last quote is unquoted again. -/
theorem scan_shellQuote (value : String) :
    scan start (shellQuote value).toList = ([], .text (some (literalWord value.toList)) .unquoted) := by
  have hopen (cs : List Char) : scan start ('\'' :: cs) = scan (.text (some []) .single) cs := rfl
  rw [shellQuote, String.toList_ofList, List.cons_append, hopen, scan_replaceQuotes]
  rfl

theorem lex_quoted (value : String) : lex (shellQuote value).toList = some [.word (literalWord value.toList)] :=
  lex_word (scan_shellQuote value)

/-- No two texts are quoted alike. -/
theorem shellQuote_injective : Function.Injective shellQuote := by
  intro a b h
  have hlex := lex_quoted a
  rw [h, lex_quoted b, Option.some.injEq, List.cons.injEq, Token.word.injEq] at hlex
  have htext := congrArg Word.text hlex.1
  rw [text_literalWord, text_literalWord] at htext
  exact (String.toList_inj.1 htext).symm

/-- A quoted text in a command. -/
theorem lex_between {front back : List Char} {before after : List Token} (hfront : lex front = some before)
    (hback : lex back = some after) (value : String) :
    lex (front ++ ' ' :: ((shellQuote value).toList ++ ' ' :: back)) =
      some (before ++ .word (literalWord value.toList) :: after) := by
  rw [lex_blank hfront, lex_blank (lex_quoted value), hback]
  rfl

/-- The same at the end of a command. -/
theorem lex_last {front : List Char} {before : List Token} (hfront : lex front = some before) (value : String) :
    lex (front ++ ' ' :: (shellQuote value).toList) = some (before ++ [.word (literalWord value.toList)]) := by
  rw [lex_blank hfront, lex_quoted]
  rfl

/-- Between any two parts of a command a quoted text is exactly one word, and this word is the text. -/
theorem lex_shellQuote (front back value : String) (before after : List Token)
    (hfront : lex front.toList = some before) (hback : lex back.toList = some after) :
    lex (front ++ " " ++ shellQuote value ++ " " ++ back).toList =
        some (before ++ [.word (literalWord value.toList)] ++ after) ∧
      Word.text (literalWord value.toList) = value.toList := by
  refine ⟨?_, text_literalWord _⟩
  have htext : (front ++ " " ++ shellQuote value ++ " " ++ back).toList =
      front.toList ++ ' ' :: ((shellQuote value).toList ++ ' ' :: back.toList) := by
    simp only [String.toList_append, List.append_assoc]
    rfl
  rw [htext, lex_between hfront hback, List.append_assoc]
  rfl

/-- A name with a quote, a command and a line feed in it. -/
theorem lex_shellQuote_hostile :
    lex ("rm -f" ++ " " ++ shellQuote "a'; reboot\n$(id)\\" ++ " " ++ "&& echo \"ok\"").toList =
      some (["rm", "-f"].map (fun w => .word (w.toList.map fun c => (c, .bare))) ++
        [.word (literalWord "a'; reboot\n$(id)\\".toList)] ++
        [.operator "&&".toList, .word ("echo".toList.map fun c => (c, .bare)),
          .word ("ok".toList.map fun c => (c, .double))]) :=
  (lex_shellQuote "rm -f" "&& echo \"ok\"" "a'; reboot\n$(id)\\" _ _ (by decide) (by decide)).1

/-! ### The commands of the switches -/

/-- A word without quotes. -/
def bareWord (s : String) : Token := .word (s.toList.map fun c => (c, .bare))

def quotedWord (s : String) : Token := .word (literalWord s.toList)

def WORKDIR : String := "/data/adb/onyxzygisk"

/-- The command of `setFnEnabled`. -/
def setFnEnabledCommand (id : String) (enabled : Bool) : String :=
  let flag := WORKDIR ++ "/fn/" ++ id ++ "/disable"
  if enabled then "rm -f " ++ shellQuote flag else "touch " ++ shellQuote flag

/-- The first command of `setModuleHotplug`. -/
def setModuleHotplugCommand (id : String) (enabled : Bool) : String :=
  let directory := WORKDIR ++ "/hotplug"
  let flag := directory ++ "/" ++ id
  if enabled then "mkdir -p " ++ shellQuote directory ++ " && touch " ++ shellQuote flag
  else "rm -f " ++ shellQuote flag

/-- The command of `setMountMode`. -/
def setMountModeCommand (mode : String) : String :=
  let flag := WORKDIR ++ "/mount_mode"
  if mode = "revert" then "rm -f " ++ shellQuote flag
  else "printf '%s' " ++ shellQuote mode ++ " > " ++ shellQuote flag

/-- A command of one program and one quoted argument at its end. -/
theorem lex_command {front : String} {before : List Token} (hfront : lex front.toList = some before)
    (value : String) : lex (front ++ " " ++ shellQuote value).toList = some (before ++ [quotedWord value]) := by
  have htext : (front ++ " " ++ shellQuote value).toList = front.toList ++ ' ' :: (shellQuote value).toList := by
    simp only [String.toList_append, List.append_assoc]
    rfl
  rw [htext, lex_last hfront]
  rfl

/-- The switch of a node makes or removes one file, whatever its id is. -/
theorem lex_setFnEnabled (id : String) (enabled : Bool) :
    lex (setFnEnabledCommand id enabled).toList = some ((if enabled then [bareWord "rm", bareWord "-f"]
      else [bareWord "touch"]) ++ [quotedWord (WORKDIR ++ "/fn/" ++ id ++ "/disable")]) := by
  have hrm : lex "rm -f".toList = some [bareWord "rm", bareWord "-f"] := by decide
  have htouch : lex "touch".toList = some [bareWord "touch"] := by decide
  cases enabled with
  | true => exact lex_command hrm _
  | false => exact lex_command htouch _

/-- The opt-in of a module is one file, too. -/
theorem lex_setModuleHotplug (id : String) (enabled : Bool) :
    lex (setModuleHotplugCommand id enabled).toList = some (if enabled then
      [bareWord "mkdir", bareWord "-p", quotedWord (WORKDIR ++ "/hotplug"), .operator "&&".toList,
        bareWord "touch", quotedWord (WORKDIR ++ "/hotplug" ++ "/" ++ id)]
      else [bareWord "rm", bareWord "-f", quotedWord (WORKDIR ++ "/hotplug" ++ "/" ++ id)]) := by
  have hmkdir : lex "mkdir -p".toList = some [bareWord "mkdir", bareWord "-p"] := by decide
  have htouch : lex "&& touch".toList = some [.operator "&&".toList, bareWord "touch"] := by decide
  have hrm : lex "rm -f".toList = some [bareWord "rm", bareWord "-f"] := by decide
  cases enabled with
  | true =>
    have htext : (setModuleHotplugCommand id true).toList = "mkdir -p".toList ++
        ' ' :: ((shellQuote (WORKDIR ++ "/hotplug")).toList ++ ' ' :: ("&& touch".toList ++
          ' ' :: (shellQuote (WORKDIR ++ "/hotplug" ++ "/" ++ id)).toList)) := by
      simp only [setModuleHotplugCommand, if_true, String.toList_append, List.append_assoc]
      rfl
    rw [htext, lex_between hmkdir (lex_last htouch _)]
    rfl
  | false => exact lex_command hrm _

/-- A mount mode other than the default is printed into the flag file. -/
theorem lex_setMountMode (mode : String) :
    lex (setMountModeCommand mode).toList = some (if mode = "revert" then
      [bareWord "rm", bareWord "-f", quotedWord (WORKDIR ++ "/mount_mode")]
      else [bareWord "printf", quotedWord "%s", quotedWord mode, .operator ">".toList,
        quotedWord (WORKDIR ++ "/mount_mode")]) := by
  have hrm : lex "rm -f".toList = some [bareWord "rm", bareWord "-f"] := by decide
  have hprintf : lex "printf '%s'".toList = some [bareWord "printf", quotedWord "%s"] := by decide
  have hto : lex ">".toList = some [.operator ">".toList] := by decide
  by_cases hmode : mode = "revert"
  · rw [setMountModeCommand, if_pos hmode, if_pos hmode]
    exact lex_command hrm _
  · have htext : (setMountModeCommand mode).toList = "printf '%s'".toList ++
        ' ' :: ((shellQuote mode).toList ++ ' ' :: (">".toList ++
          ' ' :: (shellQuote (WORKDIR ++ "/mount_mode")).toList)) := by
      simp only [setMountModeCommand, if_neg hmode, String.toList_append, List.append_assoc]
      rfl
    rw [htext, lex_between hprintf (lex_last hto _), if_neg hmode]
    rfl

end OnyxZygisk.WebUi
