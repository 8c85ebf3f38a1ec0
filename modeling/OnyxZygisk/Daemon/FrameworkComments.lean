import OnyxZygisk.Daemon.Scope
import OnyxZygisk.Lib.Words

/-!
# Framework modules and comments

`framework_daemon_name` looks for `app_process` and for the daemons' names anywhere in `service.sh`. It means that a
mention in a comment makes no module a framework module; it does, in a script that has `app_process` on some line
(`commented_framework_iff`).
-/

namespace OnyxZygisk.Daemon

open Words (isBlank contains_iff_split)

variable {e : Env} {fs : FileTree} {dir : FilePath}

/-! ### What is read of a module -/

/-- What `fs::read_to_string` gives: a file may be unreadable, or no text. -/
def Env.reads (e : Env) (fs : FileTree) (p : FilePath) : Option String := if e.works (.read p) then fs.read p else none

def Env.lists (e : Env) (fs : FileTree) (p : FilePath) : Option (List String) :=
  if e.works (.readDir p) && fs.isDir p then some (fs.children p) else none

/-- The files that may start a daemon. -/
def Env.wrappers (e : Env) (fs : FileTree) (dir : FilePath) : List FilePath :=
  (dir ++ ["daemon"]) :: ((e.lists fs (dir ++ ["bin"])).getD []).map fun entry => dir ++ ["bin", entry]

/-- The framework daemon a wrapper starts. -/
def Env.wrapped (e : Env) (fs : FileTree) (wrapper : FilePath) : Option String :=
  ((e.reads fs wrapper).bind parseDaemonNiceName).filter (frameworkDaemonNames.contains ·)

/-- The daemon that `service.sh` names beside `app_process`. -/
def serviceDaemon (service : String) : Option String :=
  if Text.contains "app_process" service then frameworkDaemonNames.find? (Text.contains · service) else none

theorem run_read (e : Env) (p : FilePath) (w : World) :
    Prog.run exec e (readToString p) w = some (e.reads w.fs p, w) := Prog.run_perform e _ w

theorem run_list (e : Env) (p : FilePath) (w : World) :
    Prog.run exec e (readDir p) w = some (e.lists w.fs p, w) := Prog.run_perform e _ w

/-- Whatever can be read of a module, a wrapper comes first and `service.sh` last. -/
theorem run_isFrameworkModule (e : Env) (w : World) (dir : FilePath) :
    Prog.run exec e (isFrameworkModule dir) w = some ((((e.wrappers w.fs dir).findSome? (e.wrapped w.fs)).or
      ((e.reads w.fs (dir ++ ["service.sh"])).bind serviceDaemon)).isSome, w) := by
  have hwrapper : ∀ wrapper ∈ e.wrappers w.fs dir, Prog.run exec e (do
      let text ← readToString wrapper
      pure ((text.bind parseDaemonNiceName).filter (frameworkDaemonNames.contains ·))) w =
        some (e.wrapped w.fs wrapper, w) := by
    intro wrapper _
    rw [Prog.run_bind, run_read]
    rfl
  unfold isFrameworkModule frameworkDaemonName
  rw [Prog.run_bind, Prog.run_bind, run_list, Option.bind_some, Prog.run_bind]
  dsimp only
  have hfirst := Prog.run_firstSome hwrapper
  unfold Env.wrappers at hfirst ⊢
  rw [hfirst, Option.bind_some]
  dsimp only
  cases List.findSome? (e.wrapped w.fs) _ with
  | some name => rfl
  | none =>
    dsimp only
    rw [Prog.run_bind, run_read, Option.bind_some]
    dsimp only
    cases e.reads w.fs (dir ++ ["service.sh"]) with
    | none => rfl
    | some service =>
      show Option.bind (Prog.run exec e (if Text.contains "app_process" service = true then _ else _) w) _ = _
      unfold serviceDaemon
      cases happ : Text.contains "app_process" service with
      | true => simp [happ]
      | false => simp [happ]

/-! ### Scripts and their comments -/

/-- The first character that is not blank is `#`. -/
def isComment (line : String) : Bool := (line.toList.dropWhile isBlank).head? = some '#'

def scriptLines (script : String) : List String := Text.split '\n' script

/-- The line has the name of a framework daemon in it. -/
def mentionsDaemon (line : String) : Bool := frameworkDaemonNames.any (Text.contains · line)

/-- No wrapper passes `--nice-name` with the name of a framework daemon. -/
def Env.Unwrapped (e : Env) (fs : FileTree) (dir : FilePath) : Prop :=
  ∀ wrapper ∈ e.wrappers fs dir, ∀ text, e.reads fs wrapper = some text →
    ∀ name, parseDaemonNiceName text = some name → name ∉ frameworkDaemonNames

/-- The daemons are named on comment lines only. -/
def OnlyCommented (service : String) : Prop :=
  ∀ line ∈ scriptLines service, mentionsDaemon line = true → isComment line = true

theorem findSome_unwrapped (h : e.Unwrapped fs dir) : (e.wrappers fs dir).findSome? (e.wrapped fs) = none := by
  rw [List.findSome?_eq_none_iff]
  intro wrapper hwrapper
  rw [Env.wrapped, Option.filter_eq_none_iff]
  intro name hname
  obtain ⟨text, htext, hparsed⟩ := Option.bind_eq_some_iff.1 hname
  rw [List.contains_iff_mem]
  exact h wrapper hwrapper text htext name hparsed

theorem newline_not_mem_daemonNames {name : String} (h : name ∈ frameworkDaemonNames) : '\n' ∉ name.toList := by
  rcases List.mem_cons.1 h with rfl | h
  · decide
  · obtain rfl := List.mem_singleton.1 h
    decide

/-- `service.sh` is taken for a daemon's where one line has `app_process` and one has the daemon's name. -/
theorem serviceDaemon_isSome {service : String} : (serviceDaemon service).isSome = true ↔
    (∃ line ∈ scriptLines service, Text.contains "app_process" line = true) ∧
      ∃ line ∈ scriptLines service, mentionsDaemon line = true := by
  have happ : Text.contains "app_process" service = true ↔
      ∃ line ∈ scriptLines service, Text.contains "app_process" line = true := contains_iff_split (by decide)
  have hnamed : (frameworkDaemonNames.find? (Text.contains · service)).isSome = true ↔
      ∃ line ∈ scriptLines service, mentionsDaemon line = true := by
    rw [List.find?_isSome]
    constructor
    · rintro ⟨name, hname, hin⟩
      obtain ⟨line, hline, hmention⟩ := (contains_iff_split (newline_not_mem_daemonNames hname)).1 hin
      exact ⟨line, hline, List.any_eq_true.2 ⟨name, hname, hmention⟩⟩
    · rintro ⟨line, hline, hmention⟩
      obtain ⟨name, hname, hin⟩ := List.any_eq_true.1 hmention
      exact ⟨name, hname, (contains_iff_split (newline_not_mem_daemonNames hname)).2 ⟨line, hline, hin⟩⟩
  rw [← happ, ← hnamed]
  unfold serviceDaemon
  cases Text.contains "app_process" service with
  | true => simp only [↓reduceIte, true_and]
  | false => simp

/-- Where the daemons are named in comments only, the module counts as ordinary when no line of `service.sh` has
`app_process` or no comment names a daemon, and only then. -/
theorem commented_framework_iff (e : Env) (w : World) (dir : FilePath) (hwrappers : e.Unwrapped w.fs dir)
    (hcomments : ∀ service, e.reads w.fs (dir ++ ["service.sh"]) = some service → OnlyCommented service) :
    ∃ framework, Prog.run exec e (isFrameworkModule dir) w = some (framework, w) ∧
      (framework = false ↔ ∀ service, e.reads w.fs (dir ++ ["service.sh"]) = some service →
        (∀ line ∈ scriptLines service, Text.contains "app_process" line = false) ∨
          ∀ line ∈ scriptLines service, isComment line = true → mentionsDaemon line = false) := by
  refine ⟨_, run_isFrameworkModule e w dir, ?_⟩
  rw [findSome_unwrapped hwrappers, Option.none_or]
  cases hservice : e.reads w.fs (dir ++ ["service.sh"]) with
  | none => exact ⟨fun _ _ h => (nomatch h), fun _ => rfl⟩
  | some service =>
    have honly := hcomments service hservice
    rw [Option.bind_some, ← Bool.not_eq_true, serviceDaemon_isSome]
    constructor
    · intro h text htext
      obtain rfl := Option.some.inj htext
      rcases not_and_or.1 h with h | h
      · left
        intro line hline
        exact Bool.eq_false_iff.2 fun happ => h ⟨line, hline, happ⟩
      · right
        intro line hline _
        exact Bool.eq_false_iff.2 fun hmention => h ⟨line, hline, hmention⟩
    · rintro h ⟨⟨line, hline, happ⟩, line', hline', hmention⟩
      rcases h service rfl with h | h
      · exact Bool.false_ne_true ((h line hline).symm.trans happ)
      · exact Bool.false_ne_true ((h line' hline' (honly line' hline' hmention)).symm.trans hmention)

/-! ### A comment about a framework daemon -/

def commentedDir : FilePath := activeDir "m"

def commentedService : String := "# not needed with lspd\nexec app_process /system/bin Main\n"

def commentedFs : FileTree := .ofFiles [(commentedDir ++ ["service.sh"], commentedService)]

theorem unwrapped_commented : Env.fine.Unwrapped commentedFs commentedDir := by
  intro wrapper hwrapper text htext
  have hnone : ∀ wrapper ∈ Env.fine.wrappers commentedFs commentedDir,
      Env.fine.reads commentedFs wrapper = none := by decide
  nomatch (hnone wrapper hwrapper).symm.trans htext

theorem onlyCommented_commented : OnlyCommented commentedService := by
  unfold OnlyCommented
  decide

theorem reads_commented {service : String}
    (h : Env.fine.reads commentedFs (commentedDir ++ ["service.sh"]) = some service) : OnlyCommented service := by
  have hread : Env.fine.reads commentedFs (commentedDir ++ ["service.sh"]) = some commentedService := by decide
  rw [Option.some.inj (h.symm.trans hread)]
  exact onlyCommented_commented

theorem commented_framework_fine : ∃ framework,
    Prog.run exec .fine (isFrameworkModule commentedDir) (.idle commentedFs) = some (framework, .idle commentedFs) ∧
      (framework = false ↔ ∀ service, Env.fine.reads commentedFs (commentedDir ++ ["service.sh"]) = some service →
        (∀ line ∈ scriptLines service, Text.contains "app_process" line = false) ∨
          ∀ line ∈ scriptLines service, isComment line = true → mentionsDaemon line = false) :=
  commented_framework_iff .fine (.idle commentedFs) commentedDir unwrapped_commented fun _ h => reads_commented h

/-- The comment alone makes it a framework module. -/
theorem comment_makes_framework : ¬ ∀ (e : Env) (w : World) (dir : FilePath), e.Unwrapped w.fs dir →
    (∀ service, e.reads w.fs (dir ++ ["service.sh"]) = some service → OnlyCommented service) →
      Prog.run exec e (isFrameworkModule dir) w = some (false, w) := by
  intro h
  have hfalse := h .fine (.idle commentedFs) commentedDir unwrapped_commented fun _ hread => reads_commented hread
  have hsame := (Prog.run_unique (run_isFrameworkModule _ _ _) hfalse).1
  have hservice : ((Env.fine.reads commentedFs (commentedDir ++ ["service.sh"])).bind serviceDaemon).isSome = true := by
    decide
  have hsome : (((Env.fine.wrappers commentedFs commentedDir).findSome? (Env.fine.wrapped commentedFs)).or
      ((Env.fine.reads commentedFs (commentedDir ++ ["service.sh"])).bind serviceDaemon)).isSome = true := by
    rw [findSome_unwrapped unwrapped_commented]
    exact hservice
  exact Bool.false_ne_true (hsame.symm.trans hsome)

end OnyxZygisk.Daemon
