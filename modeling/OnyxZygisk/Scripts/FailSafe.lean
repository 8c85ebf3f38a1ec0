import Mathlib.Data.List.TakeDrop
import OnyxZygisk.Lib.Text

/-!
# The boot-loop fail-safe

`zygisk-init.sh` counts a kernel boot the first time it finds another boot id in its file; the health
witness of `service.sh` removes both files. The files keep a tally of two values, the count and whether
this boot is in it, and the tally is the number of unhealthy boots as long as no run follows a witness in
its boot and every boot without a witness has a run (`failSafe_counts_iff`).
-/

namespace OnyxZygisk.Scripts

/-! ### The scripts -/

/-- `$(cmd)`: the output without its trailing newlines. -/
def substitution (output : String) : String :=
  String.ofList (output.toList.reverse.dropWhile (· = '\n')).reverse

/-- `echo text`, of a text without backslashes. -/
def echo (text : String) : String := text ++ "\n"

/-- What the kernel gives as `/proc/sys/kernel/random/boot_id`: hexadecimal digits and dashes. -/
structure BootId where
  text : String
  nonempty : text ≠ ""
  plain : ∀ c ∈ text.toList, c.isAlphanum ∨ c = '-'

/-- `boot_fail_count`, `boot_fail_boot_id` and the latch `injection_disabled`. -/
structure Files where
  failCount : Option String
  failBoot : Option String
  disabled : Bool
deriving DecidableEq

/-- `fail_count` before the run adds to it; `''|*[!0-9]*)` makes it 0. -/
def readCount (file : Option String) : Nat :=
  let failCount := match file with
    | some content => substitution content
    | none => "0"
  (Text.digits failCount.toList).getD 0

/-- The fail-safe of `zygisk-init.sh`. -/
def zygiskInit (bootId : String) (f : Files) : Files :=
  let failCount := readCount f.failCount
  let countedBoot := substitution (f.failBoot.getD "")
  let counts := bootId = "" ∨ countedBoot ≠ bootId
  let failCount' := if counts then failCount + 1 else failCount
  let f' := if counts then
      { f with
        failCount := some (echo (Nat.repr failCount'))
        failBoot := if bootId = "" then f.failBoot else some (echo bootId) }
    else f
  if 3 ≤ failCount' ∧ f'.disabled = false then { f' with disabled := true } else f'

/-- The health witness of `service.sh`, once Android reports boot completion. -/
def healthWitness (f : Files) : Files := { f with failCount := none, failBoot := none }

/-- What happens in a boot; the last is the user removing the latch. -/
inductive Event
  | init
  | witness
  | clear
deriving DecidableEq

def Event.step (bootId : String) (f : Files) : Event → Files
  | .init => zygiskInit bootId f
  | .witness => healthWitness f
  | .clear => { f with disabled := false }

structure Boot where
  id : BootId
  events : List Event

def Boot.witnessed (b : Boot) : Bool := decide (.witness ∈ b.events)
def Boot.ran (b : Boot) : Bool := decide (.init ∈ b.events)

def during (bootId : String) (done : List Event) (f : Files) : Files := done.foldl (Event.step bootId) f

def runBoots (boots : List Boot) (f : Files) : Files := boots.foldl (fun f b => during b.id.text b.events f) f

/-! ### Numbers and ids as the files keep them -/

theorem substitution_echo {text : String} (h : text.toList.getLast? ≠ some '\n') :
    substitution (echo text) = text := by
  have hlast : text.toList.reverse.dropWhile (fun c => decide (c = '\n')) = text.toList.reverse := by
    refine Text.dropWhile_of_head fun c hc => ?_
    rw [List.head?_reverse] at hc
    exact decide_eq_false fun hlf => h (hlf ▸ Option.mem_def.1 hc)
  unfold substitution echo
  rw [String.toList_append, List.reverse_append]
  change String.ofList (List.dropWhile _ ('\n' :: text.toList.reverse)).reverse = text
  rw [List.dropWhile_cons_of_pos (by decide), hlast, List.reverse_reverse, String.ofList_toList]

theorem BootId.substitution_echo (b : BootId) : substitution (echo b.text) = b.text := by
  refine Scripts.substitution_echo fun hlast => ?_
  have hlf := b.plain '\n' (List.mem_of_getLast? hlast)
  revert hlf
  decide

theorem isDigit_repr {n : Nat} {c : Char} (h : c ∈ n.repr.toList) : c.isDigit = true := by
  rw [Nat.toList_repr] at h
  exact Nat.isDigit_of_mem_toDigits (by decide) (by decide) h

theorem readCount_echo (n : Nat) : readCount (some (echo n.repr)) = n := by
  have hlast : n.repr.toList.getLast? ≠ some '\n' := fun h => by
    have hlf := isDigit_repr (List.mem_of_getLast? h)
    revert hlf
    decide
  change (Text.digits (substitution (echo n.repr)).toList).getD 0 = n
  rw [substitution_echo hlast, Nat.toList_repr, Text.digits_toDigits, Option.getD_some]

/-- Without the file the count is 0. -/
theorem readCount_none : readCount none = 0 := by decide

/-! ### The tally the files keep -/

/-- The count, and whether the boot that runs is in it. -/
structure Tally where
  count : Nat
  counted : Bool

def Tally.step (t : Tally) : Event → Tally
  | .init => if t.counted then t else ⟨t.count + 1, true⟩
  | .witness => ⟨0, false⟩
  | .clear => t

def Tally.during (done : List Event) (t : Tally) : Tally := done.foldl Tally.step t

def Tally.boots (boots : List Boot) : Tally :=
  boots.foldl (fun t b => Tally.during b.events ⟨t.count, false⟩) ⟨0, false⟩

/-- The files keep the tally: a boot id in them is this boot's or that of a boot before. -/
structure Keeps (past : List Boot) (b : BootId) (f : Files) (t : Tally) : Prop where
  count : readCount f.failCount = t.count
  counted : t.counted = true ↔ f.failBoot = some (echo b.text)
  known : ∀ text, f.failBoot = some text → text = echo b.text ∨ ∃ p ∈ past, text = echo p.id.text

variable {past boots : List Boot} {b : Boot} {id : BootId} {f : Files} {t : Tally} {done more : List Event}

/-- A boot is counted once: as long as its id stands in the file. -/
theorem Keeps.counts_iff (h : Keeps past id f t) :
    (id.text = "" ∨ substitution (f.failBoot.getD "") ≠ id.text) ↔ t.counted = false := by
  have hsub : substitution (f.failBoot.getD "") = id.text ↔ f.failBoot = some (echo id.text) := by
    cases hboot : f.failBoot with
    | none =>
      refine ⟨fun hid => absurd hid.symm ?_, nofun⟩
      exact id.nonempty
    | some text =>
      have hecho : ∃ known : BootId, text = echo known.text := by
        rcases h.known text hboot with rfl | ⟨p, -, rfl⟩
        · exact ⟨id, rfl⟩
        · exact ⟨p.id, rfl⟩
      obtain ⟨known, rfl⟩ := hecho
      rw [Option.getD_some, known.substitution_echo]
      refine ⟨fun hid => by rw [hid], fun heq => ?_⟩
      have htext := congrArg substitution (Option.some.inj heq)
      rwa [known.substitution_echo, id.substitution_echo] at htext
  rw [ne_eq, hsub, ← h.counted, Bool.not_eq_true]
  exact or_iff_right id.nonempty

/-- A run in a boot that is not counted counts it. -/
theorem zygiskInit_counts {bootId : String} (hid : bootId ≠ "")
    (h : bootId = "" ∨ substitution (f.failBoot.getD "") ≠ bootId) :
    zygiskInit bootId f =
      ⟨some (echo (readCount f.failCount + 1).repr), some (echo bootId),
        f.disabled || decide (3 ≤ readCount f.failCount + 1)⟩ := by
  unfold zygiskInit
  simp only [if_pos h, if_neg hid]
  cases f.disabled <;> by_cases hcount : 3 ≤ readCount f.failCount + 1 <;> simp [hcount]

/-- A run in a boot that is counted leaves the files. -/
theorem zygiskInit_counted {bootId : String}
    (h : ¬ (bootId = "" ∨ substitution (f.failBoot.getD "") ≠ bootId)) :
    zygiskInit bootId f =
      ⟨f.failCount, f.failBoot, f.disabled || decide (3 ≤ readCount f.failCount)⟩ := by
  unfold zygiskInit
  simp only [if_neg h]
  obtain ⟨count, boot, disabled⟩ := f
  cases disabled <;> by_cases hcount : 3 ≤ readCount count <;> simp [hcount]

/-- The latch is made at the count the run ends with. -/
theorem zygiskInit_disabled {bootId : String} (hid : bootId ≠ "") (hopen : f.disabled = false)
    (hshut : (zygiskInit bootId f).disabled = true) : 3 ≤ readCount (zygiskInit bootId f).failCount := by
  by_cases h : bootId = "" ∨ substitution (f.failBoot.getD "") ≠ bootId
  · rw [zygiskInit_counts hid h, hopen, Bool.false_or] at hshut
    rw [zygiskInit_counts hid h, readCount_echo]
    exact of_decide_eq_true hshut
  · rw [zygiskInit_counted h, hopen, Bool.false_or] at hshut
    rw [zygiskInit_counted h]
    exact of_decide_eq_true hshut

theorem Keeps.init (h : Keeps past id f t) : Keeps past id (zygiskInit id.text f) (t.step .init) := by
  cases hcounted : t.counted with
  | false =>
    rw [zygiskInit_counts id.nonempty (h.counts_iff.2 hcounted)]
    have hstep : t.step .init = ⟨t.count + 1, true⟩ := by simp [Tally.step, hcounted]
    rw [hstep]
    refine ⟨?_, ⟨fun _ => rfl, fun _ => rfl⟩, fun text htext => .inl (Option.some.inj htext).symm⟩
    dsimp only
    rw [readCount_echo, h.count]
  | true =>
    have hnot : ¬ (id.text = "" ∨ substitution (f.failBoot.getD "") ≠ id.text) := fun hcounts => by
      rw [h.counts_iff.1 hcounts] at hcounted
      nomatch hcounted
    rw [zygiskInit_counted hnot]
    have hstep : t.step .init = t := by simp [Tally.step, hcounted]
    rw [hstep]
    exact ⟨h.count, h.counted, h.known⟩

theorem Keeps.step (h : Keeps past id f t) (ev : Event) : Keeps past id (ev.step id.text f) (t.step ev) := by
  cases ev with
  | init => exact h.init
  | witness => exact ⟨readCount_none, ⟨nofun, nofun⟩, nofun⟩
  | clear => exact ⟨h.count, h.counted, h.known⟩

theorem Keeps.during (h : Keeps past id f t) (done : List Event) :
    Keeps past id (during id.text done f) (t.during done) := by
  induction done generalizing f t with
  | nil => exact h
  | cons ev done ih => exact ih (h.step ev)

/-- The next boot is not in the count: its id is new. -/
theorem Keeps.boot {p : Boot} (h : Keeps past p.id f t) (hnew : id.text ≠ p.id.text)
    (hpast : ∀ q ∈ past, id.text ≠ q.id.text) : Keeps (past ++ [p]) id f ⟨t.count, false⟩ := by
  have hecho : ∀ known : BootId, echo known.text = echo id.text → id.text = known.text := by
    intro known heq
    have htext := congrArg substitution heq
    rw [known.substitution_echo, id.substitution_echo] at htext
    exact htext.symm
  have hknown : ∀ text, f.failBoot = some text → ∃ q ∈ past ++ [p], text = echo q.id.text := by
    intro text htext
    rcases h.known text htext with rfl | ⟨q, hq, rfl⟩
    · exact ⟨p, by simp, rfl⟩
    · exact ⟨q, by simp [hq], rfl⟩
  refine ⟨h.count, ⟨nofun, fun hboot => ?_⟩, fun text htext => .inr (hknown text htext)⟩
  obtain ⟨q, hq, heq⟩ := hknown _ hboot
  rcases List.mem_append.1 hq with hq | hq
  · exact absurd (hecho q.id heq.symm) (hpast q hq)
  · obtain rfl := List.mem_singleton.1 hq
    exact absurd (hecho q.id heq.symm) hnew

/-- A fresh installation has neither file. -/
def fresh (disabled : Bool) : Files := ⟨none, none, disabled⟩

theorem keeps_runBoots (disabled : Bool) :
    ∀ (past : List Boot) (b : Boot), ((past ++ [b]).map fun p => p.id.text).Nodup →
      Keeps past b.id (runBoots past (fresh disabled)) ⟨(Tally.boots past).count, false⟩ := by
  intro past
  induction past using List.reverseRecOn with
  | nil => exact fun b _ => ⟨readCount_none, ⟨nofun, nofun⟩, nofun⟩
  | append_singleton past p ih =>
    intro b hnodup
    rw [List.map_append, List.nodup_append] at hnodup
    obtain ⟨hpast, -, hdisjoint⟩ := hnodup
    have hne : ∀ q ∈ past ++ [p], b.id.text ≠ q.id.text := fun q hq heq =>
      hdisjoint q.id.text (List.mem_map_of_mem hq) b.id.text (by simp) heq.symm
    have hruns := (ih p hpast).during p.events
    rw [runBoots, Tally.boots, List.foldl_append, List.foldl_append]
    exact hruns.boot (hne p (by simp)) fun q hq => hne q (by simp [hq])

/-! ### What the counter should be -/

/-- The boots right before without a witness, the last first. -/
def unhealthy (past : List Boot) : List Boot := past.reverse.takeWhile fun p => !p.witnessed

/-- This boot and the unhealthy ones before it, or none once this boot is confirmed. -/
def expected (past : List Boot) (done : List Event) : Nat :=
  if .witness ∈ done then 0 else (unhealthy past).length + 1

/-- `zygisk-init.sh` runs in the boot `b`, after `done` there and the boots `past`. -/
def IsRun (boots past : List Boot) (b : Boot) (done : List Event) : Prop :=
  ∃ rest more, boots = past ++ b :: rest ∧ b.events = done ++ .init :: more

/-- The files this run finds. -/
def found (disabled : Bool) (past : List Boot) (b : Boot) (done : List Event) : Files :=
  during b.id.text done (runBoots past (fresh disabled))

/-- This run counts exactly, and latches only on three. -/
def Counts (disabled : Bool) (past : List Boot) (b : Boot) (done : List Event) : Prop :=
  let before := found disabled past b done
  let after := zygiskInit b.id.text before
  readCount after.failCount = expected past done ∧
    (before.disabled = false → after.disabled = true → 3 ≤ expected past done)

theorem unhealthy_append (past : List Boot) (p : Boot) :
    unhealthy (past ++ [p]) = if p.witnessed then [] else p :: unhealthy past := by
  unfold unhealthy
  rw [List.reverse_append, List.reverse_singleton, List.singleton_append, List.takeWhile_cons]
  cases p.witnessed <;> rfl

@[simp] theorem Tally.during_concat (t : Tally) (done : List Event) (ev : Event) :
    Tally.during (done ++ [ev]) t = (Tally.during done t).step ev := List.foldl_concat ..

/-- No run follows a witness. -/
def Orderly (events : List Event) : Prop := ∀ done more, events = done ++ .init :: more → .witness ∉ done

/-- What one boot without a run after its witness does to the tally. -/
theorem Tally.during_orderly (n : Nat) (h : Orderly done) :
    Tally.during done ⟨n, false⟩ =
      if .witness ∈ done then ⟨0, false⟩ else if .init ∈ done then ⟨n + 1, true⟩ else ⟨n, false⟩ := by
  induction done using List.reverseRecOn with
  | nil => rfl
  | append_singleton done ev ih =>
    have hdone : Orderly done := fun front more hfront =>
      h front (more ++ [ev]) (by rw [hfront, List.append_assoc, List.cons_append])
    rw [Tally.during_concat, ih hdone]
    cases ev with
    | init =>
      have hnot : .witness ∉ done := h done [] rfl
      by_cases hinit : Event.init ∈ done <;> simp [hnot, hinit, Tally.step]
    | witness => simp [Tally.step]
    | clear => simp [Tally.step]

/-- Over boots the tally counts the unhealthy ones that had a run. -/
theorem Tally.boots_orderly (h : ∀ p ∈ past, Orderly p.events) :
    (Tally.boots past).count = ((unhealthy past).filter Boot.ran).length := by
  induction past using List.reverseRecOn with
  | nil => rfl
  | append_singleton past p ih =>
    have hpast := ih fun q hq => h q (by simp [hq])
    have hlast : Tally.boots (past ++ [p]) = Tally.during p.events ⟨(Tally.boots past).count, false⟩ := by
      rw [Tally.boots, List.foldl_append]
      rfl
    rw [hlast, Tally.during_orderly _ (h p (by simp)), unhealthy_append]
    by_cases hwitness : Event.witness ∈ p.events
    · simp [Boot.witnessed, hwitness]
    · by_cases hran : Event.init ∈ p.events <;>
        simp [Boot.witnessed, Boot.ran, hwitness, hran, hpast]

/-- After a run the count is not 0. -/
theorem Tally.during_pos (n : Nat) : (Tally.during done ⟨n, false⟩).counted = true →
    0 < (Tally.during done ⟨n, false⟩).count := by
  induction done using List.reverseRecOn with
  | nil => exact nofun
  | append_singleton done ev ih =>
    rw [Tally.during_concat]
    cases ev with
    | init =>
      unfold Tally.step
      dsimp only
      split
      · exact ih
      · exact fun _ => Nat.succ_pos _
    | witness => exact nofun
    | clear => exact ih

section Runs

variable {disabled : Bool}

/-- The count a run ends with is that of the tally. -/
theorem readCount_run (hdistinct : (boots.map fun b => b.id.text).Nodup) (hrun : IsRun boots past b done) :
    readCount (zygiskInit b.id.text (found disabled past b done)).failCount =
      (Tally.during (done ++ [.init]) ⟨(Tally.boots past).count, false⟩).count := by
  obtain ⟨rest, more, rfl, -⟩ := hrun
  have hnodup : ((past ++ [b]).map fun p => p.id.text).Nodup := by
    refine List.Nodup.sublist (List.Sublist.map _ ?_) hdistinct
    exact List.Sublist.append_left (List.singleton_sublist.2 List.mem_cons_self) past
  have hkeeps := ((keeps_runBoots disabled past b hnodup).during done).init
  rw [Tally.during_concat]
  exact hkeeps.count

/-- A run that follows a witness of its boot does not leave the count at 0. -/
theorem Counts.not_witnessed (hdistinct : (boots.map fun b => b.id.text).Nodup)
    (hrun : IsRun boots past b done) (h : Counts disabled past b done) : .witness ∉ done := by
  intro hwitness
  have hcount := h.1
  rw [expected, if_pos hwitness, readCount_run hdistinct hrun] at hcount
  have hpos := @Tally.during_pos (done ++ [.init]) (Tally.boots past).count
  rw [hcount] at hpos
  refine absurd (hpos ?_) (Nat.lt_irrefl 0)
  rw [Tally.during_concat, Tally.step]
  split
  · assumption
  · rfl

/-- Where no run so far follows a witness, the count is that of the boots with a run. -/
theorem readCount_orderly (hdistinct : (boots.map fun b => b.id.text).Nodup)
    (horderly : ∀ past b done, IsRun boots past b done → .witness ∉ done) (hrun : IsRun boots past b done) :
    readCount (zygiskInit b.id.text (found disabled past b done)).failCount =
      ((unhealthy past).filter Boot.ran).length + 1 := by
  have hnot := horderly past b done hrun
  rw [readCount_run hdistinct hrun]
  obtain ⟨rest, more, rfl, hevents⟩ := hrun
  have hpast : ∀ p ∈ past, Orderly p.events := by
    intro p hp front tail hfront
    obtain ⟨before, after, rfl⟩ := List.append_of_mem hp
    exact horderly before p front ⟨after ++ b :: rest, tail, by simp, hfront⟩
  have hdone : Orderly (done ++ [.init]) := by
    intro front tail hfront
    refine horderly past b front ⟨rest, tail ++ more, rfl, ?_⟩
    have hassoc : b.events = done ++ [.init] ++ more := by rw [hevents, List.append_assoc]; rfl
    rw [hassoc, hfront, List.append_assoc, List.cons_append]
  rw [Tally.during_orderly _ hdone, Tally.boots_orderly hpast]
  simp [hnot]

/-- In a history of boots every run counts exactly, and latches only on three unhealthy boots, just where no
run follows a witness in its own boot and each unhealthy boot before it had a run. -/
theorem failSafe_counts_iff (disabled : Bool) (boots : List Boot)
    (hdistinct : (boots.map fun b => b.id.text).Nodup) :
    (∀ past b done, IsRun boots past b done → Counts disabled past b done) ↔
      ∀ past b done, IsRun boots past b done →
        .witness ∉ done ∧ ∀ p ∈ unhealthy past, .init ∈ p.events := by
  constructor
  · intro hall past b done hrun
    have horderly : ∀ past b done, IsRun boots past b done → .witness ∉ done :=
      fun past b done hrun => (hall past b done hrun).not_witnessed hdistinct hrun
    have hnot := horderly past b done hrun
    refine ⟨hnot, ?_⟩
    have hcount := (hall past b done hrun).1
    rw [readCount_orderly hdistinct horderly hrun, expected, if_neg hnot] at hcount
    have hran := List.length_filter_eq_length_iff.1 (Nat.succ.inj hcount)
    exact fun p hp => of_decide_eq_true (hran p hp)
  · intro hall past b done hrun
    obtain ⟨hnot, hran⟩ := hall past b done hrun
    have hfilter : ((unhealthy past).filter Boot.ran).length = (unhealthy past).length :=
      List.length_filter_eq_length_iff.2 fun p hp => decide_eq_true (hran p hp)
    have hcount : readCount (zygiskInit b.id.text (found disabled past b done)).failCount =
        expected past done := by
      rw [readCount_orderly hdistinct (fun past b done hrun => (hall past b done hrun).1) hrun, expected,
        if_neg hnot, hfilter]
    refine ⟨hcount, fun hopen hshut => ?_⟩
    rw [← hcount]
    exact zygiskInit_disabled b.id.nonempty hopen hshut

theorem failSafe_counts_two :
    (∀ past b done, IsRun [⟨⟨"5f-0", by decide, by simp⟩, [.init, .init]⟩,
        ⟨⟨"5f-1", by decide, by simp⟩, [.init, .witness]⟩] past b done → Counts false past b done) ↔
      ∀ past b done, IsRun [⟨⟨"5f-0", by decide, by simp⟩, [.init, .init]⟩,
        ⟨⟨"5f-1", by decide, by simp⟩, [.init, .witness]⟩] past b done →
          .witness ∉ done ∧ ∀ p ∈ unhealthy past, .init ∈ p.events :=
  failSafe_counts_iff false _ (by decide)

/-- The late-load entry runs again after the boot is confirmed: the count is 1. -/
theorem failSafe_recounts :
    ¬ ∀ past b done, IsRun [⟨⟨"5f-0", by decide, by simp⟩, [.init, .witness, .init]⟩] past b done →
      Counts false past b done := fun hall =>
  have hcount := (hall [] _ [.init, .witness] ⟨[], [], rfl, rfl⟩).1
  absurd hcount (by decide)

end Runs

end OnyxZygisk.Scripts
