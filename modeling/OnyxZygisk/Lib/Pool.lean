import Mathlib.Data.Multiset.Filter
import Mathlib.Data.Multiset.MapFold
import Mathlib.Logic.Relation
import OnyxZygisk.Lib.Prog

/-!
# Threads that interleave operation by operation

A pool is a list of threads over a shared world. One step of the pool starts a thread, performs one
operation of one thread (an operation may start a further thread), lets the surroundings change the
world, or kills a thread. `ok` restricts the operations of a run: it sees the other threads, the
operation with its answer, and the world before and after.

The invariant rule (`Typed.run`) gives every thread a typestate its program is specified with
(`Prog.Spec`) and relates the multiset of all typestates to the world (`own`). Who may do what is then
an accounting of typestates: a token only one thread holds, a debt still to be paid.
-/

namespace Pool

variable {Op : Type} {Resp : Op → Type} {Job σ ε τ : Type}

/-- The job a thread was started for and what it has left to do. -/
structure Thread (Resp : Op → Type) (Job : Type) where
  job : Job
  rest : Prog Resp Unit

structure State (Resp : Op → Type) (Job σ : Type) where
  threads : List (Thread Resp Job)
  world : σ

structure System (Resp : Op → Type) (Job σ : Type) where
  body : Job → Prog Resp Unit
  /-- The jobs that can start at any time. -/
  called : Job → Prop
  step : σ → (op : Op) → Resp op → σ → Prop
  /-- The job an operation starts a thread for. -/
  forks : Op → Option Job
  /-- What the surroundings can do to the world. -/
  drift : σ → σ → Prop
  /-- What the death of a thread can do to the world. -/
  kill : σ → σ → Prop

namespace System

variable (S : System Resp Job σ)

def spawn (j : Job) : Thread Resp Job := ⟨j, S.body j⟩

def forked (op : Op) : List (Thread Resp Job) := (S.forks op).toList.map S.spawn

end System

/-- A restriction on the operations of a run. -/
abbrev Guard (Resp : Op → Type) (Job σ : Type) :=
  Job → List (Thread Resp Job) → σ → (op : Op) → Resp op → σ → Prop

inductive Step (S : System Resp Job σ) (ok : Guard Resp Job σ) :
    State Resp Job σ → State Resp Job σ → Prop where
  | start {ts : List (Thread Resp Job)} {w : σ} {j : Job} (hj : S.called j) :
      Step S ok ⟨ts, w⟩ ⟨ts ++ [S.spawn j], w⟩
  | op {ts₁ ts₂ : List (Thread Resp Job)} {j : Job} {op : Op} {k : Resp op → Prog Resp Unit}
      {r : Resp op} {w w' : σ} (hstep : S.step w op r w') (hok : ok j (ts₁ ++ ts₂) w op r w') :
      Step S ok ⟨ts₁ ++ ⟨j, .call op k⟩ :: ts₂, w⟩ ⟨ts₁ ++ ⟨j, k r⟩ :: ts₂ ++ S.forked op, w'⟩
  | drift {ts : List (Thread Resp Job)} {w w' : σ} (h : S.drift w w') : Step S ok ⟨ts, w⟩ ⟨ts, w'⟩
  | kill {ts₁ ts₂ : List (Thread Resp Job)} {t : Thread Resp Job} {w w' : σ} (h : S.kill w w') :
      Step S ok ⟨ts₁ ++ t :: ts₂, w⟩ ⟨ts₁ ++ ts₂, w'⟩

/-- The states a pool can come to. -/
abbrev Reach (S : System Resp Job σ) (ok : Guard Resp Job σ) :=
  Relation.ReflTransGen (Step S ok)

/-- A run under a restriction is a run under a weaker one. -/
theorem reach_mono {S : System Resp Job σ} {ok ok' : Guard Resp Job σ} {s s' : State Resp Job σ}
    (hok : ∀ j ts w op r w', ok j ts w op r w' → ok' j ts w op r w') (h : Reach S ok s s') :
    Reach S ok' s s' := by
  refine Relation.ReflTransGen.mono ?_ _ _ h
  intro a b hstep
  cases hstep with
  | start hj => exact .start hj
  | op hstep hk => exact .op hstep (hok _ _ _ _ _ _ hk)
  | drift hd => exact .drift hd
  | kill hk => exact .kill hk

/-! ### The invariant rule -/

/-- Each thread is specified with its typestate, under the rules of its job; a finished thread's
typestate is `done`. -/
def Typed (R : Job → Prog.Rules Resp τ) (done : τ → Prop) (ts : List (Thread Resp Job))
    (os : List τ) : Prop :=
  List.Forall₂ (fun t o => Prog.Spec (R t.job) t.rest o fun _ o' => done o') ts os

namespace Typed

variable {R : Job → Prog.Rules Resp τ} {done : τ → Prop} {ts ts₁ ts₂ : List (Thread Resp Job)}
  {t : Thread Resp Job} {os os₁ os₂ : List τ} {o : τ}

theorem append (h₁ : Typed R done ts₁ os₁) (h₂ : Typed R done ts₂ os₂) :
    Typed R done (ts₁ ++ ts₂) (os₁ ++ os₂) := by
  induction h₁ with
  | nil => exact h₂
  | cons ht _ ih => exact .cons ht ih

theorem split (h : Typed R done (ts₁ ++ ts₂) os) :
    ∃ os₁ os₂, os = os₁ ++ os₂ ∧ Typed R done ts₁ os₁ ∧ Typed R done ts₂ os₂ := by
  induction ts₁ generalizing os with
  | nil => exact ⟨[], os, rfl, .nil, h⟩
  | cons t ts₁ ih =>
    cases h with
    | cons ht hts =>
      obtain ⟨os₁, os₂, rfl, h₁, h₂⟩ := ih hts
      exact ⟨_ :: os₁, os₂, rfl, .cons ht h₁, h₂⟩

theorem split_cons (h : Typed R done (ts₁ ++ t :: ts₂) os) :
    ∃ os₁ o os₂, os = os₁ ++ o :: os₂ ∧ Typed R done ts₁ os₁ ∧
      Prog.Spec (R t.job) t.rest o (fun _ o' => done o') ∧ Typed R done ts₂ os₂ := by
  obtain ⟨os₁, os', rfl, h₁, h'⟩ := split h
  cases h' with
  | cons ht h₂ => exact ⟨os₁, _, _, rfl, h₁, ht, h₂⟩

end Typed

/-- What a discipline of typestates has to keep. `ops` may give the other threads new typestates. -/
structure Keeps (S : System Resp Job σ) (ok : Guard Resp Job σ) (R : Job → Prog.Rules Resp τ)
    (done : τ → Prop) (own : Multiset τ → σ → Prop) : Prop where
  starts : ∀ j, S.called j → ∃ o, Prog.Spec (R j) (S.body j) o (fun _ o' => done o') ∧
    ∀ M w, own M w → own (o ::ₘ M) w
  ops : ∀ (j : Job) (others : List (Thread Resp Job)) (os : List τ) (o : τ) (w : σ) (op : Op)
    (r : Resp op) (w' : σ), Typed R done others os → own (o ::ₘ os) w → (R j).allow o op →
    S.step w op r w' → ok j others w op r w' → ∃ o' os' new, (R j).next o op r o' ∧
      Typed R done others os' ∧ Typed R done (S.forked op) new ∧
      own (o' ::ₘ (os' ++ new : List τ)) w'
  drifts : ∀ M w w', own M w → S.drift w w' → own M w'
  kills : ∀ o M w w', own (o ::ₘ M) w → S.kill w w' → own M w'

variable {S : System Resp Job σ} {ok : Guard Resp Job σ} {R : Job → Prog.Rules Resp τ} {done : τ → Prop}
  {own : Multiset τ → σ → Prop}

def Inv (R : Job → Prog.Rules Resp τ) (done : τ → Prop) (own : Multiset τ → σ → Prop)
    (s : State Resp Job σ) : Prop :=
  ∃ os, Typed R done s.threads os ∧ own os s.world

theorem coe_middle (os₁ os₂ : List τ) (o : τ) :
    ((os₁ ++ o :: os₂ : List τ) : Multiset τ) = o ::ₘ (os₁ ++ os₂ : List τ) :=
  Multiset.coe_eq_coe.2 List.perm_middle

theorem Keeps.step (K : Keeps S ok R done own) {s s' : State Resp Job σ} (hs : Step S ok s s')
    (h : Inv R done own s) : Inv R done own s' := by
  cases hs with
  | start hj =>
    obtain ⟨os, ht, ho⟩ := h
    obtain ⟨o, hspec, hown⟩ := K.starts _ hj
    refine ⟨os ++ [o], ht.append (.cons hspec .nil), ?_⟩
    rw [coe_middle os [] o, List.append_nil]
    exact hown _ _ ho
  | op hstep hok =>
    obtain ⟨os, ht, ho⟩ := h
    obtain ⟨os₁, o, os₂, rfl, h₁, hthread, h₂⟩ := Typed.split_cons ht
    rw [coe_middle] at ho
    obtain ⟨o', os', new, hnext, hothers, hnew, hown⟩ :=
      K.ops _ _ _ _ _ _ _ _ (h₁.append h₂) ho hthread.1 hstep hok
    obtain ⟨os₁', os₂', rfl, h₁', h₂'⟩ := Typed.split hothers
    refine ⟨os₁' ++ o' :: os₂' ++ new, ?_, ?_⟩
    · exact (h₁'.append (.cons (hthread.2 _ _ hnext) h₂')).append hnew
    · rw [List.append_assoc, List.cons_append, coe_middle, ← List.append_assoc]
      exact hown
  | drift hd =>
    obtain ⟨os, ht, ho⟩ := h
    exact ⟨os, ht, K.drifts _ _ _ ho hd⟩
  | kill hk =>
    obtain ⟨os, ht, ho⟩ := h
    obtain ⟨os₁, o, os₂, rfl, h₁, -, h₂⟩ := Typed.split_cons ht
    rw [coe_middle] at ho
    exact ⟨os₁ ++ os₂, h₁.append h₂, K.kills _ _ _ _ ho hk⟩

theorem Keeps.run (K : Keeps S ok R done own) {s s' : State Resp Job σ} (hs : Reach S ok s s')
    (h : Inv R done own s) : Inv R done own s' := by
  induction hs with
  | refl => exact h
  | tail _ hstep ih => exact K.step hstep ih

/-- A pool that has not started anything satisfies the invariant if the world does. -/
theorem inv_nil {w : σ} (h : own 0 w) : Inv R done own (⟨[], w⟩ : State Resp Job σ) :=
  ⟨[], .nil, h⟩

/-! ### Tokens -/

/-- At most one thread's typestate satisfies `p`. -/
def AtMostOne (p : τ → Bool) (M : Multiset τ) : Prop := (M.countP fun x => p x = true) ≤ 1

namespace AtMostOne

variable {p : τ → Bool} {M : Multiset τ} {o o' : τ}

/-- Who holds the token is alone with it. -/
theorem others (h : AtMostOne p (o ::ₘ M)) (ho : p o = true) : ∀ x ∈ M, p x = false := by
  intro x hx
  rw [AtMostOne, Multiset.countP_cons_of_pos M (p := fun x => p x = true) ho] at h
  have hzero : (M.countP fun x => p x = true) = 0 := by omega
  simpa using Multiset.countP_eq_zero.1 hzero x hx

theorem cons (h : ∀ x ∈ M, p x = false) (o : τ) : AtMostOne p (o ::ₘ M) := by
  have hzero : (M.countP fun x => p x = true) = 0 := by
    apply Multiset.countP_eq_zero.2
    intro x hx
    simp [h x hx]
  rw [AtMostOne, Multiset.countP_cons, hzero]
  split_ifs <;> omega

/-- A thread without the token may be left out or added. -/
theorem cons_iff (ho : p o = false) : AtMostOne p (o ::ₘ M) ↔ AtMostOne p M := by
  rw [AtMostOne, AtMostOne, Multiset.countP_cons_of_neg _ (by simp [ho])]

theorem tail (h : AtMostOne p (o ::ₘ M)) : AtMostOne p M :=
  le_trans (Multiset.countP_le_of_le _ (Multiset.le_cons_self M o)) h

/-- The token does not come from nowhere. -/
theorem replace (h : AtMostOne p (o ::ₘ M)) (ho : p o' = true → p o = true) :
    AtMostOne p (o' ::ₘ M) := by
  cases hp : p o' with
  | true => exact cons (h.others (ho hp)) o'
  | false =>
    rw [cons_iff hp]
    exact h.tail

theorem zero : AtMostOne p (0 : Multiset τ) := Nat.zero_le 1

theorem map {f : τ → τ} (h : AtMostOne p M) (hf : ∀ x, p (f x) = true → p x = true) :
    AtMostOne p (M.map f) := by
  induction M using Multiset.induction with
  | empty => exact zero
  | cons x M ih =>
    rw [Multiset.map_cons]
    cases hx : p (f x) with
    | false => exact (cons_iff hx).2 (ih h.tail)
    | true =>
      apply cons
      intro y hy
      obtain ⟨z, hz, rfl⟩ := Multiset.mem_map.1 hy
      cases hp : p (f z) with
      | false => rfl
      | true =>
        have hnot := h.others (hf x hx) z hz
        rw [hf z hp] at hnot
        exact absurd hnot (by simp)

end AtMostOne

/-! ### The rule without typestates -/

section Only

variable {ops : Op → Prop} {s s' : State Resp Job σ}

/-- Threads of known operations start threads of known operations. -/
theorem step_only (hcalled : ∀ j, S.called j → Prog.Only ops (S.body j))
    (hforked : ∀ op j, ops op → S.forks op = some j → Prog.Only ops (S.body j))
    (hts : ∀ t ∈ s.threads, Prog.Only ops t.rest) (h : Step S ok s s') :
    ∀ t ∈ s'.threads, Prog.Only ops t.rest := by
  cases h with
  | start hj =>
    intro t ht
    rcases List.mem_append.1 ht with ht | ht
    · exact hts t ht
    · rw [List.mem_singleton] at ht
      exact ht ▸ hcalled _ hj
  | op hstep hok =>
    have hcall := hts _ (List.mem_append_right _ List.mem_cons_self)
    intro t ht
    rcases List.mem_append.1 ht with ht | ht
    · rcases List.mem_append.1 ht with ht | ht
      · exact hts t (List.mem_append_left _ ht)
      · rcases List.mem_cons.1 ht with rfl | ht
        · exact hcall.2 _
        · exact hts t (List.mem_append_right _ (List.mem_cons_of_mem _ ht))
    · obtain ⟨j, hj, rfl⟩ := List.mem_map.1 ht
      exact hforked _ j hcall.1 (Option.mem_toList.1 hj)
  | drift hd => exact hts
  | kill hk =>
    intro t ht
    rcases List.mem_append.1 ht with ht | ht
    · exact hts t (List.mem_append_left _ ht)
    · exact hts t (List.mem_append_right _ (List.mem_cons_of_mem _ ht))

/-- What a step does to the world. -/
theorem step_world (hts : ∀ t ∈ s.threads, Prog.Only ops t.rest) (h : Step S ok s s') :
    s'.world = s.world ∨
      (∃ j others op r, ops op ∧ S.step s.world op r s'.world ∧ ok j others s.world op r s'.world) ∨
      S.drift s.world s'.world ∨ S.kill s.world s'.world := by
  cases h with
  | start hj => exact .inl rfl
  | op hstep hok =>
    have hcall := hts _ (List.mem_append_right _ List.mem_cons_self)
    exact .inr (.inl ⟨_, _, _, _, hcall.1, hstep, hok⟩)
  | drift hd => exact .inr (.inr (.inl hd))
  | kill hk => exact .inr (.inr (.inr hk))

/-- Where every operation the jobs issue keeps a property of the world, so does every run. -/
theorem run_only {I : σ → Prop} (hcalled : ∀ j, S.called j → Prog.Only ops (S.body j))
    (hforked : ∀ op j, ops op → S.forks op = some j → Prog.Only ops (S.body j))
    (hop : ∀ j others w op r w', ops op → I w → S.step w op r w' → ok j others w op r w' → I w')
    (hdrift : ∀ w w', I w → S.drift w w' → I w') (hkill : ∀ w w', I w → S.kill w w' → I w')
    {w : σ} (hs : Reach S ok ⟨[], w⟩ s) (h : I w) : I s.world := by
  have hinv : (∀ t ∈ s.threads, Prog.Only ops t.rest) ∧ I s.world := by
    induction hs with
    | refl => exact ⟨by simp, h⟩
    | tail _ hstep ih =>
      obtain ⟨hts, hI⟩ := ih
      refine ⟨step_only hcalled hforked hts hstep, ?_⟩
      obtain hw | ⟨j, others, op, r, hops, hx, hok⟩ | hd | hk := step_world hts hstep
      · rw [hw]
        exact hI
      · exact hop j others _ op r _ hops hI hx hok
      · exact hdrift _ _ hI hd
      · exact hkill _ _ hI hk
  exact hinv.2

end Only

/-! ### Scheduled runs -/

/-- One move of a scheduler; the environment of an operation is `e`. -/
inductive Move (Job σ ε : Type) where
  | start (j : Job)
  | op (i : Nat) (e : ε)
  | drift (f : σ → σ)
  | kill (i : Nat) (f : σ → σ)

/-- A restriction a scheduler can check. -/
abbrev Check (Resp : Op → Type) (Job σ : Type) :=
  Job → List (Thread Resp Job) → σ → (op : Op) → Resp op → σ → Bool

def Check.guard (c : Check Resp Job σ) : Guard Resp Job σ :=
  fun j ts w op r w' => c j ts w op r w' = true

variable (S) (exec : Prog.Exec Resp ε σ) (check : Check Resp Job σ)

def move : Move Job σ ε → State Resp Job σ → Option (State Resp Job σ)
  | .start j, s => some ⟨s.threads ++ [S.spawn j], s.world⟩
  | .op i e, s =>
    match s.threads[i]? with
    | some ⟨j, .call op k⟩ =>
      match exec e op s.world with
      | some (r, w') =>
        if check j (s.threads.take i ++ s.threads.drop (i + 1)) s.world op r w' then
          some ⟨s.threads.take i ++ ⟨j, k r⟩ :: s.threads.drop (i + 1) ++ S.forked op, w'⟩
        else none
      | none => none
    | _ => none
  | .drift f, s => some ⟨s.threads, f s.world⟩
  | .kill i f, s =>
    if i < s.threads.length then
      some ⟨s.threads.take i ++ s.threads.drop (i + 1), f s.world⟩
    else none

def play (ms : List (Move Job σ ε)) (s : State Resp Job σ) : Option (State Resp Job σ) :=
  ms.foldlM (fun s m => move S exec check m s) s

/-- The moves a system allows. -/
def Legal (adm : ε → Prop) : Move Job σ ε → Prop
  | .start j => S.called j
  | .op _ e => adm e
  | .drift f => ∀ w, S.drift w (f w)
  | .kill _ f => ∀ w, S.kill w (f w)

variable {S exec check}

theorem legal_replicate {adm : ε → Prop} {e : ε} (he : adm e) (i k : Nat) :
    ∀ m ∈ List.replicate k (.op i e : Move Job σ ε), Legal S adm m := by
  intro m hm
  rw [List.eq_of_mem_replicate hm]
  exact he

theorem take_drop_getElem {α : Type} {l : List α} {i : Nat} {a : α} (h : l[i]? = some a) :
    l = l.take i ++ a :: l.drop (i + 1) := by
  obtain ⟨hi, rfl⟩ := List.getElem?_eq_some_iff.1 h
  rw [← List.drop_eq_getElem_cons hi, List.take_append_drop]

theorem move_sound {adm : ε → Prop} (hexec : ∀ e op w r w', adm e → exec e op w = some (r, w') →
    S.step w op r w') {m : Move Job σ ε} {s s' : State Resp Job σ} (hm : Legal S adm m)
    (h : move S exec check m s = some s') : Step S check.guard s s' := by
  obtain ⟨ts, w⟩ := s
  cases m with
  | start j =>
    obtain rfl := Option.some.inj h
    exact .start hm
  | op i e =>
    simp only [move] at h
    split at h
    · rename_i j op k hget
      split at h
      · rename_i r w' he
        split_ifs at h with hc
        obtain rfl := Option.some.inj h
        have hts := take_drop_getElem hget
        nth_rewrite 1 [hts]
        exact .op (hexec e op w r w' hm he) hc
      · exact absurd h (by simp)
    · exact absurd h (by simp)
  | drift f =>
    obtain rfl := Option.some.inj h
    exact .drift (hm w)
  | kill i f =>
    simp only [move] at h
    split_ifs at h with hi
    obtain rfl := Option.some.inj h
    have hts : ts = ts.take i ++ ts[i] :: ts.drop (i + 1) :=
      take_drop_getElem (List.getElem?_eq_getElem hi)
    nth_rewrite 1 [hts]
    exact .kill (hm w)

theorem play_sound {adm : ε → Prop} (hexec : ∀ e op w r w', adm e → exec e op w = some (r, w') →
    S.step w op r w') {ms : List (Move Job σ ε)} {s s' : State Resp Job σ}
    (hm : ∀ m ∈ ms, Legal S adm m) (h : play S exec check ms s = some s') :
    Reach S check.guard s s' := by
  induction ms generalizing s with
  | nil =>
    obtain rfl := Option.some.inj h
    exact .refl
  | cons m ms ih =>
    obtain ⟨s₁, h₁, h₂⟩ := Option.bind_eq_some_iff.1 h
    exact .head (move_sound hexec (hm m List.mem_cons_self) h₁)
      (ih (fun m' hm' => hm m' (List.mem_cons_of_mem m hm')) h₂)

end Pool
