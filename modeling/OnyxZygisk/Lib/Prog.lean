import Mathlib.Algebra.Group.Nat.Defs
import Mathlib.Logic.Basic
import Mathlib.Tactic.Common

/-!
# Programs over atomic operations

A `Prog Resp α` is a sequential program as the tree of the operations it issues: `call op k` issues
`op` and goes on with `k r` once the answer `r` is there. Nothing fixes what an operation does, so
one program text is run to its end (`run`), cut after any operation (`Steps`) and interleaved with
others (`Lib.Pool`).

`Spec R p t Q` is the weakest precondition of `p` over an abstract state `t`: every operation `p`
can issue is allowed where it is issued, and a result satisfies `Q`. The abstract state is the real
one for crash invariants (`Rules.always`) and a typestate for the concurrent proofs.
-/

inductive Prog {Op : Type} (Resp : Op → Type) (α : Type) where
  | ret (a : α)
  | call (op : Op) (k : Resp op → Prog Resp α)

namespace Prog

variable {Op : Type} {Resp : Op → Type} {α β γ : Type}

def bind : Prog Resp α → (α → Prog Resp β) → Prog Resp β
  | ret a, f => f a
  | call op k, f => call op fun r => (k r).bind f

instance : Monad (Prog Resp) where
  pure := ret
  bind := bind

/-- Issue one operation and return its answer. -/
def perform (op : Op) : Prog Resp (Resp op) := call op ret

@[simp] theorem pure_eq (a : α) : (pure a : Prog Resp α) = ret a := rfl

@[simp] theorem ret_bind (a : α) (f : α → Prog Resp β) : (ret a >>= f) = f a := rfl

@[simp] theorem call_bind (op : Op) (k : Resp op → Prog Resp α) (f : α → Prog Resp β) :
    (call op k >>= f) = call op fun r => k r >>= f := rfl

@[simp] theorem perform_bind (op : Op) (f : Resp op → Prog Resp β) :
    (perform op >>= f) = call op f := rfl

theorem bind_assoc (p : Prog Resp α) (f : α → Prog Resp β) (g : β → Prog Resp γ) :
    (p >>= f) >>= g = p >>= fun a => f a >>= g := by
  induction p with
  | ret a => rfl
  | call op k ih =>
    simp only [call_bind]
    congr 1
    funext r
    exact ih r

/-- Run `body` on every element, in order. -/
def forEach (xs : List α) (body : α → Prog Resp Unit) : Prog Resp Unit :=
  match xs with
  | [] => ret ()
  | x :: xs => body x >>= fun _ => forEach xs body

/-- Run `body` on every element, in order, and keep the results it gives. -/
def gather (xs : List α) (body : α → Prog Resp (Option β)) : Prog Resp (List β) :=
  match xs with
  | [] => ret []
  | x :: xs => body x >>= fun b => gather xs body >>= fun bs => ret (b.toList ++ bs)

/-- Run `body` on the elements in order until it gives a result. -/
def firstSome (xs : List α) (body : α → Prog Resp (Option β)) : Prog Resp (Option β) :=
  match xs with
  | [] => ret none
  | x :: xs => body x >>= fun
    | some b => ret (some b)
    | none => firstSome xs body

/-- Run `body` on the elements in order for as long as it answers `true`. -/
def every (xs : List α) (body : α → Prog Resp Bool) : Prog Resp Bool :=
  match xs with
  | [] => ret true
  | x :: xs => body x >>= fun
    | true => every xs body
    | false => ret false

/-- The same program over a larger set of operations. -/
def translate {Op' : Type} {Resp' : Op' → Type} (f : Op → Op') (g : ∀ op, Resp' (f op) → Resp op) :
    Prog Resp α → Prog Resp' α
  | ret a => ret a
  | call op k => call (f op) fun r => translate f g (k (g op r))

/-! ### Programs that issue only some operations -/

def Only (ops : Op → Prop) : Prog Resp α → Prop
  | ret _ => True
  | call op k => ops op ∧ ∀ r, Only ops (k r)

@[simp] theorem only_ret (ops : Op → Prop) (a : α) : Only ops (ret a : Prog Resp α) := trivial

@[simp] theorem only_call (ops : Op → Prop) (op : Op) (k : Resp op → Prog Resp α) :
    Only ops (call op k) ↔ ops op ∧ ∀ r, Only ops (k r) := Iff.rfl

theorem only_perform {ops : Op → Prop} {op : Op} (h : ops op) :
    Only ops (perform op : Prog Resp (Resp op)) := ⟨h, fun _ => trivial⟩

theorem only_ite {ops : Op → Prop} {c : Prop} [Decidable c] {p q : Prog Resp α} (hp : Only ops p)
    (hq : Only ops q) : Only ops (if c then p else q) := by
  split_ifs <;> assumption

theorem only_mono {ops ops' : Op → Prop} {p : Prog Resp α} (h : Only ops p)
    (hops : ∀ op, ops op → ops' op) : Only ops' p := by
  induction p with
  | ret a => trivial
  | call op k ih => exact ⟨hops op h.1, fun r => ih r (h.2 r)⟩

theorem only_bind {ops : Op → Prop} {p : Prog Resp α} {f : α → Prog Resp β} (hp : Only ops p)
    (hf : ∀ a, Only ops (f a)) : Only ops (p >>= f) := by
  induction p with
  | ret a => exact hf a
  | call op k ih => exact ⟨hp.1, fun r => ih r (hp.2 r)⟩

theorem only_forEach {ops : Op → Prop} {xs : List α} {body : α → Prog Resp Unit}
    (h : ∀ x ∈ xs, Only ops (body x)) : Only ops (forEach xs body) := by
  induction xs with
  | nil => trivial
  | cons x xs ih =>
    exact only_bind (h x List.mem_cons_self) fun _ => ih fun y hy => h y (List.mem_cons_of_mem x hy)

theorem only_gather {ops : Op → Prop} {xs : List α} {body : α → Prog Resp (Option β)}
    (h : ∀ x ∈ xs, Only ops (body x)) : Only ops (gather xs body) := by
  induction xs with
  | nil => trivial
  | cons x xs ih =>
    exact only_bind (h x List.mem_cons_self) fun _ =>
      only_bind (ih fun y hy => h y (List.mem_cons_of_mem x hy)) fun _ => trivial

theorem only_firstSome {ops : Op → Prop} {xs : List α} {body : α → Prog Resp (Option β)}
    (h : ∀ x ∈ xs, Only ops (body x)) : Only ops (firstSome xs body) := by
  induction xs with
  | nil => trivial
  | cons x xs ih =>
    refine only_bind (h x List.mem_cons_self) fun b => ?_
    cases b with
    | some b => trivial
    | none => exact ih fun y hy => h y (List.mem_cons_of_mem x hy)

theorem only_every {ops : Op → Prop} {xs : List α} {body : α → Prog Resp Bool}
    (h : ∀ x ∈ xs, Only ops (body x)) : Only ops (every xs body) := by
  induction xs with
  | nil => trivial
  | cons x xs ih =>
    refine only_bind (h x List.mem_cons_self) fun ok => ?_
    cases ok with
    | true => exact ih fun y hy => h y (List.mem_cons_of_mem x hy)
    | false => trivial

theorem only_translate {Op' : Type} {Resp' : Op' → Type} {f : Op → Op'}
    {g : ∀ op, Resp' (f op) → Resp op} {ops : Op' → Prop} (h : ∀ op, ops (f op)) (p : Prog Resp α) :
    Only ops (translate f g p) := by
  induction p with
  | ret a => trivial
  | call op k ih => exact ⟨h op, fun r => ih _⟩

/-! ### Results -/

/-- Whatever the answers are, the result satisfies `P`. -/
def Gives (P : α → Prop) : Prog Resp α → Prop
  | ret a => P a
  | call _ k => ∀ r, Gives P (k r)

@[simp] theorem gives_ret (P : α → Prop) (a : α) : Gives P (ret a : Prog Resp α) ↔ P a := Iff.rfl

theorem gives_trivial (p : Prog Resp α) : Gives (fun _ => True) p := by
  induction p with
  | ret a => trivial
  | call op k ih => exact ih

theorem gives_bind {P : α → Prop} {Q : β → Prop} {p : Prog Resp α} {f : α → Prog Resp β}
    (hp : Gives P p) (hf : ∀ a, P a → Gives Q (f a)) : Gives Q (p >>= f) := by
  induction p with
  | ret a => exact hf a hp
  | call op k ih => exact fun r => ih r (hp r)

theorem gives_gather {P : β → Prop} {xs : List α} {body : α → Prog Resp (Option β)}
    (h : ∀ x ∈ xs, Gives (fun b => ∀ y, b = some y → P y) (body x)) :
    Gives (fun ys => ∀ y ∈ ys, P y) (gather xs body) := by
  induction xs with
  | nil => exact fun y hy => absurd hy (by simp)
  | cons x xs ih =>
    apply gives_bind (h x List.mem_cons_self)
    intro b hb
    apply gives_bind (ih fun y hy => h y (List.mem_cons_of_mem x hy))
    intro bs hbs y hy
    rcases List.mem_append.1 hy with hy | hy
    · exact hb y (Option.mem_toList.1 hy)
    · exact hbs y hy

/-! ### Weakest preconditions -/

/-- What may be issued in an abstract state, and the states that can follow an answer. -/
structure Rules (Resp : Op → Type) (τ : Type) where
  allow : τ → Op → Prop
  next : τ → (op : Op) → Resp op → τ → Prop

variable {τ : Type} (R : Rules Resp τ)

def Spec : Prog Resp α → τ → (α → τ → Prop) → Prop
  | ret a, t, Q => Q a t
  | call op k, t, Q => R.allow t op ∧ ∀ r t', R.next t op r t' → Spec (k r) t' Q

variable {R}

@[simp] theorem spec_ret (a : α) (t : τ) (Q : α → τ → Prop) : Spec R (ret a) t Q ↔ Q a t := Iff.rfl

theorem spec_call (op : Op) (k : Resp op → Prog Resp α) (t : τ) (Q : α → τ → Prop) :
    Spec R (call op k) t Q ↔
      R.allow t op ∧ ∀ r t', R.next t op r t' → Spec R (k r) t' Q := Iff.rfl

theorem spec_mono {p : Prog Resp α} {t : τ} {Q Q' : α → τ → Prop} (h : Spec R p t Q)
    (hQ : ∀ a t', Q a t' → Q' a t') : Spec R p t Q' := by
  induction p generalizing t with
  | ret a => exact hQ a t h
  | call op k ih => exact ⟨h.1, fun r t' hn => ih r (h.2 r t' hn)⟩

theorem spec_bind (p : Prog Resp α) (f : α → Prog Resp β) (t : τ) (Q : β → τ → Prop) :
    Spec R (p >>= f) t Q ↔ Spec R p t fun a t' => Spec R (f a) t' Q := by
  induction p generalizing t with
  | ret a => rfl
  | call op k ih =>
    simp only [call_bind, spec_call]
    exact and_congr_right fun _ => forall_congr' fun r => forall_congr' fun t' =>
      imp_congr_right fun _ => ih r t'

/-- The sequencing rule with an intermediate assertion. -/
theorem spec_seq {p : Prog Resp α} {f : α → Prog Resp β} {t : τ} {M : α → τ → Prop}
    {Q : β → τ → Prop} (hp : Spec R p t M) (hf : ∀ a t', M a t' → Spec R (f a) t' Q) :
    Spec R (p >>= f) t Q :=
  (spec_bind p f t Q).2 (spec_mono hp hf)

theorem spec_perform (op : Op) (t : τ) (Q : Resp op → τ → Prop) :
    Spec R (perform op) t Q ↔ R.allow t op ∧ ∀ r t', R.next t op r t' → Q r t' := Iff.rfl

/-- Operations that are always allowed and change nothing leave the abstract state alone. -/
theorem spec_only {ops : Op → Prop} {p : Prog Resp α} {t : τ} (h : Only ops p)
    (hops : ∀ op, ops op → R.allow t op ∧ ∀ r t', R.next t op r t' → t' = t) :
    Spec R p t fun _ t' => t' = t := by
  induction p with
  | ret a => rfl
  | call op k ih =>
    refine ⟨(hops op h.1).1, fun r t' hn => ?_⟩
    obtain rfl := (hops op h.1).2 r t' hn
    exact ih r (h.2 r)

/-- Operations that always keep an assertion keep it. -/
theorem spec_keep {ops : Op → Prop} {I : τ → Prop} {p : Prog Resp α} {t : τ} (h : Only ops p)
    (hops : ∀ op, ops op → ∀ t, I t → R.allow t op ∧ ∀ r t', R.next t op r t' → I t') (ht : I t) :
    Spec R p t fun _ t' => I t' := by
  induction p generalizing t with
  | ret a => exact ht
  | call op k ih =>
    obtain ⟨hallow, hnext⟩ := hops op h.1 t ht
    exact ⟨hallow, fun r t' hn => ih r (h.2 r) (hnext r t' hn)⟩

/-- They still find something out. -/
theorem spec_gives {ops : Op → Prop} {P : α → Prop} {p : Prog Resp α} {t : τ} (h : Only ops p)
    (hgives : Gives P p)
    (hops : ∀ op, ops op → R.allow t op ∧ ∀ r t', R.next t op r t' → t' = t) :
    Spec R p t fun a t' => P a ∧ t' = t := by
  induction p with
  | ret a => exact ⟨hgives, rfl⟩
  | call op k ih =>
    refine ⟨(hops op h.1).1, fun r t' hn => ?_⟩
    obtain rfl := (hops op h.1).2 r t' hn
    exact ih r (h.2 r) (hgives r)

/-- The loop rule: an assertion every turn keeps. -/
theorem spec_forEach {I : τ → Prop} {xs : List α} {body : α → Prog Resp Unit} {t : τ} (ht : I t)
    (h : ∀ x ∈ xs, ∀ t, I t → Spec R (body x) t fun _ t' => I t') :
    Spec R (forEach xs body) t fun _ t' => I t' := by
  induction xs generalizing t with
  | nil => exact ht
  | cons x xs ih =>
    exact spec_seq (h x List.mem_cons_self t ht) fun _ t' ht' =>
      ih ht' fun y hy => h y (List.mem_cons_of_mem x hy)

/-- The loop rule for what the turns of a `gather` find. -/
theorem spec_gather_all {P : β → Prop} {xs : List α} {body : α → Prog Resp (Option β)} {t : τ}
    (h : ∀ x ∈ xs, Spec R (body x) t fun b t' => (∀ y, b = some y → P y) ∧ t' = t) :
    Spec R (gather xs body) t fun ys t' => (∀ y ∈ ys, P y) ∧ t' = t := by
  induction xs with
  | nil => exact ⟨fun y hy => absurd hy (by simp), rfl⟩
  | cons x xs ih =>
    refine spec_seq (h x List.mem_cons_self) ?_
    rintro b _ ⟨hb, rfl⟩
    refine spec_seq (ih fun y hy => h y (List.mem_cons_of_mem x hy)) ?_
    rintro bs _ ⟨hbs, rfl⟩
    refine ⟨?_, rfl⟩
    intro y hy
    rcases List.mem_append.1 hy with hy | hy
    · exact hb y (Option.mem_toList.1 hy)
    · exact hbs y hy

/-- The loop rule for `every`: `I` while the turns answer `true`, `F` once one has not. -/
theorem spec_every {I F : τ → Prop} {xs : List α} {body : α → Prog Resp Bool} {t : τ} (ht : I t)
    (h : ∀ x ∈ xs, ∀ t, I t → Spec R (body x) t fun ok t' => if ok then I t' else F t') :
    Spec R (every xs body) t fun ok t' => if ok then I t' else F t' := by
  induction xs generalizing t with
  | nil => exact ht
  | cons x xs ih =>
    refine spec_seq (h x List.mem_cons_self t ht) fun ok t' ht' => ?_
    cases ok with
    | true => exact ih ht' fun y hy => h y (List.mem_cons_of_mem x hy)
    | false => exact ht'

/-- The same rules, with fewer operations allowed. -/
def Rules.also (R : Rules Resp τ) (ops : Op → Prop) : Rules Resp τ where
  allow t op := ops op ∧ R.allow t op
  next := R.next

theorem spec_also {ops : Op → Prop} {p : Prog Resp α} {t : τ} {Q : α → τ → Prop}
    (h : Spec R p t Q) (hops : Only ops p) : Spec (R.also ops) p t Q := by
  induction p generalizing t with
  | ret a => exact h
  | call op k ih => exact ⟨⟨hops.1, h.1⟩, fun r t' hn => ih r (h.2 r t' hn) (hops.2 r)⟩

/-! ### Programs that ask again -/

/-- The first operation that touches something is one that asks for it. -/
def AsksFirst (touches asks : Op → Prop) : Prog Resp α → Prop
  | ret _ => True
  | call op k => asks op ∨ ¬ touches op ∧ ∀ r, AsksFirst touches asks (k r)

/-- A program that asks first can be specified without what its typestate knows already. -/
theorem spec_forget {touches asks : Op → Prop} {forget : τ → τ} {p : Prog Resp α} {t : τ}
    {Q : α → τ → Prop} (h : Spec R p t Q) (hp : AsksFirst touches asks p)
    (hasks : ∀ t op, asks op → R.allow t op →
      R.allow (forget t) op ∧ ∀ r t', R.next (forget t) op r t' → R.next t op r t')
    (hother : ∀ t op, ¬ touches op → R.allow t op → R.allow (forget t) op ∧
      ∀ r t', R.next (forget t) op r t' → ∃ t₀, R.next t op r t₀ ∧ (t' = forget t₀ ∨ t' = t₀))
    (hQ : ∀ a t, Q a t → Q a (forget t)) : Spec R p (forget t) Q := by
  induction p generalizing t with
  | ret a => exact hQ a t h
  | call op k ih =>
    rcases hp with hask | ⟨htouch, hk⟩
    · obtain ⟨hallow, hnext⟩ := hasks t op hask h.1
      exact ⟨hallow, fun r t' hn => h.2 r t' (hnext r t' hn)⟩
    · obtain ⟨hallow, hnext⟩ := hother t op htouch h.1
      refine ⟨hallow, fun r t' hn => ?_⟩
      obtain ⟨t₀, hn₀, rfl | rfl⟩ := hnext r t' hn
      · exact ih r (h.2 r t₀ hn₀) (hk r)
      · exact h.2 r _ hn₀

/-! ### Programs cut after some of their operations -/

variable {σ ε : Type}

/-- `Steps step p s p' s'`: from `s`, some operations of `p` lead to `s'` and leave `p'` to do. -/
inductive Steps (step : σ → (op : Op) → Resp op → σ → Prop) :
    Prog Resp α → σ → Prog Resp α → σ → Prop where
  | refl (p : Prog Resp α) (s : σ) : Steps step p s p s
  | call {op : Op} {k : Resp op → Prog Resp α} {s s' t : σ} {r : Resp op} {p : Prog Resp α}
      (first : step s op r s') (rest : Steps step (k r) s' p t) : Steps step (call op k) s p t

theorem spec_steps {p p' : Prog Resp α} {t t' : τ} {Q : α → τ → Prop}
    (hs : Steps R.next p t p' t') (h : Spec R p t Q) : Spec R p' t' Q := by
  induction hs with
  | refl => exact h
  | call first rest ih => exact ih (h.2 _ _ first)

/-- The rules whose abstract state is the real one: `I` has to hold wherever an operation starts. -/
def Rules.always (step : σ → (op : Op) → Resp op → σ → Prop) (I : σ → Prop) : Rules Resp σ where
  allow s _ := I s
  next := step

/-- A crash invariant: a program that keeps `I` throughout can be cut anywhere. -/
theorem always_steps {step : σ → (op : Op) → Resp op → σ → Prop} {I : σ → Prop}
    {p p' : Prog Resp α} {s s' : σ} {Q : α → σ → Prop}
    (h : Spec (Rules.always step I) p s Q) (hQ : ∀ a s, Q a s → I s)
    (hs : Steps step p s p' s') : I s' := by
  have hs' : Steps (Rules.always step I).next p s p' s' := hs
  have h' : Spec (Rules.always step I) p' s' Q := spec_steps hs' h
  cases p' with
  | ret a => exact hQ a s' h'
  | call op k => exact h'.1

/-- A finished run establishes the postcondition. -/
theorem spec_result {step : σ → (op : Op) → Resp op → σ → Prop} {I : σ → Prop}
    {p : Prog Resp α} {a : α} {s s' : σ} {Q : α → σ → Prop}
    (h : Spec (Rules.always step I) p s Q) (hs : Steps step p s (ret a) s') : Q a s' := by
  have hs' : Steps (Rules.always step I).next p s (ret a) s' := hs
  exact spec_steps hs' h

/-! ### Running a program -/

/-- `exec e op s`: the answer and the next state when the environment behaves as `e`; `none` while
the operation has to wait. -/
abbrev Exec (Resp : Op → Type) (ε σ : Type) := ε → (op : Op) → σ → Option (Resp op × σ)

variable (exec : Exec Resp ε σ)

/-- The whole program in one environment. -/
def run (e : ε) : Prog Resp α → σ → Option (α × σ)
  | ret a, s => some (a, s)
  | call op k, s => (exec e op s).bind fun z => run e (k z.1) z.2

/-- The first operations of a program, one for each environment of the list, each passing `adm`. -/
def steps (adm : ε → Op → σ → Bool) : List ε → Prog Resp α → σ → Option (Prog Resp α × σ)
  | [], p, s => some (p, s)
  | _ :: _, ret _, _ => none
  | e :: es, call op k, s =>
    if adm e op s then (exec e op s).bind fun z => steps adm es (k z.1) z.2 else none

/-- The rules of a run in one environment: what would wait is not allowed. -/
def Rules.exact (e : ε) : Rules Resp σ where
  allow s op := (exec e op s).isSome = true
  next s op r s' := exec e op s = some (r, s')

variable {exec}

/-- A program specified under the exact rules runs to its end. -/
theorem run_of_spec {e : ε} {p : Prog Resp α} {s : σ} {Q : α → σ → Prop}
    (h : Spec (Rules.exact exec e) p s Q) : ∃ a s', run exec e p s = some (a, s') ∧ Q a s' := by
  induction p generalizing s with
  | ret a => exact ⟨a, s, rfl, h⟩
  | call op k ih =>
    obtain ⟨⟨r, s₁⟩, hx⟩ := Option.isSome_iff_exists.1 h.1
    obtain ⟨a, s', hrun, hQ⟩ := ih r (h.2 r s₁ hx)
    exact ⟨a, s', by rw [run, hx]; exact hrun, hQ⟩

@[simp] theorem run_ret (e : ε) (a : α) (s : σ) : run exec e (ret a) s = some (a, s) := rfl

/-- A run of a return has the value returned and changes nothing. -/
theorem run_ret_some {e : ε} {a b : α} {s s' : σ} (h : run exec e (ret a) s = some (b, s')) :
    a = b ∧ s = s' := Prod.mk.inj (Option.some.inj h)

theorem run_ret_ne {e : ε} {a b : α} {s s' : σ} (hne : a ≠ b) : run exec e (ret a) s ≠ some (b, s') :=
  fun h => hne (run_ret_some h).1

/-- A program runs in one environment to one result. -/
theorem run_unique {e : ε} {p : Prog Resp α} {a b : α} {s s₁ s₂ : σ} (h : run exec e p s = some (a, s₁))
    (h' : run exec e p s = some (b, s₂)) : a = b ∧ s₁ = s₂ :=
  Prod.mk.inj (Option.some.inj (h.symm.trans h'))

/-- What is specified of a view `f` of the state holds of a run, when every step of the run is one the
rules of the view allow for. -/
theorem spec_run {R : Rules Resp τ} {f : σ → τ} {e : ε} {p : Prog Resp α} {s s' : σ} {a : α}
    {Q : α → τ → Prop} (h : Spec R p (f s) Q) (hrun : run exec e p s = some (a, s'))
    (hnext : ∀ s op r s', exec e op s = some (r, s') → R.next (f s) op r (f s')) : Q a (f s') := by
  induction p generalizing s with
  | ret b =>
    obtain ⟨rfl, rfl⟩ := run_ret_some hrun
    exact h
  | call op k ih =>
    obtain ⟨⟨r, s₁⟩, hx, hk⟩ := Option.bind_eq_some_iff.1 hrun
    exact ih r (h.2 r _ (hnext s op r s₁ hx)) hk

theorem run_call (e : ε) (op : Op) (k : Resp op → Prog Resp α) (s : σ) :
    run exec e (call op k) s = (exec e op s).bind fun z => run exec e (k z.1) z.2 := rfl

theorem run_perform (e : ε) (op : Op) (s : σ) : run exec e (perform op) s = exec e op s := by
  simp only [perform, run_call]
  cases exec e op s <;> rfl

theorem run_perform_some {e : ε} {op : Op} {r : Resp op} {s s' : σ}
    (h : run exec e (perform op) s = some (r, s')) : exec e op s = some (r, s') := by
  rwa [run_perform] at h

theorem run_bind (e : ε) (p : Prog Resp α) (f : α → Prog Resp β) (s : σ) :
    run exec e (p >>= f) s = (run exec e p s).bind fun z => run exec e (f z.1) z.2 := by
  induction p generalizing s with
  | ret a => rfl
  | call op k ih =>
    simp only [call_bind, run_call, ih]
    cases exec e op s <;> rfl

theorem run_bind_some {e : ε} {p : Prog Resp α} {f : α → Prog Resp β} {s s'' : σ} {b : β}
    (h : run exec e (p >>= f) s = some (b, s'')) :
    ∃ a s', run exec e p s = some (a, s') ∧ run exec e (f a) s' = some (b, s'') := by
  rw [run_bind] at h
  obtain ⟨⟨a, s'⟩, hp, hf⟩ := Option.bind_eq_some_iff.1 h
  exact ⟨a, s', hp, hf⟩

/-- A program that goes on only after a success, and succeeds. -/
theorem run_bind_true {e : ε} {p : Prog Resp Bool} {f : Bool → Prog Resp Bool} {s s'' : σ}
    (h : run exec e (p >>= f) s = some (true, s'')) (hstop : f false = ret false) :
    ∃ s', run exec e p s = some (true, s') ∧ run exec e (f true) s' = some (true, s'') := by
  obtain ⟨ok, s', hp, hf⟩ := run_bind_some h
  cases ok with
  | false =>
    rw [hstop] at hf
    exact absurd hf (run_ret_ne Bool.false_ne_true)
  | true => exact ⟨s', hp, hf⟩

/-- What is specified under the exact rules holds of the run. -/
theorem of_spec {e : ε} {p : Prog Resp α} {s s' : σ} {a : α} {Q : α → σ → Prop}
    (h : Spec (Rules.exact exec e) p s Q) (hrun : run exec e p s = some (a, s')) : Q a s' :=
  spec_run (f := id) h hrun fun _ _ _ _ hn => hn

theorem spec_perform_exact {e : ε} {op : Op} {r : Resp op} {s s' : σ} {Q : Resp op → σ → Prop}
    (hexec : exec e op s = some (r, s')) (h : Q r s') : Spec (Rules.exact exec e) (perform op) s Q := by
  refine (spec_perform op s Q).2 ⟨Option.isSome_iff_exists.2 ⟨_, hexec⟩, fun r₁ s₁ hnext => ?_⟩
  obtain ⟨rfl, rfl⟩ := Prod.mk.inj (Option.some.inj (hexec.symm.trans hnext))
  exact h

/-- What a turn of the loop found, and the run up to and of that turn. -/
theorem run_gather {e : ε} {xs : List α} {body : α → Prog Resp (Option β)} {s s' : σ} {ys : List β}
    {y : β} (h : run exec e (gather xs body) s = some (ys, s')) (hy : y ∈ ys) :
    ∃ before x after bs s₁ s₂, xs = before ++ x :: after ∧
      run exec e (gather before body) s = some (bs, s₁) ∧ run exec e (body x) s₁ = some (some y, s₂) := by
  induction xs generalizing s s' ys with
  | nil =>
    obtain ⟨rfl, -⟩ := run_ret_some h
    exact absurd hy List.not_mem_nil
  | cons x xs ih =>
    obtain ⟨b, s₁, hx, h⟩ := run_bind_some h
    obtain ⟨bs, s₂, hxs, h⟩ := run_bind_some h
    obtain ⟨rfl, -⟩ := run_ret_some h
    rcases List.mem_append.1 hy with hy | hy
    · rw [Option.mem_toList] at hy
      rw [hy] at hx
      exact ⟨[], x, xs, [], s, s₁, rfl, rfl, hx⟩
    · obtain ⟨before, z, after, cs, t₁, t₂, rfl, hbefore, hz⟩ := ih hxs hy
      refine ⟨x :: before, z, after, b.toList ++ cs, t₁, t₂, rfl, ?_, hz⟩
      rw [gather, run_bind, hx, Option.bind_some, run_bind, hbefore]
      rfl

/-- The results come in the order of the elements, at most one for each. -/
theorem run_gather_sublist {γ : Type} {e : ε} {xs : List α} {body : α → Prog Resp (Option β)} {s s' : σ}
    {ys : List β} {f : α → γ} {g : β → γ}
    (hbody : ∀ x y s s', run exec e (body x) s = some (some y, s') → g y = f x)
    (h : run exec e (gather xs body) s = some (ys, s')) : (ys.map g).Sublist (xs.map f) := by
  induction xs generalizing s s' ys with
  | nil =>
    obtain ⟨rfl, -⟩ := run_ret_some h
    exact .slnil
  | cons x xs ih =>
    obtain ⟨b, s₁, hx, h⟩ := run_bind_some h
    obtain ⟨bs, s₂, hxs, h⟩ := run_bind_some h
    obtain ⟨rfl, -⟩ := run_ret_some h
    cases b with
    | none => exact (ih hxs).cons _
    | some y =>
      rw [Option.toList_some, List.singleton_append, List.map_cons, List.map_cons, hbody x y s s₁ hx]
      exact (ih hxs).cons_cons _

/-- Turns that each keep the invariant and whose results it decides. -/
theorem run_gather_all {I : σ → Prop} {f : α → Option β} {e : ε} {xs : List α}
    {body : α → Prog Resp (Option β)} {s s' : σ} {ys : List β}
    (hbody : ∀ x ∈ xs, ∀ s b s', I s → run exec e (body x) s = some (b, s') → b = f x ∧ I s')
    (h : run exec e (gather xs body) s = some (ys, s')) (hI : I s) : ys = xs.filterMap f ∧ I s' := by
  induction xs generalizing s s' ys with
  | nil =>
    obtain ⟨rfl, rfl⟩ := run_ret_some h
    exact ⟨rfl, hI⟩
  | cons x xs ih =>
    obtain ⟨b, s₁, hx, h⟩ := run_bind_some h
    obtain ⟨bs, s₂, hxs, h⟩ := run_bind_some h
    obtain ⟨rfl, rfl⟩ := run_ret_some h
    obtain ⟨rfl, hI₁⟩ := hbody x List.mem_cons_self s b s₁ hI hx
    obtain ⟨rfl, hI₂⟩ := ih (fun y hy => hbody y (List.mem_cons_of_mem x hy)) hxs hI₁
    refine ⟨?_, hI₂⟩
    cases hf : f x with
    | none => rw [List.filterMap_cons_none hf]; rfl
    | some y => rw [List.filterMap_cons_some hf]; rfl

/-- Questions are asked in order until one has a result. -/
theorem run_firstSome {e : ε} {xs : List α} {body : α → Prog Resp (Option β)} {f : α → Option β} {s : σ}
    (h : ∀ x ∈ xs, run exec e (body x) s = some (f x, s)) :
    run exec e (firstSome xs body) s = some (xs.findSome? f, s) := by
  induction xs with
  | nil => rfl
  | cons x xs ih =>
    rw [firstSome, run_bind, h x List.mem_cons_self, Option.bind_some, List.findSome?_cons]
    cases f x with
    | some b => rfl
    | none => exact ih fun y hy => h y (List.mem_cons_of_mem x hy)

/-- What every operation of a program keeps, a run of it keeps. -/
theorem run_keep {ops : Op → Prop} {I : σ → Prop} {e : ε} {p : Prog Resp α} {s s' : σ} {a : α}
    (hp : Only ops p) (hops : ∀ op, ops op → ∀ s r s', exec e op s = some (r, s') → I s → I s')
    (hrun : run exec e p s = some (a, s')) (hI : I s) : I s' := by
  induction p generalizing s with
  | ret b =>
    obtain ⟨-, rfl⟩ := run_ret_some hrun
    exact hI
  | call op k ih =>
    obtain ⟨⟨r, s₁⟩, hx, hk⟩ := Option.bind_eq_some_iff.1 hrun
    exact ih r (hp.2 r) hk (hops op hp.1 s r s₁ hx hI)

/-- A program whose operations do not wait runs to its end. -/
theorem exists_run {ops : Op → Prop} {e : ε} {p : Prog Resp α} (hp : Only ops p)
    (hops : ∀ op, ops op → ∀ s, (exec e op s).isSome = true) (s : σ) :
    ∃ a s', run exec e p s = some (a, s') := by
  induction p generalizing s with
  | ret a => exact ⟨a, s, rfl⟩
  | call op k ih =>
    obtain ⟨⟨r, s₁⟩, hx⟩ := Option.isSome_iff_exists.1 (hops op hp.1 s)
    obtain ⟨a, s', hrun⟩ := ih r (hp.2 r) s₁
    exact ⟨a, s', by rw [run_call, hx]; exact hrun⟩

/-- The steps of the relation an executable machine induces, in environments `adm` admits. -/
def StepBy (exec : Exec Resp ε σ) (adm : ε → Op → σ → Prop) (s : σ) (op : Op) (r : Resp op)
    (s' : σ) : Prop :=
  ∃ e, adm e op s ∧ exec e op s = some (r, s')

theorem steps_sound {adm : ε → Op → σ → Bool} {es : List ε} {p p' : Prog Resp α} {s s' : σ}
    (h : steps exec adm es p s = some (p', s')) :
    Steps (StepBy exec fun e op s => adm e op s = true) p s p' s' := by
  induction es generalizing p s with
  | nil =>
    simp only [steps, Option.some.injEq, Prod.mk.injEq] at h
    obtain ⟨rfl, rfl⟩ := h
    exact .refl p s
  | cons e es ih =>
    cases p with
    | ret a => simp [steps] at h
    | call op k =>
      simp only [steps] at h
      split_ifs at h with hadm
      obtain ⟨⟨r, s₁⟩, he, hrest⟩ := Option.bind_eq_some_iff.1 h
      exact .call ⟨e, hadm, he⟩ (ih hrest)

theorem steps_mono {step step' : σ → (op : Op) → Resp op → σ → Prop} {p p' : Prog Resp α} {s s' : σ}
    (h : Steps step p s p' s') (hstep : ∀ s op r s', step s op r s' → step' s op r s') :
    Steps step' p s p' s' := by
  induction h with
  | refl => exact .refl _ _
  | call first _ ih => exact .call (hstep _ _ _ _ first) ih

/-- A run in one environment is a run of the step relation. -/
theorem run_sound {adm : ε → Op → σ → Prop} {e : ε} {p : Prog Resp α} {a : α} {s s' : σ}
    (hadm : ∀ op s, adm e op s) (h : run exec e p s = some (a, s')) :
    Steps (StepBy exec adm) p s (ret a) s' := by
  induction p generalizing s with
  | ret b =>
    obtain ⟨rfl, rfl⟩ := run_ret_some h
    exact .refl _ _
  | call op k ih =>
    simp only [run_call, Option.bind_eq_some_iff] at h
    obtain ⟨⟨r, s₁⟩, he, hrest⟩ := h
    exact .call ⟨e, hadm op s, he⟩ (ih r hrest)

/-! ### Programs that only ask -/

/-- The result of a program whose operations are answered by `answer`. -/
def eval (answer : (op : Op) → Resp op) : Prog Resp α → α
  | ret a => a
  | call op k => eval answer (k (answer op))

section Eval

variable (answer : (op : Op) → Resp op)

@[simp] theorem eval_ret (a : α) : eval answer (ret a) = a := rfl

@[simp] theorem eval_call (op : Op) (k : Resp op → Prog Resp α) :
    eval answer (call op k) = eval answer (k (answer op)) := rfl

@[simp] theorem eval_perform (op : Op) : eval answer (perform op) = answer op := rfl

@[simp] theorem eval_bind (p : Prog Resp α) (f : α → Prog Resp β) :
    eval answer (p >>= f) = eval answer (f (eval answer p)) := by
  induction p with
  | ret a => rfl
  | call op k ih => exact ih _

@[simp] theorem eval_gather (xs : List α) (body : α → Prog Resp (Option β)) :
    eval answer (gather xs body) = xs.filterMap fun x => eval answer (body x) := by
  induction xs with
  | nil => rfl
  | cons x xs ih =>
    simp only [gather, eval_bind, eval_ret, ih]
    cases h : eval answer (body x) <;> simp [h]

@[simp] theorem eval_firstSome (xs : List α) (body : α → Prog Resp (Option β)) :
    eval answer (firstSome xs body) = xs.findSome? fun x => eval answer (body x) := by
  induction xs with
  | nil => rfl
  | cons x xs ih =>
    simp only [firstSome, eval_bind, List.findSome?_cons]
    cases eval answer (body x) with
    | some b => rfl
    | none => exact ih

/-- A program that only asks what the state answers runs to its evaluation and changes nothing. -/
theorem run_eval {ops : Op → Prop} {p : Prog Resp α} {e : ε} {s : σ} (h : Only ops p)
    (hops : ∀ op, ops op → exec e op s = some (answer op, s)) :
    run exec e p s = some (eval answer p, s) := by
  induction p with
  | ret a => rfl
  | call op k ih => rw [run_call, hops op h.1, Option.bind_some, ih _ (h.2 _), eval_call]

end Eval

end Prog
