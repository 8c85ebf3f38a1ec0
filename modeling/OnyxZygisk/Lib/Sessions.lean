import Mathlib.Data.List.Basic
import Mathlib.Tactic.Common

/-!
# Conversations over a stream socket

Two programs write to each other through two buffers of bounded size. A write may be cut anywhere, a read may return
less than was asked for, and either end may be ahead of the other; a read falls short only when the other end has
finished and its buffer is empty. None of this changes where a conversation leads: its steps commute, so if one run
of it ends, all runs do, after as many steps and with the same results (`Steps.of_diamond`).
-/

namespace Sessions

/-! ### Relations with the diamond property -/

section Diamond

variable {α : Type} {R : α → α → Prop} {a b t : α} {n k : Nat}

/-- So many steps. -/
inductive Steps (R : α → α → Prop) : Nat → α → α → Prop where
  | refl (a : α) : Steps R 0 a a
  | head {n : Nat} {a b c : α} (h : R a b) (hs : Steps R n b c) : Steps R (n + 1) a c

theorem Steps.single (h : R a b) : Steps R 1 a b := .head h (.refl b)

theorem Steps.trans {c : α} (h : Steps R n a b) (h' : Steps R k b c) : Steps R (n + k) a c := by
  induction h with
  | refl => rwa [Nat.zero_add]
  | head hstep _ ih =>
    rw [Nat.add_right_comm]
    exact .head hstep (ih h')

/-- Two different steps can be joined by one step each. -/
def Diamond (R : α → α → Prop) : Prop :=
  ∀ a b c, R a b → R a c → b = c ∨ ∃ d, R b d ∧ R c d

/-- Where one run comes to an end, every run is on its way there. -/
theorem Steps.of_diamond (hR : Diamond R) (hend : ∀ b, ¬R t b) (hrun : Steps R n a t) (h : Steps R k a b) :
    ∃ j, k + j = n ∧ Steps R j b t := by
  induction n generalizing a k b with
  | zero =>
    cases hrun
    cases h with
    | refl => exact ⟨0, rfl, .refl t⟩
    | head hstep _ => exact absurd hstep (hend _)
  | succ n ih =>
    cases hrun with
    | @head _ _ a₁ _ hstep hrest =>
    cases h with
    | refl => exact ⟨n + 1, Nat.zero_add _, .head hstep hrest⟩
    | @head k _ b₁ _ hother hs =>
      -- the other first step leads to the end in as many steps
      have hend₁ : Steps R n b₁ t := by
        rcases hR a a₁ b₁ hstep hother with rfl | ⟨d, hd, hd'⟩
        · exact hrest
        · obtain ⟨j, hj, hjoin⟩ := ih hrest (.single hd)
          rw [← hj, Nat.add_comm]
          exact .head hd' hjoin
      obtain ⟨j, hj, hlast⟩ := ih hend₁ hs
      exact ⟨j, by omega, hlast⟩

end Diamond

/-! ### Programs -/

/-- A program at one end: it writes cells, or reads up to `n` of them, until it has a result. -/
inductive Proc (α β : Type) where
  | done (b : β)
  | send (out : List α) (next : Proc α β)
  | recv (n : Nat) (next : List α → Proc α β)

namespace Proc

variable {α β γ : Type}

def bind : Proc α β → (β → Proc α γ) → Proc α γ
  | done b, f => f b
  | send out next, f => send out (next.bind f)
  | recv n next, f => recv n fun got => (next got).bind f

instance : Monad (Proc α) where
  pure := done
  bind := bind

theorem bind_assoc {δ : Type} (p : Proc α β) (f : β → Proc α γ) (g : γ → Proc α δ) :
    p >>= f >>= g = p >>= fun b => f b >>= g := by
  induction p with
  | done b => rfl
  | send out next ih => exact congrArg (send out) ih
  | recv n next ih => exact congrArg (recv n) (funext ih)

def isDone : Proc α β → Bool
  | done _ => true
  | _ => false

/-- What an end does next, with the cells that have arrived: the program it goes on with, the cells that stay, and what
it puts into the buffer of the other end. -/
def step (ended room : Bool) : Proc α β → List α → Option (Proc α β × List α × List α)
  | done _, _ => none
  | send [] next, inbox => some (next, inbox, [])
  | send (a :: out) next, inbox => if room then some (send out next, inbox, [a]) else none
  | recv 0 next, inbox => some (next [], inbox, [])
  | recv (n + 1) next, a :: inbox => some (recv n fun got => next (a :: got), inbox, [])
  | recv (_ + 1) next, [] => if ended then some (next [], [], []) else none

variable {p p' : Proc α β} {inbox inbox' out : List α} {ended room : Bool}

/-- While the other end is at work, what arrives meanwhile changes nothing, and neither does more room. -/
theorem step_frame (h : p.step false room inbox = some (p', inbox', out)) (more : List α) (ended : Bool) {room' : Bool}
    (hroom : room = true → room' = true) :
    p.step ended room' (inbox ++ more) = some (p', inbox' ++ more, out) := by
  cases p with
  | done b => cases h
  | send cells next =>
    cases cells with
    | nil =>
      cases h
      rfl
    | cons a cells =>
      rw [step] at h ⊢
      split at h
      · cases h
        rw [if_pos (hroom ‹_›)]
      · cases h
  | recv n next =>
    cases n with
    | zero =>
      cases h
      rfl
    | succ n =>
      cases inbox with
      | nil => cases h
      | cons a inbox =>
        cases h
        rfl

theorem not_done_of_step (h : p.step ended room inbox = some (p', inbox', out)) : p.isDone = false := by
  cases p with
  | done b => cases h
  | send cells next => rfl
  | recv n next => rfl

end Proc

/-! ### Conversations -/

/-- Two ends, and what is under way to each. -/
structure Conv (α β γ : Type) where
  left : Proc α β
  right : Proc α γ
  toLeft : List α
  toRight : List α

variable {α β γ : Type}

def Conv.swap (c : Conv α β γ) : Conv α γ β := ⟨c.right, c.left, c.toRight, c.toLeft⟩

/-- A step of one end, where a buffer holds `cap` cells. -/
inductive Step (cap : Nat) : Conv α β γ → Conv α β γ → Prop where
  | left {c : Conv α β γ} {p : Proc α β} {inbox out : List α}
      (h : c.left.step c.right.isDone (c.toRight.length < cap) c.toLeft = some (p, inbox, out)) :
      Step cap c ⟨p, c.right, inbox, c.toRight ++ out⟩
  | right {c : Conv α β γ} {q : Proc α γ} {inbox out : List α}
      (h : c.right.step c.left.isDone (c.toLeft.length < cap) c.toRight = some (q, inbox, out)) :
      Step cap c ⟨c.left, q, c.toLeft ++ out, inbox⟩

variable {cap n : Nat} {c c' : Conv α β γ}

theorem Step.swap (h : Step cap c c') : Step cap c.swap c'.swap := by
  cases h with
  | left h => exact .right h
  | right h => exact .left h

theorem Proc.length_step {p p' : Proc α β} {ended room : Bool} {inbox inbox' out : List α}
    (h : p.step ended room inbox = some (p', inbox', out)) : inbox'.length ≤ inbox.length := by
  cases p with
  | done b => cases h
  | send cells next =>
    cases cells with
    | nil =>
      cases h
      exact Nat.le_refl _
    | cons a cells =>
      rw [step] at h
      split at h <;> cases h
      exact Nat.le_refl _
  | recv n next =>
    cases n with
    | zero =>
      cases h
      exact Nat.le_refl _
    | succ n =>
      cases inbox with
      | nil =>
        rw [step] at h
        split at h <;> cases h
        exact Nat.le_refl _
      | cons a inbox =>
        cases h
        exact Nat.le_succ _

/-- A step of the left end and one of the right end can be taken in either order. -/
theorem Step.join {p : Proc α β} {q : Proc α γ} {inboxL outL inboxR outR : List α}
    (hl : c.left.step c.right.isDone (c.toRight.length < cap) c.toLeft = some (p, inboxL, outL))
    (hr : c.right.step c.left.isDone (c.toLeft.length < cap) c.toRight = some (q, inboxR, outR)) :
    ∃ d, Step cap ⟨p, c.right, inboxL, c.toRight ++ outL⟩ d ∧ Step cap ⟨c.left, q, c.toLeft ++ outR, inboxR⟩ d := by
  have hroomL := Proc.length_step hr
  have hroomR := Proc.length_step hl
  rw [Proc.not_done_of_step hr] at hl
  rw [Proc.not_done_of_step hl] at hr
  refine ⟨⟨p, q, inboxL ++ outR, inboxR ++ outL⟩, .right ?_, .left ?_⟩
  · refine Proc.step_frame hr outL _ fun h => ?_
    rw [decide_eq_true_eq] at h ⊢
    exact Nat.lt_of_le_of_lt hroomR h
  · refine Proc.step_frame hl outR _ fun h => ?_
    rw [decide_eq_true_eq] at h ⊢
    exact Nat.lt_of_le_of_lt hroomL h

theorem diamond_step : Diamond (Step cap : Conv α β γ → Conv α β γ → Prop) := by
  intro a b c hb hc
  cases hb with
  | left hl =>
    cases hc with
    | left hl' =>
      rw [hl] at hl'
      cases hl'
      exact .inl rfl
    | right hr => exact .inr (Step.join hl hr)
  | right hr =>
    cases hc with
    | left hl =>
      obtain ⟨d, hd, hd'⟩ := Step.join hl hr
      exact .inr ⟨d, hd', hd⟩
    | right hr' =>
      rw [hr] at hr'
      cases hr'
      exact .inl rfl

/-! ### Where a conversation leads -/

/-- There is a run from one to the other. -/
def Reaches (cap : Nat) (c c' : Conv α β γ) : Prop := ∃ n, Steps (Step cap) n c c'

theorem Reaches.refl (c : Conv α β γ) : Reaches cap c c := ⟨0, .refl c⟩

theorem Reaches.trans {c'' : Conv α β γ} (h : Reaches cap c c') (h' : Reaches cap c' c'') : Reaches cap c c'' := by
  obtain ⟨n, hn⟩ := h
  obtain ⟨k, hk⟩ := h'
  exact ⟨n + k, hn.trans hk⟩

theorem Step.reaches (h : Step cap c c') : Reaches cap c c' := ⟨1, .single h⟩

theorem Steps.swap (h : Steps (Step cap) n c c') : Steps (Step cap) n c.swap c'.swap := by
  induction h with
  | refl c => exact .refl c.swap
  | head hstep _ ih => exact .head hstep.swap ih

theorem Reaches.swap (h : Reaches cap c c') : Reaches cap c.swap c'.swap := by
  obtain ⟨n, hn⟩ := h
  exact ⟨n, hn.swap⟩

/-- What was written to an end that has finished stays under way. -/
theorem Steps.toRight_eq_nil {b : β} {d : γ} (h : Steps (Step cap) n c ⟨.done b, .done d, [], []⟩)
    (hright : c.right.isDone = true) : c.toRight = [] := by
  generalize hend : (⟨.done b, .done d, [], []⟩ : Conv α β γ) = t at h
  induction h with
  | refl c => rw [← hend]
  | head hstep _ ih =>
    cases hstep with
    | left _ => exact (List.append_eq_nil_iff.1 (ih hright hend)).1
    | right hr => exact absurd (Proc.not_done_of_step hr) (by rw [hright]; exact Bool.false_ne_true.symm)

/-- Every run of the conversation can go on until it has come to these results, with nothing left under way, and none
takes more steps than another; and nothing is ever written to an end that has finished. -/
def Settles (cap : Nat) (c : Conv α β γ) (b : β) (d : γ) : Prop :=
  ∃ n, ∀ k c', Steps (Step cap) k c c' →
    (∃ j, k + j = n ∧ Steps (Step cap) j c' ⟨.done b, .done d, [], []⟩) ∧
      (c'.left.isDone = true → c'.toLeft = []) ∧ (c'.right.isDone = true → c'.toRight = [])

/-- One run that comes to an end is enough. -/
theorem Reaches.settles {b : β} {d : γ} (h : Reaches cap c ⟨.done b, .done d, [], []⟩) : Settles cap c b d := by
  obtain ⟨n, hn⟩ := h
  refine ⟨n, fun k c' hk => ?_⟩
  obtain ⟨j, hj, hrest⟩ := Steps.of_diamond diamond_step
    (fun c'' hstep => by cases hstep with | left h => cases h | right h => cases h) hn hk
  exact ⟨⟨j, hj, hrest⟩, hrest.swap.toRight_eq_nil, hrest.toRight_eq_nil⟩

/-! ### Phases -/

/-- The first program reads these cells and goes on as the second. -/
inductive Reads : Proc α β → List α → Proc α β → Prop where
  | nil (p : Proc α β) : Reads p [] p
  | recv {got cells : List α} {next : List α → Proc α β} {p : Proc α β} (h : Reads (next got) cells p) :
      Reads (.recv got.length next) (got ++ cells) p

/-- The first program writes these cells and goes on as the second. -/
inductive Writes : Proc α β → List α → Proc α β → Prop where
  | nil (p : Proc α β) : Writes p [] p
  | send {out cells : List α} {next p : Proc α β} (h : Writes next cells p) :
      Writes (.send out next) (out ++ cells) p

theorem Reads.recv_of_length {got cells : List α} {next : List α → Proc α β} {p : Proc α β} (hlength : got.length = n)
    (h : Reads (next got) cells p) : Reads (.recv n next) (got ++ cells) p := by
  subst hlength
  exact .recv h

theorem Reads.trans {p p' p'' : Proc α β} {cells cells' : List α} (h : Reads p cells p') (h' : Reads p' cells' p'') :
    Reads p (cells ++ cells') p'' := by
  induction h with
  | nil => exact h'
  | recv _ ih =>
    rw [List.append_assoc]
    exact .recv (ih h')

theorem Writes.trans {p p' p'' : Proc α β} {cells cells' : List α} (h : Writes p cells p')
    (h' : Writes p' cells' p'') : Writes p (cells ++ cells') p'' := by
  induction h with
  | nil => exact h'
  | send _ ih =>
    rw [List.append_assoc]
    exact .send (ih h')

/-- One cell comes over, if the buffer has room for it. -/
theorem Writes.first {p : Proc α β} {q q' : Proc α γ} {a : α} {cells : List α} (hcap : 0 < cap)
    (h : Writes q (a :: cells) q') : ∃ q₁, Writes q₁ cells q' ∧ Reaches cap ⟨p, q, [], []⟩ ⟨p, q₁, [a], []⟩ := by
  generalize hall : a :: cells = all at h
  induction h with
  | nil => cases hall
  | @send out rest next q'' hrest ih =>
    cases out with
    | nil =>
      obtain ⟨q₁, hq₁, hreach⟩ := ih hall
      exact ⟨q₁, hq₁, (Step.reaches (.right rfl)).trans hreach⟩
    | cons b out =>
      rw [List.cons_append, List.cons.injEq] at hall
      obtain ⟨rfl, rfl⟩ := hall
      refine ⟨.send out next, .send hrest, Step.reaches (.right ?_)⟩
      exact if_pos (decide_eq_true hcap)

/-- What one end asks for and the other writes comes over. -/
theorem fetch {q q' : Proc α γ} {got cells : List α} (hcap : 0 < cap) {next : List α → Proc α β}
    (h : Writes q (got ++ cells) q') : ∃ q₁, Writes q₁ cells q' ∧
      Reaches cap ⟨.recv got.length next, q, [], []⟩ ⟨next got, q₁, [], []⟩ := by
  induction got generalizing q next with
  | nil => exact ⟨q, h, Step.reaches (.left rfl)⟩
  | cons a got ih =>
    obtain ⟨q₁, hq₁, hreach⟩ := h.first hcap
    obtain ⟨q₂, hq₂, hrest⟩ : ∃ q₂, Writes q₂ cells q' ∧
        Reaches cap ⟨.recv got.length fun rest => next (a :: rest), q₁, [], []⟩ ⟨next (a :: got), q₂, [], []⟩ := ih hq₁
    exact ⟨q₂, hq₂, hreach.trans ((Step.reaches (.left rfl)).trans hrest)⟩

theorem Writes.silent {p : Proc α β} {q q' : Proc α γ} {cells : List α} (h : Writes q cells q') (hnil : cells = []) :
    Reaches cap ⟨p, q, [], []⟩ ⟨p, q', [], []⟩ := by
  induction h with
  | nil q => exact .refl _
  | @send out rest next q'' _ ih =>
    obtain ⟨rfl, hrest⟩ := List.append_eq_nil_iff.1 hnil
    exact (Step.reaches (.right rfl)).trans (ih hrest)

/-- A phase: one end writes what the other reads. -/
theorem Reads.reaches {p p' : Proc α β} {q q' : Proc α γ} {cells : List α} (hcap : 0 < cap) (hreads : Reads p cells p')
    (hwrites : Writes q cells q') : Reaches cap ⟨p, q, [], []⟩ ⟨p', q', [], []⟩ := by
  induction hreads generalizing q with
  | nil p => exact hwrites.silent rfl
  | recv _ ih =>
    obtain ⟨q₁, hq₁, hreach⟩ := fetch hcap hwrites
    exact hreach.trans (ih hq₁)

theorem Writes.reaches {p p' : Proc α β} {q q' : Proc α γ} {cells : List α} (hcap : 0 < cap)
    (hwrites : Writes p cells p') (hreads : Reads q cells q') : Reaches cap ⟨p, q, [], []⟩ ⟨p', q', [], []⟩ :=
  (hreads.reaches hcap hwrites).swap

/-- A program that only reads, and finds nothing. -/
inductive Starves : Proc α β → β → Prop where
  | done (b : β) : Starves (.done b) b
  | recv {n : Nat} {next : List α → Proc α β} {b : β} (h : Starves (next []) b) : Starves (.recv n next) b

/-- Once the other end has finished, every read ends at once. -/
theorem Starves.reaches {p : Proc α β} {b : β} {d : γ} (h : Starves p b) :
    Reaches cap ⟨p, .done d, [], []⟩ ⟨.done b, .done d, [], []⟩ := by
  induction h with
  | done b => exact .refl _
  | @recv n next b _ ih =>
    refine Reaches.trans (Step.reaches (.left ?_)) ih
    cases n with
    | zero => exact rfl
    | succ n => exact rfl

end Sessions
