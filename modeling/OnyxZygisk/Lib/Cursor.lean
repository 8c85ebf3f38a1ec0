import Mathlib.Data.List.Basic
import Mathlib.Data.List.Infix
import Mathlib.Tactic.Common

/-!
# Reading with a cursor, writing at the end

A reader moves a cursor over items that stay as they are, and may have moved it when it fails. A writer
appends to a list, as far as the list may grow. `Decodes` says of a reader what it succeeds on, `Appends` of
a writer what it leaves, and both have a rule for each way to put readers or writers together, up to whole
runs (`run_eq_ok`, `Appends.each`).
-/

structure Cursor (β : Type) where
  items : List β
  offset : Nat

namespace Cursor

variable {β ε α γ : Type}

def remaining (c : Cursor β) : Nat := c.items.length - c.offset

/-- What is still to be read. -/
def rest (c : Cursor β) : List β := c.items.drop c.offset

def advance (c : Cursor β) (n : Nat) : Cursor β := { c with offset := c.offset + n }

theorem rest_advance (c : Cursor β) (n : Nat) : (c.advance n).rest = c.rest.drop n :=
  List.drop_drop.symm

theorem advance_add (c : Cursor β) (m n : Nat) : (c.advance m).advance n = c.advance (m + n) := by
  simp only [advance, Nat.add_assoc]

theorem length_rest (c : Cursor β) : c.rest.length = c.remaining := List.length_drop

theorem append_prefix_iff {s t l : List β} : s ++ t <+: l ↔ s <+: l ∧ t <+: l.drop s.length := by
  constructor
  · rintro ⟨u, rfl⟩
    refine ⟨⟨t ++ u, (List.append_assoc s t u).symm⟩, u, ?_⟩
    rw [List.append_assoc, List.drop_left]
  · rintro ⟨⟨u, rfl⟩, ht⟩
    rw [List.drop_left] at ht
    rwa [List.prefix_append_right_inj]

/-! ### Readers -/

/-- What a reader returns, and where it leaves the cursor. -/
def Read (ε β α : Type) : Type := Cursor β → Except ε α × Cursor β

def Read.bind (x : Read ε β α) (f : α → Read ε β γ) : Read ε β γ := fun c =>
  match x c with
  | (.ok a, c) => f a c
  | (.error e, c) => (.error e, c)

instance : Monad (Read ε β) where
  pure a := fun c => (.ok a, c)
  bind := Read.bind

def fail (e : ε) : Read ε β α := fun c => (.error e, c)

/-- The next `n` items. -/
def take (e : ε) (n : Nat) : Read ε β (List β) := fun c =>
  if n > c.remaining then (.error e, c) else (.ok (c.rest.take n), c.advance n)

variable {x : Read ε β α} {f : α → Read ε β γ} {c c' : Cursor β} {e : ε} {a : α} {b : γ} {s : List β} {n : Nat}

theorem bind_eq_ok : (x >>= f) c = (.ok b, c') ↔ ∃ a d, x c = (.ok a, d) ∧ f a d = (.ok b, c') := by
  show Read.bind x f c = _ ↔ _
  rw [Read.bind]
  constructor
  · intro h
    split at h
    · rename_i a d hx
      exact ⟨a, d, hx, h⟩
    · cases h
  · rintro ⟨a, d, hx, hf⟩
    rw [hx]
    exact hf

theorem take_eq_ok : take e n c = (.ok s, c') ↔ s.length = n ∧ s <+: c.rest ∧ c' = c.advance n := by
  rw [take]
  split
  · rename_i h
    refine ⟨fun heq => (nomatch heq), fun ⟨hlen, hs, _⟩ => ?_⟩
    have hle := hs.length_le
    rw [length_rest] at hle
    omega
  · rename_i h
    have hle : n ≤ c.rest.length := by
      rw [length_rest]
      omega
    constructor
    · intro heq
      obtain ⟨hs, hc⟩ := Prod.mk.inj heq
      obtain rfl := Except.ok.inj hs
      exact ⟨List.length_take_of_le hle, List.take_prefix n _, hc.symm⟩
    · rintro ⟨hlen, hs, rfl⟩
      rw [← hlen, ← List.prefix_iff_eq_take.1 hs]

/-! ### What a reader decodes -/

/-- The reader succeeds with the valid values, each where its encoding comes next, and moves behind it. -/
def Decodes (x : Read ε β α) (valid : α → Prop) (enc : α → List β) : Prop :=
  ∀ c c' a, x c = (.ok a, c') ↔ valid a ∧ enc a <+: c.rest ∧ c' = c.advance (enc a).length

theorem Decodes.congr {valid valid' : α → Prop} {enc : α → List β} (hx : Decodes x valid enc)
    (h : ∀ a, valid a ↔ valid' a) : Decodes x valid' enc := by
  intro c c' a
  rw [hx c c' a, h a]

/-- One reader behind the other; the value of the second holds that of the first. -/
theorem Decodes.bind {valid : α → Prop} {enc : α → List β} (hx : Decodes x valid enc) (field : γ → α)
    {validf : γ → Prop} {encf : γ → List β} (hf : ∀ a, Decodes (f a) (fun b => field b = a ∧ validf b) encf) :
    Decodes (x >>= f) (fun b => valid (field b) ∧ validf b) fun b => enc (field b) ++ encf b := by
  intro c c' b
  rw [bind_eq_ok, append_prefix_iff, List.length_append, ← advance_add, ← rest_advance]
  constructor
  · rintro ⟨a, d, ha, hb⟩
    obtain ⟨hvalid, henc, rfl⟩ := (hx _ _ _).1 ha
    obtain ⟨⟨rfl, hvalidb⟩, hencb, hc⟩ := (hf a _ _ _).1 hb
    exact ⟨⟨hvalid, hvalidb⟩, ⟨henc, hencb⟩, hc⟩
  · rintro ⟨⟨hvalid, hvalidb⟩, ⟨henc, hencb⟩, hc⟩
    exact ⟨field b, _, (hx _ _ _).2 ⟨hvalid, henc, rfl⟩, (hf _ _ _ _).2 ⟨⟨rfl, hvalidb⟩, hencb, hc⟩⟩

theorem decodes_pure (a : α) : Decodes (pure a : Read ε β α) (fun b => b = a) fun _ => [] := by
  intro c c' b
  constructor
  · intro h
    obtain ⟨hb, hc⟩ := Prod.mk.inj h
    exact ⟨(Except.ok.inj hb).symm, List.nil_prefix, hc.symm⟩
  · rintro ⟨rfl, -, rfl⟩
    rfl

/-- A value that is checked before the rest is read. -/
theorem Decodes.guard {p : Prop} [Decidable p] {valid : α → Prop} {enc : α → List β} (e : ε)
    (hx : Decodes x valid enc) : Decodes (if p then fail e else x) (fun a => ¬ p ∧ valid a) enc := by
  intro c c' a
  by_cases hp : p
  · rw [if_pos hp]
    exact ⟨fun h => (nomatch (Prod.mk.inj h).1), fun h => absurd hp h.1.1⟩
  · rw [if_neg hp, hx]
    exact ⟨fun h => ⟨⟨hp, h.1⟩, h.2⟩, fun h => ⟨h.1.2, h.2⟩⟩

theorem decodes_take (e : ε) (n : Nat) :
    Decodes (take e n : Read ε β (List β)) (fun s => s.length = n) fun s => s := by
  intro c c' s
  rw [take_eq_ok]
  exact ⟨fun ⟨hlen, hs, hc⟩ => ⟨hlen, hs, hlen ▸ hc⟩, fun ⟨hlen, hs, hc⟩ => ⟨hlen, hs, hlen ▸ hc⟩⟩

/-- Items taken and then turned into a value, which tells what they were. -/
theorem Decodes.take_map {value : List β → α} {enc : α → List β} (hlen : ∀ a, (enc a).length = n)
    (hvalue : ∀ a, value (enc a) = a) (henc : ∀ s, s.length = n → enc (value s) = s) :
    Decodes (take e n >>= fun s => (pure (value s) : Read ε β α)) (fun _ => True) enc := by
  intro c c' a
  rw [bind_eq_ok]
  constructor
  · rintro ⟨s, d, hs, ha⟩
    obtain ⟨hslen, hprefix, rfl⟩ := take_eq_ok.1 hs
    obtain ⟨ha, hc⟩ := Prod.mk.inj ha
    obtain rfl := Except.ok.inj ha
    rw [henc s hslen, hslen]
    exact ⟨trivial, hprefix, hc.symm⟩
  · rintro ⟨-, hprefix, rfl⟩
    refine ⟨enc a, _, take_eq_ok.2 ⟨hlen a, hprefix, rfl⟩, ?_⟩
    rw [hvalue, hlen]
    rfl

/-! ### The cursor stays inside -/

/-- Whatever the reader returns, it leaves the items alone and the cursor inside them. -/
def Bounded (x : Read ε β α) : Prop :=
  ∀ c, c.offset ≤ c.items.length → (x c).2.items = c.items ∧ (x c).2.offset ≤ c.items.length

theorem bounded_pure (a : α) : Bounded (pure a : Read ε β α) := fun _ h => ⟨rfl, h⟩

theorem bounded_fail (e : ε) : Bounded (fail e : Read ε β α) := fun _ h => ⟨rfl, h⟩

theorem bounded_take (e : ε) (n : Nat) : Bounded (take e n : Read ε β (List β)) := by
  intro c h
  rw [take]
  split
  · exact ⟨rfl, h⟩
  · rename_i hn
    refine ⟨rfl, ?_⟩
    rw [remaining] at hn
    show c.offset + n ≤ c.items.length
    omega

theorem Bounded.bind (hx : Bounded x) (hf : ∀ a, Bounded (f a)) : Bounded (x >>= f) := by
  intro c h
  obtain ⟨hitems, hoffset⟩ := hx c h
  show (Read.bind x f c).2.items = _ ∧ (Read.bind x f c).2.offset ≤ _
  rw [Read.bind]
  split
  · rename_i a d heq
    rw [heq] at hitems hoffset
    dsimp only at hitems hoffset
    have hd := hf a d (hitems ▸ hoffset)
    rw [hitems] at hd
    exact hd
  · rename_i e d heq
    rw [heq] at hitems hoffset
    exact ⟨hitems, hoffset⟩

theorem Bounded.ite {p : Prop} [Decidable p] {y : Read ε β α} (hx : Bounded x) (hy : Bounded y) :
    Bounded (if p then x else y) := by
  split
  · exact hx
  · exact hy

/-! ### Runs of readers -/

/-- One reader after the other, also behind one that fails. -/
def run {ι : Type} (read : ι → Read ε β α) : List ι → Cursor β → List (Except ε α) × Cursor β
  | [], c => ([], c)
  | i :: is, c => ((read i c).1 :: (run read is (read i c).2).1, (run read is (read i c).2).2)

variable {ι : Type} {read : ι → Read ε β α}

theorem run_bounded (h : ∀ i, Bounded (read i)) (is : List ι) (hc : c.offset ≤ c.items.length) :
    (run read is c).2.items = c.items ∧ (run read is c).2.offset ≤ c.items.length := by
  induction is generalizing c with
  | nil => exact ⟨rfl, hc⟩
  | cons i is ih =>
    obtain ⟨hitems, hoffset⟩ := h i c hc
    have hrun := ih (c := (read i c).2) (hitems ▸ hoffset)
    rw [hitems] at hrun
    exact hrun

/-- A run in which every reader succeeds has read the encodings of its values, one behind the other. -/
theorem run_eq_ok {kind : α → ι} {valid : α → Prop} {enc : α → List β}
    (h : ∀ i, Decodes (read i) (fun a => kind a = i ∧ valid a) enc) (is : List ι) (values : List α) :
    run read is c = (values.map .ok, c') ↔ values.map kind = is ∧ (∀ a ∈ values, valid a) ∧
      values.flatMap enc <+: c.rest ∧ c' = c.advance (values.flatMap enc).length := by
  induction is generalizing c values with
  | nil =>
    rw [run, Prod.mk.injEq, List.nil_eq, List.map_eq_nil_iff, List.map_eq_nil_iff]
    constructor
    · rintro ⟨rfl, rfl⟩
      exact ⟨rfl, fun _ ha => absurd ha List.not_mem_nil, List.nil_prefix, rfl⟩
    · rintro ⟨rfl, -, -, hc⟩
      exact ⟨rfl, hc.symm⟩
  | cons i is ih =>
    rw [run, Prod.mk.injEq]
    cases values with
    | nil =>
      constructor
      · rintro ⟨hnil, -⟩
        exact absurd hnil (List.cons_ne_nil _ _)
      · rintro ⟨hnil, -⟩
        exact absurd hnil.symm (List.cons_ne_nil _ _)
    | cons a values =>
      rw [List.map_cons, List.map_cons, List.cons.injEq, List.cons.injEq, List.forall_mem_cons,
        List.flatMap_cons, append_prefix_iff, ← rest_advance, List.length_append, ← advance_add]
      constructor
      · rintro ⟨⟨ha, hrest⟩, hc⟩
        have hread : read i c = (.ok a, (read i c).2) := Prod.ext ha rfl
        obtain ⟨⟨hkind, hvalid⟩, henc, hadvance⟩ := (h i _ _ _).1 hread
        obtain ⟨hkinds, hvalids, hencs, hc'⟩ := (ih (c := (read i c).2) values).1 (Prod.ext hrest hc)
        rw [hadvance] at hencs hc'
        exact ⟨⟨hkind, hkinds⟩, ⟨hvalid, hvalids⟩, ⟨henc, hencs⟩, hc'⟩
      · rintro ⟨⟨hkind, hkinds⟩, ⟨hvalid, hvalids⟩, ⟨henc, hencs⟩, hc'⟩
        have hread := (h i c _ a).2 ⟨⟨hkind, hvalid⟩, henc, rfl⟩
        have hrun := (ih (c := c.advance (enc a).length) values).2 ⟨hkinds, hvalids, hencs, hc'⟩
        rw [hread]
        dsimp only
        rw [hrun]
        exact ⟨⟨rfl, rfl⟩, rfl⟩

/-! ### Writers -/

/-- What a writer returns, and the buffer it leaves. -/
def Write (ε β : Type) : Type := List β → Except ε Unit × List β

def Write.done : Write ε β := fun buf => (.ok (), buf)

def Write.refuse (e : ε) : Write ε β := fun buf => (.error e, buf)

def Write.andThen (w v : Write ε β) : Write ε β := fun buf =>
  match w buf with
  | (.ok (), buf) => v buf
  | (.error e, buf) => (.error e, buf)

/-- The items, if the buffer can grow to hold them. -/
def append (e : ε) (grow : Nat → Bool) (s : List β) : Write ε β := fun buf =>
  if grow (buf.length + s.length) then (.ok (), buf ++ s) else (.error e, buf)

def Write.each (write : α → Write ε β) : List α → Write ε β
  | [] => .done
  | a :: as => (write a).andThen (each write as)

/-- The writer succeeds only where `ok` holds, and then leaves the items behind the others; where it holds
nothing but room is needed. -/
structure Appends (grow : Nat → Bool) (w : Write ε β) (ok : Prop) (s : List β) : Prop where
  sound : ∀ buf out, w buf = (.ok (), out) → ok ∧ out = buf ++ s
  complete : ok → ∀ buf, (∀ n ≤ (buf ++ s).length, grow n) → w buf = (.ok (), buf ++ s)

variable {grow : Nat → Bool} {w v : Write ε β} {ok ok' : Prop} {t : List β}

theorem appends_done : Appends grow (.done : Write ε β) True [] where
  sound buf out h := by
    rw [List.append_nil]
    exact ⟨trivial, (Prod.mk.inj h).2.symm⟩
  complete _ buf _ := by
    rw [List.append_nil]
    rfl

theorem appends_append (e : ε) (s : List β) : Appends grow (append e grow s) True s where
  sound buf out h := by
    rw [append] at h
    split at h
    · exact ⟨trivial, (Prod.mk.inj h).2.symm⟩
    · cases h
  complete _ buf hgrow := by
    rw [append, if_pos]
    rw [← List.length_append]
    exact hgrow _ (Nat.le_refl _)

theorem Appends.andThen (hw : Appends grow w ok s) (hv : Appends grow v ok' t) :
    Appends grow (w.andThen v) (ok ∧ ok') (s ++ t) where
  sound buf out h := by
    rw [Write.andThen] at h
    split at h
    · rename_i mid hmid
      obtain ⟨hok, rfl⟩ := hw.sound _ _ hmid
      obtain ⟨hok', rfl⟩ := hv.sound _ _ h
      exact ⟨⟨hok, hok'⟩, List.append_assoc _ _ _⟩
    · cases h
  complete h buf hgrow := by
    rw [← List.append_assoc] at hgrow ⊢
    have hmid : w buf = (.ok (), buf ++ s) := by
      apply hw.complete h.1
      intro n hn
      exact hgrow n (hn.trans (List.prefix_append _ t).length_le)
    rw [Write.andThen, hmid]
    exact hv.complete h.2 _ hgrow

/-- A value that is checked first. -/
theorem Appends.guard {p : Prop} [Decidable p] (hw : Appends grow w ok s) (e : ε) :
    Appends grow (if p then .refuse e else w) (¬ p ∧ ok) s where
  sound buf out h := by
    split at h
    · cases h
    · rename_i hp
      exact ⟨⟨hp, (hw.sound _ _ h).1⟩, (hw.sound _ _ h).2⟩
  complete h buf hgrow := by
    rw [if_neg h.1]
    exact hw.complete h.2 buf hgrow

theorem Appends.congr (hw : Appends grow w ok s) (h : ok ↔ ok') : Appends grow w ok' s :=
  ⟨fun buf out heq => ⟨h.1 (hw.sound buf out heq).1, (hw.sound buf out heq).2⟩,
    fun hok => hw.complete (h.2 hok)⟩

/-- A run of writers leaves what they append, one behind the other. -/
theorem Appends.each {write : α → Write ε β} {valid : α → Prop} {enc : α → List β}
    (h : ∀ a, Appends grow (write a) (valid a) (enc a)) (as : List α) :
    Appends grow (Write.each write as) (∀ a ∈ as, valid a) (as.flatMap enc) := by
  induction as with
  | nil => exact appends_done.congr ⟨fun _ a ha => absurd ha List.not_mem_nil, fun _ => trivial⟩
  | cons a as ih => exact ((h a).andThen ih).congr List.forall_mem_cons.symm

end Cursor
