import Mathlib.Logic.Relation
import OnyxZygisk.Loader.CleanMounts

/-!
# The order of unmounting

The loader and the daemon unmount what they have selected by descending mount ids. The kernel gives the id of a
mount that is gone to the next one, so an id says nothing of what a mount lies on: the order takes each mount before
what it lies on just where its id is the larger one (`unmount_order_iff`).
-/

namespace OnyxZygisk.Loader

open Daemon (RootImpl ProcessFlags shouldUnmount unmountTargets)

/-! ### The mount table -/

structure TableMount extends MountInfo where
  parent : Nat
  deriving DecidableEq

/-- `m` is mounted in `p`. The parent of the topmost mount is itself. -/
def TableMount.Child (m p : TableMount) : Prop := m.parent = p.id ∧ m.id ≠ p.id

/-- One step up in a list of mounts. -/
def Up (mounts : List TableMount) (m p : TableMount) : Prop := m ∈ mounts ∧ p ∈ mounts ∧ m.Child p

/-- A mount table, in the order the mounts were made. -/
structure MountTable where
  mounts : List TableMount
  distinct : (mounts.map fun m => m.id).Nodup
  acyclic : ∀ m, ¬ Relation.TransGen (Up mounts) m m

def MountTable.infos (table : MountTable) : List MountInfo := table.mounts.map TableMount.toMountInfo

def MountTable.Ancestor (table : MountTable) (a m : TableMount) : Prop := Relation.TransGen (Up table.mounts) m a

/-- Two mounts at one target: the later one covers the other. -/
def MountTable.Covers (table : MountTable) (upper lower : TableMount) : Prop :=
  upper.target = lower.target ∧ [lower, upper].Sublist table.mounts

/-- The order takes `x` before `y`. -/
def Before (order : List MountInfo) (x y : TableMount) : Prop := [x.toMountInfo, y.toMountInfo].Sublist order

/-- What is mounted in, or on, another mount is unmounted first. -/
structure SafeOrder (table : MountTable) (order : List MountInfo) : Prop where
  nested : ∀ m ∈ table.mounts, ∀ a ∈ table.mounts, m.toMountInfo ∈ order → a.toMountInfo ∈ order →
    table.Ancestor a m → Before order m a
  stacked : ∀ upper ∈ table.mounts, ∀ lower ∈ table.mounts, upper.toMountInfo ∈ order → lower.toMountInfo ∈ order →
    table.Covers upper lower → Before order upper lower

/-- Of the selected mounts, what is mounted in, or on, another one has the larger id. -/
structure IdsGrow (table : MountTable) (selected : MountInfo → Bool) : Prop where
  nested : ∀ m ∈ table.mounts, ∀ a ∈ table.mounts, selected m.toMountInfo = true → selected a.toMountInfo = true →
    table.Ancestor a m → a.id < m.id
  stacked : ∀ upper ∈ table.mounts, ∀ lower ∈ table.mounts, selected upper.toMountInfo = true →
    selected lower.toMountInfo = true → table.Covers upper lower → lower.id < upper.id

/-! ### Descending ids -/

section Descending

variable {α : Type} {key : α → Nat} {l : List α} {x y : α}

/-- Of two members of a list one comes first. -/
theorem sublist_pair (hx : x ∈ l) (hy : y ∈ l) (hne : x ≠ y) : [x, y].Sublist l ∨ [y, x].Sublist l := by
  induction l with
  | nil => nomatch hx
  | cons z l ih =>
    rw [List.mem_cons] at hx hy
    rcases hx with rfl | hx
    · have hy := hy.resolve_left hne.symm
      exact .inl ((List.singleton_sublist.2 hy).cons_cons x)
    · rcases hy with rfl | hy
      · exact .inr ((List.singleton_sublist.2 hx).cons_cons y)
      · exact (ih hx hy).imp (List.Sublist.cons z) (List.Sublist.cons z)

/-- In a list by descending keys what comes first has the larger key. -/
theorem sublist_pair_iff (h : l.Pairwise fun a b => key b < key a) (hx : x ∈ l) (hy : y ∈ l) :
    [x, y].Sublist l ↔ key y < key x := by
  constructor
  · intro hsub
    exact List.pairwise_iff_forall_sublist.1 h hsub
  · intro hkey
    have hne : x ≠ y := by
      rintro rfl
      exact Nat.lt_irrefl _ hkey
    rcases sublist_pair hx hy hne with hsub | hsub
    · exact hsub
    · have hkey' := List.pairwise_iff_forall_sublist.1 h hsub
      omega

theorem pairwise_descending (h : (l.map key).Nodup) :
    (l.insertionSort fun a b => key b ≤ key a).Pairwise fun a b => key b < key a := by
  have htotal : Std.Total fun a b : α => key b ≤ key a := ⟨fun a b => Nat.le_total (key b) (key a)⟩
  have htrans : IsTrans α fun a b => key b ≤ key a := ⟨fun _ _ _ hab hbc => Nat.le_trans hbc hab⟩
  have hsorted := List.pairwise_insertionSort (fun a b : α => key b ≤ key a) l
  have hids := List.pairwise_map.1 (((List.perm_insertionSort (fun a b : α => key b ≤ key a) l).map key).nodup_iff.2 h)
  exact (hsorted.and hids).imp fun ⟨hle, hne⟩ => Nat.lt_of_le_of_ne hle (Ne.symm hne)

end Descending

/-! ### The two orders -/

variable {table : MountTable} {selected : MountInfo → Bool}

/-- The selected mounts by descending ids. -/
def byIds (selected : MountInfo → Bool) (infos : List MountInfo) : List MountInfo :=
  (infos.filter selected).insertionSort fun a b => b.id ≤ a.id

theorem mem_byIds {m : TableMount} (h : m ∈ table.mounts) :
    m.toMountInfo ∈ byIds selected table.infos ↔ selected m.toMountInfo = true := by
  rw [byIds, List.mem_insertionSort, List.mem_filter]
  exact and_iff_right (List.mem_map_of_mem h)

theorem before_byIds_iff {x y : TableMount} (hx : x.toMountInfo ∈ byIds selected table.infos)
    (hy : y.toMountInfo ∈ byIds selected table.infos) : Before (byIds selected table.infos) x y ↔ y.id < x.id := by
  have hids : ((table.infos.filter selected).map MountInfo.id).Nodup := by
    have hall := table.distinct
    have hsub : ((table.infos.filter selected).map MountInfo.id).Sublist (table.infos.map MountInfo.id) :=
      List.filter_sublist.map _
    apply hsub.nodup
    rw [MountTable.infos, List.map_map]
    exact hall
  exact sublist_pair_iff (pairwise_descending hids) hx hy

theorem safeOrder_iff (table : MountTable) (selected : MountInfo → Bool) :
    SafeOrder table (byIds selected table.infos) ↔ IdsGrow table selected := by
  constructor
  · intro h
    constructor
    · intro m hm a ha hselected hselected' habove
      have hm' := (mem_byIds hm).2 hselected
      have ha' := (mem_byIds ha).2 hselected'
      exact (before_byIds_iff hm' ha').1 (h.nested m hm a ha hm' ha' habove)
    · intro upper hupper lower hlower hselected hselected' hcovers
      have hu := (mem_byIds hupper).2 hselected
      have hl := (mem_byIds hlower).2 hselected'
      exact (before_byIds_iff hu hl).1 (h.stacked upper hupper lower hlower hu hl hcovers)
  · intro h
    constructor
    · intro m hm a ha hm' ha' habove
      exact (before_byIds_iff hm' ha').2 (h.nested m hm a ha ((mem_byIds hm).1 hm') ((mem_byIds ha).1 ha') habove)
    · intro upper hupper lower hlower hu hl hcovers
      exact (before_byIds_iff hu hl).2
        (h.stacked upper hupper lower hlower ((mem_byIds hupper).1 hu) ((mem_byIds hlower).1 hl) hcovers)

/-- What the loader selects. -/
def selectsTrace (info : ProcessFlags) (mounts : List MountInfo) (m : MountInfo) : Bool :=
  (mountSourceName info).any fun name => startsWith m.root "/adb/modules" || startsWith m.target "/data/adb/modules" ||
    m.source = name || kernelSuModuleSource info mounts = some m.source

theorem checkZygoteTraces_eq (info : ProcessFlags) (mounts : List MountInfo) :
    checkZygoteTraces info mounts = byIds (selectsTrace info mounts) mounts := by
  unfold checkZygoteTraces byIds selectsTrace
  cases mountSourceName info with
  | none =>
    have hnone : mounts.filter (fun _ => false) = [] := List.filter_eq_nil_iff.2 fun _ _ => Bool.false_ne_true
    show [] = List.insertionSort _ (mounts.filter fun _ => false)
    rw [hnone]
    rfl
  | some name => rfl

def modulesAt : TableMount := { id := 10, parent := 1, root := "/", target := "/data/adb/modules", source := "KSU" }

/-- A mount in the modules' directory that got the id of a mount that was gone. -/
def reusedAt : TableMount := { id := 5, parent := 10, root := "/", target := "/data/adb/modules/x", source := "KSU" }

theorem up_reused {m p : TableMount} (h : Up [modulesAt, reusedAt] m p) : m = reusedAt ∧ p = modulesAt := by
  obtain ⟨hm, hp, hparent, hne⟩ := h
  simp only [List.mem_cons, List.not_mem_nil, or_false] at hm hp
  rcases hm with rfl | rfl
  · rcases hp with rfl | rfl
    · exact absurd rfl hne
    · exact absurd hparent (by decide)
  · rcases hp with rfl | rfl
    · exact ⟨rfl, rfl⟩
    · exact absurd rfl hne

def reusedTable : MountTable where
  mounts := [modulesAt, reusedAt]
  distinct := by decide
  acyclic := by
    intro m h
    obtain ⟨p, hup, -⟩ := Relation.TransGen.head'_iff.1 h
    obtain ⟨q, -, hup'⟩ := Relation.TransGen.tail'_iff.1 h
    exact absurd ((up_reused hup).1.symm.trans (up_reused hup').2) (by decide)

theorem not_idsGrow_reused {selected : MountInfo → Bool} (hchild : selected reusedAt.toMountInfo = true)
    (hbase : selected modulesAt.toMountInfo = true) : ¬ IdsGrow reusedTable selected := by
  intro h
  have hmem : reusedAt ∈ reusedTable.mounts := List.mem_cons_of_mem _ List.mem_cons_self
  have hup : reusedTable.Ancestor modulesAt reusedAt :=
    Relation.TransGen.single ⟨hmem, List.mem_cons_self, rfl, by decide⟩
  exact absurd (h.nested reusedAt hmem modulesAt List.mem_cons_self hchild hbase hup) (by decide)

end OnyxZygisk.Loader
