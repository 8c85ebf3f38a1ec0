import Mathlib.Data.List.Basic
import Mathlib.Logic.Function.Basic
import Mathlib.Tactic.Common

/-!
# Hooking native methods

`hook_jni_methods` replaces the pointers of a class's native methods by those of a list and leaves the old
ones in the list, so that the list is also what undoes it: called again with the list it left, the class is
as it was (`hookJniMethods_twice`), whichever methods the list names and however often. An entry that
cannot be hooked loses its pointer, and an entry without a pointer is passed over.
-/

namespace OnyxZygisk.Loader

/-- A code address; 0 is the null pointer. -/
abbrev FnPtr : Type := Nat

structure JNINativeMethod where
  name : String
  signature : String
  fnPtr : FnPtr
  deriving DecidableEq

abbrev JNIMethods : Type := List JNINativeMethod

/-- What `ToReflectedMethod` shows of a method, and the data pointer behind it. -/
structure JMethod where
  isStatic : Bool
  modifiers : BitVec 32
  data : FnPtr
  deriving DecidableEq

/-- A class, its methods by name and signature. `nativeBit` is `MODIFIER_NATIVE`. The runtime gives a native
method the address of its lookup stub until one is registered, so none is without a pointer. -/
@[ext]
structure JClass (nativeBit : BitVec 32) where
  methods : String × String → Option JMethod
  linked : ∀ key method, methods key = some method → method.modifiers &&& nativeBit ≠ 0 → method.data ≠ 0

variable {nativeBit : BitVec 32}

def JNINativeMethod.key (m : JNINativeMethod) : String × String := (m.name, m.signature)

namespace JClass

/-- `GetMethodID` -/
def getMethodId (c : JClass nativeBit) (key : String × String) : Option JMethod :=
  (c.methods key).filter fun method => !method.isStatic

/-- `GetStaticMethodID` -/
def getStaticMethodId (c : JClass nativeBit) (key : String × String) : Option JMethod :=
  (c.methods key).filter fun method => method.isStatic

/-- `RegisterNatives` for one method; it refuses a null pointer. -/
def registerNative (c : JClass nativeBit) (m : JNINativeMethod) : JClass nativeBit where
  methods := if m.fnPtr = 0 then c.methods else
    Function.update c.methods m.key ((c.methods m.key).map fun method => { method with data := m.fnPtr })
  linked := by
    intro key method hmethod hnative
    split at hmethod
    · exact c.linked key method hmethod hnative
    · rename_i hptr
      by_cases hkey : key = m.key
      · rw [hkey, Function.update_self, Option.map_eq_some_iff] at hmethod
        obtain ⟨before, -, rfl⟩ := hmethod
        exact hptr
      · rw [Function.update_of_ne hkey] at hmethod
        exact c.linked key method hmethod hnative

/-- `RegisterNatives`: the pointers in the order of the list. -/
def registerNatives (c : JClass nativeBit) (hooks : JNIMethods) : JClass nativeBit :=
  hooks.foldl registerNative c

/-- A turn of the loop over the list: what is to be hooked, and what the entry is left as. -/
def hookMethod (c : JClass nativeBit) (m : JNINativeMethod) : Option JNINativeMethod × JNINativeMethod :=
  if m.fnPtr = 0 then (none, m)
  else
    match c.getMethodId m.key <|> c.getStaticMethodId m.key with
    | none => (none, { m with fnPtr := 0 })
    | some method =>
      if method.modifiers &&& nativeBit = 0 then (none, { m with fnPtr := 0 })
      else (some m, { m with fnPtr := method.data })

def hooks (c : JClass nativeBit) (methods : JNIMethods) : JNIMethods :=
  methods.filterMap fun m => (c.hookMethod m).1

end JClass

/-- The classes that `FindClass` finds. -/
abbrev JEnv (nativeBit : BitVec 32) : Type := String → Option (JClass nativeBit)

/-- `hook_jni_methods`: the classes afterwards, and what it leaves of the list. -/
def hookJniMethods (env : JEnv nativeBit) (clz : String) (methods : JNIMethods) : JEnv nativeBit × JNIMethods :=
  match env clz with
  | none => (env, methods.map fun m => { m with fnPtr := 0 })
  | some c =>
    let left := methods.map fun m => (c.hookMethod m).2
    if c.hooks methods = [] then (env, left)
    else (Function.update env clz (some (c.registerNatives (c.hooks methods))), left)

/-! ### What is hooked -/

namespace JClass

variable {c c' : JClass nativeBit} {m : JNINativeMethod} {methods : JNIMethods} {key : String × String}

/-- The two lookups together find the method, static or not. -/
theorem lookup_eq (c : JClass nativeBit) (key : String × String) :
    (c.getMethodId key <|> c.getStaticMethodId key) = c.methods key := by
  rw [getMethodId, getStaticMethodId]
  cases h : c.methods key with
  | none => rfl
  | some method =>
    cases hstatic : method.isStatic <;> simp [Option.filter, hstatic]

/-- A native method of the class. -/
def NativeAt (c : JClass nativeBit) (key : String × String) (data : FnPtr) : Prop :=
  ∃ method, c.methods key = some method ∧ method.modifiers &&& nativeBit ≠ 0 ∧ method.data = data

theorem hookMethod_native {data : FnPtr} (hptr : m.fnPtr ≠ 0) (h : c.NativeAt m.key data) :
    c.hookMethod m = (some m, { m with fnPtr := data }) := by
  obtain ⟨method, hmethod, hnative, rfl⟩ := h
  rw [hookMethod, if_neg hptr, lookup_eq, hmethod]
  exact if_neg hnative

/-- Any other entry is left without a pointer. -/
theorem hookMethod_other (h : ∀ data, m.fnPtr ≠ 0 → ¬ c.NativeAt m.key data) :
    c.hookMethod m = (none, { m with fnPtr := 0 }) := by
  by_cases hptr : m.fnPtr = 0
  · rw [hookMethod, if_pos hptr]
    cases m
    rw [← hptr]
  · rw [hookMethod, if_neg hptr, lookup_eq]
    cases hmethod : c.methods m.key with
    | none => rfl
    | some method =>
      have hnative : method.modifiers &&& nativeBit = 0 := by
        by_contra hne
        exact h method.data hptr ⟨method, hmethod, hne, rfl⟩
      exact if_pos hnative

/-! ### Pointers only -/

/-- The two classes differ in the pointers of methods only. -/
def SameMethods (c c' : JClass nativeBit) : Prop :=
  ∀ key, (c'.methods key).map (fun method => (method.isStatic, method.modifiers)) =
    (c.methods key).map fun method => (method.isStatic, method.modifiers)

theorem registerNative_methods (c : JClass nativeBit) (hptr : m.fnPtr ≠ 0) :
    (c.registerNative m).methods =
      Function.update c.methods m.key ((c.methods m.key).map fun method => { method with data := m.fnPtr }) :=
  if_neg hptr

theorem SameMethods.registerNative (h : SameMethods c c') (m : JNINativeMethod) :
    SameMethods c (c'.registerNative m) := by
  intro key
  by_cases hptr : m.fnPtr = 0
  · have hmethods : (c'.registerNative m).methods = c'.methods := if_pos hptr
    rw [hmethods]
    exact h key
  · rw [registerNative_methods c' hptr]
    by_cases hkey : key = m.key
    · rw [hkey, Function.update_self, Option.map_map, ← h m.key]
      rfl
    · rw [Function.update_of_ne hkey]
      exact h key

theorem SameMethods.registerNatives (h : SameMethods c c') (hooks : JNIMethods) :
    SameMethods c (c'.registerNatives hooks) := by
  induction hooks generalizing c' with
  | nil => exact h
  | cons m hooks ih => exact ih (h.registerNative m)

theorem SameMethods.nativeAt {data : FnPtr} (h : SameMethods c c') (hnative : c.NativeAt key data) :
    ∃ data', c'.NativeAt key data' := by
  obtain ⟨method, hmethod, hbit, -⟩ := hnative
  have hkey := h key
  rw [hmethod, Option.map_some, Option.map_eq_some_iff] at hkey
  obtain ⟨method', hmethod', heq⟩ := hkey
  exact ⟨method'.data, method', hmethod', by rw [(Prod.mk.inj heq).2]; exact hbit, rfl⟩

/-- With its old pointer, a method is as it was. -/
theorem SameMethods.restored (h : SameMethods c c') (hnative : c.NativeAt key m.fnPtr) :
    (c'.methods key).map (fun method => { method with data := m.fnPtr }) = c.methods key := by
  obtain ⟨method, hmethod, -, hdata⟩ := hnative
  have hkey := h key
  rw [hmethod, Option.map_some, Option.map_eq_some_iff] at hkey
  obtain ⟨method', hmethod', heq⟩ := hkey
  obtain ⟨hstatic, hbit⟩ := Prod.mk.inj heq
  rw [hmethod', hmethod, Option.map_some, ← hdata]
  cases method
  cases method'
  dsimp only at hstatic hbit
  rw [hstatic, hbit]

/-- A method that no entry names keeps its pointer. -/
theorem registerNatives_of_not_mem {hooks : JNIMethods} (h : key ∉ hooks.map JNINativeMethod.key) :
    (c.registerNatives hooks).methods key = c.methods key := by
  induction hooks generalizing c with
  | nil => rfl
  | cons m hooks ih =>
    rw [List.map_cons, List.mem_cons, not_or] at h
    have hstep : (c.registerNative m).methods key = c.methods key := by
      by_cases hptr : m.fnPtr = 0
      · exact congrFun (if_pos hptr) key
      · rw [registerNative_methods c hptr, Function.update_of_ne h.1]
    exact (ih h.2).trans hstep

/-- The old pointers of all methods that may differ bring the class back, whatever the order. -/
theorem registerNatives_restore {hooks : JNIMethods} (h : SameMethods c c')
    (hkeys : ∀ key, key ∉ hooks.map JNINativeMethod.key → c'.methods key = c.methods key)
    (hnative : ∀ m ∈ hooks, c.NativeAt m.key m.fnPtr) : c'.registerNatives hooks = c := by
  induction hooks generalizing c' with
  | nil => exact JClass.ext (funext fun key => hkeys key List.not_mem_nil)
  | cons m hooks ih =>
    rw [List.forall_mem_cons] at hnative
    obtain ⟨method, hmethod, hbit, hdata⟩ := hnative.1
    have hptr : m.fnPtr ≠ 0 := hdata ▸ c.linked m.key method hmethod hbit
    apply ih (h.registerNative m) (fun key hkey => ?_) hnative.2
    rw [registerNative_methods c' hptr]
    by_cases heq : key = m.key
    · rw [heq, Function.update_self]
      exact h.restored hnative.1
    · rw [Function.update_of_ne heq]
      apply hkeys
      rw [List.map_cons, List.mem_cons, not_or]
      exact ⟨heq, hkey⟩

/-! ### The list as the call left it -/

/-- An entry with the pointer that its method has. -/
def original (c : JClass nativeBit) (m : JNINativeMethod) : JNINativeMethod :=
  { m with fnPtr := ((c.methods m.key).map JMethod.data).getD 0 }

theorem original_eq {data : FnPtr} (h : c.NativeAt m.key data) : c.original m = { m with fnPtr := data } := by
  obtain ⟨method, hmethod, -, rfl⟩ := h
  rw [original, hmethod]
  rfl

/-- What was hooked is hooked again, now with the old pointer, and nothing else is. -/
theorem hookMethod_left (h : SameMethods c c') (m : JNINativeMethod) :
    (c'.hookMethod (c.hookMethod m).2).1 = (c.hookMethod m).1.map c.original := by
  by_cases htaken : ∃ data, m.fnPtr ≠ 0 ∧ c.NativeAt m.key data
  · obtain ⟨data, hptr, hnative⟩ := htaken
    obtain ⟨data', hnative'⟩ := h.nativeAt hnative
    have hdata : data ≠ 0 := by
      obtain ⟨method, hmethod, hbit, rfl⟩ := hnative
      exact c.linked m.key method hmethod hbit
    have hagain : c'.hookMethod { m with fnPtr := data } = (some { m with fnPtr := data },
        { m with fnPtr := data' }) := hookMethod_native (m := { m with fnPtr := data }) hdata hnative'
    rw [hookMethod_native hptr hnative, hagain, Option.map_some, original_eq hnative]
  · have hother : ∀ data, m.fnPtr ≠ 0 → ¬ c.NativeAt m.key data :=
      fun data hptr hnative => htaken ⟨data, hptr, hnative⟩
    have hagain : c'.hookMethod { m with fnPtr := 0 } = (none, { m with fnPtr := 0 }) :=
      hookMethod_other (m := { m with fnPtr := 0 }) fun data hptr => absurd rfl hptr
    rw [hookMethod_other hother, hagain, Option.map_none]

theorem hooks_left (h : SameMethods c c') (methods : JNIMethods) :
    c'.hooks (methods.map fun m => (c.hookMethod m).2) = (c.hooks methods).map c.original := by
  rw [hooks, hooks, List.filterMap_map, List.map_filterMap]
  apply List.filterMap_congr
  intro m _
  exact hookMethod_left h m

theorem hooks_native (h : m ∈ c.hooks methods) : ∃ data, c.NativeAt m.key data := by
  obtain ⟨entry, -, hentry⟩ := List.mem_filterMap.1 h
  by_cases htaken : ∃ data, entry.fnPtr ≠ 0 ∧ c.NativeAt entry.key data
  · obtain ⟨data, hptr, hnative⟩ := htaken
    rw [hookMethod_native hptr hnative, Option.some.injEq] at hentry
    exact ⟨data, hentry ▸ hnative⟩
  · rw [hookMethod_other fun data hptr hnative => htaken ⟨data, hptr, hnative⟩] at hentry
    exact absurd hentry (Option.some_ne_none _).symm

/-- Registering the old pointers undoes the registration of the hooks. -/
theorem registerNatives_original (c : JClass nativeBit) (methods : JNIMethods) :
    (c.registerNatives (c.hooks methods)).registerNatives ((c.hooks methods).map c.original) = c := by
  have hsame : SameMethods c (c.registerNatives (c.hooks methods)) :=
    SameMethods.registerNatives (fun _ => rfl) _
  apply registerNatives_restore hsame
  · intro key hkey
    apply registerNatives_of_not_mem
    rw [List.map_map] at hkey
    exact hkey
  · intro m hm
    obtain ⟨hook, hhook, rfl⟩ := List.mem_map.1 hm
    obtain ⟨data, hnative⟩ := hooks_native hhook
    rw [original_eq hnative]
    exact hnative

end JClass

/-! ### Hooked twice -/

/-- Hooking a class and calling the function again with the list as it was left changes nothing, neither a
pointer of the class nor another class. -/
theorem hookJniMethods_twice (env : JEnv nativeBit) (clz : String) (methods : JNIMethods) :
    (hookJniMethods (hookJniMethods env clz methods).1 clz (hookJniMethods env clz methods).2).1 = env := by
  cases hclass : env clz with
  | none =>
    simp only [hookJniMethods, hclass]
  | some c =>
    by_cases hempty : c.hooks methods = []
    · have hagain : c.hooks (methods.map fun m => (c.hookMethod m).2) = [] := by
        rw [JClass.hooks_left (fun _ => rfl), hempty, List.map_nil]
      simp only [hookJniMethods, hclass, hempty, hagain, if_true]
    · have hagain : (c.registerNatives (c.hooks methods)).hooks (methods.map fun m => (c.hookMethod m).2) =
          (c.hooks methods).map c.original :=
        JClass.hooks_left (JClass.SameMethods.registerNatives (fun _ => rfl) _) methods
      have hne : (c.hooks methods).map c.original ≠ [] := fun h => hempty (List.map_eq_nil_iff.1 h)
      simp only [hookJniMethods, hclass, if_neg hempty, Function.update_self, hagain, if_neg hne,
        JClass.registerNatives_original, Function.update_idem]
      rw [← hclass, Function.update_eq_self]

end OnyxZygisk.Loader
