import Mathlib.Tactic.Common

/-!
# Calls into the loaded modules

A module's entry may register a table of callbacks through `RegisterModuleImpl`, which checks nothing but
that the version is not too new. `run_modules_pre` and `run_modules_post` then call through the table of
every loaded module, registered or not; only the live loader asks `valid` first (`uses_valid_iff`).
-/

namespace OnyxZygisk.Loader

/-! ### Modules -/

/-- `module_abi_v1`: pointers are addresses, 0 is null. -/
structure ModuleAbi where
  apiVersion : Int
  impl : Nat
  preAppSpecialize : Nat
  postAppSpecialize : Nat
  preServerSpecialize : Nat
  postServerSpecialize : Nat
  deriving DecidableEq

/-- The arguments of a call to `registerModule`. -/
structure RegisterCall where
  api : Bool
  module : Option ModuleAbi
  deriving DecidableEq

inductive Callback where
  | preApp
  | postApp
  | preServer
  | postServer
  deriving DecidableEq

/-- A loaded library: the calls its entry makes, and where its code leaves a Java exception pending. -/
structure Library where
  id : Int
  name : String
  registers : List RegisterCall
  entryRaises : Bool
  raises : Callback → Bool

/-- `ZygiskModule`, with the table that `mod` points to. -/
structure ZygiskModule extends Library where
  mod : Option ModuleAbi

def Library.module (lib : Library) : ZygiskModule := { lib with mod := none }

def ZYGISK_API_VERSION : Int := 5

/-- `RegisterModuleImpl`; the API pointers it fills in are left out. -/
def ZygiskModule.registerModuleImpl (m : ZygiskModule) (call : RegisterCall) : ZygiskModule × Bool :=
  match call.api, call.module with
  | true, some module =>
    if module.apiVersion > ZYGISK_API_VERSION then (m, false)
    else ({ m with mod := some module }, true)
  | _, _ => (m, false)

def ZygiskModule.onLoad (m : ZygiskModule) : ZygiskModule :=
  m.registers.foldl (fun m call => (m.registerModuleImpl call).1) m

def ZygiskModule.valid (m : ZygiskModule) : Bool :=
  match m.mod with
  | none => false
  | some abi =>
    if abi.apiVersion ∈ [5, 4, 3, 2, 1] then
      abi.impl ≠ 0 && abi.preAppSpecialize ≠ 0 && abi.postAppSpecialize ≠ 0 &&
        abi.preServerSpecialize ≠ 0 && abi.postServerSpecialize ≠ 0
    else false

def ModuleAbi.callback (abi : ModuleAbi) : Callback → Nat
  | .preApp => abi.preAppSpecialize
  | .postApp => abi.postAppSpecialize
  | .preServer => abi.preServerSpecialize
  | .postServer => abi.postServerSpecialize

/-! ### What the loader does with a module -/

/-- The argument structures. -/
inductive Args where
  | appV1
  | appV5
  | server
  deriving DecidableEq

/-- The table of a module is read, or a callback of it is called. -/
inductive Use where
  | table (m : ZygiskModule)
  | call (m : ZygiskModule) (callback : Callback) (args : Args)

def Use.module : Use → ZygiskModule
  | table m => m
  | call m _ _ => m

/-- The uses up to now; a null pointer that is followed ends the process. -/
structure Trace where
  uses : List Use
  dead : Bool

def Trace.none : Trace := ⟨[], false⟩

def Trace.andThen (t u : Trace) : Trace := if t.dead then t else ⟨t.uses ++ u.uses, u.dead⟩

def ZygiskModule.call (m : ZygiskModule) (abi : ModuleAbi) (callback : Callback) (args : Args) : Trace :=
  ⟨[.table m, .call m callback args], abi.callback callback = 0⟩

/-- `call_app`. A version without a case calls nothing. -/
def ZygiskModule.callApp (m : ZygiskModule) (callback : Callback) : Trace :=
  match m.mod with
  | none => ⟨[.table m], true⟩
  | some abi =>
    if abi.apiVersion ∈ [1, 2] then m.call abi callback .appV1
    else if abi.apiVersion ∈ [3, 4, 5] then m.call abi callback .appV5
    else ⟨[.table m], false⟩

def ZygiskModule.preAppSpecialize (m : ZygiskModule) : Trace := m.callApp .preApp

def ZygiskModule.postAppSpecialize (m : ZygiskModule) : Trace := m.callApp .postApp

/-- The server callbacks are called without a look at the version. -/
def ZygiskModule.callServer (m : ZygiskModule) (callback : Callback) : Trace :=
  match m.mod with
  | none => ⟨[.table m], true⟩
  | some abi => m.call abi callback .server

def ZygiskModule.preServerSpecialize (m : ZygiskModule) : Trace := m.callServer .preServer

def ZygiskModule.postServerSpecialize (m : ZygiskModule) : Trace := m.callServer .postServer

def POST_SPECIALIZE : BitVec 32 := 1 <<< 0

def APP_SPECIALIZE : BitVec 32 := 1 <<< 2

def SERVER_FORK_AND_SPECIALIZE : BitVec 32 := 1 <<< 3

/-- The branch on the kind of process. -/
def specializeAs (flags : BitVec 32) (app server : Trace) : Trace :=
  if flags &&& APP_SPECIALIZE ≠ 0 then app
  else if flags &&& SERVER_FORK_AND_SPECIALIZE ≠ 0 then server
  else .none

/-- The loop of `run_modules_pre` over the loaded modules, which it leaves as their entries made them. -/
def runModulesPre (flags : BitVec 32) : List ZygiskModule → Trace × List ZygiskModule
  | [] => (.none, [])
  | m :: ms =>
    let m' := m.onLoad
    let pre := specializeAs flags m'.preAppSpecialize m'.preServerSpecialize
    (pre.andThen (runModulesPre flags ms).1, m' :: (runModulesPre flags ms).2)

def postSpecialize (flags : BitVec 32) : List ZygiskModule → Trace
  | [] => .none
  | m :: ms =>
    (specializeAs flags m.postAppSpecialize m.postServerSpecialize).andThen (postSpecialize flags ms)

def runModulesPost (flags : BitVec 32) (ms : List ZygiskModule) : Trace :=
  postSpecialize (flags ||| POST_SPECIALIZE) ms

/-- A process that loads the libraries and specializes. -/
def specialize (flags : BitVec 32) (libs : List Library) : Trace :=
  let pre := runModulesPre flags (libs.map Library.module)
  pre.1.andThen (runModulesPost flags pre.2)

/-- One module in the loop of `hotplug_worker`. -/
def liveCalls (m : ZygiskModule) : Trace :=
  let m' := m.onLoad
  if m'.valid && !m'.entryRaises then
    m'.preServerSpecialize.andThen
      (if m'.raises .preServer then .none else m'.postServerSpecialize)
  else .none

/-- The loop over a reply: its modules, and whether `LoadModuleFromMemfd` can load them. -/
def hotplugReply (hotplugLoaded : List String) : List (Library × Bool) → Trace × List String
  | [] => (.none, hotplugLoaded)
  | (lib, loads) :: ms =>
    if hotplugLoaded.contains lib.name then hotplugReply hotplugLoaded ms
    else if !loads then hotplugReply hotplugLoaded ms
    else
      let rest := hotplugReply (hotplugLoaded ++ [lib.name]) ms
      ((liveCalls lib.module).andThen rest.1, rest.2)

/-- The wakeups of `hotplug_worker`, each with the reply it gets. -/
def hotplugCalls (hotplugLoaded : List String) : List (List (Library × Bool)) → Trace
  | [] => .none
  | reply :: replies =>
    let turn := hotplugReply hotplugLoaded reply
    turn.1.andThen (hotplugCalls turn.2 replies)

/-! ### Uses of valid modules -/

/-- Only valid modules were used. -/
def Trace.OnlyValid (t : Trace) : Prop := ∀ u ∈ t.uses, u.module.valid

/-- The table a call registers. -/
def RegisterCall.accepted (call : RegisterCall) : Option ModuleAbi :=
  if call.api then call.module.filter (·.apiVersion ≤ ZYGISK_API_VERSION) else none

/-- The table that the entry leaves registered. -/
def Library.registered (lib : Library) : Option ModuleAbi :=
  (lib.registers.filterMap RegisterCall.accepted).getLast?

/-- The entry registers a table with a positive version and no null pointer. -/
def Library.RegistersProperly (lib : Library) : Prop :=
  ∃ abi, lib.registered = some abi ∧ 1 ≤ abi.apiVersion ∧ abi.impl ≠ 0 ∧
    ∀ callback, abi.callback callback ≠ 0

variable {m : ZygiskModule} {lib : Library} {t u : Trace} {flags : BitVec 32}

theorem registerModuleImpl_eq (m : ZygiskModule) (call : RegisterCall) :
    (m.registerModuleImpl call).1 = { m with mod := call.accepted.or m.mod } := by
  obtain ⟨api, module⟩ := call
  cases api with
  | false => rfl
  | true =>
    cases module with
    | none => rfl
    | some abi =>
      show (if abi.apiVersion > ZYGISK_API_VERSION then (m, false)
        else ({ m with mod := some abi }, true)).1 =
        { m with mod := ((some abi).filter fun abi => abi.apiVersion ≤ ZYGISK_API_VERSION).or m.mod }
      by_cases hver : abi.apiVersion > ZYGISK_API_VERSION
      · rw [if_pos hver, Option.filter_some, if_neg]
        · rfl
        · rw [decide_eq_true_eq]
          omega
      · rw [if_neg hver, Option.filter_some, if_pos]
        · rfl
        · rw [decide_eq_true_eq]
          omega

theorem onLoad_eq (m : ZygiskModule) : m.onLoad = { m with mod := m.registered.or m.mod } := by
  have key (calls : List RegisterCall) (m : ZygiskModule) :
      calls.foldl (fun m call => (m.registerModuleImpl call).1) m =
        { m with mod := (calls.filterMap RegisterCall.accepted).getLast?.or m.mod } := by
    induction calls generalizing m with
    | nil => rfl
    | cons call calls ih =>
      rw [List.foldl_cons, ih, registerModuleImpl_eq, List.filterMap_cons]
      cases call.accepted with
      | none => rfl
      | some abi =>
        rw [List.getLast?_cons]
        cases (calls.filterMap RegisterCall.accepted).getLast? <;> rfl
  exact key m.registers m

/-- What a registered table cannot have: a version from after the current one. -/
theorem apiVersion_le_of_registered {abi : ModuleAbi} (h : lib.registered = some abi) :
    abi.apiVersion ≤ ZYGISK_API_VERSION := by
  have hmem := List.mem_of_getLast? h
  obtain ⟨call, -, hcall⟩ := List.mem_filterMap.1 hmem
  rw [RegisterCall.accepted] at hcall
  split at hcall
  · obtain ⟨-, hver⟩ := Option.filter_eq_some_iff.1 hcall
    exact of_decide_eq_true hver
  · exact absurd hcall (Option.some_ne_none abi).symm

theorem onLoad_module_mod (lib : Library) : lib.module.onLoad.mod = lib.registered := by
  rw [onLoad_eq]
  exact Option.or_none

/-- `valid` holds of a module exactly if its entry registers properly. -/
theorem valid_onLoad_iff (lib : Library) : lib.module.onLoad.valid ↔ lib.RegistersProperly := by
  rw [ZygiskModule.valid, onLoad_module_mod, Library.RegistersProperly]
  cases hreg : lib.registered with
  | none =>
    constructor
    · exact fun h => absurd h Bool.false_ne_true
    · rintro ⟨abi, habi, -⟩
      exact absurd habi (Option.some_ne_none abi).symm
  | some abi =>
    have hle := apiVersion_le_of_registered hreg
    have hcases : abi.apiVersion ∈ [5, 4, 3, 2, 1] ↔ 1 ≤ abi.apiVersion := by
      simp only [List.mem_cons, List.not_mem_nil, or_false]
      rw [ZYGISK_API_VERSION] at hle
      omega
    have hall : (∀ callback, abi.callback callback ≠ 0) ↔ abi.preAppSpecialize ≠ 0 ∧
        abi.postAppSpecialize ≠ 0 ∧ abi.preServerSpecialize ≠ 0 ∧ abi.postServerSpecialize ≠ 0 := by
      constructor
      · intro h
        exact ⟨h .preApp, h .postApp, h .preServer, h .postServer⟩
      · rintro ⟨h1, h2, h3, h4⟩ callback
        cases callback <;> assumption
    show (if abi.apiVersion ∈ [5, 4, 3, 2, 1] then _ else false) = true ↔ _
    by_cases hver : 1 ≤ abi.apiVersion
    · rw [if_pos (hcases.2 hver)]
      simp only [Bool.and_eq_true, decide_eq_true_eq, Option.some.injEq, exists_eq_left', hall, hver,
        true_and, and_assoc]
    · rw [if_neg fun h => hver (hcases.1 h)]
      constructor
      · exact fun h => absurd h Bool.false_ne_true
      · rintro ⟨abi', habi, h, -⟩
        rw [← Option.some.inj habi] at h
        exact absurd h hver

/-! ### Traces -/

theorem onlyValid_none : Trace.none.OnlyValid := fun _ h => absurd h List.not_mem_nil

theorem Trace.OnlyValid.andThen (ht : t.OnlyValid) (hu : u.OnlyValid) : (t.andThen u).OnlyValid := by
  rw [Trace.andThen]
  split
  · exact ht
  · exact List.forall_mem_append.2 ⟨ht, hu⟩

theorem onlyValid_of_andThen (h : (t.andThen u).OnlyValid) : t.OnlyValid := by
  rw [Trace.andThen] at h
  split at h
  · exact h
  · exact (List.forall_mem_append.1 h).1

theorem onlyValid_of_andThen_alive (h : (t.andThen u).OnlyValid) (ht : t.dead = false) :
    u.OnlyValid := by
  rw [Trace.andThen, ht] at h
  exact (List.forall_mem_append.1 h).2

/-- A trace of uses of one module, the first of them of its table. -/
structure UsesOf (m : ZygiskModule) (t : Trace) : Prop where
  only : ∀ u ∈ t.uses, u.module = m
  table : .table m ∈ t.uses
  alive : m.valid → t.dead = false

theorem usesOf_call {abi : ModuleAbi} (hmod : m.mod = some abi) (callback : Callback) (args : Args) :
    UsesOf m (m.call abi callback args) := by
  refine ⟨?_, List.mem_cons_self, ?_⟩
  · intro u hu
    obtain rfl | hu := List.mem_cons.1 hu
    · rfl
    · rw [List.mem_singleton.1 hu]
      rfl
  · intro hvalid
    apply decide_eq_false
    rw [ZygiskModule.valid, hmod] at hvalid
    dsimp only at hvalid
    split at hvalid
    · simp only [Bool.and_eq_true, decide_eq_true_eq] at hvalid
      obtain ⟨⟨⟨⟨-, h1⟩, h2⟩, h3⟩, h4⟩ := hvalid
      cases callback <;> assumption
    · exact absurd hvalid Bool.false_ne_true

theorem not_valid_of_mod_none (h : m.mod = none) : ¬ m.valid := by
  rw [ZygiskModule.valid, h]
  exact Bool.false_ne_true

theorem usesOf_table {dead : Bool} (h : m.valid → dead = false) : UsesOf m ⟨[.table m], dead⟩ := by
  refine ⟨?_, List.mem_cons_self, h⟩
  intro u hu
  rw [List.mem_singleton.1 hu]
  rfl

theorem usesOf_callApp (m : ZygiskModule) (callback : Callback) : UsesOf m (m.callApp callback) := by
  rw [ZygiskModule.callApp]
  cases hmod : m.mod with
  | none => exact usesOf_table fun hvalid => absurd hvalid (not_valid_of_mod_none hmod)
  | some abi =>
    dsimp only
    split
    · exact usesOf_call hmod _ _
    · split
      · exact usesOf_call hmod _ _
      · exact usesOf_table fun _ => rfl

theorem usesOf_callServer (m : ZygiskModule) (callback : Callback) :
    UsesOf m (m.callServer callback) := by
  rw [ZygiskModule.callServer]
  cases hmod : m.mod with
  | none => exact usesOf_table fun hvalid => absurd hvalid (not_valid_of_mod_none hmod)
  | some abi => exact usesOf_call hmod _ _

theorem UsesOf.onlyValid (h : UsesOf m t) (hvalid : m.valid) : t.OnlyValid := by
  intro u hu
  rw [h.only u hu]
  exact hvalid

theorem UsesOf.valid (h : UsesOf m t) (ht : t.OnlyValid) : m.valid := ht (.table m) h.table

/-! ### Specialization -/

/-- A process that specializes as an app or as system_server. -/
def Specializes (flags : BitVec 32) : Prop :=
  flags &&& APP_SPECIALIZE ≠ 0 ∨ flags &&& SERVER_FORK_AND_SPECIALIZE ≠ 0

/-- The call made for a module, before or after specialization. -/
theorem usesOf_specializeAs (hflags : Specializes flags) (m : ZygiskModule) (app server : Callback) :
    UsesOf m (specializeAs flags (m.callApp app) (m.callServer server)) := by
  rw [specializeAs]
  by_cases happ : flags &&& APP_SPECIALIZE ≠ 0
  · rw [if_pos happ]
    exact usesOf_callApp m app
  · rw [if_neg happ, if_pos (hflags.resolve_left happ)]
    exact usesOf_callServer m server

theorem specializeAs_none (hflags : ¬ Specializes flags) (app server : Trace) :
    specializeAs flags app server = .none := by
  rw [Specializes, not_or] at hflags
  rw [specializeAs, if_neg hflags.1, if_neg hflags.2]

theorem specializes_post_iff : Specializes (flags ||| POST_SPECIALIZE) ↔ Specializes flags := by
  have hand (mask : BitVec 32) (hmask : POST_SPECIALIZE &&& mask = 0) :
      (flags ||| POST_SPECIALIZE) &&& mask = flags &&& mask := by
    rw [BitVec.and_comm, BitVec.and_or_distrib_left, BitVec.and_comm mask POST_SPECIALIZE, hmask,
      BitVec.and_comm mask]
    exact BitVec.or_zero
  rw [Specializes, Specializes, hand _ (by decide), hand _ (by decide)]

theorem runModulesPre_snd (flags : BitVec 32) (ms : List ZygiskModule) :
    (runModulesPre flags ms).2 = ms.map ZygiskModule.onLoad := by
  induction ms with
  | nil => rfl
  | cons m ms ih => exact congrArg (m.onLoad :: ·) ih

/-- The first calls find out every module. -/
theorem onlyValid_runModulesPre_iff (hflags : Specializes flags) (ms : List ZygiskModule) :
    (runModulesPre flags ms).1.OnlyValid ↔ ∀ m ∈ ms, m.onLoad.valid := by
  induction ms with
  | nil => exact ⟨fun _ m hm => absurd hm List.not_mem_nil, fun _ => onlyValid_none⟩
  | cons m ms ih =>
    have huses := usesOf_specializeAs hflags m.onLoad .preApp .preServer
    rw [List.forall_mem_cons, ← ih]
    constructor
    · intro h
      have hvalid := huses.valid (onlyValid_of_andThen h)
      exact ⟨hvalid, onlyValid_of_andThen_alive h (huses.alive hvalid)⟩
    · rintro ⟨hvalid, hrest⟩
      exact (huses.onlyValid hvalid).andThen hrest

theorem onlyValid_postSpecialize (hflags : Specializes flags) {ms : List ZygiskModule}
    (h : ∀ m ∈ ms, m.valid) : (postSpecialize flags ms).OnlyValid := by
  induction ms with
  | nil => exact onlyValid_none
  | cons m ms ih =>
    rw [List.forall_mem_cons] at h
    exact ((usesOf_specializeAs hflags m .postApp .postServer).onlyValid h.1).andThen (ih h.2)

theorem specialize_none (hflags : ¬ Specializes flags) (libs : List Library) :
    (specialize flags libs).OnlyValid := by
  have hpre (ms : List ZygiskModule) : (runModulesPre flags ms).1.OnlyValid := by
    induction ms with
    | nil => exact onlyValid_none
    | cons m ms ih =>
      apply Trace.OnlyValid.andThen _ ih
      rw [specializeAs_none hflags]
      exact onlyValid_none
  have hpost (ms : List ZygiskModule) : (runModulesPost flags ms).OnlyValid := by
    rw [runModulesPost]
    induction ms with
    | nil => exact onlyValid_none
    | cons m ms ih =>
      apply Trace.OnlyValid.andThen _ ih
      rw [specializeAs_none (mt specializes_post_iff.1 hflags)]
      exact onlyValid_none
  exact (hpre _).andThen (hpost _)

/-! ### The live loader -/

theorem onlyValid_liveCalls (m : ZygiskModule) : (liveCalls m).OnlyValid := by
  rw [liveCalls]
  by_cases hvalid : m.onLoad.valid
  · have hpre := (usesOf_callServer m.onLoad .preServer).onlyValid hvalid
    have hpost := (usesOf_callServer m.onLoad .postServer).onlyValid hvalid
    split
    · apply hpre.andThen
      split
      · exact onlyValid_none
      · exact hpost
    · exact onlyValid_none
  · rw [if_neg]
    · exact onlyValid_none
    · rw [Bool.and_eq_true]
      exact fun h => hvalid h.1

theorem onlyValid_hotplugReply (loaded : List String) (reply : List (Library × Bool)) :
    (hotplugReply loaded reply).1.OnlyValid := by
  induction reply generalizing loaded with
  | nil => exact onlyValid_none
  | cons entry ms ih =>
    obtain ⟨lib, loads⟩ := entry
    rw [hotplugReply]
    split
    · exact ih loaded
    · split
      · exact ih loaded
      · exact (onlyValid_liveCalls lib.module).andThen (ih _)

/-- The live loader uses valid modules only, whatever it is woken up for. -/
theorem onlyValid_hotplugCalls (loaded : List String) (replies : List (List (Library × Bool))) :
    (hotplugCalls loaded replies).OnlyValid := by
  induction replies generalizing loaded with
  | nil => exact onlyValid_none
  | cons reply replies ih => exact (onlyValid_hotplugReply loaded reply).andThen (ih _)

/-! ### All uses -/

/-- A process uses valid modules only if it does not specialize, or each of its modules registers properly:
nobody else asks `valid`. The live loader does ask. -/
theorem uses_valid_iff (flags : BitVec 32) (libs : List Library) (loaded : List String)
    (replies : List (List (Library × Bool))) :
    ((specialize flags libs).OnlyValid ∧ (hotplugCalls loaded replies).OnlyValid) ↔
      (Specializes flags → ∀ lib ∈ libs, lib.RegistersProperly) := by
  have hmodules : (∀ m ∈ libs.map Library.module, m.onLoad.valid) ↔
      ∀ lib ∈ libs, lib.RegistersProperly := by
    rw [List.forall_mem_map]
    exact forall_congr' fun lib => imp_congr_right fun _ => valid_onLoad_iff lib
  constructor
  · rintro ⟨h, -⟩ hflags
    rw [← hmodules, ← onlyValid_runModulesPre_iff hflags]
    exact onlyValid_of_andThen h
  · intro h
    refine ⟨?_, onlyValid_hotplugCalls loaded replies⟩
    by_cases hflags : Specializes flags
    · have hvalid := hmodules.2 (h hflags)
      apply ((onlyValid_runModulesPre_iff hflags _).2 hvalid).andThen
      rw [runModulesPre_snd]
      exact onlyValid_postSpecialize (specializes_post_iff.2 hflags) (List.forall_mem_map.2 hvalid)
    · exact specialize_none hflags libs

/-- The second of two modules has an entry that registers nothing. -/
theorem specialize_unregistered :
    ¬ (specialize APP_SPECIALIZE [⟨0, "a", [⟨true, some ⟨5, 1, 1, 1, 1, 1⟩⟩], false, fun _ => false⟩,
      ⟨1, "b", [], false, fun _ => false⟩]).OnlyValid := by
  intro h
  have hsecond := h (.table ⟨⟨1, "b", [], false, fun _ => false⟩, none⟩)
    (List.mem_cons_of_mem _ (List.mem_cons_of_mem _ List.mem_cons_self))
  exact absurd hsecond (by decide)

end OnyxZygisk.Loader
