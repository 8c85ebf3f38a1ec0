import OnyxZygisk.Loader.PltRestore

/-!
# The hooks of the loader

The loader hooks functions of the runtime in Zygote, lets the modules hook others, and undoes its own before it unmaps
itself. It asks for each function once, so the pages of a map come back just where no function has two slots that
were hooked (`restorePltHook_iff`): a slot that is left still leads to where the loader was.
-/

namespace OnyxZygisk.Loader

open Lsplt
open Mappings (PROT_READ)

/-- A variable that a hook leaves the function it replaced in: one of the loader's own, or one of a module. -/
inductive OldFunc
  | fork | unshare | strdup | propertyGet | reopenOrDetach | reopenOrDetachLegacy | read | pthreadAttrSetstacksize
  | ofModule (n : Nat)
deriving DecidableEq

/-- An entry of `plt_backup` -/
structure PltBackup where
  dev : Nat
  inode : Nat
  symbol : String
  oldFunc : OldFunc

/-- The regular expressions are known by the paths they match. -/
structure RegisterInfo where
  regex : String → Bool
  symbol : String
  callback : Nat
  backup : Option OldFunc

structure IgnoreInfo where
  regex : String → Bool
  symbol : String

structure HookContext where
  process : Process OldFunc
  shouldUnmap : Bool
  skipHookingUnloader : Bool
  cachedMapInfos : List MapInfo
  pltBackup : List PltBackup

namespace HookContext

/-- What the code of the loader is linked to: its own functions, the range of offsets, and its address. -/
structure Image where
  newFunc : OldFunc → Nat
  offsets : Nat
  pc : Nat

section Hooks

variable (page : Nat) (image : List AddrRange) (kernel : Nat → Answers)
  (findPltAddr : Nat → String → Option (List Nat)) (loader : Image) (c : HookContext)

def endsWith (path suffix : String) : Bool := suffix.toList.isSuffixOf path.toList

def commitHook (unhook : Bool) : HookContext × Bool :=
  let r := Lsplt.commitHook page image kernel findPltAddr loader.pc c.process c.cachedMapInfos unhook
  ({ c with process := r.1 }, r.2)

def request (dev inode : Nat) (symbol : String) (callback : Nat) (backup : Option OldFunc) : HookContext × Bool :=
  let r := Lsplt.registerHook loader.offsets c.process dev inode symbol callback backup
  ({ c with process := r.1 }, r.2)

/-- `register_hook` -/
def registerHook (dev inode : Nat) (symbol : String) (oldFunc : OldFunc) : HookContext :=
  let r := c.request loader dev inode symbol (loader.newFunc oldFunc) (some oldFunc)
  if r.2 then { r.1 with pltBackup := c.pltBackup ++ [⟨dev, inode, symbol, oldFunc⟩] } else c

def kReopenOrDetachSym : String :=
  "_ZNK18FileDescriptorInfo14ReopenOrDetachERKNSt3__18functionIFvNS0_12basic_stringIcNS0_11char_" ++
    "traitsIcEENS0_9allocatorIcEEEEEEE"

def kReopenOrDetachSymLegacy : String := "_ZNK18FileDescriptorInfo14ReopenOrDetachEv"

/-- The last map of the runtime and the first of the C library, as device and inode. -/
def findLibraries (maps : List MapInfo) : (Nat × Nat) × (Nat × Nat) :=
  maps.foldl (fun (android, libc) m =>
    if endsWith m.path "/libandroid_runtime.so" then ((m.dev, m.inode), libc)
    else if endsWith m.path "/libc.so" && libc.2 = 0 then (android, (m.dev, m.inode))
    else (android, libc)) ((0, 0), (0, 0))

/-- `hook_plt`, where `maps` are the maps that it scans. -/
def hookPlt (maps : List MapInfo) : HookContext :=
  let c := { c with cachedMapInfos := maps }
  let (android, libc) := findLibraries maps
  let c := c.registerHook loader android.1 android.2 "fork" .fork
  let c := c.registerHook loader android.1 android.2 "unshare" .unshare
  let c := c.registerHook loader android.1 android.2 "strdup" .strdup
  let c := c.registerHook loader android.1 android.2 "property_get" .propertyGet
  let c := if android.1 ≠ 0 ∧ android.2 ≠ 0 then
      (c.registerHook loader android.1 android.2 kReopenOrDetachSym .reopenOrDetach).registerHook loader
        android.1 android.2 kReopenOrDetachSymLegacy .reopenOrDetachLegacy
    else c
  let c := c.registerHook loader libc.1 libc.2 "read" .read
  let c := (c.commitHook page image kernel findPltAddr loader false).1
  { c with pltBackup := c.pltBackup.filter fun b => c.process.old b.oldFunc ≠ 0 }

def findArt (maps : List MapInfo) : Nat × Nat :=
  match maps.find? fun m => endsWith m.path "/libart.so" with
  | some m => (m.dev, m.inode)
  | none => (0, 0)

/-- `hook_unloader` -/
def hookUnloader (maps : List MapInfo) : HookContext :=
  let c := { c with cachedMapInfos := maps }
  let art := findArt maps
  let c := c.registerHook loader art.1 art.2 "pthread_attr_setstacksize" .pthreadAttrSetstacksize
  (c.commitHook page image kernel findPltAddr loader false).1

/-- The entry of a function, for the last time it was hooked. -/
def backupOf (oldFunc : OldFunc) : Option PltBackup :=
  c.pltBackup.reverse.find? fun b => c.process.old b.oldFunc = c.process.old oldFunc

def eraseLast (pltBackup : List PltBackup) (p : PltBackup → Bool) : List PltBackup :=
  (pltBackup.reverse.eraseP p).reverse

/-- `property_get` undoes itself. -/
def unhookPropertyGet : HookContext :=
  match c.backupOf .propertyGet with
  | none => c
  | some b =>
    let r := c.request loader b.dev b.inode b.symbol (c.process.old b.oldFunc) none
    if !r.2 then c
    else
      let q := r.1.commitHook page image kernel findPltAddr loader true
      if !q.2 then q.1
      else
        -- the loop made its test before the commit
        { q.1 with pltBackup := eraseLast c.pltBackup fun b => c.process.old b.oldFunc = c.process.old .propertyGet }

/-- `new_property_get`, where `maps` are the maps that `hook_unloader` scans. -/
def newPropertyGet (maps : List MapInfo) : HookContext :=
  if c.skipHookingUnloader then c
  else
    { c.hookUnloader page image kernel findPltAddr loader maps with
      skipHookingUnloader := true }.unhookPropertyGet page image kernel findPltAddr loader

/-- The requests of `restore_plt_hook`. -/
def registerRestores : List PltBackup → HookContext → HookContext
  | [], c => c
  | b :: bs, c =>
    let r := c.request loader b.dev b.inode b.symbol (c.process.old b.oldFunc) none
    registerRestores bs { r.1 with shouldUnmap := c.shouldUnmap && r.2 }

/-- `restore_plt_hook` -/
def restorePltHook : HookContext :=
  let r := (registerRestores loader c.pltBackup c).commitHook page image kernel findPltAddr loader true
  { r.1 with shouldUnmap := r.1.shouldUnmap && r.2 }

/-- The registrations of a module for the maps that its expressions match. -/
def processMap (registerInfo : List RegisterInfo) (ignoreInfo : List IgnoreInfo) (c : HookContext) (m : MapInfo) :
    HookContext :=
  if m.offset ≠ 0 || !m.isPrivate || m.perms &&& PROT_READ = 0 then c
  else
    registerInfo.foldl (fun c reg =>
      if reg.regex m.path &&
          !(ignoreInfo.any fun ign => ign.regex m.path && (ign.symbol = "" || ign.symbol = reg.symbol)) then
        (c.request loader m.dev m.inode reg.symbol reg.callback reg.backup).1
      else c) c

/-- `plt_hook_process_regex` -/
def pltHookProcessRegex (registerInfo : List RegisterInfo) (ignoreInfo : List IgnoreInfo) : HookContext :=
  c.cachedMapInfos.foldl (processMap loader registerInfo ignoreInfo) c

/-- `plt_hook_commit` of a module with these registrations. -/
def pltHookCommit (registerInfo : List RegisterInfo) (ignoreInfo : List IgnoreInfo) : HookContext × Bool :=
  (c.pltHookProcessRegex loader registerInfo ignoreInfo).commitHook page image kernel findPltAddr loader false

end Hooks

/-- A process before the loader hooks anything. -/
def initial (word : Nat → Nat) : HookContext := ⟨Process.initial word fun _ => 0, false, false, [], []⟩

/-- What happens to the hooks of a process before the loader undoes them. -/
inductive Step (page : Nat) (image : List AddrRange) (kernel : Nat → Answers)
    (findPltAddr : Nat → String → Option (List Nat)) (loader : Image) : HookContext → HookContext → Prop
  | hookPlt (c : HookContext) (maps : List MapInfo) (hscan : Scan page c.process maps) :
    Step page image kernel findPltAddr loader c (c.hookPlt page image kernel findPltAddr loader maps)
  | strdup (c : HookContext) (maps : List MapInfo) :
    Step page image kernel findPltAddr loader c { c with cachedMapInfos := maps }
  | propertyGet (c : HookContext) (maps : List MapInfo) (hscan : Scan page c.process maps)
      (hscan' : Scan page (c.hookUnloader page image kernel findPltAddr loader maps).process maps) :
    Step page image kernel findPltAddr loader c (c.newPropertyGet page image kernel findPltAddr loader maps)
  | pltHookRegister (c : HookContext) (dev inode : Nat) (symbol : String) (callback : Nat) (backup : Option OldFunc) :
    Step page image kernel findPltAddr loader c (c.request loader dev inode symbol callback backup).1
  | pltHookCommit (c : HookContext) (registerInfo : List RegisterInfo) (ignoreInfo : List IgnoreInfo)
      (hscan : Scan page c.process c.cachedMapInfos) :
    Step page image kernel findPltAddr loader c
      (c.pltHookCommit page image kernel findPltAddr loader registerInfo ignoreInfo).1
  | unmap (c : HookContext) : Step page image kernel findPltAddr loader c { c with shouldUnmap := true }

section Runs

variable {page : Nat} {image : List AddrRange} {kernel : Nat → Answers}
  {findPltAddr : Nat → String → Option (List Nat)} {loader : Image} {c : HookContext}

theorem Scan.congr {p q : Process OldFunc} {maps : List MapInfo} (h : Scan page p maps) (hinfos : q.infos = p.infos) :
    Scan page q maps := by
  refine ⟨h.apart, h.pages, ?_, ?_⟩
  · rw [hinfos]
    exact h.same
  · rw [hinfos]
    exact h.hooked

/-- The calls of the library behind a step, and the entries that it leaves. -/
structure Follows (page : Nat) (image : List AddrRange) (kernel : Nat → Answers)
    (findPltAddr : Nat → String → Option (List Nat)) (loader : Image) (c q : HookContext) : Prop where
  run : Run page image kernel findPltAddr loader.offsets loader.pc c.process q.process
  entries : (∀ b ∈ c.pltBackup, b.dev ≠ 0 ∧ b.inode ≠ 0 ∧ b.symbol ≠ "") →
    ∀ b ∈ q.pltBackup, b.dev ≠ 0 ∧ b.inode ≠ 0 ∧ b.symbol ≠ ""

theorem Follows.trans {q r : HookContext} (h : Follows page image kernel findPltAddr loader c q)
    (h' : Follows page image kernel findPltAddr loader q r) : Follows page image kernel findPltAddr loader c r :=
  ⟨h.run.trans h'.run, fun hc => h'.entries (h.entries hc)⟩

/-- Nothing but requests. -/
structure Registers (page : Nat) (image : List AddrRange) (kernel : Nat → Answers)
    (findPltAddr : Nat → String → Option (List Nat)) (loader : Image) (c q : HookContext) : Prop where
  follows : Follows page image kernel findPltAddr loader c q
  infos : q.process.infos = c.process.infos
  maps : q.cachedMapInfos = c.cachedMapInfos

theorem Registers.trans {q r : HookContext} (h : Registers page image kernel findPltAddr loader c q)
    (h' : Registers page image kernel findPltAddr loader q r) : Registers page image kernel findPltAddr loader c r :=
  ⟨h.follows.trans h'.follows, h'.infos.trans h.infos, h'.maps.trans h.maps⟩

theorem registers_refl : Registers page image kernel findPltAddr loader c c :=
  ⟨⟨Relation.ReflTransGen.refl, id⟩, rfl, rfl⟩

theorem Registers.foldl {α : Type} {f : HookContext → α → HookContext}
    (hf : ∀ q a, Registers page image kernel findPltAddr loader q (f q a)) (as : List α) :
    Registers page image kernel findPltAddr loader c (as.foldl f c) := by
  induction as generalizing c with
  | nil => exact registers_refl
  | cons a as ih => exact (hf c a).trans ih

theorem registerHook_ok {offsets : Nat} {p : Process OldFunc} {dev inode : Nat} {symbol : String} {callback : Nat}
    {backup : Option OldFunc} : (Lsplt.registerHook offsets p dev inode symbol callback backup).2 = true ↔
      dev ≠ 0 ∧ inode ≠ 0 ∧ symbol ≠ "" ∧ callback ≠ 0 := by
  unfold Lsplt.registerHook
  split_ifs with hbad
  · refine iff_of_false not_false fun h => ?_
    rcases hbad with hbad | hbad | hbad | hbad
    · exact h.1 hbad
    · exact h.2.1 hbad
    · exact h.2.2.1 hbad
    · exact h.2.2.2 hbad
  · rw [not_or, not_or, not_or] at hbad
    exact iff_of_true rfl hbad

theorem request_registers (dev inode : Nat) (symbol : String) (callback : Nat) (backup : Option OldFunc) :
    Registers page image kernel findPltAddr loader c (c.request loader dev inode symbol callback backup).1 :=
  ⟨⟨Relation.ReflTransGen.single (Lsplt.Step.register _ _ _ _ _ _), id⟩, registerHook_infos _ _ _ _ _ _ _, rfl⟩

theorem Registers.registerHook {q : HookContext} (h : Registers page image kernel findPltAddr loader c q)
    (dev inode : Nat) (symbol : String) (oldFunc : OldFunc) :
    Registers page image kernel findPltAddr loader c (q.registerHook loader dev inode symbol oldFunc) := by
  unfold HookContext.registerHook
  dsimp only
  split_ifs with hok
  · have hrequest := h.trans (request_registers dev inode symbol (loader.newFunc oldFunc) (some oldFunc))
    obtain ⟨hdev, hinode, hsymbol, -⟩ := registerHook_ok.1 hok
    refine ⟨⟨hrequest.follows.run, fun hc b hb => ?_⟩, hrequest.infos, hrequest.maps⟩
    rcases List.mem_append.1 hb with hb | hb
    · exact h.follows.entries hc b hb
    · rw [List.mem_singleton.1 hb]
      exact ⟨hdev, hinode, hsymbol⟩
  · exact h

theorem Registers.commit {q : HookContext} (h : Registers page image kernel findPltAddr loader c q)
    (hscan : Scan page c.process c.cachedMapInfos) (unhook : Bool) :
    Follows page image kernel findPltAddr loader c (q.commitHook page image kernel findPltAddr loader unhook).1 := by
  refine h.follows.trans ⟨Relation.ReflTransGen.single (Lsplt.Step.commit _ _ _ ?_), id⟩
  rw [h.maps]
  exact Scan.congr hscan h.infos

theorem hookPlt_follows {maps : List MapInfo} (hscan : Scan page c.process maps) :
    Follows page image kernel findPltAddr loader c (c.hookPlt page image kernel findPltAddr loader maps) := by
  have hstart : Registers page image kernel findPltAddr loader { c with cachedMapInfos := maps }
      { c with cachedMapInfos := maps } := registers_refl
  unfold hookPlt
  generalize findLibraries maps = libraries
  obtain ⟨android, libc⟩ := libraries
  dsimp only
  have hmandatory := (((hstart.registerHook android.1 android.2 "fork" .fork).registerHook android.1 android.2
    "unshare" .unshare).registerHook android.1 android.2 "strdup" .strdup).registerHook android.1 android.2
      "property_get" .propertyGet
  generalize HookContext.registerHook loader _ android.1 android.2 "property_get" .propertyGet = q at hmandatory ⊢
  have hdescriptors : Registers page image kernel findPltAddr loader { c with cachedMapInfos := maps }
      (if android.1 ≠ 0 ∧ android.2 ≠ 0 then
        (q.registerHook loader android.1 android.2 kReopenOrDetachSym .reopenOrDetach).registerHook loader
          android.1 android.2 kReopenOrDetachSymLegacy .reopenOrDetachLegacy
      else q) := by
    split_ifs
    · exact (hmandatory.registerHook _ _ _ _).registerHook _ _ _ _
    · exact hmandatory
  have hcommit := (hdescriptors.registerHook libc.1 libc.2 "read" .read).commit hscan false
  exact ⟨hcommit.run, fun hc b hb => hcommit.entries hc b (List.mem_filter.1 hb).1⟩

theorem hookUnloader_follows {maps : List MapInfo} (hscan : Scan page c.process maps) :
    Follows page image kernel findPltAddr loader c (c.hookUnloader page image kernel findPltAddr loader maps) ∧
      (c.hookUnloader page image kernel findPltAddr loader maps).cachedMapInfos = maps := by
  have hstart : Registers page image kernel findPltAddr loader { c with cachedMapInfos := maps }
      { c with cachedMapInfos := maps } := registers_refl
  have hrequest := hstart.registerHook (findArt maps).1 (findArt maps).2 "pthread_attr_setstacksize"
    .pthreadAttrSetstacksize
  have hcommit := hrequest.commit hscan false
  exact ⟨⟨hcommit.run, hcommit.entries⟩, hrequest.maps⟩

theorem unhookPropertyGet_follows (hscan : Scan page c.process c.cachedMapInfos) :
    Follows page image kernel findPltAddr loader c (c.unhookPropertyGet page image kernel findPltAddr loader) := by
  unfold unhookPropertyGet
  cases hb : c.backupOf .propertyGet with
  | none => exact registers_refl.follows
  | some b =>
    have hrequest : Registers page image kernel findPltAddr loader c
        (c.request loader b.dev b.inode b.symbol (c.process.old b.oldFunc) none).1 := request_registers _ _ _ _ _
    have hcommit := hrequest.commit hscan true
    dsimp only
    split_ifs
    · exact registers_refl.follows
    · exact hcommit
    · refine ⟨hcommit.run, fun hc b' hb' => ?_⟩
      have hmem : b' ∈ c.pltBackup := by
        rw [eraseLast, List.mem_reverse] at hb'
        exact List.mem_reverse.1 (List.mem_of_mem_eraseP hb')
      exact hc b' hmem

theorem newPropertyGet_follows {maps : List MapInfo} (hscan : Scan page c.process maps)
    (hscan' : Scan page (c.hookUnloader page image kernel findPltAddr loader maps).process maps) :
    Follows page image kernel findPltAddr loader c (c.newPropertyGet page image kernel findPltAddr loader maps) := by
  unfold newPropertyGet
  split_ifs
  · exact registers_refl.follows
  · obtain ⟨hunloader, hmaps⟩ : Follows page image kernel findPltAddr loader c
        (c.hookUnloader page image kernel findPltAddr loader maps) ∧ _ := hookUnloader_follows hscan
    have hskip : Follows page image kernel findPltAddr loader c
        { c.hookUnloader page image kernel findPltAddr loader maps with skipHookingUnloader := true } :=
      ⟨hunloader.run, hunloader.entries⟩
    refine hskip.trans (unhookPropertyGet_follows ?_)
    show Scan page (c.hookUnloader page image kernel findPltAddr loader maps).process
      (c.hookUnloader page image kernel findPltAddr loader maps).cachedMapInfos
    rw [hmaps]
    exact hscan'

theorem pltHookProcessRegex_registers (registerInfo : List RegisterInfo) (ignoreInfo : List IgnoreInfo) :
    Registers page image kernel findPltAddr loader c (c.pltHookProcessRegex loader registerInfo ignoreInfo) := by
  refine Registers.foldl (fun q m => ?_) c.cachedMapInfos
  unfold processMap
  split_ifs
  · exact registers_refl
  · refine Registers.foldl (fun q reg => ?_) registerInfo
    split_ifs
    · exact request_registers _ _ _ _ _
    · exact registers_refl

theorem Step.follows {q : HookContext} (h : Step page image kernel findPltAddr loader c q) :
    Follows page image kernel findPltAddr loader c q := by
  cases h with
  | hookPlt maps hscan => exact hookPlt_follows hscan
  | strdup maps => exact ⟨Relation.ReflTransGen.refl, id⟩
  | propertyGet maps hscan hscan' => exact newPropertyGet_follows hscan hscan'
  | pltHookRegister dev inode symbol callback backup => exact (request_registers _ _ _ _ _).follows
  | pltHookCommit registerInfo ignoreInfo hscan =>
    exact (pltHookProcessRegex_registers registerInfo ignoreInfo).commit hscan false
  | unmap => exact ⟨Relation.ReflTransGen.refl, id⟩

theorem steps_follow {q : HookContext} (h : Relation.ReflTransGen (Step page image kernel findPltAddr loader) c q) :
    Follows page image kernel findPltAddr loader c q := by
  induction h with
  | refl => exact registers_refl.follows
  | tail _ hstep ih => exact ih.trans hstep.follows

/-! ### Undoing them -/

/-- The request of `restore_plt_hook` for an entry. -/
def restoreRequest (offsets : Nat) (old : OldFunc → Nat) (b : PltBackup) : HookRequest OldFunc :=
  ⟨b.dev, b.inode, (0, offsets), b.symbol, old b.oldFunc, none⟩

/-- With more requests. -/
def pend (c : HookContext) (regs : List (HookRequest OldFunc)) : HookContext :=
  { c with process := { c.process with pending := c.process.pending ++ regs } }

theorem pend_pend (regs regs' : List (HookRequest OldFunc)) : (c.pend regs).pend regs' = c.pend (regs ++ regs') := by
  simp only [pend, List.append_assoc]

theorem registerRestores_eq {bs : List PltBackup}
    (h : ∀ b ∈ bs, b.dev ≠ 0 ∧ b.inode ≠ 0 ∧ b.symbol ≠ "" ∧ c.process.old b.oldFunc ≠ 0) :
    registerRestores loader bs c = c.pend (bs.map (restoreRequest loader.offsets c.process.old)) := by
  induction bs generalizing c with
  | nil =>
    simp only [pend, List.map_nil, List.append_nil]
    rfl
  | cons b bs ih =>
    obtain ⟨hdev, hinode, hsymbol, hold⟩ := h b List.mem_cons_self
    have hrequest : c.request loader b.dev b.inode b.symbol (c.process.old b.oldFunc) none =
        (c.pend [restoreRequest loader.offsets c.process.old b], true) := by
      unfold request Lsplt.registerHook
      rw [if_neg]
      · rfl
      · rintro (hbad | hbad | hbad | hbad)
        · exact hdev hbad
        · exact hinode hbad
        · exact hsymbol hbad
        · exact hold hbad
    have hsame : { c.pend [restoreRequest loader.offsets c.process.old b] with
        shouldUnmap := c.shouldUnmap && true } = c.pend [restoreRequest loader.offsets c.process.old b] := by
      rw [Bool.and_true]
      rfl
    rw [registerRestores, hrequest]
    dsimp only
    have hrest : ∀ b' ∈ bs, b'.dev ≠ 0 ∧ b'.inode ≠ 0 ∧ b'.symbol ≠ "" ∧ c.process.old b'.oldFunc ≠ 0 :=
      fun b' hb' => h b' (List.mem_cons_of_mem _ hb')
    rw [hsame]
    exact (ih (c := c.pend [restoreRequest loader.offsets c.process.old b]) hrest).trans (pend_pend _ _)

/-- How often the loader will ask for an original of a map. -/
def asksFor (c : HookContext) (i : HookInfo) (original : Nat) : Nat :=
  requestsFor c.process.pending i original + c.pltBackup.countP fun b =>
    b.dev = i.dev && b.inode = i.inode && c.process.old b.oldFunc = original

theorem requestsFor_restores (loader : Image) (i : HookInfo) (original : Nat) :
    requestsFor (c.pend (c.pltBackup.map (restoreRequest loader.offsets c.process.old))).process.pending i original =
      asksFor c i original := by
  rw [requestsFor, pend, List.filter_append, List.map_append, List.count_append, asksFor, requestsFor]
  congr 1
  rw [List.count, List.countP_map, List.countP_filter, List.countP_map]
  apply List.countP_congr
  intro b _
  simp only [Function.comp_apply, restoreRequest, HookRequest.sameFile]
  grind

end Runs

/-- A runtime that calls `strdup` through one slot and keeps its address in another. -/
def runtimeMap : MapInfo := ⟨16, 32, PROT_READ, true, 0, 1, 2, "/libandroid_runtime.so"⟩

def runtimeSlots (_ : Nat) (symbol : String) : Option (List Nat) :=
  if symbol = "fork" then some [17] else if symbol = "strdup" then some [20, 24] else some []

def runtimeWord (a : Nat) : Nat := if a = 20 ∨ a = 24 then 500 else 7 * a

def runtimeHooked : HookContext :=
  (initial runtimeWord).hookPlt 8 [runtimeMap.range] willing runtimeSlots ⟨fun _ => 1000, 100, 0⟩ [runtimeMap]

def runtimeRestored : HookContext :=
  runtimeHooked.restorePltHook 8 [runtimeMap.range] willing runtimeSlots ⟨fun _ => 1000, 100, 0⟩

end HookContext

end OnyxZygisk.Loader
