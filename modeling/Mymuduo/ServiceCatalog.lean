-- The service catalog (src/registry/ServiceCatalog.h): a map from service keys
-- to lists of shared instances. The map compares keys by the text of `key()`,
-- and an instance is an object that several lists may hold, so one call can
-- reach further than its own list.
import Mymuduo.OrderedMap
import Mymuduo.Runs
import Mymuduo.ServiceMeta

open List bytes words runs ordered_map
open Function (update update_of_ne)

namespace mymuduo.service_catalog

open service_meta

/-! ## The catalog -/

/-- An `InstancePtr`: the number of an object. -/
abbrev Ptr := Nat

/-- What the objects hold, and the lists. -/
structure Catalog where
  objects : Ptr → InstanceMeta := fun _ => {}
  catalog_ : List (ServiceKey × List Ptr) := []

namespace Catalog

def listed (s : Catalog) (n : Bytes) : List Ptr := bucket ServiceKey.key n s.catalog_

def Holds (s : Catalog) (p : Ptr) : Prop := p ∈ s.catalog_.flatMap Prod.snd

instance (s : Catalog) (p : Ptr) : Decidable (s.Holds p) :=
  inferInstanceAs (Decidable (p ∈ s.catalog_.flatMap Prod.snd))

/-- The objects of a call that hands in `p`. An object that no list holds has what the
caller has put into it. -/
def handedIn (s : Catalog) (p : Ptr) (content : InstanceMeta) : Ptr → InstanceMeta :=
  if s.Holds p then s.objects else update s.objects p content

/-- The loop of `registerInstance`: the first instance with the id gives its place to
`p`. -/
def replaceIn (objects : Ptr → InstanceMeta) (p : Ptr) : List Ptr → Option (List Ptr)
  | [] => none
  | inst :: instances =>
    if (objects inst).instanceId = (objects p).instanceId then some (p :: instances)
    else (replaceIn objects p instances).map (inst :: ·)

def registerInstance (s : Catalog) (key : ServiceKey) (p : Ptr) (content : InstanceMeta)
    (now : Int) : Catalog :=
  let objects := s.handedIn p content
  match replaceIn objects p (s.listed key.key) with
  | some instances =>
    { objects := update objects p ((objects p).heartbeat now)
      catalog_ := access ServiceKey.key key [] (fun _ => instances) s.catalog_ }
  | none => { objects, catalog_ := access ServiceKey.key key [] (· ++ [p]) s.catalog_ }

def hasId (s : Catalog) (id : Bytes) (p : Ptr) : Bool := (s.objects p).instanceId = id

def deregisterInstance (s : Catalog) (key : ServiceKey) (id : Bytes) : Bool × Catalog :=
  match get ServiceKey.key key.key s.catalog_ with
  | none => (false, s)
  | some instances =>
    if instances.any (s.hasId id) then
      (true, { s with
        catalog_ := alter ServiceKey.key key.key (fun l => keepFull (l.eraseP (s.hasId id)))
          s.catalog_ })
    else (false, s)

def heartbeat (s : Catalog) (key : ServiceKey) (id : Bytes) (now : Int) : Bool × Catalog :=
  match get ServiceKey.key key.key s.catalog_ with
  | none => (false, s)
  | some instances =>
    match instances.find? (s.hasId id) with
    | some p =>
      (true, { s with objects := update s.objects p ((s.objects p).heartbeat now) })
    | none => (false, s)

/-- Up, and not expired. -/
def healthy (now : Int) (inst : InstanceMeta) : Bool :=
  inst.status = text "UP" && !inst.isExpired now

def discover (s : Catalog) (key : ServiceKey) (now : Int) : List Ptr :=
  match get ServiceKey.key key.key s.catalog_ with
  | none => []
  | some instances => instances.filter (fun p => healthy now (s.objects p))

def down (inst : InstanceMeta) : InstanceMeta := { inst with status := text "DOWN" }

/-- The inner loop of `cleanExpiredInstances`: the objects, what is left of the list, and
how many are gone. -/
def cleanList (now : Int) :
    (Ptr → InstanceMeta) → List Ptr → (Ptr → InstanceMeta) × List Ptr × Nat
  | objects, [] => (objects, [], 0)
  | objects, p :: instances =>
    if (objects p).isExpired now then
      let rest := cleanList now (update objects p (down (objects p))) instances
      (rest.1, rest.2.1, rest.2.2 + 1)
    else
      let rest := cleanList now objects instances
      (rest.1, p :: rest.2.1, rest.2.2)

def cleanEntries (now : Int) : (Ptr → InstanceMeta) → List (ServiceKey × List Ptr) →
    (Ptr → InstanceMeta) × List (ServiceKey × List Ptr) × Nat
  | objects, [] => (objects, [], 0)
  | objects, (key, instances) :: entries =>
    let cleaned := cleanList now objects instances
    let rest := cleanEntries now cleaned.1 entries
    (rest.1, if cleaned.2.1 = [] then rest.2.1 else (key, cleaned.2.1) :: rest.2.1,
      cleaned.2.2 + rest.2.2)

/-- The count is an `int`. -/
def cleanExpiredInstances (s : Catalog) (now : Int) : Int × Catalog :=
  let cleaned := cleanEntries now s.objects s.catalog_
  (int32 cleaned.2.2, { objects := cleaned.1, catalog_ := cleaned.2.1 })

/-- Up, and expired. -/
def overdue (now : Int) (inst : InstanceMeta) : Bool :=
  inst.status = text "UP" && inst.isExpired now

/-- The loops of `markExpiredInstancesDown`, over the instances of all lists. -/
def markList (now : Int) : (Ptr → InstanceMeta) → List Ptr → (Ptr → InstanceMeta) × Nat
  | objects, [] => (objects, 0)
  | objects, p :: instances =>
    if overdue now (objects p) then
      let rest := markList now (update objects p (down (objects p))) instances
      (rest.1, rest.2 + 1)
    else markList now objects instances

def markExpiredInstancesDown (s : Catalog) (now : Int) : Int × Catalog :=
  let marked := markList now s.objects (s.catalog_.flatMap Prod.snd)
  (int32 marked.2, { s with objects := marked.1 })

/-- Every list with its key, and the instances by what they hold. -/
def getAllServices (s : Catalog) : List (ServiceKey × List InstanceMeta) :=
  s.catalog_.map (fun e => (e.1, e.2.map s.objects))

structure Stats where
  totalServices : Nat
  totalInstances : Nat
  healthyInstances : Nat
  expiredInstances : Nat
  deriving DecidableEq

/-- An instance that is not healthy counts as expired. -/
def getStats (s : Catalog) (now : Int) : Stats where
  totalServices := s.catalog_.length
  totalInstances := (s.catalog_.map (fun e => e.2.length)).sum
  healthyInstances := (s.catalog_.flatMap Prod.snd).countP (fun p => healthy now (s.objects p))
  expiredInstances := (s.catalog_.flatMap Prod.snd).countP (fun p => !healthy now (s.objects p))

end Catalog

/-! ## Calls -/

/-- A call with its reading of the clock. `registerInstance` hands in the object `p`, and
`content` is what a new object holds. -/
inductive Call
  | registerInstance (key : ServiceKey) (p : Ptr) (content : InstanceMeta) (now : Int)
  | deregisterInstance (key : ServiceKey) (id : Bytes)
  | heartbeat (key : ServiceKey) (id : Bytes) (now : Int)
  | markExpiredInstancesDown (now : Int)
  | cleanExpiredInstances (now : Int)
  | discover (key : ServiceKey) (now : Int)

/-- What a call returns. The instances are given by what they hold. -/
inductive Answer
  | success (b : Bool)
  | count (n : Int)
  | found (instances : List InstanceMeta)
  deriving DecidableEq

def Catalog.step (s : Catalog) : Call → Catalog
  | .registerInstance key p content now => s.registerInstance key p content now
  | .deregisterInstance key id => (s.deregisterInstance key id).2
  | .heartbeat key id now => (s.heartbeat key id now).2
  | .markExpiredInstancesDown now => (s.markExpiredInstancesDown now).2
  | .cleanExpiredInstances now => (s.cleanExpiredInstances now).2
  | .discover _ _ => s

def Catalog.answer (s : Catalog) : Call → Answer
  | .registerInstance _ _ _ _ => .success true
  | .deregisterInstance key id => .success (s.deregisterInstance key id).1
  | .heartbeat key id now => .success (s.heartbeat key id now).1
  | .markExpiredInstancesDown now => .count (s.markExpiredInstancesDown now).1
  | .cleanExpiredInstances now => .count (s.cleanExpiredInstances now).1
  | .discover key now => .found ((s.discover key now).map s.objects)

def Catalog.found (s : Catalog) (key : ServiceKey) (now : Int) : List (Ptr × InstanceMeta) :=
  (s.discover key now).map (fun p => (p, s.objects p))

def Call.On (key : ServiceKey) : Call → Prop
  | .registerInstance k _ _ _ => k = key
  | .deregisterInstance k _ => k = key
  | .heartbeat k _ _ => k = key
  | _ => False

/-- A registered object is held under no other text of `key()`. -/
def SharesNoObject (s : Catalog) : Call → Prop
  | .registerInstance key p _ _ => ∀ e ∈ s.catalog_, p ∈ e.2 → e.1.key = key.key
  | _ => True

namespace Catalog

variable {s : Catalog} {key : ServiceKey} {id n : Bytes} {now : Int} {p q : Ptr}
  {content : InstanceMeta}

/-! ## The loops -/

theorem discover_eq (s : Catalog) (key : ServiceKey) (now : Int) :
    s.discover key now = (s.listed key.key).filter (fun p => healthy now (s.objects p)) := by
  unfold discover listed bucket
  cases get ServiceKey.key key.key s.catalog_ <;> rfl

theorem heartbeat_eq (s : Catalog) (key : ServiceKey) (id : Bytes) (now : Int) :
    s.heartbeat key id now = match (s.listed key.key).find? (s.hasId id) with
      | some p =>
        (true, { s with objects := update s.objects p ((s.objects p).heartbeat now) })
      | none => (false, s) := by
  unfold heartbeat listed bucket
  cases get ServiceKey.key key.key s.catalog_ <;> rfl

theorem fst_deregisterInstance (s : Catalog) (key : ServiceKey) (id : Bytes) :
    (s.deregisterInstance key id).1 = (s.listed key.key).any (s.hasId id) := by
  unfold deregisterInstance listed bucket
  cases get ServiceKey.key key.key s.catalog_ with
  | none => rfl
  | some instances =>
    dsimp only [Option.getD]
    split
    · rename_i hany
      exact hany.symm
    · rename_i hany
      rw [Bool.not_eq_true] at hany
      exact hany.symm

theorem replaceIn_eq_some {objects : Ptr → InstanceMeta} {l l' : List Ptr}
    (h : replaceIn objects p l = some l') :
    ∃ front old back, l = front ++ old :: back ∧ l' = front ++ p :: back ∧
      (objects old).instanceId = (objects p).instanceId := by
  induction l generalizing l' with
  | nil => cases h
  | cons inst instances ih =>
    rw [replaceIn] at h
    split at h
    · rename_i hid
      cases h
      exact ⟨[], inst, instances, rfl, rfl, hid⟩
    · obtain ⟨l'', hl'', rfl⟩ := Option.map_eq_some_iff.mp h
      obtain ⟨front, old, back, rfl, rfl, hid⟩ := ih hl''
      exact ⟨inst :: front, old, back, rfl, rfl, hid⟩

theorem replaceIn_eq {objects : Ptr → InstanceMeta} {ids : Ptr → Bytes} {l : List Ptr}
    (hids : ∀ q ∈ l, (objects q).instanceId = ids q) (hid : (objects p).instanceId = id)
    (h : (l.map ids).Nodup) :
    replaceIn objects p l =
      if ∃ q ∈ l, ids q = id then some (l.map (fun q => if ids q = id then p else q))
      else none := by
  induction l with
  | nil => simp [replaceIn]
  | cons inst l ih =>
    obtain ⟨hinst, hl⟩ := List.nodup_cons.mp h
    obtain ⟨hfirst, hrest⟩ := forall_mem_cons.mp hids
    rw [replaceIn, hfirst, hid]
    by_cases hsame : ids inst = id
    · have hother : ∀ q ∈ l, (if ids q = id then p else q) = q := by
        intro q hq
        refine if_neg (fun heq => hinst ?_)
        rw [hsame, ← heq]
        exact mem_map_of_mem hq
      rw [if_pos hsame, if_pos ⟨inst, mem_cons_self, hsame⟩, map_cons, if_pos hsame,
        map_congr_left hother, map_id']
    · rw [if_neg hsame, ih hrest hl]
      simp only [mem_cons, exists_eq_or_imp, hsame, false_or, map_cons, if_false]
      split <;> rfl

@[simp] theorem isExpired_down (now : Int) (inst : InstanceMeta) :
    (down inst).isExpired now = inst.isExpired now := rfl

/-- What cleaning does: it changes nothing about who is expired, leaves the other objects
alone, and keeps and counts by who is expired. -/
structure Cleans (now : Int) (objects objects' : Ptr → InstanceMeta) : Prop where
  expired : ∀ q, (objects' q).isExpired now = (objects q).isExpired now
  unchanged : ∀ q, (objects q).isExpired now = false → objects' q = objects q

variable {objects objects' : Ptr → InstanceMeta}

theorem Cleans.refl (objects : Ptr → InstanceMeta) : Cleans now objects objects :=
  ⟨fun _ => rfl, fun _ _ => rfl⟩

theorem Cleans.trans {objects'' : Ptr → InstanceMeta} (h : Cleans now objects objects')
    (h' : Cleans now objects' objects'') : Cleans now objects objects'' where
  expired q := (h'.expired q).trans (h.expired q)
  unchanged q hq := (h'.unchanged q ((h.expired q).trans hq)).trans (h.unchanged q hq)

theorem cleans_down (h : (objects p).isExpired now = true) :
    Cleans now objects (update objects p (down (objects p))) where
  expired q := by
    rw [Function.update_apply]
    split
    · rename_i heq
      rw [isExpired_down, heq]
    · rfl
  unchanged q hq := by
    refine update_of_ne ?_ _ _
    rintro rfl
    rw [h] at hq
    cases hq

theorem cleanList_spec (now : Int) (objects : Ptr → InstanceMeta) (l : List Ptr) :
    Cleans now objects (cleanList now objects l).1 ∧
      (cleanList now objects l).2.1 = l.filter (fun q => !(objects q).isExpired now) ∧
      (cleanList now objects l).2.2 = (l.filter (fun q => (objects q).isExpired now)).length := by
  induction l generalizing objects with
  | nil => exact ⟨.refl objects, rfl, rfl⟩
  | cons p l ih =>
    rw [cleanList]
    split
    · rename_i hexpired
      obtain ⟨hcleans, hkept, hcount⟩ := ih (update objects p (down (objects p)))
      have hdown := cleans_down hexpired
      simp only [hdown.expired] at hkept hcount
      refine ⟨hdown.trans hcleans, ?_, ?_⟩
      · rw [hkept, filter_cons_of_neg (by simp [hexpired])]
      · rw [filter_cons, if_pos hexpired, length_cons, ← hcount]
    · rename_i hexpired
      obtain ⟨hcleans, hkept, hcount⟩ := ih objects
      refine ⟨hcleans, ?_, ?_⟩
      · rw [filter_cons_of_pos (by simp [hexpired]), ← hkept]
      · rw [hcount, filter_cons_of_neg (by simp [hexpired])]

theorem cleanEntries_spec (now : Int) (objects : Ptr → InstanceMeta)
    (entries : List (ServiceKey × List Ptr)) :
    Cleans now objects (cleanEntries now objects entries).1 ∧
      (cleanEntries now objects entries).2.1 = sweep ServiceKey.key
        (fun _ l => keepFull (l.filter (fun q => !(objects q).isExpired now))) entries ∧
      (cleanEntries now objects entries).2.2 =
        ((entries.flatMap Prod.snd).filter (fun q => (objects q).isExpired now)).length := by
  induction entries generalizing objects with
  | nil => exact ⟨.refl objects, rfl, rfl⟩
  | cons e entries ih =>
    obtain ⟨key, l⟩ := e
    obtain ⟨hlist, hkept, hcount⟩ := cleanList_spec now objects l
    obtain ⟨hrest, hentries, htotal⟩ := ih (cleanList now objects l).1
    simp only [hlist.expired] at hentries htotal
    rw [cleanEntries]
    refine ⟨hlist.trans hrest, ?_, ?_⟩
    · rw [hkept, hentries, sweep]
      unfold keepFull
      split <;> rfl
    · rw [hcount, htotal, flatMap_cons, filter_append, length_append]

/-- What marking does to an object of a list. -/
def mark (now : Int) (inst : InstanceMeta) : InstanceMeta :=
  if overdue now inst then down inst else inst

theorem markList_cons (now : Int) (objects : Ptr → InstanceMeta) (p : Ptr) (l : List Ptr) :
    markList now objects (p :: l) =
      let rest := markList now (update objects p (mark now (objects p))) l
      (rest.1, rest.2 + if overdue now (objects p) then 1 else 0) := by
  rw [markList, mark]
  split <;> simp

theorem markList_spec (now : Int) (objects : Ptr → InstanceMeta) {l : List Ptr} (hl : l.Nodup) :
    (∀ q, (markList now objects l).1 q = if q ∈ l then mark now (objects q) else objects q) ∧
      (markList now objects l).2 = (l.filter (fun q => overdue now (objects q))).length := by
  induction l generalizing objects with
  | nil => exact ⟨fun q => (if_neg not_mem_nil).symm, rfl⟩
  | cons p l ih =>
    obtain ⟨hp, hl⟩ := List.nodup_cons.mp hl
    obtain ⟨hmark, hcount⟩ := ih (update objects p (mark now (objects p))) hl
    rw [markList_cons]
    refine ⟨fun q => ?_, ?_⟩
    · rw [hmark]
      by_cases hq : q = p
      · subst hq
        simp [hp]
      · simp [hq]
    · have hsame : l.filter (fun q => overdue now
          (update objects p (mark now (objects p)) q)) =
          l.filter (fun q => overdue now (objects q)) := by
        refine filter_congr ?_
        intro q hq
        rw [update_of_ne (ne_of_mem_of_not_mem hq hp)]
      dsimp only
      rw [hcount, hsame, filter_cons]
      split <;> rfl

/-! ## Which lists a call changes -/

theorem sorted_registerInstance (h : Sorted ServiceKey.key s.catalog_) :
    Sorted ServiceKey.key (s.registerInstance key p content now).catalog_ := by
  unfold registerInstance
  dsimp only
  split <;> exact sorted_access h key [] _

theorem listed_registerInstance (h : Sorted ServiceKey.key s.catalog_) :
    (s.registerInstance key p content now).listed key.key =
      (replaceIn (s.handedIn p content) p (s.listed key.key)).getD (s.listed key.key ++ [p]) := by
  unfold registerInstance
  dsimp only
  split
  · rename_i instances hfound
    rw [hfound]
    exact bucket_access h key _
  · rename_i hnone
    rw [hnone]
    exact bucket_access h key _

theorem listed_registerInstance_of_ne (hne : n ≠ key.key) :
    (s.registerInstance key p content now).listed n = s.listed n := by
  unfold registerInstance
  dsimp only
  split <;> exact bucket_access_of_ne hne _

theorem sorted_deregisterInstance (h : Sorted ServiceKey.key s.catalog_) :
    Sorted ServiceKey.key (s.deregisterInstance key id).2.catalog_ := by
  unfold deregisterInstance
  split
  · exact h
  · split
    · exact sorted_sweep h
    · exact h

theorem listed_deregisterInstance (h : Sorted ServiceKey.key s.catalog_) (n : Bytes) :
    (s.deregisterInstance key id).2.listed n =
      if n = key.key then (s.listed n).eraseP (s.hasId id) else s.listed n := by
  unfold deregisterInstance
  split
  · rename_i hnone
    split
    · rename_i heq
      subst heq
      unfold listed bucket
      rw [hnone]
      rfl
    · rfl
  · rename_i instances hsome
    split
    · exact bucket_alter h (by rfl) n
    · rename_i hany
      split
      · rename_i heq
        subst heq
        -- no instance has the id
        have hlist : s.listed key.key = instances := by
          unfold listed bucket
          rw [hsome]
          rfl
        rw [hlist, eraseP_of_forall_not]
        intro q hq hid
        exact hany (any_eq_true.mpr ⟨q, hq, hid⟩)
      · rfl

theorem catalog_heartbeat (s : Catalog) (key : ServiceKey) (id : Bytes) (now : Int) :
    (s.heartbeat key id now).2.catalog_ = s.catalog_ := by
  rw [heartbeat_eq]
  split <;> rfl

theorem catalog_cleanExpiredInstances (s : Catalog) (now : Int) :
    (s.cleanExpiredInstances now).2.catalog_ = sweep ServiceKey.key
      (fun _ l => keepFull (l.filter (fun q => !(s.objects q).isExpired now))) s.catalog_ :=
  (cleanEntries_spec now s.objects s.catalog_).2.1

theorem listed_cleanExpiredInstances (h : Sorted ServiceKey.key s.catalog_) (n : Bytes) :
    (s.cleanExpiredInstances now).2.listed n =
      (s.listed n).filter (fun q => !(s.objects q).isExpired now) := by
  unfold listed
  rw [catalog_cleanExpiredInstances]
  exact bucket_sweep h (fun _ => rfl) n

theorem sorted_step (h : Sorted ServiceKey.key s.catalog_) (call : Call) :
    Sorted ServiceKey.key (s.step call).catalog_ := by
  cases call with
  | registerInstance key p content now => exact sorted_registerInstance h
  | deregisterInstance key id => exact sorted_deregisterInstance h
  | heartbeat key id now =>
    dsimp only [step]
    rw [catalog_heartbeat]
    exact h
  | markExpiredInstancesDown now | discover key now => exact h
  | cleanExpiredInstances now =>
    dsimp only [step]
    rw [catalog_cleanExpiredInstances]
    exact sorted_sweep h

/-- The texts of `key()` stand in order, and no object is held under two of them. -/
structure Kept (s : Catalog) : Prop where
  sorted : Sorted ServiceKey.key s.catalog_
  apart : ∀ n n' q, q ∈ s.listed n → q ∈ s.listed n' → n = n'

theorem kept_start : Kept {} :=
  ⟨List.Pairwise.nil, fun _ _ _ hq => absurd hq not_mem_nil⟩

variable {call : Call}

theorem mem_listed_step (h : Sorted ServiceKey.key s.catalog_) (hq : q ∈ (s.step call).listed n) :
    q ∈ s.listed n ∨
      ∃ key content now, call = .registerInstance key q content now ∧ n = key.key := by
  cases call with
  | registerInstance key p content now =>
    by_cases hn : n = key.key
    · subst hn
      dsimp only [step] at hq
      rw [listed_registerInstance h] at hq
      have hcases : q ∈ s.listed key.key ∨ q = p := by
        cases hreplace : replaceIn (s.handedIn p content) p (s.listed key.key) with
        | some l =>
          rw [hreplace] at hq
          obtain ⟨front, old, back, hsplit, rfl, -⟩ := replaceIn_eq_some hreplace
          rw [hsplit]
          simp only [Option.getD_some, mem_append, mem_cons] at hq ⊢
          tauto
        | none =>
          rw [hreplace] at hq
          simpa using hq
      rcases hcases with hold | rfl
      · exact Or.inl hold
      · exact Or.inr ⟨key, content, now, rfl, rfl⟩
    · dsimp only [step] at hq
      rw [listed_registerInstance_of_ne hn] at hq
      exact Or.inl hq
  | deregisterInstance key id =>
    dsimp only [step] at hq
    rw [listed_deregisterInstance h] at hq
    split at hq
    · exact Or.inl (mem_of_mem_eraseP hq)
    · exact Or.inl hq
  | heartbeat key id now =>
    dsimp only [step, listed] at hq
    rw [catalog_heartbeat] at hq
    exact Or.inl hq
  | markExpiredInstancesDown now | discover key now => exact Or.inl hq
  | cleanExpiredInstances now =>
    dsimp only [step] at hq
    rw [listed_cleanExpiredInstances h] at hq
    exact Or.inl (mem_of_mem_filter hq)

theorem key_of_listed (h : SharesNoObject s call) (hq : q ∈ s.listed n)
    (hcall : call = .registerInstance key q content now) : n = key.key := by
  subst hcall
  obtain ⟨k, l, rfl, hmem, hql⟩ := mem_bucket hq
  exact h (k, l) hmem hql

theorem kept_step (hcall : SharesNoObject s call) (h : Kept s) : Kept (s.step call) := by
  refine ⟨sorted_step h.sorted call, ?_⟩
  intro n n' q hq hq'
  rcases mem_listed_step h.sorted hq with hold | ⟨key, content, now, hcall₁, hn⟩
  · rcases mem_listed_step h.sorted hq' with hold' | ⟨key, content, now, hcall₂, hn'⟩
    · exact h.apart n n' q hold hold'
    · rw [hn', key_of_listed hcall hold hcall₂]
  · rcases mem_listed_step h.sorted hq' with hold' | ⟨key', content', now', hcall₂, hn'⟩
    · rw [hn, key_of_listed hcall hold' hcall₁]
    · rw [hcall₁] at hcall₂
      cases hcall₂
      rw [hn, hn']

/-! ## Services with different keys -/

theorem listed_step_of_ne (h : Kept s) (hon : call.On key) (hne : n ≠ key.key) :
    (s.step call).listed n = s.listed n := by
  cases call with
  | registerInstance k p content now =>
    obtain rfl : k = key := hon
    exact listed_registerInstance_of_ne hne
  | deregisterInstance k id =>
    obtain rfl : k = key := hon
    dsimp only [step]
    rw [listed_deregisterInstance h.sorted, if_neg hne]
  | heartbeat k id now =>
    dsimp only [step, listed]
    rw [catalog_heartbeat]
  | markExpiredInstancesDown now | cleanExpiredInstances now | discover k now => exact hon.elim

theorem objects_registerInstance_of_ne (hne : q ≠ p) :
    (s.registerInstance key p content now).objects q = s.objects q := by
  have hhanded : s.handedIn p content q = s.objects q := by
    unfold handedIn
    split
    · rfl
    · rw [update_of_ne hne]
  unfold registerInstance
  dsimp only
  split
  · dsimp only
    rw [update_of_ne hne, hhanded]
  · exact hhanded

/-- A call writes no object of a list with another text of `key()`. -/
theorem objects_step_of_ne (h : Kept s) (hcall : SharesNoObject s call) (hon : call.On key)
    (hne : n ≠ key.key) (hq : q ∈ s.listed n) : (s.step call).objects q = s.objects q := by
  cases call with
  | registerInstance k p content now =>
    obtain rfl : k = key := hon
    refine objects_registerInstance_of_ne ?_
    rintro rfl
    exact hne (key_of_listed hcall hq rfl)
  | deregisterInstance k id =>
    dsimp only [step]
    unfold deregisterInstance
    split
    · rfl
    · split <;> rfl
  | heartbeat k id now =>
    obtain rfl : k = key := hon
    dsimp only [step]
    rw [heartbeat_eq]
    split
    · rename_i p hfind
      refine update_of_ne ?_ _ _
      rintro rfl
      exact hne (h.apart n k.key q hq (mem_of_find?_eq_some hfind))
    · rfl
  | markExpiredInstancesDown now | cleanExpiredInstances now | discover k now => exact hon.elim

theorem found_step_of_ne (h : Kept s) (hcall : SharesNoObject s call) (hon : call.On key)
    {other : ServiceKey} (hne : other.key ≠ key.key) (now : Int) :
    (s.step call).found other now = s.found other now := by
  have hobjects : ∀ q ∈ s.listed other.key, (s.step call).objects q = s.objects q :=
    fun q hq => objects_step_of_ne h hcall hon hne hq
  have hfilter : (s.listed other.key).filter (fun p => healthy now ((s.step call).objects p)) =
      (s.listed other.key).filter (fun p => healthy now (s.objects p)) :=
    filter_congr (fun q hq => by rw [hobjects q hq])
  unfold found
  rw [discover_eq, discover_eq, listed_step_of_ne h hon hne, hfilter]
  refine map_congr_left ?_
  intro q hq
  rw [hobjects q (mem_of_mem_filter hq)]

end Catalog

/-- Calls on one key never change what `discover` finds for another key, in any run,
exactly when the texts of their `key()` differ. -/
theorem calls_leave_the_other_service_iff (key other : ServiceKey) :
    (∀ calls call now, Meets Catalog.step SharesNoObject {} calls →
        SharesNoObject (run Catalog.step {} calls) call → call.On key →
        ((run Catalog.step {} calls).step call).found other now =
          (run Catalog.step {} calls).found other now) ↔ key.key ≠ other.key := by
  constructor
  · intro h heq
    -- one registration in the empty catalog shows under both keys
    have hnone := h [] (.registerInstance key 0 {} 0) 0 trivial
      (fun e he => absurd he not_mem_nil) rfl
    have hlisted : (({} : Catalog).registerInstance key 0 {} 0).listed other.key = [0] := by
      rw [← heq, Catalog.listed_registerInstance Catalog.kept_start.sorted]
      rfl
    have hobject : (({} : Catalog).registerInstance key 0 {} 0).objects 0 = {} := by
      rw [Catalog.registerInstance]
      rfl
    have hhealthy : Catalog.healthy 0 {} = true := by decide
    dsimp only [run_nil, Catalog.step, Catalog.found] at hnone
    rw [Catalog.discover_eq, hlisted, filter_cons, hobject, if_pos hhealthy] at hnone
    exact absurd hnone (cons_ne_nil _ _)
  · intro hne calls call now hcalls hcall hon
    have hkept : (run Catalog.step {} calls).Kept :=
      invariant_run (fun _ _ hc hk => Catalog.kept_step hc hk) hcalls Catalog.kept_start
    exact Catalog.found_step_of_ne hkept hcall hon (Ne.symm hne) now

/-- Two keys with different fields and one text of `key()`: an instance registered under
the first is found under the second. -/
theorem two_keys_are_one_service :
    let key : ServiceKey := ⟨text "a:b", text "c", text "d"⟩
    let other : ServiceKey := ⟨text "a", text "b:c", text "d"⟩
    key ≠ other ∧ ({} : Catalog).found other 0 = [] ∧
      ((({} : Catalog).step (.registerInstance key 7 { instanceId := text "i" } 0)).found
        other 0).map Prod.fst = [7] := by
  decide

end mymuduo.service_catalog
