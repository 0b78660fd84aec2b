-- The catalog of services against what it is for: a directory that has a list of
-- instances under each text of `key()`. Where every registration brings an object
-- of its own, sharing cannot be seen, and the catalog answers as the directory.
import Mathlib.Data.Set.Card
import Mymuduo.ServiceCatalog

open List bytes words runs ordered_map
open Function (update update_self update_of_ne)

namespace mymuduo.service_catalog

open service_meta

/-- A registered object is held by no list. -/
def HandsInNew (s : Catalog) : Call → Prop
  | .registerInstance _ p _ _ => ¬ s.Holds p
  | _ => True

instance (s : Catalog) : ∀ call, Decidable (HandsInNew s call)
  | .registerInstance _ p _ _ => inferInstanceAs (Decidable (¬ s.Holds p))
  | .deregisterInstance _ _ => isTrue trivial
  | .heartbeat _ _ _ => isTrue trivial
  | .markExpiredInstancesDown _ => isTrue trivial
  | .cleanExpiredInstances _ => isTrue trivial
  | .discover _ _ => isTrue trivial

/-! ## The directory -/

/-- What the catalog is for: under each text of `key()` a list of instances, in the order in
which they came. -/
abbrev Directory := Bytes → List InstanceMeta

namespace Directory

/-- The instance with a heartbeat of this moment. -/
def refreshed (now : Int) (i : InstanceMeta) : InstanceMeta :=
  { i with lastHeartbeatMs := now, status := text "UP" }

/-- More milliseconds than the TTL have gone by since the last heartbeat: those of the TTL as
an `int`, and those that have gone by as an `int64_t`. -/
def expired (now : Int) (i : InstanceMeta) : Bool :=
  int32 (i.ttlSeconds * 1000) < int64 (now - i.lastHeartbeatMs)

def up (i : InstanceMeta) : Bool := i.status = text "UP"

/-- The instance under an id that is there is replaced in its place and gets a heartbeat; a
new id comes last. -/
def registered (content : InstanceMeta) (now : Int) (l : List InstanceMeta) : List InstanceMeta :=
  if ∃ i ∈ l, i.instanceId = content.instanceId then
    l.map (fun i => if i.instanceId = content.instanceId then refreshed now content else i)
  else l ++ [content]

def step (d : Directory) : Call → Directory
  | .registerInstance key _ content now =>
    update d key.key (registered content now (d key.key))
  | .deregisterInstance key id =>
    update d key.key ((d key.key).filter (fun i => i.instanceId ≠ id))
  | .heartbeat key id now =>
    update d key.key
      ((d key.key).map (fun i => if i.instanceId = id then refreshed now i else i))
  | .markExpiredInstancesDown now => fun n =>
    (d n).map (fun i => if up i && expired now i then { i with status := text "DOWN" } else i)
  | .cleanExpiredInstances now => fun n => (d n).filter (fun i => !expired now i)
  | .discover _ _ => d

/-- How many instances, by key and id, have the property. -/
noncomputable def number (d : Directory) (p : InstanceMeta → Bool) : Nat :=
  Set.ncard {x : Bytes × Bytes | ∃ i ∈ d x.1, i.instanceId = x.2 ∧ p i}

noncomputable def answer (d : Directory) : Call → Answer
  | .registerInstance _ _ _ _ => .success true
  | .deregisterInstance key id => .success ((d key.key).any (fun i => i.instanceId = id))
  | .heartbeat key id _ => .success ((d key.key).any (fun i => i.instanceId = id))
  | .markExpiredInstancesDown now => .count (int32 (d.number (fun i => up i && expired now i)))
  | .cleanExpiredInstances now => .count (int32 (d.number (expired now)))
  | .discover key now => .found ((d key.key).filter (fun i => up i && !expired now i))

def NoTwins (d : Directory) : Prop := ∀ n, ((d n).map InstanceMeta.instanceId).Nodup

theorem map_instanceId_map {f : InstanceMeta → InstanceMeta}
    (hf : ∀ i, (f i).instanceId = i.instanceId) (l : List InstanceMeta) :
    (l.map f).map InstanceMeta.instanceId = l.map InstanceMeta.instanceId := by
  rw [map_map]
  exact map_congr_left (fun i _ => hf i)

variable {l : List InstanceMeta}

theorem nodup_registered {content : InstanceMeta} {now : Int}
    (h : (l.map InstanceMeta.instanceId).Nodup) :
    ((registered content now l).map InstanceMeta.instanceId).Nodup := by
  unfold registered
  split
  · rw [map_instanceId_map]
    · exact h
    · intro i
      split
      · rename_i hid
        exact hid.symm
      · rfl
  · rename_i hnew
    rw [map_append, nodup_append]
    refine ⟨h, nodup_singleton _, ?_⟩
    rintro id hid id' hid' rfl
    obtain ⟨i, hi, rfl⟩ := mem_map.mp hid
    exact hnew ⟨i, hi, by simpa using hid'⟩

theorem nodup_filter {p : InstanceMeta → Bool} (h : (l.map InstanceMeta.instanceId).Nodup) :
    ((l.filter p).map InstanceMeta.instanceId).Nodup :=
  (filter_sublist.map InstanceMeta.instanceId).nodup h

theorem noTwins_update {d : Directory} (h : d.NoTwins) {n : Bytes}
    (hl : (l.map InstanceMeta.instanceId).Nodup) : NoTwins (update d n l) := by
  intro n'
  rw [Function.update_apply]
  split
  · exact hl
  · exact h n'

theorem noTwins_step {d : Directory} (h : d.NoTwins) (call : Call) : (d.step call).NoTwins := by
  cases call with
  | registerInstance key p content now => exact noTwins_update h (nodup_registered (h key.key))
  | deregisterInstance key id => exact noTwins_update h (nodup_filter (h key.key))
  | heartbeat key id now =>
    refine noTwins_update h ?_
    rw [map_instanceId_map]
    · exact h key.key
    · intro i
      split <;> rfl
  | markExpiredInstancesDown now =>
    intro n
    dsimp only [step]
    rw [map_instanceId_map]
    · exact h n
    · intro i
      split <;> rfl
  | cleanExpiredInstances now => exact fun n => nodup_filter (h n)
  | discover key now => exact h

end Directory

/-! ## The catalog is a directory -/

namespace Catalog

variable {s : Catalog} {key : ServiceKey} {id n : Bytes} {now : Int} {p q : Ptr}
  {content : InstanceMeta}

theorem heartbeat_eq_refreshed (i : InstanceMeta) :
    i.heartbeat now = Directory.refreshed now i := rfl

theorem isExpired_eq_expired : InstanceMeta.isExpired now = Directory.expired now := rfl

theorem overdue_eq : overdue now = fun i => Directory.up i && Directory.expired now i := rfl

/-- The directory that the lists stand for. -/
def view (s : Catalog) : Directory := fun n => (s.listed n).map s.objects

structure Sound (s : Catalog) : Prop extends Kept s where
  full : Full s.catalog_
  noTwins : s.view.NoTwins

theorem sound_start : Sound {} :=
  ⟨kept_start, fun _ he => absurd he not_mem_nil, fun _ => nodup_nil⟩

theorem Sound.ids (h : Sound s) (n : Bytes) :
    ((s.listed n).map (fun q => (s.objects q).instanceId)).Nodup := by
  have hview := h.noTwins n
  unfold view at hview
  rwa [map_map] at hview

theorem Sound.eq_of_id (h : Sound s) (hp : p ∈ s.listed n) (hq : q ∈ s.listed n)
    (hid : (s.objects p).instanceId = (s.objects q).instanceId) : p = q :=
  inj_on_of_nodup_map (h.ids n) hp hq hid

theorem holds_of_listed (h : q ∈ s.listed n) : s.Holds q := by
  obtain ⟨k, l, -, hmem, hq⟩ := mem_bucket h
  exact mem_flatMap.mpr ⟨(k, l), hmem, hq⟩

theorem listed_of_mem (h : Sorted ServiceKey.key s.catalog_) {k : ServiceKey} {l : List Ptr}
    (he : (k, l) ∈ s.catalog_) : s.listed k.key = l := bucket_of_mem h he

theorem listed_of_holds (h : Sorted ServiceKey.key s.catalog_) (hq : s.Holds q) :
    ∃ n, q ∈ s.listed n := by
  obtain ⟨⟨k, l⟩, hmem, hq⟩ := mem_flatMap.mp hq
  exact ⟨k.key, (listed_of_mem h hmem).symm ▸ hq⟩

variable {call : Call}

/-- The only object that a call brings into the catalog is the one it registers. -/
theorem holds_step (h : Sorted ServiceKey.key s.catalog_) (hq : (s.step call).Holds q) :
    s.Holds q ∨ ∃ key content now, call = .registerInstance key q content now := by
  obtain ⟨n, hn⟩ := listed_of_holds (sorted_step h call) hq
  rcases mem_listed_step h hn with hold | ⟨key, content, now, heq, -⟩
  · exact Or.inl (holds_of_listed hold)
  · exact Or.inr ⟨key, content, now, heq⟩

theorem Sound.nodup (h : Sound s) : (s.catalog_.flatMap Prod.snd).Nodup := by
  refine nodup_flatMap.mpr ⟨?_, ?_⟩
  · rintro ⟨k, l⟩ he
    have hids := h.ids k.key
    rw [listed_of_mem h.sorted he] at hids
    exact hids.of_map _
  · refine h.sorted.imp_of_mem ?_
    rintro ⟨k, l⟩ ⟨k', l'⟩ he he' hlt q hq hq'
    rw [← listed_of_mem h.sorted he] at hq
    rw [← listed_of_mem h.sorted he'] at hq'
    rw [h.apart _ _ _ hq hq'] at hlt
    exact Std.Irrefl.irrefl _ hlt

theorem sharesNoObject_of_new (h : HandsInNew s call) : SharesNoObject s call := by
  cases call with
  | registerInstance key p content now =>
    intro e he hp
    exact absurd (mem_flatMap.mpr ⟨e, he, hp⟩) h
  | _ => trivial

theorem full_step (h : Full s.catalog_) (call : Call) : Full (s.step call).catalog_ := by
  cases call with
  | registerInstance key p content now =>
    dsimp only [step]
    unfold registerInstance
    dsimp only
    split
    · rename_i instances hreplace
      obtain ⟨front, old, back, -, rfl, -⟩ := replaceIn_eq_some hreplace
      exact full_access h key (by simp)
    · exact full_access h key (by simp)
  | deregisterInstance key id =>
    dsimp only [step]
    unfold deregisterInstance
    split
    · exact h
    · split
      · exact full_alter h _ _
      · exact h
  | heartbeat key id now =>
    dsimp only [step]
    rw [catalog_heartbeat]
    exact h
  | markExpiredInstancesDown now | discover key now => exact h
  | cleanExpiredInstances now =>
    dsimp only [step]
    rw [catalog_cleanExpiredInstances]
    exact full_sweep

/-! ### One call -/

theorem view_eq_of_objects {s' : Catalog} (hlisted : s'.listed n = s.listed n)
    (hobjects : ∀ q ∈ s.listed n, s'.objects q = s.objects q) : s'.view n = s.view n := by
  unfold view
  rw [hlisted]
  exact map_congr_left hobjects

theorem ne_of_listed (hnew : ¬ s.Holds p) (hq : q ∈ s.listed n) : q ≠ p := by
  rintro rfl
  exact hnew (holds_of_listed hq)

theorem view_registerInstance (h : Sound s) (hnew : ¬ s.Holds p) :
    (s.registerInstance key p content now).view =
      s.view.step (.registerInstance key p content now) := by
  have hother : ∀ n, ∀ q ∈ s.listed n,
      (s.registerInstance key p content now).objects q = s.objects q :=
    fun n q hq => objects_registerInstance_of_ne (ne_of_listed hnew hq)
  funext n
  dsimp only [Directory.step]
  by_cases hn : n = key.key
  · subst hn
    have hhanded : s.handedIn p content = update s.objects p content := if_neg hnew
    have hself : s.handedIn p content p = content := by rw [hhanded, update_self]
    have hreplace : replaceIn (s.handedIn p content) p (s.listed key.key) = _ := replaceIn_eq
      (fun q hq => by rw [hhanded, update_of_ne (ne_of_listed hnew hq)])
      (congrArg InstanceMeta.instanceId hself) (h.ids key.key)
    rw [update_self]
    unfold Directory.registered view
    rw [listed_registerInstance h.sorted, hreplace]
    simp only [mem_map, exists_exists_and_eq_and]
    split
    · rename_i hold
      have hbeat : (s.registerInstance key p content now).objects p =
          Directory.refreshed now content := by
        unfold registerInstance
        dsimp only
        rw [hreplace, if_pos hold]
        dsimp only
        rw [update_self, hself, heartbeat_eq_refreshed]
      rw [Option.getD_some, map_map, map_map]
      refine map_congr_left (fun q hq => ?_)
      dsimp only [Function.comp]
      split
      · exact hbeat
      · exact hother _ q hq
    · rename_i hnone
      have hlast : (s.registerInstance key p content now).objects p = content := by
        unfold registerInstance
        dsimp only
        rw [hreplace, if_neg hnone]
        exact hself
      rw [Option.getD_none, map_append, map_singleton, hlast, map_congr_left (hother _)]
  · rw [update_of_ne hn]
    exact view_eq_of_objects (listed_registerInstance_of_ne hn) (hother n)

theorem eraseP_eq_filter {α β : Type*} [DecidableEq β] {f : α → β} {l : List α} {x : β}
    (h : (l.map f).Nodup) :
    l.eraseP (fun a => decide (f a = x)) = l.filter (fun a => decide (f a ≠ x)) := by
  induction l with
  | nil => rfl
  | cons a l ih =>
    obtain ⟨ha, hl⟩ := List.nodup_cons.mp h
    by_cases hax : f a = x
    · subst hax
      rw [eraseP_cons_of_pos (by simp), filter_cons_of_neg (by simp)]
      refine (filter_eq_self.mpr ?_).symm
      intro b hb
      have hne : f b ≠ f a := fun heq => ha (heq ▸ mem_map_of_mem hb)
      simp [hne]
    · rw [eraseP_cons_of_neg (by simp [hax]), filter_cons_of_pos (by simp [hax]), ih hl]

theorem objects_deregisterInstance : (s.deregisterInstance key id).2.objects = s.objects := by
  unfold deregisterInstance
  split
  · rfl
  · split <;> rfl

theorem view_deregisterInstance (h : Sound s) :
    (s.deregisterInstance key id).2.view = s.view.step (.deregisterInstance key id) := by
  funext n
  dsimp only [Directory.step, view]
  rw [listed_deregisterInstance h.sorted, objects_deregisterInstance]
  by_cases hn : n = key.key
  · subst hn
    rw [if_pos rfl, update_self, filter_map]
    exact congrArg _ (eraseP_eq_filter (h.ids key.key))
  · rw [if_neg hn, update_of_ne hn]
    rfl

theorem view_heartbeat (h : Sound s) :
    (s.heartbeat key id now).2.view = s.view.step (.heartbeat key id now) := by
  funext n
  dsimp only [Directory.step]
  rw [heartbeat_eq]
  by_cases hn : n = key.key
  · subst hn
    rw [update_self]
    unfold view
    rw [map_map]
    split
    · rename_i p hfind
      have hp := mem_of_find?_eq_some hfind
      have hpid : (s.objects p).instanceId = id := by simpa [hasId] using find?_some hfind
      refine map_congr_left ?_
      intro q hq
      dsimp only [Function.comp]
      by_cases hqp : q = p
      · subst hqp
        rw [update_self, if_pos hpid, heartbeat_eq_refreshed]
      · rw [update_of_ne hqp, if_neg]
        intro hqid
        exact hqp (h.eq_of_id hq hp (hqid.trans hpid.symm))
    · rename_i hfind
      refine map_congr_left ?_
      intro q hq
      have hqid : ¬ (s.objects q).instanceId = id := by
        simpa [hasId] using find?_eq_none.mp hfind q hq
      exact (if_neg hqid).symm
  · rw [update_of_ne hn]
    split
    · rename_i p hfind
      refine view_eq_of_objects rfl ?_
      intro q hq
      refine update_of_ne ?_ _ _
      rintro rfl
      exact hn (h.apart _ _ _ hq (mem_of_find?_eq_some hfind))
    · rfl

theorem view_markExpiredInstancesDown (h : Sound s) :
    (s.markExpiredInstancesDown now).2.view = s.view.step (.markExpiredInstancesDown now) := by
  funext n
  dsimp only [Directory.step, view]
  rw [map_map]
  refine map_congr_left ?_
  intro q hq
  exact ((markList_spec now s.objects h.nodup).1 q).trans (if_pos (holds_of_listed hq))

theorem view_cleanExpiredInstances (h : Sound s) :
    (s.cleanExpiredInstances now).2.view = s.view.step (.cleanExpiredInstances now) := by
  funext n
  dsimp only [Directory.step, view]
  rw [listed_cleanExpiredInstances h.sorted, filter_map]
  refine map_congr_left ?_
  intro q hq
  have hfresh := of_mem_filter hq
  rw [Bool.not_eq_true'] at hfresh
  exact (cleanEntries_spec now s.objects s.catalog_).1.unchanged q hfresh

theorem view_step (h : Sound s) (hcall : HandsInNew s call) :
    (s.step call).view = s.view.step call := by
  cases call with
  | registerInstance key p content now => exact view_registerInstance h hcall
  | deregisterInstance key id => exact view_deregisterInstance h
  | heartbeat key id now => exact view_heartbeat h
  | markExpiredInstancesDown now => exact view_markExpiredInstancesDown h
  | cleanExpiredInstances now => exact view_cleanExpiredInstances h
  | discover key now => rfl

theorem sound_step (h : Sound s) (hcall : HandsInNew s call) : Sound (s.step call) := by
  refine ⟨kept_step (sharesNoObject_of_new hcall) h.toKept, full_step h.full call, ?_⟩
  rw [view_step h hcall]
  exact Directory.noTwins_step h.noTwins call

/-! ### What a call returns -/

/-- The objects of all lists, each with the text under which it is listed. -/
def placed (s : Catalog) : List (Bytes × Ptr) :=
  s.catalog_.flatMap (fun e => e.2.map (Prod.mk e.1.key))

theorem mem_placed (h : Sorted ServiceKey.key s.catalog_) {x : Bytes × Ptr} :
    x ∈ s.placed ↔ x.2 ∈ s.listed x.1 := by
  constructor
  · intro hx
    obtain ⟨⟨k, l⟩, he, hx⟩ := mem_flatMap.mp hx
    obtain ⟨q, hq, rfl⟩ := mem_map.mp hx
    rwa [listed_of_mem h he]
  · intro hx
    obtain ⟨k, l, hk, he, hq⟩ := mem_bucket hx
    exact mem_flatMap.mpr ⟨(k, l), he, mem_map.mpr ⟨x.2, hq, Prod.ext hk rfl⟩⟩

theorem map_snd_placed (s : Catalog) : s.placed.map Prod.snd = s.catalog_.flatMap Prod.snd := by
  simp [placed, map_flatMap, Function.comp_def]

theorem length_filter_eq_number (h : Sound s) (p : InstanceMeta → Bool) :
    ((s.catalog_.flatMap Prod.snd).filter (fun q => p (s.objects q))).length =
      s.view.number p := by
  let counted := s.placed.filter (fun x => p (s.objects x.2))
  let name : Bytes × Ptr → Bytes × Bytes := fun x => (x.1, (s.objects x.2).instanceId)
  have hnodup : counted.Nodup := (Nodup.of_map Prod.snd (map_snd_placed s ▸ h.nodup)).filter _
  have hmem : ∀ x, x ∈ counted ↔ x.2 ∈ s.listed x.1 ∧ p (s.objects x.2) = true := by
    intro x
    rw [mem_filter, mem_placed h.sorted]
  have hset : {x : Bytes × Bytes | ∃ i ∈ s.view x.1, i.instanceId = x.2 ∧ p i} =
      name '' counted.toFinset := by
    ext ⟨n, id⟩
    simp only [Set.mem_ofPred_eq, coe_toFinset, Set.mem_image, hmem, view, mem_map]
    constructor
    · rintro ⟨_, ⟨q, hq, rfl⟩, rfl, hp⟩
      exact ⟨(n, q), ⟨hq, hp⟩, rfl⟩
    · rintro ⟨x, ⟨hx, hp⟩, heq⟩
      cases heq
      exact ⟨_, ⟨x.2, hx, rfl⟩, rfl, hp⟩
  have hinj : Set.InjOn name counted.toFinset := by
    rintro ⟨n, q⟩ hq ⟨n', q'⟩ hq' heq
    simp only [coe_toFinset, Set.mem_ofPred_eq, hmem] at hq hq'
    obtain ⟨rfl, hid⟩ := Prod.mk.inj heq
    rw [h.eq_of_id hq.1 hq'.1 hid]
  unfold Directory.number
  rw [hset, hinj.ncard_image, Set.ncard_coe_finset, toFinset_card_of_nodup hnodup,
    ← map_snd_placed, filter_map, length_map]
  rfl

theorem any_hasId (s : Catalog) (n id : Bytes) :
    (s.listed n).any (s.hasId id) = (s.view n).any (fun i => i.instanceId = id) := by
  unfold view
  rw [any_map]
  rfl

theorem map_discover (s : Catalog) (key : ServiceKey) (now : Int) :
    (s.discover key now).map s.objects =
      (s.view key.key).filter (fun i => Directory.up i && !Directory.expired now i) := by
  rw [discover_eq]
  unfold view
  rw [filter_map]
  rfl

theorem answer_eq (h : Sound s) (call : Call) : s.answer call = s.view.answer call := by
  cases call with
  | registerInstance key p content now => rfl
  | deregisterInstance key id =>
    dsimp only [answer, Directory.answer]
    rw [fst_deregisterInstance, any_hasId]
  | heartbeat key id now =>
    dsimp only [answer, Directory.answer]
    rw [heartbeat_eq, ← any_hasId]
    congr 1
    split
    · rename_i p hfind
      exact (any_eq_true.mpr ⟨p, mem_of_find?_eq_some hfind, find?_some hfind⟩).symm
    · rename_i hfind
      exact (any_eq_false.mpr (find?_eq_none.mp hfind)).symm
  | markExpiredInstancesDown now =>
    dsimp only [answer, Directory.answer, markExpiredInstancesDown]
    rw [← overdue_eq, ← length_filter_eq_number h, ← (markList_spec now s.objects h.nodup).2]
  | cleanExpiredInstances now =>
    dsimp only [answer, Directory.answer, Catalog.cleanExpiredInstances]
    rw [← isExpired_eq_expired, ← length_filter_eq_number h,
      ← (cleanEntries_spec now s.objects s.catalog_).2.2]
  | discover key now =>
    dsimp only [answer, Directory.answer]
    rw [map_discover]

end Catalog

/-- Behind every run that registers new objects, the catalog shows the directory behind the
same calls, without two instances of one id in a list and without an empty list, and it
answers every call as the directory does. -/
theorem catalog_refines_directory (calls : List Call)
    (hcalls : Meets Catalog.step HandsInNew {} calls) :
    (run Catalog.step {} calls).view = run Directory.step (fun _ => []) calls ∧
      (run Directory.step (fun _ => []) calls).NoTwins ∧
      Full (run Catalog.step {} calls).catalog_ ∧
      ∀ call, (run Catalog.step {} calls).answer call =
        (run Directory.step (fun _ => []) calls).answer call := by
  obtain ⟨hsound, hview⟩ := simulation_run Directory.step
    (fun s d => Catalog.Sound s ∧ s.view = d)
    (fun s d call hcall hrel => by
      obtain ⟨hsound, rfl⟩ := hrel
      exact ⟨Catalog.sound_step hsound hcall, Catalog.view_step hsound hcall⟩)
    hcalls (t := fun _ => []) ⟨Catalog.sound_start, rfl⟩
  rw [← hview]
  exact ⟨rfl, hsound.noTwins, hsound.full, Catalog.answer_eq hsound⟩

/-- Two objects with one id, of which the second replaces the first. -/
theorem catalog_refines_directory_replaced :
    let key : ServiceKey := ⟨text "ns", text "name", text "v1"⟩
    let calls : List Call := [.registerInstance key 0 { instanceId := text "i", port := 80 } 5,
      .registerInstance key 1 { instanceId := text "i", port := 81 } 9,
      .cleanExpiredInstances 30009]
    Meets Catalog.step HandsInNew {} calls ∧
      (run Catalog.step {} calls).answer (.discover key 9) =
        .found [{ instanceId := text "i", port := 81, lastHeartbeatMs := 9 }] ∧
      (run Catalog.step {} calls).answer (.discover key 9) =
        (run Directory.step (fun _ => []) calls).answer (.discover key 9) :=
  ⟨by decide, by decide, (catalog_refines_directory _ (by decide)).2.2.2 _⟩

end mymuduo.service_catalog
