-- When an instance expires (src/registry/ServiceMeta.h), and what the catalog makes
-- of it (src/registry/ServiceCatalog.h). The time that passed has 64 bits, and the
-- TTL in milliseconds has 32, so a TTL of 25 days comes out as a short or a
-- negative one.
import Mymuduo.ServiceCatalog

open bytes words runs ordered_map

namespace mymuduo.service_catalog

open service_meta

/-! ## The law -/

/-- A later clock reading. The times are values of `int64_t`, and so is their difference. -/
structure LaterReading (inst : InstanceMeta) (now : Int) : Prop where
  heartbeat : -2 ^ 63 ≤ inst.lastHeartbeatMs
  later : inst.lastHeartbeatMs ≤ now
  reading : now < 2 ^ 63
  elapsed : now - inst.lastHeartbeatMs < 2 ^ 63

/-- The instance is listed and has the TTL, and its TTL is not over. -/
structure Alive (ttl : Int) (s : Catalog) (key : ServiceKey) (p : Ptr) (now : Int) : Prop where
  listed : p ∈ s.listed key.key
  ttlSeconds : (s.objects p).ttlSeconds = ttl
  reading : LaterReading (s.objects p) now
  inTime : now - (s.objects p).lastHeartbeatMs ≤ 1000 * ttl

/-- The TTL is kept to the millisecond: by `isExpired`, and by the catalog behind any calls. -/
structure TtlIsKept (ttl : Int) : Prop where
  expired : ∀ (inst : InstanceMeta) (now : Int), inst.ttlSeconds = ttl → LaterReading inst now →
    (inst.isExpired now = true ↔ 1000 * ttl < now - inst.lastHeartbeatMs)
  discovered : ∀ (calls : List Call) (key : ServiceKey) (p : Ptr) (now : Int),
    let s := run Catalog.step {} calls
    Alive ttl s key p now → (s.objects p).status = text "UP" → p ∈ s.discover key now
  survives : ∀ (calls : List Call) (key : ServiceKey) (p : Ptr) (now : Int),
    let s := run Catalog.step {} calls
    Alive ttl s key p now → p ∈ (s.cleanExpiredInstances now).2.listed key.key

/-! ## The product -/

theorem isExpired_iff {inst : InstanceMeta} {now : Int} (h : LaterReading inst now) :
    inst.isExpired now = true ↔
      int32 (inst.ttlSeconds * 1000) < now - inst.lastHeartbeatMs := by
  have hlater := h.later
  have helapsed := h.elapsed
  unfold InstanceMeta.isExpired
  rw [int64_eq (by omega) helapsed]
  exact decide_eq_true_iff

theorem isExpired_iff_of_le {inst : InstanceMeta} {now : Int} (h : LaterReading inst now)
    (hnonneg : 0 ≤ inst.ttlSeconds) (hle : inst.ttlSeconds ≤ 2147483) :
    inst.isExpired now = true ↔ 1000 * inst.ttlSeconds < now - inst.lastHeartbeatMs := by
  rw [isExpired_iff h, int32_eq (by omega) (by omega), Int.mul_comm]

/-- A product that does not fit wraps to less, so the instance expires before its time. -/
theorem expires_early {ttl : Int} (hlt : 2147483 < ttl) :
    ∃ now : Int, 0 ≤ now ∧ now ≤ 2 ^ 31 ∧ int32 (ttl * 1000) < now ∧ now ≤ 1000 * ttl := by
  have hwrap : int32 (ttl * 1000) < 2 ^ 31 := by
    have hbmod := Int.bmod_lt (x := ttl * 1000) (m := 2 ^ 32) (by decide)
    exact lt_of_lt_of_le hbmod (by decide)
  refine ⟨max 0 (int32 (ttl * 1000) + 1), ?_, ?_, ?_, ?_⟩ <;> omega

/-! ## The catalog -/

theorem sorted_run (calls : List Call) :
    Sorted ServiceKey.key (run Catalog.step {} calls).catalog_ := by
  have hstep : ∀ (s : Catalog) (call : Call), Sorted ServiceKey.key s.catalog_ →
      Sorted ServiceKey.key (s.step call).catalog_ := fun _ call hs => Catalog.sorted_step hs call
  exact invariant_always hstep Catalog.kept_start.sorted calls

variable {ttl : Int}

theorem not_expired_of_alive (hnonneg : 0 ≤ ttl) (hle : ttl ≤ 2147483) {s : Catalog}
    {key : ServiceKey} {p : Ptr} {now : Int} (h : Alive ttl s key p now) :
    (s.objects p).isExpired now = false := by
  have hlife := h.inTime
  have httl := h.ttlSeconds
  have hiff := isExpired_iff_of_le h.reading (httl ▸ hnonneg) (httl ▸ hle)
  rw [Bool.eq_false_iff, ne_eq, hiff, httl]
  omega

/-- The TTL is kept exactly when its milliseconds are an `int`: up to 2147483 seconds. -/
theorem ttl_is_kept_iff (hnonneg : 0 ≤ ttl) : TtlIsKept ttl ↔ ttl ≤ 2147483 := by
  constructor
  · intro h
    by_contra hgt
    obtain ⟨now, hnow, hreading, hexpired, hearly⟩ := expires_early (Int.not_le.mp hgt)
    have hlater : LaterReading { ttlSeconds := ttl } now := by
      refine ⟨?_, hnow, ?_, ?_⟩
      · exact Int.neg_nonpos_of_nonneg (by decide)
      · omega
      · simp only [sub_zero]
        omega
    have hwrong : InstanceMeta.isExpired now { ttlSeconds := ttl } = true := by
      rw [isExpired_iff hlater]
      simpa using hexpired
    have hexact := (h.expired _ now rfl hlater).mp hwrong
    dsimp only at hexact
    omega
  · intro hle
    refine ⟨?_, ?_, ?_⟩
    · rintro inst now rfl hlater
      exact isExpired_iff_of_le hlater hnonneg hle
    · intro calls key p now s halive hup
      rw [Catalog.discover_eq, List.mem_filter]
      refine ⟨halive.listed, ?_⟩
      simp [Catalog.healthy, hup, not_expired_of_alive hnonneg hle halive]
    · intro calls key p now s halive
      rw [Catalog.listed_cleanExpiredInstances (sorted_run calls), List.mem_filter]
      exact ⟨halive.listed, by rw [not_expired_of_alive hnonneg hle halive]; rfl⟩

theorem ttl_is_kept_iff_default : TtlIsKept 30 :=
  (ttl_is_kept_iff (by decide)).mpr (by decide)

def echoKey : ServiceKey := ⟨text "default", text "echo", text "1"⟩

/-- An instance with a TTL of 25 days that is registered at its heartbeat. -/
def longLived : Catalog :=
  run Catalog.step {}
    [.registerInstance echoKey 0 { ttlSeconds := 2147484, lastHeartbeatMs := 5 } 5]

/-- In the millisecond of its heartbeat the instance is expired: it is not found, and it is
cleaned away. -/
theorem long_ttl_expires_at_once :
    Alive 2147484 longLived echoKey 0 5 ∧ (longLived.objects 0).status = text "UP" ∧
      (longLived.objects 0).isExpired 5 = true ∧ longLived.discover echoKey 5 = [] ∧
      (longLived.cleanExpiredInstances 5).2.listed echoKey.key = [] := by
  refine ⟨⟨?_, ?_, ⟨?_, ?_, ?_, ?_⟩, ?_⟩, ?_, ?_, ?_, ?_⟩ <;> decide +kernel

end mymuduo.service_catalog
