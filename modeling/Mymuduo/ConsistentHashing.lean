-- The ring of the consistent hash (src/balancer/LoadBalancer.h) when servers come and
-- go, and when two clients learn the same servers in another order. Servers whose
-- nodes hash to one point overwrite each other there.
import Mymuduo.LoadBalancer

open List bytes rings

namespace mymuduo.load_balancer

namespace ConsistentHashStrategy

/-! ## The points of a server -/

/-- Where the virtual nodes of the server are. -/
def points (virtualNodes_ : Nat) (server : BackendServer) : List Nat :=
  (range virtualNodes_).map (fun i => hashString (server.address ++ text "#" ++ decimal i))

theorem addNodes_eq_write (virtualNodes_ : Nat) (server : BackendServer)
    (ring_ : List (Nat × Nat)) :
    addNodes virtualNodes_ server ring_ = write (points virtualNodes_ server) server.ptr ring_ := by
  unfold addNodes write points
  rw [foldl_map]

theorem init_eq_build (virtualNodes_ : Nat) (servers : List BackendServer) :
    init virtualNodes_ servers =
      build (points virtualNodes_) BackendServer.ptr (healthyOf servers) := by
  unfold init build
  simp only [addNodes_eq_write]

theorem hashString_lt (str : Bytes) : hashString str < 2 ^ 32 := by
  unfold hashString
  rcases eq_nil_or_concat' str with rfl | ⟨init, c, rfl⟩
  · decide
  · rw [foldl_append]
    exact Nat.mod_lt _ (by decide)

theorem lt_of_mem_points {virtualNodes_ : Nat} {server : BackendServer} {p : Nat}
    (h : p ∈ points virtualNodes_ server) : p < 2 ^ 32 := by
  obtain ⟨i, -, rfl⟩ := mem_map.mp h
  exact hashString_lt _

/-! ## A server more -/

/-- Wherever a server is inserted into the list, every key that goes to another server with
it goes to the same one without it. -/
theorem new_server_takes_only_its_keys (virtualNodes_ : Nat) (before after : List BackendServer)
    (x : BackendServer) {key ptr : Nat}
    (h : selectWithKey (init virtualNodes_ (before ++ x :: after)) key = some ptr)
    (hother : ptr ≠ x.ptr) :
    selectWithKey (init virtualNodes_ (before ++ after)) key = some ptr := by
  rw [selectWithKey, init_eq_build] at h ⊢
  unfold healthyOf at h ⊢
  rw [filter_append] at h ⊢
  rw [filter_cons] at h
  split at h
  · exact seek_build_remove h hother
  · exact h

def oldServer : BackendServer := { ptr := 0, host := text "a", port := 80 }

def newServer : BackendServer := { ptr := 1, host := text "b", port := 80 }

theorem new_server_takes_only_its_keys_of_two :
    selectWithKey (init 1 [oldServer, newServer]) 0 = some 0 ∧
      selectWithKey (init 1 [oldServer]) 0 = some 0 := by
  have h : selectWithKey (init 1 ([oldServer] ++ newServer :: [])) 0 = some 0 := by decide +kernel
  exact ⟨h, new_server_takes_only_its_keys 1 [oldServer] [] newServer h (by decide)⟩

/-! ## Another order -/

def OrderIsNothing (virtualNodes_ : Nat) (servers : List BackendServer) : Prop :=
  ∀ servers₁ servers₂ : List BackendServer, servers₁.Perm servers → servers₂.Perm servers →
    ∀ key < 2 ^ 32, selectWithKey (init virtualNodes_ servers₁) key =
      selectWithKey (init virtualNodes_ servers₂) key

def NodesApart (virtualNodes_ : Nat) (servers : List BackendServer) : Prop :=
  ∀ s ∈ servers, ∀ t ∈ servers, ∀ p ∈ points virtualNodes_ s, p ∈ points virtualNodes_ t →
    s.ptr = t.ptr

instance (virtualNodes_ : Nat) (servers : List BackendServer) :
    Decidable (NodesApart virtualNodes_ servers) :=
  inferInstanceAs (Decidable (∀ s ∈ servers, ∀ t ∈ servers, ∀ p ∈ points virtualNodes_ s,
    p ∈ points virtualNodes_ t → s.ptr = t.ptr))

theorem healthyOf_eq_self {servers : List BackendServer} (h : ∀ s ∈ servers, s.healthy = true) :
    healthyOf servers = servers := filter_eq_self.mpr h

theorem exists_order_with_last {virtualNodes_ : Nat} {servers : List BackendServer}
    (hhealthy : ∀ s ∈ servers, s.healthy = true) {s : BackendServer} (hs : s ∈ servers) {p : Nat}
    (hp : p ∈ points virtualNodes_ s) :
    ∃ servers' : List BackendServer, servers'.Perm servers ∧
      selectWithKey (init virtualNodes_ servers') p = some s.ptr := by
  have hperm : (servers.erase s ++ [s]).Perm servers :=
    (perm_append_singleton s _).trans (perm_cons_erase hs).symm
  refine ⟨servers.erase s ++ [s], hperm, ?_⟩
  rw [selectWithKey, init_eq_build,
    healthyOf_eq_self (fun t ht => hhealthy t (hperm.mem_iff.mp ht))]
  exact seek_build_concat _ hp

/-- The order of healthy servers makes no difference exactly when no two of them have a node
at the same point. -/
theorem order_is_nothing_iff (virtualNodes_ : Nat) {servers : List BackendServer}
    (hhealthy : ∀ s ∈ servers, s.healthy = true) :
    OrderIsNothing virtualNodes_ servers ↔ NodesApart virtualNodes_ servers := by
  constructor
  · intro h s hs t ht p hps hpt
    obtain ⟨servers₁, hperm₁, hs'⟩ := exists_order_with_last hhealthy hs hps
    obtain ⟨servers₂, hperm₂, ht'⟩ := exists_order_with_last hhealthy ht hpt
    have hsame := h servers₁ servers₂ hperm₁ hperm₂ p (lt_of_mem_points hps)
    rw [hs', ht'] at hsame
    exact Option.some.inj hsame
  · intro h servers₁ servers₂ hperm₁ hperm₂ key _
    have hhealthy₁ : ∀ s ∈ servers₁, s.healthy = true :=
      fun s hs => hhealthy s (hperm₁.mem_iff.mp hs)
    have hhealthy₂ : ∀ s ∈ servers₂, s.healthy = true :=
      fun s hs => hhealthy s (hperm₂.mem_iff.mp hs)
    rw [selectWithKey, selectWithKey, init_eq_build, init_eq_build,
      healthyOf_eq_self hhealthy₁, healthyOf_eq_self hhealthy₂]
    refine seek_build_perm (hperm₁.trans hperm₂.symm) ?_ key
    intro s hs t ht p hps hpt
    exact h s (hperm₁.mem_iff.mp hs) t (hperm₁.mem_iff.mp ht) p hps hpt

theorem order_is_nothing_iff_of_two : OrderIsNothing 1 [oldServer, newServer] :=
  (order_is_nothing_iff 1 (by decide)).mpr (by decide +kernel)

/-- Two hosts whose names have the same hash behind every beginning: the second letter is less
by the 33 that the first is worth. -/
def hostAb : BackendServer := { ptr := 0, host := text "ab", port := 80 }

def hostBa : BackendServer := { ptr := 1, host := text "bA", port := 80 }

/-- The one that comes last takes the keys of both. -/
theorem colliding_hosts_depend_on_order :
    hostAb.address ≠ hostBa.address ∧
      selectWithKey (init 1 [hostAb, hostBa]) 0 = some hostBa.ptr ∧
      selectWithKey (init 1 [hostBa, hostAb]) 0 = some hostAb.ptr := by
  refine ⟨?_, ?_, ?_⟩ <;> decide +kernel

end ConsistentHashStrategy

end mymuduo.load_balancer
