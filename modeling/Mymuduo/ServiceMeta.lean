-- The records of the service registry (src/registry/ServiceMeta.h): the key of
-- a service, an instance with its heartbeat, and their JSON forms. A clock
-- reading is an argument.
import Mymuduo.Json
import Mymuduo.Lines

open List bytes json words

namespace mymuduo.service_meta

structure ServiceKey where
  namespace_ : Bytes
  serviceName : Bytes
  version : Bytes
  deriving DecidableEq

namespace ServiceKey

/-- `operator<` of the class compares these texts. -/
def key (k : ServiceKey) : Bytes :=
  k.namespace_ ++ text ":" ++ k.serviceName ++ text ":" ++ k.version

def toJson (k : ServiceKey) : Json :=
  .object (setField (text "version") (.string k.version)
    (setField (text "serviceName") (.string k.serviceName)
      (setField (text "namespace") (.string k.namespace_) [])))

def fromJson (library : Library) (j : Json) : Except Thrown ServiceKey := do
  let namespace_ ← library.valueString (text "namespace") (text "default") j
  let serviceName ← library.valueString (text "serviceName") [] j
  let version ← library.valueString (text "version") (text "v1.0.0") j
  return { namespace_, serviceName, version }

theorem toJson_fields (k : ServiceKey) :
    ∃ fields, k.toJson = .object fields ∧
      getField (text "namespace") fields = some (.string k.namespace_) ∧
      getField (text "serviceName") fields = some (.string k.serviceName) ∧
      getField (text "version") fields = some (.string k.version) := by
  refine ⟨_, rfl, ?_, ?_, ?_⟩
  · simp (disch := decide) only [getField_setField_of_ne, getField_setField_self]
  · simp (disch := decide) only [getField_setField_of_ne, getField_setField_self]
  · rw [getField_setField_self]

theorem fromJson_toJson (library : Library) (k : ServiceKey) :
    fromJson library k.toJson = .ok k := by
  obtain ⟨fields, hjson, hns, hname, hversion⟩ := k.toJson_fields
  unfold fromJson
  rw [hjson, library.valueString_string hns, library.valueString_string hname,
    library.valueString_string hversion]
  rfl

end ServiceKey

/-- The metadata is a map, in the order of its keys. -/
structure InstanceMeta where
  instanceId : Bytes := []
  host : Bytes := []
  port : Int := 0
  weight : Int := 1
  lastHeartbeatMs : Int := 0
  ttlSeconds : Int := 30
  status : Bytes := text "UP"
  metadata : List (Bytes × Bytes) := []
  deriving DecidableEq

namespace InstanceMeta

def heartbeat (now : Int) (instance_ : InstanceMeta) : InstanceMeta :=
  { instance_ with lastHeartbeatMs := now, status := text "UP" }

/-- The milliseconds of the TTL are computed as an `int`. -/
def isExpired (now : Int) (instance_ : InstanceMeta) : Bool :=
  int32 (instance_.ttlSeconds * 1000) < int64 (now - instance_.lastHeartbeatMs)

def toJson (instance_ : InstanceMeta) : Json :=
  let fields := setField (text "status") (.string instance_.status)
    (setField (text "ttlSeconds") (.integer instance_.ttlSeconds)
      (setField (text "lastHeartbeatMs") (.integer instance_.lastHeartbeatMs)
        (setField (text "weight") (.integer instance_.weight)
          (setField (text "port") (.integer instance_.port)
            (setField (text "host") (.string instance_.host)
              (setField (text "instanceId") (.string instance_.instanceId) []))))))
  if instance_.metadata = [] then .object fields
  else .object (setField (text "metadata")
    (.object (instance_.metadata.map (fun entry => (entry.1, .string entry.2)))) fields)

def fromJson (library : Library) (now : Int) (j : Json) : Except Thrown InstanceMeta := do
  let instanceId ← library.valueString (text "instanceId") [] j
  let host ← library.valueString (text "host") [] j
  let port ← library.valueInt (text "port") 0 j
  let weight ← library.valueInt (text "weight") 1 j
  let lastHeartbeatMs ← library.valueInt64 (text "lastHeartbeatMs") now j
  let ttlSeconds ← library.valueInt (text "ttlSeconds") 30 j
  let status ← library.valueString (text "status") (text "UP") j
  let metadata ← match j.field (text "metadata") with
    | some (.object fields) => library.stringMap fields
    | _ => .ok []
  return { instanceId, host, port, weight, lastHeartbeatMs, ttlSeconds, status, metadata }

/-- The numbers are values of their types: three are an `int`, and the time of the heartbeat
is an `int64_t`. -/
structure InRange (instance_ : InstanceMeta) : Prop where
  port : -2 ^ 31 ≤ instance_.port ∧ instance_.port < 2 ^ 31
  weight : -2 ^ 31 ≤ instance_.weight ∧ instance_.weight < 2 ^ 31
  ttlSeconds : -2 ^ 31 ≤ instance_.ttlSeconds ∧ instance_.ttlSeconds < 2 ^ 31
  lastHeartbeatMs : -2 ^ 63 ≤ instance_.lastHeartbeatMs ∧ instance_.lastHeartbeatMs < 2 ^ 63

/-- What `fromJson` asks of the fields of an instance. -/
structure IsFields (instance_ : InstanceMeta) (fields : List (Bytes × Json)) : Prop where
  instanceId : getField (text "instanceId") fields = some (.string instance_.instanceId)
  host : getField (text "host") fields = some (.string instance_.host)
  port : getField (text "port") fields = some (.integer instance_.port)
  weight : getField (text "weight") fields = some (.integer instance_.weight)
  lastHeartbeatMs :
    getField (text "lastHeartbeatMs") fields = some (.integer instance_.lastHeartbeatMs)
  ttlSeconds : getField (text "ttlSeconds") fields = some (.integer instance_.ttlSeconds)
  status : getField (text "status") fields = some (.string instance_.status)
  metadata : (getField (text "metadata") fields = none ∧ instance_.metadata = []) ∨
    getField (text "metadata") fields =
      some (.object (instance_.metadata.map (fun entry => (entry.1, .string entry.2))))

theorem toJson_fields (instance_ : InstanceMeta) :
    ∃ fields, instance_.toJson = .object fields ∧ instance_.IsFields fields := by
  unfold toJson
  dsimp only
  split
  · rename_i hempty
    refine ⟨_, rfl, ?_⟩
    constructor
    case metadata =>
      refine Or.inl ⟨?_, hempty⟩
      simp (disch := decide) only [getField_setField_of_ne]
      rfl
    all_goals
      simp (disch := decide) only [getField_setField_of_ne, getField_setField_self]
  · refine ⟨_, rfl, ?_⟩
    constructor
    case metadata => exact Or.inr (getField_setField_self ..)
    all_goals
      simp (disch := decide) only [getField_setField_of_ne, getField_setField_self]

theorem fromJson_toJson {instance_ : InstanceMeta} (h : instance_.InRange) (library : Library)
    (now : Int) : fromJson library now instance_.toJson = .ok instance_ := by
  obtain ⟨fields, hjson, hfields⟩ := instance_.toJson_fields
  unfold fromJson
  rw [hjson, library.valueString_string hfields.instanceId, library.valueString_string hfields.host,
    library.valueInt_integer hfields.port h.port.1 h.port.2,
    library.valueInt_integer hfields.weight h.weight.1 h.weight.2,
    library.valueInt64_integer hfields.lastHeartbeatMs h.lastHeartbeatMs.1 h.lastHeartbeatMs.2,
    library.valueInt_integer hfields.ttlSeconds h.ttlSeconds.1 h.ttlSeconds.2,
    library.valueString_string hfields.status]
  dsimp only [bind, Except.bind, Json.field]
  rcases hfields.metadata with ⟨hnone, hempty⟩ | hsome
  · rw [hnone, ← hempty]
    rfl
  · rw [hsome]
    dsimp only
    rw [library.stringMap_map]
    rfl

end InstanceMeta

end mymuduo.service_meta
