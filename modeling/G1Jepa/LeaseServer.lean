import Mathlib.Algebra.Order.Ring.Int
import G1Jepa.RpcClient

/-!
# The lease server of the robot SDK

`unitree_sdk2py/rpc/lease_server.py`: at most one client at a time holds a lease, whose id is the
time of its grant in microseconds. A lease that has run out stays in the cache until a call notices
it.
-/

namespace G1Jepa.Rpc

def apiIdLeaseApply : ℤ := 101
def apiIdLeaseRenewal : ℤ := 102

def errServerApiNotImpl : ℤ := 3203
def errServerApiParameter : ℤ := 3204
def errServerLeaseNotExist : ℤ := 3206
def errServerLeaseExist : ℤ := 3207

/-- `LeaseCache`. -/
structure LeaseCache where
  id : ℤ := 0
  name : Option String := none
  lastModified : ℤ := 0

namespace LeaseCache

def set (_cache : LeaseCache) (id : ℤ) (name : String) (lastModified : ℤ) : LeaseCache where
  id
  name := some name
  lastModified

def renewal (cache : LeaseCache) (lastModified : ℤ) : LeaseCache :=
  { cache with lastModified }

def clear (_cache : LeaseCache) : LeaseCache where
  id := 0
  name := none
  lastModified := 0

end LeaseCache

/-- `LeaseServer`, its term being in microseconds. -/
structure LeaseServer where
  term : ℤ
  cache : LeaseCache := {}

/-- The parameter of a lease request as `json.loads` reads it: `none` when that raises, else what
`get("name")` gives. -/
abbrev LeaseParameter := Option (Option String)

/-- The data of a lease response: the empty text, or the object with `id` and `term`. -/
inductive LeaseData
  | empty
  | lease (id term : ℤ)
  deriving DecidableEq

namespace LeaseServer

/-- `CheckRequestLeaseDenied` at the time `now`. -/
def checkRequestLeaseDenied (server : LeaseServer) (now leaseId : ℤ) : Bool × LeaseServer :=
  if server.cache.id = 0 then (decide (server.cache.id ≠ leaseId), server)
  else if server.cache.lastModified + server.term < now then
    (false, { server with cache := server.cache.clear })
  else (decide (server.cache.id ≠ leaseId), server)

/-- `__Apply`: `now` is read before the lock is taken and `generated`, the new id, under it. -/
def apply (server : LeaseServer) (parameter : LeaseParameter) (now generated : ℤ) :
    ℤ × LeaseData × LeaseServer :=
  match parameter with
  | none => (errServerApiParameter, .empty, server)
  | some name =>
      let name := if name.getD "" = "" then "anonymous" else name.getD ""
      if server.cache.id = 0 ∨ server.cache.lastModified + server.term < now then
        (0, .lease generated server.term,
          { server with cache := server.cache.set generated name now })
      else (errServerLeaseExist, .empty, server)

/-- `__Renewal`, `now` being read before the lock is taken. -/
def renewal (server : LeaseServer) (id now : ℤ) : ℤ × LeaseServer :=
  if server.cache.id ≠ id then (errServerLeaseNotExist, server)
  else if server.cache.lastModified + server.term < now then
    (errServerLeaseNotExist, { server with cache := server.cache.clear })
  else (0, { server with cache := server.cache.renewal now })

/-- The code, the data and the state after `__ServerRequestHandler`. -/
def serverRequestHandler (server : LeaseServer) (request : Request LeaseParameter)
    (now generated : ℤ) : ℤ × LeaseData × LeaseServer :=
  if request.identity.apiId = apiIdLeaseApply then server.apply request.payload now generated
  else if request.identity.apiId = apiIdLeaseRenewal then
    let (code, server) := server.renewal request.leaseId now
    (code, .empty, server)
  else (errServerApiNotImpl, .empty, server)

/-- What the handler can do: refuse and change nothing, drop a lease that has run out, grant a
lease when there is none or the old one has run out, or renew the lease. -/
inductive Handled (server : LeaseServer) (request : Request LeaseParameter) (now generated : ℤ) :
    ℤ × LeaseData × LeaseServer → Prop
  | refused {code : ℤ} : code ≠ 0 → Handled server request now generated (code, .empty, server)
  | dropped : server.cache.lastModified + server.term < now →
      Handled server request now generated
        (errServerLeaseNotExist, .empty, { server with cache := server.cache.clear })
  | granted {name : String} : request.identity.apiId = apiIdLeaseApply →
      server.cache.id = 0 ∨ server.cache.lastModified + server.term < now →
      Handled server request now generated (0, .lease generated server.term,
        { server with cache := server.cache.set generated name now })
  | renewed : request.identity.apiId = apiIdLeaseRenewal → server.cache.id = request.leaseId →
      now ≤ server.cache.lastModified + server.term →
      Handled server request now generated
        (0, .empty, { server with cache := server.cache.renewal now })

/-- The inversion of the handler. -/
theorem handled_serverRequestHandler (server : LeaseServer) (request : Request LeaseParameter)
    (now generated : ℤ) :
    Handled server request now generated
      (server.serverRequestHandler request now generated) := by
  rw [serverRequestHandler]
  split
  case isTrue applies =>
    rw [apply.eq_def]
    cases request.payload with
    | none => exact .refused (by decide)
    | some name =>
        dsimp only
        split
        case isTrue free => exact .granted applies free
        case isFalse => exact .refused (by decide)
  case isFalse =>
    split
    case isTrue renews =>
      simp only [renewal]
      by_cases other : server.cache.id ≠ request.leaseId
      · rw [if_pos other]
        exact .refused (show errServerLeaseNotExist ≠ 0 by decide)
      · rw [if_neg other]
        by_cases late : server.cache.lastModified + server.term < now
        · rw [if_pos late]
          exact .dropped late
        · rw [if_neg late]
          exact .renewed renews (not_not.mp other) (Int.not_lt.mp late)
    case isFalse => exact .refused (by decide)

/-- While the lease has not run out, only its own id is let through. -/
theorem checkRequestLeaseDenied_of_live {server : LeaseServer} {now : ℤ}
    (held : server.cache.id ≠ 0) (live : now ≤ server.cache.lastModified + server.term)
    (leaseId : ℤ) :
    server.checkRequestLeaseDenied now leaseId = (decide (server.cache.id ≠ leaseId), server) := by
  rw [checkRequestLeaseDenied, if_neg held, if_neg (Int.not_lt.mpr live)]

end LeaseServer

end G1Jepa.Rpc
