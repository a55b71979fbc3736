import Mathlib.Data.List.Perm.Basic
import G1Jepa.LeaseServer
import G1Jepa.Library.Fallible
import G1Jepa.Library.LossyPipeline

/-!
# The request server of the robot SDK

The server side of `unitree_sdk2py/rpc`. A request passes three bounded queues: the one of its
channel, which refuses what it has no room for, and one of two queues that make room by dropping
their oldest request, each with a thread that handles its requests one after the other.
-/

namespace G1Jepa.Rpc

/-! ## Bounded queues -/

/-- `BQueue`; `curLen` counts the items of the deque. -/
structure BQueue (α : Type) (maxLen : ℕ) where
  queue : List α := []
  curLen : ℕ := 0
  counted : curLen = queue.length := by rfl
  bounded : queue.length ≤ maxLen := by exact Nat.zero_le _

namespace BQueue

variable {α : Type} {maxLen : ℕ}

/-- `Put`: whether nothing was refused or replaced, and the queue after the call. -/
def put (q : BQueue α maxLen) (x : α) (replace : Bool) :
    Except PyError (Bool × BQueue α maxLen) :=
  if full : maxLen ≤ q.curLen then
    if replace then
      match found : q.queue with
      | [] => .error .indexError
      | first :: rest =>
          have length : rest.length + 1 = q.queue.length := by rw [found, List.length_cons]
          .ok (false,
            { queue := rest ++ [x]
              curLen := q.curLen - 1 + 1
              counted := by
                rw [List.length_append, List.length_singleton, length, q.counted, ← length]
                omega
              bounded := by
                rw [List.length_append, List.length_singleton, length]
                exact q.bounded })
    else .ok (false, q)
  else
    .ok (true,
      { queue := q.queue ++ [x]
        curLen := q.curLen + 1
        counted := by rw [List.length_append, List.length_singleton, q.counted]
        bounded := by
          rw [List.length_append, List.length_singleton, ← q.counted]
          omega })

/-- `Get` of a queue that is not waited for. -/
def get (q : BQueue α maxLen) : Option α × BQueue α maxLen :=
  match found : q.queue with
  | [] => (none, q)
  | first :: rest =>
      have length : rest.length + 1 = q.queue.length := by rw [found, List.length_cons]
      (some first,
        { queue := rest
          curLen := q.curLen - 1
          counted := by
            rw [q.counted, ← length]
            rfl
          bounded := by
            have := q.bounded
            omega })

/-- What `Put` can do. -/
inductive Put (q : BQueue α maxLen) (x : α) (replace : Bool) : Bool → BQueue α maxLen → Prop
  | added {after : BQueue α maxLen} : q.queue.length < maxLen → after.queue = q.queue ++ [x] →
      Put q x replace true after
  | refused : replace = false → q.queue.length = maxLen → Put q x replace false q
  | replaced {after : BQueue α maxLen} {first : α} {rest : List α} : replace = true →
      q.queue.length = maxLen → q.queue = first :: rest → after.queue = rest ++ [x] →
      Put q x replace false after

theorem put_of_put {q after : BQueue α maxLen} {x : α} {replace kept : Bool}
    (ran : q.put x replace = .ok (kept, after)) : Put q x replace kept after := by
  have bounded := q.bounded
  rw [put] at ran
  split at ran
  case isTrue full =>
    have length : q.queue.length = maxLen := by
      rw [q.counted] at full
      omega
    split at ran
    case isTrue replaces =>
      split at ran
      case h_1 => contradiction
      case h_2 first rest found =>
        obtain ⟨rfl, rfl⟩ := Prod.mk.inj (Except.ok.inj ran)
        exact .replaced replaces length found rfl
    case isFalse keeps =>
      obtain ⟨rfl, rfl⟩ := Prod.mk.inj (Except.ok.inj ran)
      exact .refused (Bool.eq_false_iff.mpr keeps) length
  case isFalse room =>
    obtain ⟨rfl, rfl⟩ := Prod.mk.inj (Except.ok.inj ran)
    refine .added ?_ rfl
    rw [q.counted] at room
    omega

/-- A queue that has room for an item takes every item. -/
theorem exists_put (q : BQueue α maxLen) (positive : 0 < maxLen) (x : α) (replace : Bool) :
    ∃ kept after, q.put x replace = .ok (kept, after) := by
  rw [put]
  split
  case isTrue full =>
    split
    case isTrue =>
      split
      case h_1 empty =>
        rw [q.counted, empty, List.length_nil] at full
        omega
      case h_2 => exact ⟨_, _, rfl⟩
    case isFalse => exact ⟨_, _, rfl⟩
  case isFalse => exact ⟨_, _, rfl⟩

theorem get_eq_some {q after : BQueue α maxLen} {x : α} (got : q.get = (some x, after)) :
    q.queue = x :: after.queue := by
  rw [get] at got
  split at got
  case h_1 =>
    obtain ⟨absurdity, -⟩ := Prod.mk.inj got
    contradiction
  case h_2 first rest found =>
    obtain ⟨same, rfl⟩ := Prod.mk.inj got
    obtain rfl := Option.some.inj same
    exact found

end BQueue

/-! ## Handlers -/

def apiIdInternalApiVersion : ℤ := 1

def errServerInternal : ℤ := 3202
def errServerLeaseDenied : ℤ := 3205

/-- A request with its parameter and its binary part. -/
abbrev ServiceRequest := Request (String × List ℕ)

/-- A response with its data and its binary part. -/
abbrev ServiceResponse := Response (String × List ℕ)

/-- A registered method of a service with the states `σ`; it may raise. -/
abbrev Handler (σ : Type) := String → σ → Except PyError (ℤ × String) × σ

abbrev BinaryHandler (σ : Type) := List ℕ → σ → Except PyError (ℤ × List ℕ) × σ

/-- `Server`; `lease` is its lease server once `StartLease` has been called. -/
structure Server (σ : Type) where
  apiVersion : String := ""
  apiHandlerMapping : Dict ℤ (Handler σ × Bool) := ∅
  apiBinaryHandlerMapping : Dict ℤ (BinaryHandler σ × Bool) := ∅
  /-- The source initialises it with `{}`, which is a dictionary. -/
  apiBinarySet : Dict ℤ Unit := ∅
  lease : Option LeaseServer := none

/-- What the constructor of a service tells its server. -/
inductive Registration (σ : Type)
  | apiVersion (apiVersion : String)
  | handler (apiId : ℤ) (handler : Handler σ) (checkLease : Bool)
  | binaryHandler (apiId : ℤ) (handler : BinaryHandler σ) (checkLease : Bool)
  /-- `StartLease`, with the term in microseconds. -/
  | lease (term : ℤ)

namespace Server

variable {σ : Type}

/-- `_SetApiVersion`, `_RegistHandler`, `_RegistBinaryHandler` and `StartLease`. -/
def regist (server : Server σ) : Registration σ → Except PyError Unit × Server σ
  | .apiVersion apiVersion => (.ok (), { server with apiVersion })
  | .handler apiId handler checkLease =>
      (.ok (), { server with
        apiHandlerMapping := server.apiHandlerMapping.insert apiId (handler, checkLease) })
  | .binaryHandler apiId handler checkLease =>
      -- A dictionary has no method `add`.
      (.error (.attributeError "add"), { server with
        apiBinaryHandlerMapping :=
          server.apiBinaryHandlerMapping.insert apiId (handler, checkLease) })
  | .lease term => (.ok (), { server with lease := some { term } })

/-- The server after some registrations, whether or not an exception was caught. -/
def setup (registrations : List (Registration σ)) : Server σ :=
  registrations.foldl (fun server registration => (server.regist registration).2) {}

/-- `__IsBinary`. -/
def isBinary (server : Server σ) (apiId : ℤ) : Bool :=
  decide (apiId ∈ server.apiBinarySet)

/-- The handler of an api with its lease check: `__GetBinaryHandler` or `__GetHandler`. -/
def getHandler (server : Server σ) (apiId : ℤ) : Option ((Handler σ ⊕ BinaryHandler σ) × Bool) :=
  if server.isBinary apiId then
    (server.apiBinaryHandlerMapping.lookup apiId).map fun entry => (.inr entry.1, entry.2)
  else (server.apiHandlerMapping.lookup apiId).map fun entry => (.inl entry.1, entry.2)

/-- `checkLease and __CheckLeaseDenied(leaseId)` at the time `now`. -/
def checkLeaseDenied (server : Server σ) (checkLease : Bool) (now leaseId : ℤ) :
    Bool × Server σ :=
  match checkLease, server.lease with
  | true, some lease =>
      let (denied, lease) := lease.checkRequestLeaseDenied now leaseId
      (denied, { server with lease := some lease })
  | _, _ => (false, server)

/-- The call of a handler: the code, the data and the binary data of the response. -/
def invoke (handler : Handler σ ⊕ BinaryHandler σ) (payload : String × List ℕ) (service : σ) :
    (ℤ × String × List ℕ) × σ :=
  match handler with
  | .inl handler =>
      match handler payload.1 service with
      | (.ok (code, data), service) => ((code, if code ≠ 0 then "" else data, []), service)
      | (.error _, service) => ((errServerInternal, "", []), service)
  | .inr handler =>
      match handler payload.2 service with
      | (.ok (code, data), service) => ((code, "", if code ≠ 0 then [] else data), service)
      | (.error _, service) => ((errServerInternal, "", []), service)

/-- The body of `__ServerRequestHandler` up to the response. -/
def handle (server : Server σ) (service : σ) (request : ServiceRequest) (now : ℤ) :
    (ℤ × String × List ℕ) × Server σ × σ :=
  if request.identity.apiId = apiIdInternalApiVersion then
    ((0, server.apiVersion, []), server, service)
  else
    match server.getHandler request.identity.apiId with
    | none => ((errServerApiNotImpl, "", []), server, service)
    | some (handler, checkLease) =>
        let (denied, server) := server.checkLeaseDenied checkLease now request.leaseId
        if denied then ((errServerLeaseDenied, "", []), server, service)
        else
          let (result, service) := invoke handler request.payload service
          (result, server, service)

end Server

/-! ## The queues and threads of a server -/

/-- A queue of the stub with its thread, which may have taken a request. -/
structure Lane (maxLen : ℕ) where
  queue : BQueue ServiceRequest maxLen := {}
  taken : Option ServiceRequest := none

namespace Lane

variable {maxLen : ℕ}

/-- The requests that wait or are being handled. -/
def waiting (lane : Lane maxLen) : List ServiceRequest :=
  lane.taken.toList ++ lane.queue.queue

/-- `Put(request, True)`, with the request that it replaces. -/
def enqueue (lane : Lane maxLen) (request : ServiceRequest) :
    Except PyError (List ServiceRequest × Lane maxLen) := do
  let (kept, queue) ← lane.queue.put request true
  .ok (if kept then [] else lane.queue.queue.take 1, { lane with queue })

/-- The thread returns from `Get` with a request. -/
def take (lane : Lane maxLen) : Option (Lane maxLen) :=
  match lane.taken, lane.queue.get with
  | none, (some request, queue) => some { queue, taken := some request }
  | _, _ => none

end Lane

/-- A request that has been handled, with what its handler found. -/
structure HandledRequest (σ : Type) where
  request : ServiceRequest
  server : Server σ
  service : σ
  now : ℤ

namespace HandledRequest

variable {σ : Type}

/-- The code, the data and the binary data that `__ServerRequestHandler` has computed. -/
def answer (handled : HandledRequest σ) : ℤ × String × List ℕ :=
  (handled.server.handle handled.service handled.request handled.now).1

/-- The response of `__ServerRequestHandler`, unless none is wanted. -/
def response (handled : HandledRequest σ) : Option ServiceResponse :=
  if handled.request.noreply then none
  else some ⟨handled.request.identity, handled.answer.1, handled.answer.2⟩

/-- `_SendResponse`, where `written` is what `Write` returns: the response that goes out, with its
request. A response that is not written is dropped. -/
def sendResponse (handled : HandledRequest σ) (written : Bool) :
    List (ServiceRequest × ServiceResponse) :=
  if written then (handled.response.map fun response => (handled.request, response)).toList
  else []

end HandledRequest

/-- A server with its service, its channel and its threads; the last four fields are histories. -/
structure ServerSystem (σ : Type) where
  server : Server σ
  service : σ
  enablePriority : Bool
  /-- The queue of the channel, and what its thread has taken from it. -/
  channel : BQueue ServiceRequest 10 := {}
  received : Option ServiceRequest := none
  normal : Lane 10 := {}
  prio : Lane 5 := {}
  arrived : List ServiceRequest := []
  handled : List (HandledRequest σ) := []
  /-- The responses that have gone out, with their requests. -/
  sent : List (ServiceRequest × ServiceResponse) := []
  lost : List ServiceRequest := []

/-- What can happen next. -/
inductive ServerEvent
  /-- `__OnDataAvailable` takes a request from the network. -/
  | arrive (request : ServiceRequest)
  /-- The thread of the channel takes a request from its queue. -/
  | receive
  /-- That thread calls `__Enqueue`. -/
  | enqueue
  /-- A thread of the stub takes a request. -/
  | take (prio : Bool)
  /-- That thread handles it at the time `now`; `written` is what the channel of the responses
  returns. -/
  | handle (prio : Bool) (now : ℤ) (written : Bool)
  /-- The lease server handles a request of its own channel. -/
  | lease (request : Request LeaseParameter) (now generated : ℤ)

namespace ServerSystem

variable {σ : Type}

/-- The server after its registrations and `Start`. -/
def init (registrations : List (Registration σ)) (service : σ) (enablePriority : Bool) :
    ServerSystem σ where
  server := .setup registrations
  service
  enablePriority

/-- The queue that `__Enqueue` chooses. -/
def isPrio (enablePriority : Bool) (request : ServiceRequest) : Bool :=
  enablePriority && decide (0 < request.priority)

/-- The requests for one of the two threads. -/
def lane (s : ServerSystem σ) : Bool → List ServiceRequest
  | true => s.prio.waiting
  | false => s.normal.waiting

/-- The request that one of the two threads has taken. -/
def taken (s : ServerSystem σ) : Bool → Option ServiceRequest
  | true => s.prio.taken
  | false => s.normal.taken

/-- The thread waits again. -/
def release (s : ServerSystem σ) : Bool → ServerSystem σ
  | true => { s with prio := { s.prio with taken := none } }
  | false => { s with normal := { s.normal with taken := none } }

def step (s : ServerSystem σ) : ServerEvent → Option (ServerSystem σ)
  | .arrive request => do
      let (kept, channel) ← (s.channel.put request false).toOption
      some
        { s with
          channel
          arrived := s.arrived ++ [request]
          lost := if kept then s.lost else s.lost ++ [request] }
  | .receive =>
      match s.received, s.channel.get with
      | none, (some request, channel) => some { s with channel, received := some request }
      | _, _ => none
  | .enqueue => do
      let request ← s.received
      if isPrio s.enablePriority request then
        let (lost, prio) ← (s.prio.enqueue request).toOption
        some { s with received := none, prio, lost := s.lost ++ lost }
      else
        let (lost, normal) ← (s.normal.enqueue request).toOption
        some { s with received := none, normal, lost := s.lost ++ lost }
  | .take true => s.prio.take.map fun prio => { s with prio }
  | .take false => s.normal.take.map fun normal => { s with normal }
  | .handle prio now written => do
      let request ← s.taken prio
      let handled : HandledRequest σ := ⟨request, s.server, s.service, now⟩
      let (_, server, service) := s.server.handle s.service request now
      some
        { s.release prio with
          server
          service
          handled := s.handled ++ [handled]
          sent := s.sent ++ handled.sendResponse written }
  | .lease request now generated => do
      let lease ← s.server.lease
      let (_, _, lease) := lease.serverRequestHandler request now generated
      some { s with server := { s.server with lease := some lease } }

/-! ## The queues as a pipeline -/

open LossyPipeline

/-- The requests on their way through the server. -/
def pipeline (s : ServerSystem σ) : Pipeline ServiceRequest Bool where
  front := s.received.toList ++ s.channel.queue
  lanes := s.lane
  arrived := s.arrived
  handled := s.handled.map HandledRequest.request
  lost := s.lost

/-- The number of requests that the queues of the stub hold. -/
def capacity : Bool → ℕ
  | true => 5
  | false => 10

theorem toOption_eq_some {ε α : Type} {action : Except ε α} {value : α}
    (found : action.toOption = some value) : action = .ok value := by
  cases action with
  | error failure => contradiction
  | ok result => exact congrArg Except.ok (Option.some.inj found)

/-- What an event can do. -/
inductive Stepped (s : ServerSystem σ) : ServerEvent → ServerSystem σ → Prop
  | arrive {request : ServiceRequest} {kept : Bool} {channel : BQueue ServiceRequest 10} :
      BQueue.Put s.channel request false kept channel → Stepped s (.arrive request)
        { s with
          channel
          arrived := s.arrived ++ [request]
          lost := if kept then s.lost else s.lost ++ [request] }
  | receive {request : ServiceRequest} {channel : BQueue ServiceRequest 10} :
      s.received = none → s.channel.queue = request :: channel.queue →
      Stepped s .receive { s with channel, received := some request }
  | enqueuePrio {request : ServiceRequest} {lost : List ServiceRequest} {prio : Lane 5} :
      s.received = some request → isPrio s.enablePriority request = true →
      s.prio.enqueue request = .ok (lost, prio) →
      Stepped s .enqueue { s with received := none, prio, lost := s.lost ++ lost }
  | enqueueNormal {request : ServiceRequest} {lost : List ServiceRequest} {normal : Lane 10} :
      s.received = some request → isPrio s.enablePriority request = false →
      s.normal.enqueue request = .ok (lost, normal) →
      Stepped s .enqueue { s with received := none, normal, lost := s.lost ++ lost }
  | takePrio {prio : Lane 5} : s.prio.take = some prio → Stepped s (.take true) { s with prio }
  | takeNormal {normal : Lane 10} : s.normal.take = some normal →
      Stepped s (.take false) { s with normal }
  | handle {prio written : Bool} {request : ServiceRequest} {now : ℤ} :
      s.taken prio = some request →
      Stepped s (.handle prio now written)
        { s.release prio with
          server := (s.server.handle s.service request now).2.1
          service := (s.server.handle s.service request now).2.2
          handled := s.handled ++ [⟨request, s.server, s.service, now⟩]
          sent := s.sent ++
            HandledRequest.sendResponse ⟨request, s.server, s.service, now⟩ written }
  | lease {request : Request LeaseParameter} {now generated : ℤ} {before after : LeaseServer} :
      s.server.lease = some before →
      Stepped s (.lease request now generated)
        { s with server := { s.server with lease := some after } }

/-- The inversion of a step. -/
theorem stepped_of_step {s after : ServerSystem σ} {event : ServerEvent}
    (ran : s.step event = some after) : Stepped s event after := by
  cases event with
  | arrive request =>
      obtain ⟨⟨kept, channel⟩, put, returned⟩ := Option.bind_eq_some_iff.mp ran
      obtain rfl := Option.some.inj returned
      exact .arrive (BQueue.put_of_put (toOption_eq_some put))
  | receive =>
      rw [step] at ran
      split at ran
      case h_1 request channel idle got =>
        obtain rfl := Option.some.inj ran
        exact .receive idle (BQueue.get_eq_some got)
      case h_2 => contradiction
  | enqueue =>
      obtain ⟨request, received, rest⟩ := Option.bind_eq_some_iff.mp ran
      split at rest
      case isTrue chosen =>
        obtain ⟨⟨lost, lane⟩, put, returned⟩ := Option.bind_eq_some_iff.mp rest
        obtain rfl := Option.some.inj returned
        exact .enqueuePrio received chosen (toOption_eq_some put)
      case isFalse chosen =>
        obtain ⟨⟨lost, lane⟩, put, returned⟩ := Option.bind_eq_some_iff.mp rest
        obtain rfl := Option.some.inj returned
        exact .enqueueNormal received (Bool.eq_false_iff.mpr chosen) (toOption_eq_some put)
  | take prio =>
      cases prio with
      | true =>
          obtain ⟨lane, took, rfl⟩ := Option.map_eq_some_iff.mp ran
          exact .takePrio took
      | false =>
          obtain ⟨lane, took, rfl⟩ := Option.map_eq_some_iff.mp ran
          exact .takeNormal took
  | handle prio now written =>
      obtain ⟨request, taken, returned⟩ := Option.bind_eq_some_iff.mp ran
      obtain rfl := Option.some.inj returned
      exact .handle taken
  | lease request now generated =>
      obtain ⟨lease, started, returned⟩ := Option.bind_eq_some_iff.mp ran
      obtain rfl := Option.some.inj returned
      exact .lease started

theorem lane_enqueue {maxLen : ℕ} {lane after : Lane maxLen} {request : ServiceRequest}
    {lost : List ServiceRequest} (ran : lane.enqueue request = .ok (lost, after)) :
    (lost = [] ∧ after.waiting = lane.waiting ++ [request]) ∨
      ∃ old before later, lost = [old] ∧ lane.waiting = before ++ old :: later ∧
        after.waiting = before ++ later ++ [request] ∧ maxLen ≤ lane.waiting.length := by
  obtain ⟨⟨kept, queue⟩, put, returned⟩ := Fallible.bind_eq_ok.mp ran
  obtain ⟨rfl, rfl⟩ := Prod.mk.inj (Except.ok.inj returned)
  cases BQueue.put_of_put put with
  | added room added =>
      refine .inl ⟨rfl, ?_⟩
      rw [Lane.waiting, Lane.waiting, added, List.append_assoc]
  | refused keeps => contradiction
  | @replaced _ first rest _ full found replaced =>
      refine .inr ⟨first, lane.taken.toList, rest, ?_, ?_, ?_, ?_⟩
      · simp [found]
      · rw [Lane.waiting, found]
      · rw [Lane.waiting, replaced, List.append_assoc]
      · rw [Lane.waiting, List.length_append, full]
        omega

theorem lane_take {maxLen : ℕ} {lane after : Lane maxLen} (took : lane.take = some after) :
    after.waiting = lane.waiting := by
  rw [Lane.take] at took
  split at took
  case h_1 request queue idle got =>
    obtain rfl := Option.some.inj took
    rw [Lane.waiting, Lane.waiting, idle, BQueue.get_eq_some got]
    rfl
  case h_2 => contradiction

/-- The requests wait in one of the two lanes. -/
theorem update_lane {s after : ServerSystem σ} {prio : Bool} {items : List ServiceRequest}
    (changed : after.lane prio = items) (kept : after.lane (!prio) = s.lane (!prio)) :
    after.lane = Function.update s.lane prio items := by
  funext other
  by_cases same : other = prio
  · subst same
    rw [Function.update_self, changed]
  · rw [Function.update_of_ne same]
    obtain rfl : other = !prio := by
      cases other <;> cases prio <;> simp_all
    exact kept

/-- The request that the thread of the channel holds is put into the queue of its class. -/
theorem moves_enqueue {s after : ServerSystem σ} {request : ServiceRequest} {prio : Bool}
    {lost : List ServiceRequest} (chosen : isPrio s.enablePriority request = prio)
    (received : s.received = some request) (emptied : after.received = none)
    (channel : after.channel = s.channel) (other : after.lane (!prio) = s.lane (!prio))
    (arrived : after.arrived = s.arrived) (handled : after.handled = s.handled)
    (grown : after.lost = s.lost ++ lost)
    (queued : (lost = [] ∧ after.lane prio = s.lane prio ++ [request]) ∨
      ∃ old before later, lost = [old] ∧ s.lane prio = before ++ old :: later ∧
        after.lane prio = before ++ later ++ [request] ∧
        capacity prio ≤ (s.lane prio).length) :
    Moves (isPrio s.enablePriority) 10 capacity s.pipeline after.pipeline := by
  subst chosen
  have front : s.pipeline.front = request :: s.channel.queue := by
    rw [pipeline, received]
    rfl
  have rest : after.pipeline.front = s.channel.queue := by
    rw [pipeline, emptied, channel]
    rfl
  have same : after.pipeline.handled = s.pipeline.handled :=
    congrArg (List.map HandledRequest.request) handled
  rcases queued with ⟨rfl, waiting⟩ | ⟨old, before, later, rfl, own, waiting, full⟩
  · refine (Moves.passed front).congr rest (update_lane waiting other) arrived same ?_
    exact grown.trans (List.append_nil _)
  · exact (Moves.replaced front own full).congr rest (update_lane waiting other) arrived same grown

theorem lane_of_taken {s : ServerSystem σ} {prio : Bool} {request : ServiceRequest}
    (taken : s.taken prio = some request) :
    s.lane prio = request :: (s.release prio).lane prio ∧
      (s.release prio).lane (!prio) = s.lane (!prio) := by
  cases prio with
  | true =>
      have taken : s.prio.taken = some request := taken
      exact ⟨by simp only [lane, release, Lane.waiting, taken]; rfl, rfl⟩
  | false =>
      have taken : s.normal.taken = some request := taken
      exact ⟨by simp only [lane, release, Lane.waiting, taken]; rfl, rfl⟩

/-- A thread that waits again changes nothing else. -/
theorem release_eq (s : ServerSystem σ) (prio : Bool) :
    (s.release prio).pipeline.front = s.pipeline.front ∧
      (s.release prio).arrived = s.arrived ∧ (s.release prio).lost = s.lost ∧
      (s.release prio).enablePriority = s.enablePriority := by
  cases prio <;> exact ⟨rfl, rfl, rfl, rfl⟩

/-- What an event does to the requests on their way. -/
theorem moves_of_step {s after : ServerSystem σ} {event : ServerEvent}
    (ran : s.step event = some after) :
    after.enablePriority = s.enablePriority ∧
      Moves (isPrio s.enablePriority) 10 capacity s.pipeline after.pipeline := by
  cases stepped_of_step ran with
  | @arrive request kept channel put =>
      refine ⟨rfl, ?_⟩
      cases put with
      | added room added =>
          refine (Moves.accepted request).congr ?_ rfl rfl rfl rfl
          simp only [pipeline, added, List.append_assoc]
      | refused _ full =>
          refine .refused request ?_
          rw [pipeline, List.length_append, full]
          omega
      | replaced replaces => contradiction
  | receive idle first =>
      refine ⟨rfl, Moves.idle.congr ?_ rfl rfl rfl rfl⟩
      simp only [pipeline, idle, first]
      rfl
  | enqueuePrio received chosen put =>
      exact ⟨rfl, moves_enqueue chosen received rfl rfl rfl rfl rfl rfl (lane_enqueue put)⟩
  | enqueueNormal received chosen put =>
      exact ⟨rfl, moves_enqueue chosen received rfl rfl rfl rfl rfl rfl (lane_enqueue put)⟩
  | takePrio took =>
      refine ⟨rfl, Moves.idle.congr rfl ?_ rfl rfl rfl⟩
      funext other
      cases other with
      | true => exact lane_take took
      | false => rfl
  | takeNormal took =>
      refine ⟨rfl, Moves.idle.congr rfl ?_ rfl rfl rfl⟩
      funext other
      cases other with
      | true => rfl
      | false => exact lane_take took
  | @handle prio written request now taken =>
      obtain ⟨own, other⟩ := lane_of_taken taken
      obtain ⟨front, arrived, lost, priority⟩ := release_eq s prio
      refine ⟨priority, (Moves.finished own).congr front (update_lane rfl other) arrived ?_ lost⟩
      exact List.map_append
  | lease => exact ⟨rfl, .idle⟩

/-! ## Runs of a server -/

/-- The requests on their way are in order and accounted for. -/
structure Sound (s : ServerSystem σ) : Prop where
  ordered : Ordered (isPrio s.enablePriority) s.pipeline
  conserved : Conserved s.pipeline

variable {registrations : List (Registration σ)} {service : σ} {enablePriority : Bool}
  {events : List ServerEvent} {s : ServerSystem σ}

theorem pipeline_init :
    (init registrations service enablePriority).pipeline = Pipeline.empty := by
  refine Pipeline.ext rfl ?_ rfl rfl rfl
  funext prio
  cases prio <;> rfl

theorem sound_init : (init registrations service enablePriority).Sound := by
  refine ⟨?_, ?_⟩
  · rw [pipeline_init]
    exact ordered_empty
  · rw [pipeline_init]
    exact conserved_empty

theorem Sound.step {after : ServerSystem σ} {event : ServerEvent} (sound : s.Sound)
    (stepped : s.step event = some after) : after.Sound := by
  obtain ⟨same, moves⟩ := moves_of_step stepped
  refine ⟨?_, sound.conserved.moves moves⟩
  rw [same]
  exact sound.ordered.moves moves

theorem sound_of_run
    (ran : EventRun.run step (init registrations service enablePriority) events = some s) :
    s.Sound ∧ s.enablePriority = enablePriority := by
  refine @EventRun.invariant _ _ step
    (fun s => s.Sound ∧ s.enablePriority = enablePriority) _ s events ⟨sound_init, rfl⟩ ?_ ran
  rintro before event after ⟨sound, same⟩ stepped
  exact ⟨sound.step stepped, (moves_of_step stepped).1.trans same⟩

/-- Every handled request has arrived. -/
theorem Sound.handled_subperm (sound : s.Sound) :
    (s.handled.map HandledRequest.request).Subperm s.arrived := by
  rw [← Multiset.coe_le, show (s.arrived : Multiset ServiceRequest) = _ from sound.conserved,
    add_assoc, add_assoc]
  exact Multiset.le_add_right _ _

/-- The handled requests of one of the two threads, in the order of their handling. -/
def handledOf (s : ServerSystem σ) (prio : Bool) : List ServiceRequest :=
  ofClass (isPrio s.enablePriority) prio (s.handled.map HandledRequest.request)

/-- The requests for one of the two threads, in the order of their arrival. -/
def arrivedOf (s : ServerSystem σ) (prio : Bool) : List ServiceRequest :=
  ofClass (isPrio s.enablePriority) prio s.arrived

/-- A request that arrives is recorded. -/
theorem arrived_of_step {after : ServerSystem σ} {event : ServerEvent}
    (ran : s.step event = some after) :
    ∀ request ∈ after.arrived, request ∈ s.arrived ∨ event = .arrive request := by
  intro other member
  cases stepped_of_step ran with
  | arrive =>
      rcases List.mem_append.mp member with old | new
      · exact .inl old
      · rw [List.mem_singleton.mp new]
        exact .inr rfl
  | @handle prio written request now taken => exact .inl ((release_eq s prio).2.1 ▸ member)
  | receive => exact .inl member
  | enqueuePrio => exact .inl member
  | enqueueNormal => exact .inl member
  | takePrio => exact .inl member
  | takeNormal => exact .inl member
  | lease => exact .inl member

/-- What an event does to the handled requests and the responses. -/
theorem sent_of_step {after : ServerSystem σ} {event : ServerEvent}
    (ran : s.step event = some after) :
    (after.handled = s.handled ∧ after.sent = s.sent) ∨
      ∃ prio now written request, event = .handle prio now written ∧
        s.taken prio = some request ∧
        after.handled = s.handled ++ [⟨request, s.server, s.service, now⟩] ∧
        after.sent = s.sent ++
          HandledRequest.sendResponse ⟨request, s.server, s.service, now⟩ written := by
  cases stepped_of_step ran with
  | arrive => exact .inl ⟨rfl, rfl⟩
  | receive => exact .inl ⟨rfl, rfl⟩
  | enqueuePrio => exact .inl ⟨rfl, rfl⟩
  | enqueueNormal => exact .inl ⟨rfl, rfl⟩
  | takePrio => exact .inl ⟨rfl, rfl⟩
  | takeNormal => exact .inl ⟨rfl, rfl⟩
  | @handle prio written request now taken =>
      exact .inr ⟨prio, now, written, request, rfl, taken, rfl, rfl⟩
  | lease => exact .inl ⟨rfl, rfl⟩

/-- The requests that want a response. -/
def wanting (handled : List (HandledRequest σ)) : List ServiceRequest :=
  (handled.map HandledRequest.request).filter fun request => !request.noreply

theorem wanting_append (handled : List (HandledRequest σ)) (last : HandledRequest σ) :
    wanting (handled ++ [last]) =
      wanting handled ++ if last.request.noreply then [] else [last.request] := by
  rw [wanting, List.map_append, List.filter_append]
  cases replies : last.request.noreply <;> simp [wanting, replies]

theorem fst_sendResponse (handled : HandledRequest σ) (written : Bool) :
    (handled.sendResponse written).map Prod.fst =
      if written ∧ handled.request.noreply = false then [handled.request] else [] := by
  rw [HandledRequest.sendResponse, HandledRequest.response]
  cases written <;> cases handled.request.noreply <;> rfl

theorem identity_of_sendResponse {handled : HandledRequest σ} {written : Bool}
    {answered : ServiceRequest × ServiceResponse}
    (member : answered ∈ handled.sendResponse written) :
    handled.request = answered.1 ∧ handled.response = some answered.2 ∧
      answered.2.identity = answered.1.identity := by
  rw [HandledRequest.sendResponse] at member
  split at member
  case isTrue =>
    obtain ⟨response, responded, rfl⟩ := Option.map_eq_some_iff.mp (Option.mem_toList.mp member)
    refine ⟨rfl, responded, ?_⟩
    rw [HandledRequest.response] at responded
    obtain ⟨-, same⟩ := Option.ite_none_left_eq_some.mp responded
    obtain rfl := Option.some.inj same
    rfl
  case isFalse => exact absurd member List.not_mem_nil

/-- Each handled request that wants a response gets at most one, under its identity. -/
structure Answering (s : ServerSystem σ) : Prop where
  requests : (s.sent.map Prod.fst).Sublist (wanting s.handled)
  identity : ∀ answered ∈ s.sent, answered.2.identity = answered.1.identity

theorem answering_init : (init registrations service enablePriority).Answering :=
  ⟨List.Sublist.refl _, fun _ member => absurd member List.not_mem_nil⟩

theorem Answering.step {after : ServerSystem σ} {event : ServerEvent} (answering : s.Answering)
    (stepped : s.step event = some after) : after.Answering := by
  rcases sent_of_step stepped with
    ⟨handled, sent⟩ | ⟨prio, now, written, request, -, -, handled, sent⟩
  · refine ⟨?_, ?_⟩
    · rw [handled, sent]
      exact answering.requests
    · rw [sent]
      exact answering.identity
  · refine ⟨?_, fun answered member => ?_⟩
    · rw [handled, sent, wanting_append, List.map_append, fst_sendResponse]
      refine answering.requests.append ?_
      cases written <;> cases request.noreply <;> simp
    · rw [sent] at member
      rcases List.mem_append.mp member with old | new
      · exact answering.identity answered old
      · exact (identity_of_sendResponse new).2.2

/-- When every response is written, every handled request that wants a response has got one. -/
theorem sent_eq_of_run
    (ran : EventRun.run step (init registrations service enablePriority) events = some s)
    (written : ∀ prio now, .handle prio now false ∉ events) :
    s.sent.map Prod.fst = wanting s.handled := by
  refine @EventRun.invariant_traced _ _ step (fun events s =>
    (∀ prio now, .handle prio now false ∉ events) → s.sent.map Prod.fst = wanting s.handled) _
    (fun _ => rfl) ?_ events s ran written
  intro events before event after _ same stepped written
  have earlier := same fun prio now member => written prio now (List.mem_append_left _ member)
  rcases sent_of_step stepped with
    ⟨handled, sent⟩ | ⟨prio, now, outcome, request, rfl, -, handled, sent⟩
  · rw [handled, sent, earlier]
  · cases outcome with
    | false => exact absurd (List.mem_append_right _ List.mem_cons_self) (written prio now)
    | true =>
        rw [handled, sent, wanting_append, List.map_append, fst_sendResponse, earlier]
        cases request.noreply <;> simp

/-- In every interleaving of arrivals and threads, each thread handles its requests in the order of
their arrival; at most one response goes out for each handled request that wants one, under its
identity, and one does when every response is written; and when the ids of the arrived requests
differ, so do those of the responses. -/
theorem handled_in_order
    (ran : EventRun.run step (init registrations service enablePriority) events = some s) :
    (∀ prio, (s.handledOf prio ++ s.lane prio).Sublist (s.arrivedOf prio)) ∧
      (s.sent.map Prod.fst).Sublist
        ((s.handled.map HandledRequest.request).filter fun request => !request.noreply) ∧
      (∀ answered ∈ s.sent, answered.2.identity = answered.1.identity) ∧
      ((∀ prio now, .handle prio now false ∉ events) → s.sent.map Prod.fst =
        (s.handled.map HandledRequest.request).filter fun request => !request.noreply) ∧
      ((s.arrived.map fun request => request.identity.id).Nodup →
        (s.sent.map fun answered => answered.2.identity.id).Nodup) := by
  obtain ⟨sound, -⟩ := sound_of_run ran
  have answering : s.Answering :=
    EventRun.invariant answering_init (fun _ _ _ answering => answering.step) ran
  refine ⟨fun prio => ?_, answering.requests, answering.identity, sent_eq_of_run ran,
    fun distinct => ?_⟩
  · exact (List.sublist_append_left _ _).trans (sound.ordered.kept prio)
  · obtain ⟨some_arrived, perm, sublist⟩ := sound.handled_subperm
    have ids : s.sent.map (fun answered => answered.2.identity.id) =
        (s.sent.map Prod.fst).map fun request => request.identity.id := by
      rw [List.map_map]
      refine List.map_congr_left fun answered member => ?_
      rw [answering.identity answered member]
      rfl
    rw [ids]
    have nodup : ((s.handled.map HandledRequest.request).map
        fun request => request.identity.id).Nodup :=
      (perm.map _).nodup_iff.mp (distinct.sublist (sublist.map _))
    exact nodup.sublist ((answering.requests.trans List.filter_sublist).map _)

/-- A service that counts its calls and repeats the parameter; its binary method is not reached. -/
def echoRegistrations : List (Registration ℕ) :=
  [.lease 10, .handler 7 (fun text calls => (.ok (0, text), calls + 1)) true,
    .binaryHandler 8 (fun data calls => (.ok (0, data), calls + 1)) false]

def slowRequest : ServiceRequest where
  identity := ⟨1, 8⟩
  payload := ("slow", [])

def urgentRequest : ServiceRequest where
  identity := ⟨2, 7⟩
  priority := 1
  payload := ("urgent", [])

/-- The urgent request overtakes the slow one. -/
def overtakingEvents : List ServerEvent :=
  [.arrive slowRequest, .receive, .enqueue, .arrive urgentRequest, .receive, .enqueue,
    .take true, .take false, .handle true 0 true, .handle false 0 true]

theorem reaches_overtaking : EventRun.Reaches step (init echoRegistrations 0 true) overtakingEvents
    fun s => s.arrived = [slowRequest, urgentRequest] ∧
      s.handled.map HandledRequest.request = [urgentRequest, slowRequest] ∧ s.handledOf false =
        [slowRequest] := by
  decide +kernel

theorem handled_in_order_overtaking : ∃ s,
    EventRun.run step (init echoRegistrations 0 true) overtakingEvents = some s ∧
      s.sent.map Prod.fst = [urgentRequest, slowRequest] := by
  obtain ⟨s, ran, -, handled, -⟩ := reaches_overtaking
  obtain ⟨-, -, -, answered, -⟩ := handled_in_order ran
  refine ⟨s, ran, ?_⟩
  rw [answered (by simp [overtakingEvents]), handled]
  rfl

/-- Never more requests on their way than the queues hold. -/
def Few (s : ServerSystem σ) : Prop :=
  s.arrived.length ≤ s.handled.length + 10 ∧
    (s.arrivedOf true).length ≤ (s.handledOf true).length + 5

theorem Sound.length_handledOf_le (sound : s.Sound) (prio : Bool) :
    (s.handledOf prio).length ≤ (s.arrivedOf prio).length := by
  have lengths := (sound.ordered.kept prio).length_le
  rw [kept, List.length_append, List.length_append] at lengths
  have handled : (s.handledOf prio).length =
    (ofClass (isPrio s.enablePriority) prio s.pipeline.handled).length := rfl
  have arrived : (s.arrivedOf prio).length =
    (ofClass (isPrio s.enablePriority) prio s.pipeline.arrived).length := rfl
  omega

theorem length_ofClass_add (enablePriority : Bool) (requests : List ServiceRequest) :
    (ofClass (isPrio enablePriority) true requests).length +
      (ofClass (isPrio enablePriority) false requests).length = requests.length := by
  induction requests with
  | nil => rfl
  | cons request requests induction =>
      cases chosen : isPrio enablePriority request with
      | true => simp [ofClass, chosen] at induction ⊢; omega
      | false => simp [ofClass, chosen] at induction ⊢; omega

theorem Sound.few_of_class (sound : s.Sound) (few : s.Few) (prio : Bool) :
    (ofClass (isPrio s.enablePriority) prio s.pipeline.arrived).length ≤
      (ofClass (isPrio s.enablePriority) prio s.pipeline.handled).length + capacity prio := by
  obtain ⟨total, ofPrio⟩ := few
  cases prio with
  | true => exact ofPrio
  | false =>
      have arrived := length_ofClass_add s.enablePriority s.pipeline.arrived
      have handled := length_ofClass_add s.enablePriority s.pipeline.handled
      have more : (ofClass (isPrio s.enablePriority) true s.pipeline.handled).length ≤
        (ofClass (isPrio s.enablePriority) true s.pipeline.arrived).length :=
        sound.length_handledOf_le true
      have length : s.pipeline.handled.length = s.handled.length := List.length_map _
      have same : s.pipeline.arrived.length = s.arrived.length := rfl
      rw [capacity]
      omega

/-- At rest, with nothing lost, the handled requests of a thread are the arrived ones. -/
theorem Sound.handledOf_eq (sound : s.Sound) (lost : s.lost = [])
    (front : s.pipeline.front = []) (lanes : ∀ prio, s.lane prio = []) (prio : Bool) :
    s.handledOf prio = s.arrivedOf prio := by
  have total : (s.pipeline.arrived : Multiset ServiceRequest) = s.pipeline.handled := by
    have nothing : ∀ prio, (s.pipeline.lanes prio : Multiset ServiceRequest) = 0 := fun prio => by
      rw [show s.pipeline.lanes prio = [] from lanes prio, Multiset.coe_nil]
    rw [sound.conserved, front, show s.pipeline.lost = [] from lost,
      Finset.sum_eq_zero fun prio _ => nothing prio]
    simp
  have sublist := sound.ordered.kept prio
  rw [kept, show s.pipeline.lanes prio = [] from lanes prio, front] at sublist
  simp only [ofClass_nil, List.append_nil] at sublist
  exact sublist.eq_of_length ((Multiset.coe_eq_coe.mp total).symm.filter _).length_eq

/-- A server that never has too many requests on their way loses none; a server at rest has then
handled all requests of each thread in the order of their arrival. -/
theorem nothing_lost
    (ran : EventRun.run step (init registrations service enablePriority) events = some s)
    (few : ∀ earlier, earlier <+: events → ∀ before,
      EventRun.run step (init registrations service enablePriority) earlier = some before →
        before.Few) :
    s.lost = [] ∧ (s.pipeline.front = [] → (∀ prio, s.lane prio = []) →
      ∀ prio, s.handledOf prio = s.arrivedOf prio) := by
  have lost : s.lost = [] := by
    refine @EventRun.invariant_traced _ _ step
      (fun earlier before => earlier <+: events → before.lost = []) _ (fun _ => rfl) ?_ events s
      ran (List.prefix_refl _)
    intro earlier before event next reached unlost stepped extends_
    have shorter : earlier <+: events := (List.prefix_append _ _).trans extends_
    obtain ⟨sound, -⟩ := sound_of_run reached
    have fewNext := few _ extends_ next
      (EventRun.run_append_singleton_eq_some.mpr ⟨before, reached, stepped⟩)
    have kept := lost_eq sound.ordered sound.conserved (moves_of_step stepped).2
      (by
        rw [pipeline]
        dsimp only
        rw [List.length_map]
        exact fewNext.1)
      (sound.few_of_class (few _ shorter before reached))
    exact kept.trans (unlost shorter)
  obtain ⟨sound, -⟩ := sound_of_run ran
  exact ⟨lost, fun front lanes prio => sound.handledOf_eq lost front lanes prio⟩

instance (s : ServerSystem ℕ) : Decidable s.Few :=
  inferInstanceAs (Decidable (_ ∧ _))

theorem nothing_lost_overtaking : ∃ s,
    EventRun.run step (init echoRegistrations 0 true) overtakingEvents = some s ∧
      s.lost = [] := by
  have few : (overtakingEvents.inits.all fun earlier =>
      match EventRun.run step (init echoRegistrations 0 true) earlier with
      | some before => decide before.Few
      | none => true) = true := by
    decide +kernel
  obtain ⟨s, ran, -⟩ := reaches_overtaking
  refine ⟨s, ran, (nothing_lost ran fun earlier shorter before reached => ?_).1⟩
  have holds := List.all_eq_true.mp few earlier ((List.mem_inits _ _).mpr shorter)
  rw [reached] at holds
  exact of_decide_eq_true holds

end ServerSystem

/-! ## Which handler answers -/

namespace Server

variable {σ : Type} {registrations : List (Registration σ)} {server : Server σ}

/-- The handler and the lease check that a registration gives to an api. -/
def textHandler (apiId : ℤ) : Registration σ → Option (Handler σ × Bool)
  | .handler id handler checkLease => if id = apiId then some (handler, checkLease) else none
  | _ => none

/-- The version that a registration sets. -/
def version : Registration σ → Option String
  | .apiVersion apiVersion => some apiVersion
  | _ => none

theorem setup_append (registration : Registration σ) :
    setup (registrations ++ [registration]) = ((setup registrations).regist registration).2 := by
  rw [setup, List.foldl_append]
  rfl

theorem apiVersion_setup :
    (setup registrations).apiVersion = (registrations.reverse.findSome? version).getD "" := by
  induction registrations using List.reverseRecOn with
  | nil => rfl
  | append_singleton registrations registration induction =>
      rw [setup_append, List.reverse_append, List.reverse_singleton, List.singleton_append,
        List.findSome?_cons]
      cases registration with
      | apiVersion apiVersion => rfl
      | handler id handler checkLease => exact induction
      | binaryHandler id handler checkLease => exact induction
      | lease term => exact induction

theorem lease_setup :
    (setup registrations).lease.isSome ↔ ∃ term, .lease term ∈ registrations := by
  induction registrations using List.reverseRecOn with
  | nil => simp [setup]
  | append_singleton registrations registration induction =>
      rw [setup_append]
      cases registration <;> simp [regist, induction]

/-- No api is binary, and the last registration of an api counts. -/
theorem lookup_setup (apiId : ℤ) :
    (setup registrations).apiBinarySet = ∅ ∧
      (setup registrations).apiHandlerMapping.lookup apiId =
        registrations.reverse.findSome? (textHandler apiId) := by
  induction registrations using List.reverseRecOn with
  | nil => exact ⟨rfl, rfl⟩
  | append_singleton registrations registration induction =>
      obtain ⟨empty, found⟩ := induction
      rw [setup_append, List.reverse_append, List.reverse_singleton, List.singleton_append,
        List.findSome?_cons]
      cases registration with
      | handler id handler checkLease =>
          refine ⟨empty, ?_⟩
          by_cases same : id = apiId
          · subst same
            simp [regist, textHandler]
          · simp [regist, textHandler, same, AList.lookup_insert_ne (Ne.symm same), found]
      | apiVersion apiVersion => exact ⟨empty, found⟩
      | binaryHandler id handler checkLease => exact ⟨empty, found⟩
      | lease term => exact ⟨empty, found⟩

theorem getHandler_eq {apiId : ℤ} (empty : server.apiBinarySet = ∅) :
    server.getHandler apiId =
      (server.apiHandlerMapping.lookup apiId).map fun entry => (.inl entry.1, entry.2) := by
  rw [getHandler, isBinary, empty]
  rfl

/-- Requests change nothing of a server but the state of its lease server. -/
structure SameApi (server other : Server σ) : Prop where
  apiVersion : other.apiVersion = server.apiVersion
  apiHandlerMapping : other.apiHandlerMapping = server.apiHandlerMapping
  apiBinarySet : other.apiBinarySet = server.apiBinarySet
  lease : other.lease.isSome = server.lease.isSome

theorem SameApi.refl (server : Server σ) : SameApi server server := ⟨rfl, rfl, rfl, rfl⟩

theorem SameApi.trans {first second third : Server σ} (left : SameApi first second)
    (right : SameApi second third) : SameApi first third :=
  ⟨right.apiVersion.trans left.apiVersion, right.apiHandlerMapping.trans left.apiHandlerMapping,
    right.apiBinarySet.trans left.apiBinarySet, right.lease.trans left.lease⟩

theorem sameApi_checkLeaseDenied (server : Server σ) (checkLease : Bool) (now leaseId : ℤ) :
    SameApi server (server.checkLeaseDenied checkLease now leaseId).2 := by
  unfold checkLeaseDenied
  split
  case h_1 lease started => exact ⟨rfl, rfl, rfl, by rw [started]; rfl⟩
  case h_2 => exact .refl server

theorem sameApi_handle (server : Server σ) (service : σ) (request : ServiceRequest) (now : ℤ) :
    SameApi server (server.handle service request now).2.1 := by
  rw [handle]
  split
  · exact .refl server
  · split
    · exact .refl server
    · dsimp only
      split <;> exact sameApi_checkLeaseDenied ..

/-- A response with an error code carries no data. -/
theorem invoke_error {handler : Handler σ ⊕ BinaryHandler σ} {payload : String × List ℕ}
    {service : σ} (failed : (invoke handler payload service).1.1 ≠ 0) :
    (invoke handler payload service).1.2 = ("", []) := by
  cases handler with
  | inl handler =>
      rw [invoke] at failed ⊢
      split at failed
      case h_1 code data after => rw [if_pos failed]
      case h_2 => rfl
  | inr handler =>
      rw [invoke] at failed ⊢
      split at failed
      case h_1 code data after => rw [if_pos failed]
      case h_2 => rfl

/-- What a server whose set of binary apis is empty does with a request. -/
inductive Handled (server : Server σ) (service : σ) (request : ServiceRequest) (now : ℤ) :
    ℤ × String × List ℕ → σ → Prop
  | apiVersion : request.identity.apiId = apiIdInternalApiVersion →
      Handled server service request now (0, server.apiVersion, []) service
  | notImplemented : request.identity.apiId ≠ apiIdInternalApiVersion →
      server.apiHandlerMapping.lookup request.identity.apiId = none →
      Handled server service request now (errServerApiNotImpl, "", []) service
  | denied {handler : Handler σ} {checkLease : Bool} :
      request.identity.apiId ≠ apiIdInternalApiVersion →
      server.apiHandlerMapping.lookup request.identity.apiId = some (handler, checkLease) →
      (server.checkLeaseDenied checkLease now request.leaseId).1 = true →
      Handled server service request now (errServerLeaseDenied, "", []) service
  | invoked {handler : Handler σ} {checkLease : Bool} :
      request.identity.apiId ≠ apiIdInternalApiVersion →
      server.apiHandlerMapping.lookup request.identity.apiId = some (handler, checkLease) →
      (server.checkLeaseDenied checkLease now request.leaseId).1 = false →
      Handled server service request now (invoke (.inl handler) request.payload service).1
        (invoke (.inl handler) request.payload service).2

/-- The inversion of the request handler. -/
theorem handled_handle (empty : server.apiBinarySet = ∅) (service : σ) (request : ServiceRequest)
    (now : ℤ) :
    Handled server service request now (server.handle service request now).1
      (server.handle service request now).2.2 := by
  rw [handle]
  split
  case isTrue version => exact .apiVersion version
  case isFalse other =>
    rw [getHandler_eq empty]
    cases found : server.apiHandlerMapping.lookup request.identity.apiId with
    | none => exact .notImplemented other found
    | some entry =>
        obtain ⟨handler, checkLease⟩ := entry
        dsimp only [Option.map_some]
        split
        case isTrue denied => exact .denied other found denied
        case isFalse allowed =>
          exact .invoked other found (Bool.eq_false_iff.mpr allowed)

end Server

namespace ServerSystem

variable {σ : Type} {registrations : List (Registration σ)} {service : σ} {enablePriority : Bool}
  {events : List ServerEvent} {s : ServerSystem σ}

/-- An event keeps the registrations of the server. -/
theorem sameApi_of_step {after : ServerSystem σ} {event : ServerEvent}
    (ran : s.step event = some after) : s.server.SameApi after.server := by
  cases stepped_of_step ran with
  | arrive => exact .refl s.server
  | receive => exact .refl s.server
  | enqueuePrio => exact .refl s.server
  | enqueueNormal => exact .refl s.server
  | takePrio => exact .refl s.server
  | takeNormal => exact .refl s.server
  | handle => exact Server.sameApi_handle ..
  | lease started => exact ⟨rfl, rfl, rfl, by rw [started]; rfl⟩

/-- A server keeps its registrations, and its requests are handled under them. -/
theorem sameApi_of_run
    (ran : EventRun.run step (init registrations service enablePriority) events = some s) :
    (Server.setup registrations).SameApi s.server ∧
      ∀ handled ∈ s.handled, (Server.setup registrations).SameApi handled.server := by
  refine @EventRun.invariant _ _ step (fun s => (Server.setup registrations).SameApi s.server ∧
    ∀ handled ∈ s.handled, (Server.setup registrations).SameApi handled.server) _ s events
    ⟨.refl _, fun _ member => absurd member List.not_mem_nil⟩ ?_ ran
  rintro before event after ⟨same, served⟩ stepped
  refine ⟨same.trans (sameApi_of_step stepped), fun record member => ?_⟩
  rcases sent_of_step stepped with
    ⟨handled, -⟩ | ⟨prio, now, written, request, -, -, handled, -⟩
  · exact served record (handled ▸ member)
  · rw [handled] at member
    rcases List.mem_append.mp member with old | new
    · exact served record old
    · obtain rfl := List.mem_singleton.mp new
      exact same

/-- How a request is answered under some registrations, its lease being checked by the server as the
handler found it. -/
structure AnsweredBy (registrations : List (Registration σ)) (handled : HandledRequest σ) :
    Prop where
  error : handled.answer.1 ≠ 0 → handled.answer.2 = ("", [])
  apiVersion : handled.request.identity.apiId = apiIdInternalApiVersion →
    handled.answer = (0, (registrations.reverse.findSome? Server.version).getD "", [])
  notImplemented : handled.request.identity.apiId ≠ apiIdInternalApiVersion →
    registrations.reverse.findSome? (Server.textHandler handled.request.identity.apiId) = none →
      handled.answer = (errServerApiNotImpl, "", [])
  registered : handled.request.identity.apiId ≠ apiIdInternalApiVersion →
    ∀ handler checkLease, registrations.reverse.findSome?
        (Server.textHandler handled.request.identity.apiId) = some (handler, checkLease) →
      handled.answer =
        if (handled.server.checkLeaseDenied checkLease handled.now handled.request.leaseId).1 then
          (errServerLeaseDenied, "", [])
        else (Server.invoke (.inl handler) handled.request.payload handled.service).1

theorem answeredBy_of_sameApi {handled : HandledRequest σ}
    (same : (Server.setup registrations).SameApi handled.server) :
    AnsweredBy registrations handled := by
  obtain ⟨empty, found⟩ := @Server.lookup_setup σ registrations handled.request.identity.apiId
  rw [← same.apiHandlerMapping] at found
  have version := same.apiVersion.trans Server.apiVersion_setup
  have answered := Server.handled_handle (same.apiBinarySet.trans empty) handled.service
    handled.request handled.now
  rw [show (handled.server.handle handled.service handled.request handled.now).1 =
    handled.answer from rfl] at answered
  generalize same : handled.answer = answer at answered
  generalize (handled.server.handle handled.service handled.request handled.now).2.2 = after
    at answered
  cases answered with
  | apiVersion own =>
      refine ⟨fun failed => ?_, fun _ => ?_, fun other => absurd own other,
        fun other => absurd own other⟩
      · rw [same] at failed
        exact absurd rfl failed
      · rw [same, version]
  | notImplemented other unknown =>
      refine ⟨fun _ => ?_, fun own => absurd own other, fun _ _ => same, ?_⟩
      · rw [same]
      · rintro - handler checkLease known
        cases unknown.symm.trans (found.trans known)
  | denied other listed denied =>
      refine ⟨fun _ => ?_, fun own => absurd own other, ?_, ?_⟩
      · rw [same]
      · intro _ unknown
        cases listed.symm.trans (found.trans unknown)
      · rintro - handler checkLease known
        obtain ⟨rfl, rfl⟩ := Prod.mk.inj (Option.some.inj (listed.symm.trans (found.trans known)))
        rw [same, if_pos denied]
  | invoked other listed allowed =>
      refine ⟨fun failed => ?_, fun own => absurd own other, ?_, ?_⟩
      · rw [same] at failed ⊢
        exact Server.invoke_error failed
      · intro _ unknown
        cases listed.symm.trans (found.trans unknown)
      · rintro - handler checkLease known
        obtain ⟨rfl, rfl⟩ := Prod.mk.inj (Option.some.inj (listed.symm.trans (found.trans known)))
        rw [same, if_neg (Bool.eq_false_iff.mp allowed)]

/-- Whatever a service registers, in whatever order, and whatever exceptions it catches: the version
and the last text handler of an api answer, unless the lease server denies the request; an api that
has only a binary handler is answered like an unknown one; an error is answered without data; and
there is a lease server when one was started. -/
theorem answered_by_registration
    (ran : EventRun.run step (init registrations service enablePriority) events = some s)
    {handled : HandledRequest σ} (member : handled ∈ s.handled) :
    AnsweredBy registrations handled ∧
      (handled.server.lease.isSome ↔ ∃ term, .lease term ∈ registrations) := by
  have same := (sameApi_of_run ran).2 handled member
  exact ⟨answeredBy_of_sameApi same, by rw [same.lease, Server.lease_setup]⟩

theorem answered_by_registration_overtaking : ∃ s,
    EventRun.run step (init echoRegistrations 0 true) overtakingEvents = some s ∧
      ∃ handled ∈ s.handled, handled.answer = (errServerApiNotImpl, "", []) ∧
        handled.server.lease.isSome := by
  obtain ⟨s, ran, -, requests, -⟩ := reaches_overtaking
  have member : slowRequest ∈ s.handled.map HandledRequest.request := by
    rw [requests]
    simp
  obtain ⟨handled, listed, same⟩ := List.mem_map.mp member
  obtain ⟨answered, leased⟩ := answered_by_registration ran listed
  refine ⟨s, ran, handled, listed, answered.notImplemented ?_ ?_, ?_⟩
  · rw [same]
    decide
  · rw [same]
    rfl
  · exact leased.mpr ⟨10, List.mem_cons_self⟩

end ServerSystem

end G1Jepa.Rpc
