import G1Jepa.Library.Dict
import G1Jepa.Library.EventRun

/-!
# Remote calls of the robot SDK

The client side of `unitree_sdk2py/rpc`. A call registers a future under the id of its request,
writes the request to a channel and waits; a handler thread looks up the future of every response
that arrives. `RpcSystem` runs any number of clients and of calls against a server and a network
that loses, delays, reorders and repeats messages.
-/

namespace G1Jepa.Rpc

/-! ## Codes -/

def errUnknown : ℤ := 3001
def errClientSend : ℤ := 3102
def errClientApiTimeout : ℤ := 3104
def errClientApiNotMatch : ℤ := 3105

/-! ## Messages -/

/-- `RequestIdentity_`. -/
structure RequestIdentity where
  id : ℤ
  apiId : ℤ
  deriving DecidableEq

/-- `Request_`; the payload is its parameter with its binary part. -/
structure Request (P : Type) where
  identity : RequestIdentity
  leaseId : ℤ := 0
  priority : ℤ := 0
  noreply : Bool := false
  payload : P
  deriving DecidableEq

/-- `Response_`. -/
structure Response (D : Type) where
  identity : RequestIdentity
  code : ℤ
  data : D
  deriving DecidableEq

/-! ## Futures -/

/-- The states of a `Future`, with the value or the message that it holds. -/
inductive Future (V : Type)
  | deferred
  | ready (value : V)
  | failed (message : String)
  deriving DecidableEq

/-- What `GetResult` returns. -/
inductive FutureResult (V : Type)
  | success (value : V)
  | timeout
  | failed (message : String)
  | unknown

namespace Future

variable {V : Type}

/-- `Ready`: whether the value was taken, and the future after the call. -/
def setReady (future : Future V) (value : V) : Bool × Future V :=
  match future with
  | deferred => (true, ready value)
  | ready old => (false, ready old)
  | failed message => (false, failed message)

/-- `__WaitResult`, given what `__Wait` returned: a wait that timed out does not look at the
future again. -/
def waitResult (future : Future V) (waited : Bool) : FutureResult V :=
  if !waited then .timeout
  else
    match future with
    | deferred => .unknown
    | ready value => .success value
    | failed message => .failed message

/-- `__IsDeferred`. -/
def isDeferred : Future V → Bool
  | deferred => true
  | ready _ => false
  | failed _ => false

end Future

/-- `RequestFutureQueue`: the numbers of the calls that wait, under the ids of their requests. -/
abbrev RequestFutureQueue := Dict ℤ ℕ

namespace RequestFutureQueue

/-- `Set`, which replaces an entry under the same id. -/
def set (queue : RequestFutureQueue) (requestId : ℤ) (call : ℕ) : RequestFutureQueue :=
  queue.insert requestId call

/-- `Get`, which removes what it finds. -/
def get (queue : RequestFutureQueue) (requestId : ℤ) : Option ℕ × RequestFutureQueue :=
  match queue.lookup requestId with
  | none => (none, queue)
  | some call => (some call, queue.erase requestId)

/-- `Remove`. Its membership test reads Python's builtin `id` in place of the argument; the
function object is never among the keys, so nothing is removed. -/
def remove (queue : RequestFutureQueue) (_requestId : ℤ) : RequestFutureQueue :=
  queue

end RequestFutureQueue

/-! ## Calls -/

/-- The pair that a call returns. -/
structure CallResult (D : Type) where
  code : ℤ
  data : Option D
  deriving DecidableEq

/-- A call of `_CallBase`: its request, its future and the result once it has returned. -/
structure Call (P D : Type) where
  request : Request P
  future : Future (Response D) := .deferred
  result : Option (CallResult D) := none
  deriving DecidableEq

variable {P D : Type}

/-- The end of `_CallBase`, from the result of the future. -/
def callResult (request : Request P) : FutureResult (Response D) → CallResult D
  | .success response =>
      if response.identity.apiId ≠ request.identity.apiId then ⟨errClientApiNotMatch, none⟩
      else ⟨response.code, some response.data⟩
  | .timeout => ⟨errClientApiTimeout, none⟩
  | .failed _ => ⟨errUnknown, none⟩
  | .unknown => ⟨errUnknown, none⟩

/-- `future.Ready(response)` on the future of a call. -/
def Call.deliver (response : Response D) (call : Call P D) : Call P D :=
  { call with future := (call.future.setReady response).2 }

/-- The call returns after a wait. -/
def Call.finish (waited : Bool) (call : Call P D) : Call P D :=
  { call with result := some (callResult call.request (call.future.waitResult waited)) }

/-- `ClientStub`, with the calls that were made through it in the order of their starts. -/
structure ClientStub (P D : Type) where
  futureQueue : RequestFutureQueue := ∅
  calls : List (Call P D) := []

namespace ClientStub

/-- The requests of the calls, in the order of their starts. -/
def requests (stub : ClientStub P D) : List (Request P) :=
  stub.calls.map Call.request

/-- `SendRequest`; `written` is what the channel returns. -/
def sendRequest (stub : ClientStub P D) (request : Request P) (written : Bool) :
    ClientStub P D :=
  let requestId := request.identity.id
  let queue := RequestFutureQueue.set stub.futureQueue requestId stub.calls.length
  if written then { futureQueue := queue, calls := stub.calls ++ [{ request }] }
  else
    { futureQueue := queue.remove requestId
      calls := stub.calls ++ [{ request, result := some ⟨errClientSend, none⟩ }] }

/-- `__ResponseHandler`. -/
def responseHandler (stub : ClientStub P D) (response : Response D) : ClientStub P D :=
  match RequestFutureQueue.get stub.futureQueue response.identity.id with
  | (none, _) => stub
  | (some n, queue) =>
      { futureQueue := queue, calls := stub.calls.modify n (Call.deliver response) }

/-- The thread of call `n` goes on after its wait; `RemoveFuture` follows a wait without success. -/
def wake (stub : ClientStub P D) (n : ℕ) (waited : Bool) : Option (ClientStub P D) :=
  match stub.calls[n]? with
  | none => none
  | some call =>
      -- A wait ends with `True` only when the future has left its first state.
      if call.result.isSome || waited && call.future.isDeferred then none
      else
        some
          { futureQueue :=
              match call.future.waitResult waited with
              | .success _ => stub.futureQueue
              | _ => RequestFutureQueue.remove stub.futureQueue call.request.identity.id
            calls := stub.calls.modify n (Call.finish waited) }

end ClientStub

/-! ## What a stub knows -/

section Modify

variable {α β : Type} {l : List α} {n m : ℕ} {f : α → α}

theorem getElem?_modify_cases {x y : α} (stored : l[n]? = some x)
    (found : (l.modify n f)[m]? = some y) :
    (n = m ∧ f x = y) ∨ (n ≠ m ∧ l[m]? = some y) := by
  by_cases same : n = m
  · subst same
    rw [List.getElem?_modify_eq, stored] at found
    exact .inl ⟨rfl, Option.some.inj found⟩
  · rw [List.getElem?_modify_ne f l same] at found
    exact .inr ⟨same, found⟩

theorem map_modify_eq_map {g : α → β} (same : ∀ x, g (f x) = g x) :
    (l.modify n f).map g = l.map g := by
  apply List.ext_getElem?
  intro m
  rw [List.getElem?_map, List.getElem?_map]
  by_cases equal : n = m
  · subst equal
    rw [List.getElem?_modify_eq]
    cases l[n]? with
    | none => rfl
    | some x => exact congrArg some (same x)
  · rw [List.getElem?_modify_ne f l equal]

end Modify

/-- Every entry of the table leads to a call that still waits, a future holds a response that
`Delivered` says was sent, and a result other than a failed send or a timeout comes from the
future. -/
structure ClientStub.Sound (stub : ClientStub P D) (Delivered : Response D → Prop) : Prop where
  registered : ∀ {id : ℤ} {n : ℕ}, stub.futureQueue.lookup id = some n →
    ∃ call, stub.calls[n]? = some call ∧ call.request.identity.id = id ∧ call.future = .deferred
  answered : ∀ {n : ℕ} {call : Call P D}, stub.calls[n]? = some call → call.future = .deferred ∨
    ∃ response, call.future = .ready response ∧ Delivered response ∧
      response.identity.id = call.request.identity.id
  returned : ∀ {n : ℕ} {call : Call P D} {result : CallResult D}, stub.calls[n]? = some call →
    call.result = some result → result = ⟨errClientSend, none⟩ ∨
      result = ⟨errClientApiTimeout, none⟩ ∨
      ∃ response, call.future = .ready response ∧
        result = callResult call.request (.success response)
  waiting : (stub.calls.map fun call => call.request.identity.id).Nodup →
    ∀ {n : ℕ} {call : Call P D}, stub.calls[n]? = some call → call.future = .deferred →
      stub.futureQueue.lookup call.request.identity.id = some n

namespace ClientStub

variable {stub : ClientStub P D} {Delivered : Response D → Prop}

theorem sound_empty : ClientStub.Sound (⟨∅, []⟩ : ClientStub P D) Delivered where
  registered found := by
    rw [AList.lookup_empty] at found
    contradiction
  answered found := by simp at found
  returned found := by simp at found
  waiting _ _ _ found := by simp at found

theorem Sound.mono {Delivered' : Response D → Prop} (sound : stub.Sound Delivered)
    (more : ∀ response, Delivered response → Delivered' response) : stub.Sound Delivered' where
  registered := sound.registered
  answered found := by
    rcases sound.answered found with deferred | ⟨response, ready, delivered, matching⟩
    · exact .inl deferred
    · exact .inr ⟨response, ready, more response delivered, matching⟩
  returned := sound.returned
  waiting := sound.waiting

/-- A stub whose calls are appended to by one that waits, under the id of its request. -/
theorem Sound.append (sound : stub.Sound Delivered) {new : Call P D}
    (deferred : new.future = .deferred)
    (unanswered : ∀ result, new.result = some result → result = ⟨errClientSend, none⟩) :
    ClientStub.Sound
      ⟨stub.futureQueue.insert new.request.identity.id stub.calls.length, stub.calls ++ [new]⟩
      Delivered where
  registered := by
    intro id n found
    by_cases same : id = new.request.identity.id
    · subst same
      rw [AList.lookup_insert] at found
      obtain rfl := Option.some.inj found
      exact ⟨new, by simp, rfl, deferred⟩
    · rw [AList.lookup_insert_ne same] at found
      obtain ⟨call, stored, matching, waits⟩ := sound.registered found
      have inside := (List.getElem?_eq_some_iff.mp stored).1
      exact ⟨call, by rwa [List.getElem?_append_left inside], matching, waits⟩
  answered := by
    intro n call found
    rcases List.mem_append.mp (List.mem_of_getElem? found) with old | last
    · obtain ⟨m, stored⟩ := List.getElem?_of_mem old
      exact sound.answered stored
    · obtain rfl := List.mem_singleton.mp last
      exact .inl deferred
  returned := by
    intro n call result found returned
    rcases List.mem_append.mp (List.mem_of_getElem? found) with old | last
    · obtain ⟨m, stored⟩ := List.getElem?_of_mem old
      exact sound.returned stored returned
    · obtain rfl := List.mem_singleton.mp last
      exact .inl (unanswered result returned)
  waiting := by
    intro distinct n call found waits
    rw [List.map_append, List.nodup_append] at distinct
    obtain ⟨front, -, apart⟩ := distinct
    rcases Nat.lt_or_ge n stub.calls.length with inside | outside
    · rw [List.getElem?_append_left inside] at found
      have other : call.request.identity.id ≠ new.request.identity.id := by
        apply apart _ (List.mem_map.mpr ⟨call, List.mem_of_getElem? found, rfl⟩)
        simp
      rw [AList.lookup_insert_ne other]
      exact sound.waiting front found waits
    · rw [List.getElem?_append_right outside, List.getElem?_singleton] at found
      obtain ⟨position, last⟩ := Option.ite_none_right_eq_some.mp found
      obtain rfl := Option.some.inj last
      rw [AList.lookup_insert]
      congr 1
      omega

theorem Sound.sendRequest (sound : stub.Sound Delivered) (request : Request P) (written : Bool) :
    (stub.sendRequest request written).Sound Delivered := by
  cases written with
  | true => exact @Sound.append _ _ stub Delivered sound { request } rfl (by simp)
  | false =>
      refine @Sound.append _ _ stub Delivered sound
        { request, result := some ⟨errClientSend, none⟩ } rfl ?_
      rintro result returned
      exact (Option.some.inj returned).symm

theorem responseHandler_of_lookup {response : Response D} {n : ℕ}
    (found : stub.futureQueue.lookup response.identity.id = some n) :
    stub.responseHandler response =
      ⟨stub.futureQueue.erase response.identity.id,
        stub.calls.modify n (Call.deliver response)⟩ := by
  rw [ClientStub.responseHandler, RequestFutureQueue.get, found]

/-- A response reaches the call under its id, if that call still waits. -/
theorem Sound.responseHandler (sound : stub.Sound Delivered) {response : Response D}
    (delivered : Delivered response) : (stub.responseHandler response).Sound Delivered := by
  cases found : stub.futureQueue.lookup response.identity.id with
  | none =>
      rw [ClientStub.responseHandler, RequestFutureQueue.get, found]
      exact sound
  | some n =>
      obtain ⟨target, stored, matching, waits⟩ := sound.registered found
      have now : (Call.deliver response target).future = .ready response := by
        rw [Call.deliver, waits]
        rfl
      rw [responseHandler_of_lookup found]
      constructor
      · intro id m entry
        have other : id ≠ response.identity.id := by
          rintro rfl
          simp at entry
        rw [AList.lookup_erase_ne other] at entry
        obtain ⟨call, kept, key, deferred⟩ := sound.registered entry
        have apart : n ≠ m := by
          rintro rfl
          obtain rfl := Option.some.inj (stored.symm.trans kept)
          exact other (key.symm.trans matching)
        exact ⟨call, (List.getElem?_modify_ne _ _ apart).trans kept, key, deferred⟩
      · intro m call changed
        rcases getElem?_modify_cases stored changed with ⟨-, rfl⟩ | ⟨-, original⟩
        · exact .inr ⟨response, now, delivered, matching.symm⟩
        · exact sound.answered original
      · intro m call result changed returned
        rcases getElem?_modify_cases stored changed with ⟨-, rfl⟩ | ⟨-, original⟩
        · rcases sound.returned stored returned with unsent | late | ⟨old, ready, -⟩
          · exact .inl unsent
          · exact .inr (.inl late)
          · cases waits.symm.trans ready
        · exact sound.returned original returned
      · intro distinct m call changed deferred
        rw [map_modify_eq_map (f := Call.deliver response) fun call => rfl] at distinct
        rcases getElem?_modify_cases stored changed with ⟨-, rfl⟩ | ⟨apart, original⟩
        · cases now.symm.trans deferred
        · have entry := sound.waiting distinct original deferred
          have other : call.request.identity.id ≠ response.identity.id := by
            intro same
            rw [same, found] at entry
            exact apart (Option.some.inj entry)
          rwa [AList.lookup_erase_ne other]

/-- The call that wakes had not returned; the table is left as it is. -/
theorem wake_eq_some {n : ℕ} {waited : Bool} {after : ClientStub P D}
    (woken : stub.wake n waited = some after) :
    ∃ call, stub.calls[n]? = some call ∧ call.result = none ∧
      (waited = true → call.future ≠ .deferred) ∧
      after = ⟨stub.futureQueue, stub.calls.modify n (Call.finish waited)⟩ := by
  rw [ClientStub.wake] at woken
  cases stored : stub.calls[n]? with
  | none =>
      rw [stored] at woken
      contradiction
  | some call =>
      rw [stored] at woken
      dsimp only at woken
      split at woken
      case isTrue => contradiction
      case isFalse running =>
        rw [Bool.or_eq_true, not_or, Option.isSome_iff_ne_none, not_not] at running
        refine ⟨call, rfl, running.1, ?_, ?_⟩
        · rintro rfl deferred
          simp [deferred, Future.isDeferred] at running
        · obtain rfl := Option.some.inj woken
          cases call.future.waitResult waited <;> rfl

/-- A call that wakes returns a timeout or what the response in its future says. -/
theorem Sound.callResult {n : ℕ} {call : Call P D} (sound : stub.Sound Delivered)
    (stored : stub.calls[n]? = some call) {waited : Bool}
    (left : waited = true → call.future ≠ .deferred) :
    Rpc.callResult call.request (call.future.waitResult waited) = ⟨errClientApiTimeout, none⟩ ∨
      ∃ response, call.future = .ready response ∧
        Rpc.callResult call.request (call.future.waitResult waited) =
          Rpc.callResult call.request (.success response) := by
  cases waited with
  | false => exact .inl rfl
  | true =>
      rcases sound.answered stored with deferred | ⟨response, ready, -, -⟩
      · exact absurd deferred (left rfl)
      · refine .inr ⟨response, ready, ?_⟩
        rw [ready]
        rfl

theorem Sound.wake {n : ℕ} {waited : Bool} {after : ClientStub P D} (sound : stub.Sound Delivered)
    (woken : stub.wake n waited = some after) : after.Sound Delivered := by
  obtain ⟨target, stored, -, left, rfl⟩ := wake_eq_some woken
  constructor
  · intro id m entry
    obtain ⟨call, kept, key, deferred⟩ := sound.registered entry
    by_cases same : n = m
    · subst same
      obtain rfl := Option.some.inj (stored.symm.trans kept)
      refine ⟨Call.finish waited target, ?_, key, deferred⟩
      exact (List.getElem?_modify_eq _ _ _).trans (congrArg _ stored)
    · exact ⟨call, (List.getElem?_modify_ne _ _ same).trans kept, key, deferred⟩
  · intro m call changed
    have answered := sound.answered stored
    rcases getElem?_modify_cases stored changed with ⟨-, rfl⟩ | ⟨-, original⟩
    · exact answered
    · exact sound.answered original
  · intro m call result changed returned
    rcases getElem?_modify_cases stored changed with ⟨-, rfl⟩ | ⟨-, original⟩
    · obtain rfl := Option.some.inj returned
      exact .inr (sound.callResult stored left)
    · exact sound.returned original returned
  · intro distinct m call changed deferred
    rw [map_modify_eq_map (f := Call.finish waited) fun call => rfl] at distinct
    have waiting := sound.waiting distinct stored
    rcases getElem?_modify_cases stored changed with ⟨rfl, rfl⟩ | ⟨-, original⟩
    · exact waiting deferred
    · exact sound.waiting distinct original deferred

theorem getElem?_requests {n : ℕ} {request : Request P} :
    stub.requests[n]? = some request ↔ ∃ call, stub.calls[n]? = some call ∧
      call.request = request := by
  rw [requests, List.getElem?_map, Option.map_eq_some_iff]

theorem requests_sendRequest (stub : ClientStub P D) (request : Request P) (written : Bool) :
    (stub.sendRequest request written).requests = stub.requests ++ [request] := by
  cases written <;> simp [ClientStub.sendRequest, requests]

theorem requests_responseHandler (stub : ClientStub P D) (response : Response D) :
    (stub.responseHandler response).requests = stub.requests := by
  cases found : stub.futureQueue.lookup response.identity.id with
  | none => rw [ClientStub.responseHandler, RequestFutureQueue.get, found]
  | some n =>
      rw [ClientStub.responseHandler_of_lookup found]
      exact map_modify_eq_map (f := Call.deliver response) fun call => rfl

theorem requests_wake {after : ClientStub P D} {n : ℕ} {waited : Bool}
    (woken : stub.wake n waited = some after) : after.requests = stub.requests := by
  obtain ⟨call, -, -, -, rfl⟩ := wake_eq_some woken
  exact map_modify_eq_map (f := Call.finish waited) fun call => rfl

end ClientStub

/-! ## Clients, a server and the network between them -/

/-- Any number of clients of one service. -/
structure RpcSystem (ι P D : Type) where
  stubs : ι → ClientStub P D
  /-- The requests of all calls, with the clients that made them. -/
  issued : List (ι × Request P)
  /-- The requests in the channel: each may be taken any number of times, at any time or never. -/
  written : List (Request P)
  /-- The responses in the channel, each with the request that it answers. -/
  answers : List (Request P × Response D)

/-- What can happen next. -/
inductive RpcEvent (ι P D : Type)
  /-- A thread of the client starts `_CallBase`; `written` is what the channel returns. -/
  | call (client : ι) (request : Request P) (written : Bool)
  /-- A thread of the client performs `_CallNoReplyBase`. -/
  | callNoReply (request : Request P)
  /-- The server handles a request and sends a response unless none is wanted. -/
  | serve (request : Request P) (code : ℤ) (data : D)
  /-- A response arrives at a client; every client of the service receives all responses. -/
  | deliver (client : ι) (response : Response D)
  /-- The wait of a call ends, in time or not. -/
  | wake (client : ι) (n : ℕ) (waited : Bool)

namespace RpcSystem

variable {ι : Type}

def init : RpcSystem ι P D where
  stubs _ := ⟨∅, []⟩
  issued := []
  written := []
  answers := []

variable [DecidableEq ι]

/-- The stubs are sound and their calls are the issued ones; a response answers an issued request
under its identity. -/
structure Sound (s : RpcSystem ι P D) : Prop where
  stub : ∀ client, (s.stubs client).Sound fun response => response ∈ s.answers.map Prod.snd
  requests : ∀ client, (s.stubs client).requests =
    (s.issued.filter fun entry => decide (entry.1 = client)).map Prod.snd
  written : ∀ request ∈ s.written, request.noreply = false → request ∈ s.issued.map Prod.snd
  answers : ∀ answer ∈ s.answers, answer.1 ∈ s.issued.map Prod.snd ∧
    answer.2.identity = answer.1.identity

theorem sound_init : (init : RpcSystem ι P D).Sound where
  stub _ := ClientStub.sound_empty
  requests _ := rfl
  written _ member := absurd member List.not_mem_nil
  answers _ member := absurd member List.not_mem_nil

/-- A step that changes one stub and issues nothing. -/
theorem Sound.update {s : RpcSystem ι P D} (sound : s.Sound) {client : ι} {stub : ClientStub P D}
    (kept : stub.Sound fun response => response ∈ s.answers.map Prod.snd)
    (requests : stub.requests = (s.stubs client).requests) :
    Sound { s with stubs := Function.update s.stubs client stub } where
  stub other := by
    dsimp only
    by_cases same : other = client
    · subst same
      rwa [Function.update_self]
    · rw [Function.update_of_ne same]
      exact sound.stub other
  requests other := by
    dsimp only
    by_cases same : other = client
    · subst same
      rw [Function.update_self, requests]
      exact sound.requests other
    · rw [Function.update_of_ne same]
      exact sound.requests other
  written := sound.written
  answers := sound.answers

theorem Sound.call {s : RpcSystem ι P D} (sound : s.Sound) (client : ι) (request : Request P)
    (written : Bool) :
    Sound
      { s with
        stubs := Function.update s.stubs client ((s.stubs client).sendRequest request written)
        issued := s.issued ++ [(client, request)]
        written := if written then s.written ++ [request] else s.written } where
  stub other := by
    dsimp only
    by_cases same : other = client
    · subst same
      rw [Function.update_self]
      exact (sound.stub other).sendRequest request written
    · rw [Function.update_of_ne same]
      exact sound.stub other
  requests other := by
    rw [List.filter_append, List.map_append, ← sound.requests other]
    dsimp only
    by_cases same : other = client
    · subst same
      rw [Function.update_self, ClientStub.requests_sendRequest]
      simp
    · rw [Function.update_of_ne same]
      simp [Ne.symm same]
  written := by
    intro other member replies
    rw [List.map_append, List.mem_append]
    cases written with
    | false => exact .inl (sound.written other member replies)
    | true =>
        rcases List.mem_append.mp member with old | new
        · exact .inl (sound.written other old replies)
        · exact .inr (by simpa using new)
  answers := by
    intro answer member
    obtain ⟨issued, identity⟩ := sound.answers answer member
    rw [List.map_append, List.mem_append]
    exact ⟨.inl issued, identity⟩

theorem Sound.serve {s : RpcSystem ι P D} (sound : s.Sound) {request : Request P}
    (member : request ∈ s.written) (replies : request.noreply = false) (code : ℤ) (data : D) :
    Sound { s with answers := s.answers ++ [(request, ⟨request.identity, code, data⟩)] } where
  stub client := by
    apply (sound.stub client).mono
    intro response delivered
    rw [List.map_append]
    exact List.mem_append_left _ delivered
  requests := sound.requests
  written := sound.written
  answers := by
    intro answer listed
    rcases List.mem_append.mp listed with old | new
    · exact sound.answers answer old
    · obtain rfl := List.mem_singleton.mp new
      exact ⟨sound.written request member replies, rfl⟩

variable [DecidableEq P] [DecidableEq D]

def step (s : RpcSystem ι P D) : RpcEvent ι P D → Option (RpcSystem ι P D)
  | .call client request written =>
      if request.noreply then none
      else
        some
          { s with
            stubs := Function.update s.stubs client
              ((s.stubs client).sendRequest request written)
            issued := s.issued ++ [(client, request)]
            written := if written then s.written ++ [request] else s.written }
  | .callNoReply request =>
      if request.noreply then some { s with written := s.written ++ [request] } else none
  | .serve request code data =>
      if request ∉ s.written then none
      else if request.noreply then some s
      else
        some { s with answers := s.answers ++ [(request, ⟨request.identity, code, data⟩)] }
  | .deliver client response =>
      if response ∈ s.answers.map Prod.snd then
        some
          { s with
            stubs := Function.update s.stubs client ((s.stubs client).responseHandler response) }
      else none
  | .wake client n waited =>
      ((s.stubs client).wake n waited).map fun stub =>
        { s with stubs := Function.update s.stubs client stub }

/-- Every event keeps the system sound. -/
theorem Sound.step {s after : RpcSystem ι P D} {event : RpcEvent ι P D} (sound : s.Sound)
    (stepped : s.step event = some after) : after.Sound := by
  cases event with
  | call client request written =>
      obtain ⟨-, equality⟩ := Option.ite_none_left_eq_some.mp stepped
      obtain rfl := Option.some.inj equality
      exact sound.call client request written
  | callNoReply request =>
      obtain ⟨silent, equality⟩ := Option.ite_none_right_eq_some.mp stepped
      obtain rfl := Option.some.inj equality
      refine ⟨sound.stub, sound.requests, ?_, sound.answers⟩
      intro other member replies
      rcases List.mem_append.mp member with old | new
      · exact sound.written other old replies
      · obtain rfl := List.mem_singleton.mp new
        rw [silent] at replies
        contradiction
  | serve request code data =>
      obtain ⟨member, rest⟩ := Option.ite_none_left_eq_some.mp stepped
      rw [not_not] at member
      split at rest
      case isTrue =>
        obtain rfl := Option.some.inj rest
        exact sound
      case isFalse replies =>
        obtain rfl := Option.some.inj rest
        exact sound.serve member (by simpa using replies) code data
  | deliver client response =>
      obtain ⟨delivered, equality⟩ := Option.ite_none_right_eq_some.mp stepped
      obtain rfl := Option.some.inj equality
      exact sound.update ((sound.stub client).responseHandler delivered)
        (ClientStub.requests_responseHandler _ _)
  | wake client n waited =>
      obtain ⟨stub, woken, rfl⟩ := Option.map_eq_some_iff.mp stepped
      exact sound.update ((sound.stub client).wake woken) (ClientStub.requests_wake woken)

theorem sound_of_run {events : List (RpcEvent ι P D)} {s : RpcSystem ι P D}
    (ran : EventRun.run step init events = some s) : s.Sound :=
  EventRun.invariant sound_init (fun _ _ _ sound stepped => sound.step stepped) ran

/-- The ids of the requests of all calls differ: `time.monotonic_ns()` never gave one twice. -/
def DistinctIds (s : RpcSystem ι P D) : Prop :=
  (s.issued.map fun entry => entry.2.identity.id).Nodup

instance (s : RpcSystem ι P D) : Decidable s.DistinctIds :=
  inferInstanceAs (Decidable (List.Nodup _))

omit [DecidableEq P] [DecidableEq D] in
theorem Sound.mem_issued {s : RpcSystem ι P D} (sound : s.Sound) {client : ι} {n : ℕ}
    {call : Call P D} (stored : (s.stubs client).calls[n]? = some call) :
    (client, call.request) ∈ s.issued := by
  have member : call.request ∈ (s.stubs client).requests :=
    List.mem_map_of_mem (List.mem_of_getElem? stored)
  rw [sound.requests client] at member
  obtain ⟨⟨owner, request⟩, listed, rfl⟩ := List.mem_map.mp member
  obtain ⟨issued, same⟩ := List.mem_filter.mp listed
  obtain rfl : owner = client := by simpa using same
  exact issued

omit [DecidableEq P] [DecidableEq D] in
/-- The ids of the calls of one client differ too. -/
theorem Sound.nodup_calls {s : RpcSystem ι P D} (sound : s.Sound) (distinct : s.DistinctIds)
    (client : ι) :
    ((s.stubs client).calls.map fun call => call.request.identity.id).Nodup := by
  have split : (s.stubs client).calls.map (fun call => call.request.identity.id) =
      (s.stubs client).requests.map fun request => request.identity.id := by
    rw [ClientStub.requests, List.map_map]
    rfl
  rw [split, sound.requests client, List.map_map]
  exact distinct.sublist (List.filter_sublist.map _)

omit [DecidableEq ι] [DecidableEq P] [DecidableEq D] in
theorem DistinctIds.eq_of_id {s : RpcSystem ι P D} (distinct : s.DistinctIds)
    {left right : ι × Request P} (memberL : left ∈ s.issued) (memberR : right ∈ s.issued)
    (same : left.2.identity.id = right.2.identity.id) : left = right :=
  List.inj_on_of_nodup_map distinct memberL memberR same

omit [DecidableEq P] [DecidableEq D] in
/-- A call that has returned has failed to write, timed out, or returns an answer to its request. -/
theorem Sound.returned_own_answer {s : RpcSystem ι P D} (sound : s.Sound)
    (distinct : s.DistinctIds) {client : ι} {n : ℕ} {call : Call P D} {result : CallResult D}
    (stored : (s.stubs client).calls[n]? = some call) (returned : call.result = some result) :
    result = ⟨errClientSend, none⟩ ∨ result = ⟨errClientApiTimeout, none⟩ ∨
      ∃ response, (call.request, response) ∈ s.answers ∧
        result = ⟨response.code, some response.data⟩ := by
  have issued := sound.mem_issued stored
  rcases (sound.stub client).returned stored returned with unsent | late | answered
  · exact .inl unsent
  · exact .inr (.inl late)
  · obtain ⟨response, ready, result⟩ := answered
    have holds := (sound.stub client).answered stored
    rw [ready] at holds
    obtain ⟨response', same, delivered, matching⟩ := holds.resolve_left (by simp)
    obtain rfl := Future.ready.inj same
    obtain ⟨⟨request, response'⟩, answer, rfl⟩ := List.mem_map.mp delivered
    obtain ⟨asked, identity⟩ := sound.answers _ answer
    obtain ⟨⟨owner, request'⟩, listed, rfl⟩ := List.mem_map.mp asked
    have own : (owner, request') = (client, call.request) :=
      distinct.eq_of_id listed issued (by rw [← matching, identity])
    obtain ⟨rfl, rfl⟩ := Prod.mk.inj own
    refine .inr (.inr ⟨response', answer, ?_⟩)
    rw [result, callResult, identity]
    simp

/-- In every interleaving of calls, answers, deliveries and timeouts, a call that has returned
either could not write its request, or timed out, or returns the code and the data of an answer
that the server gave to this very request. -/
theorem calls_return_own_answers {events : List (RpcEvent ι P D)} {s : RpcSystem ι P D}
    (ran : EventRun.run step init events = some s) (distinct : s.DistinctIds) {client : ι} {n : ℕ}
    {call : Call P D} {result : CallResult D}
    (stored : (s.stubs client).calls[n]? = some call) (returned : call.result = some result) :
    result = ⟨errClientSend, none⟩ ∨ result = ⟨errClientApiTimeout, none⟩ ∨
      ∃ response, (call.request, response) ∈ s.answers ∧
        result = ⟨response.code, some response.data⟩ :=
  (sound_of_run ran).returned_own_answer distinct stored returned

/-- The response handler of a client has been given a response under this id. -/
def Answered (events : List (RpcEvent ι P D)) (client : ι) (id : ℤ) : Prop :=
  ∃ response, RpcEvent.deliver client response ∈ events ∧ response.identity.id = id

omit [DecidableEq ι] [DecidableEq P] [DecidableEq D] in
theorem answered_append {events : List (RpcEvent ι P D)} {event : RpcEvent ι P D} {client : ι}
    {id : ℤ} :
    Answered (events ++ [event]) client id ↔ Answered events client id ∨
      ∃ response : Response D, event = .deliver client response ∧ response.identity.id = id := by
  constructor
  · rintro ⟨response, member, matching⟩
    rcases List.mem_append.mp member with earlier | last
    · exact .inl ⟨response, earlier, matching⟩
    · exact .inr ⟨response, (List.mem_singleton.mp last).symm, matching⟩
  · rintro (⟨response, member, matching⟩ | ⟨response, rfl, matching⟩)
    · exact ⟨response, List.mem_append_left _ member, matching⟩
    · exact ⟨response, List.mem_append_right _ List.mem_cons_self, matching⟩

omit [DecidableEq ι] [DecidableEq P] [DecidableEq D] in
theorem answered_append_of_ne {events : List (RpcEvent ι P D)} {event : RpcEvent ι P D}
    {client : ι} {id : ℤ}
    (other : ∀ response : Response D, response.identity.id = id →
      event ≠ .deliver client response) :
    Answered (events ++ [event]) client id ↔ Answered events client id := by
  rw [answered_append, or_iff_left]
  rintro ⟨response, same, matching⟩
  exact other response matching same

/-- The calls without a response are those under whose ids nothing has arrived, and what has
arrived was sent. -/
structure Tracked (events : List (RpcEvent ι P D)) (s : RpcSystem ι P D) : Prop where
  sent : ∀ client response, RpcEvent.deliver client response ∈ events →
    response ∈ s.answers.map Prod.snd
  deferred_iff : s.DistinctIds → ∀ client (n : ℕ) (call : Call P D),
    (s.stubs client).calls[n]? = some call →
      (call.future = .deferred ↔ ¬Answered events client call.request.identity.id)

omit [DecidableEq P] [DecidableEq D] in
/-- Under the id of a call that is about to start nothing has arrived. -/
theorem Tracked.not_answered {events : List (RpcEvent ι P D)} {s : RpcSystem ι P D}
    (tracked : Tracked events s) (sound : s.Sound) {client other : ι} {request : Request P}
    (distinct : ((s.issued ++ [(client, request)]).map fun entry => entry.2.identity.id).Nodup) :
    ¬Answered events other request.identity.id := by
  rintro ⟨response, member, matching⟩
  obtain ⟨answer, listed, rfl⟩ := List.mem_map.mp (tracked.sent other response member)
  obtain ⟨asked, identity⟩ := sound.answers answer listed
  obtain ⟨entry, issued, same⟩ := List.mem_map.mp asked
  rw [List.map_append, List.nodup_append] at distinct
  refine distinct.2.2 entry.2.identity.id (List.mem_map_of_mem issued)
    request.identity.id (by simp) ?_
  rw [same, ← identity, matching]

omit [DecidableEq P] [DecidableEq D] in
/-- The handler takes a response to the one call under its id that waits. -/
theorem Sound.deferred_responseHandler {s : RpcSystem ι P D} (sound : s.Sound)
    (distinct : s.DistinctIds) {client : ι} {response : Response D} {m : ℕ} {call : Call P D}
    (stored : ((s.stubs client).responseHandler response).calls[m]? = some call) :
    ∃ before, (s.stubs client).calls[m]? = some before ∧ before.request = call.request ∧
      (call.future = .deferred ↔
        before.future = .deferred ∧ response.identity.id ≠ call.request.identity.id) := by
  have nodup := sound.nodup_calls distinct client
  cases found : (s.stubs client).futureQueue.lookup response.identity.id with
  | none =>
      rw [ClientStub.responseHandler, RequestFutureQueue.get, found] at stored
      refine ⟨call, stored, rfl, ?_⟩
      rw [iff_self_and]
      intro deferred same
      have entry := (sound.stub client).waiting nodup stored deferred
      rw [← same, found] at entry
      contradiction
  | some n =>
      rw [ClientStub.responseHandler_of_lookup found] at stored
      obtain ⟨target, original, matching, waits⟩ := (sound.stub client).registered found
      rcases getElem?_modify_cases original stored with ⟨rfl, rfl⟩ | ⟨apart, kept⟩
      · refine ⟨target, original, rfl, iff_of_false ?_ ?_⟩
        · rw [Call.deliver, waits]
          simp [Future.setReady]
        · rintro ⟨-, other⟩
          exact other matching.symm
      · refine ⟨call, kept, rfl, ?_⟩
        rw [iff_self_and]
        intro deferred same
        have entry := (sound.stub client).waiting nodup kept deferred
        rw [← same, found] at entry
        exact apart (Option.some.inj entry)

omit [DecidableEq ι] [DecidableEq P] [DecidableEq D] in
theorem stored_sendRequest {stub : ClientStub P D} {request : Request P} {written : Bool} {n : ℕ}
    {call : Call P D} (stored : (stub.sendRequest request written).calls[n]? = some call) :
    stub.calls[n]? = some call ∨ call.request = request ∧ call.future = .deferred := by
  have appended : ∃ new : Call P D, (stub.sendRequest request written).calls = stub.calls ++ [new] ∧
      new.request = request ∧ new.future = .deferred := by
    cases written <;> exact ⟨_, rfl, rfl, rfl⟩
  obtain ⟨new, calls, asked, waits⟩ := appended
  rw [calls] at stored
  rcases Nat.lt_or_ge n stub.calls.length with inside | outside
  · rw [List.getElem?_append_left inside] at stored
    exact .inl stored
  · rw [List.getElem?_append_right outside, List.getElem?_singleton] at stored
    obtain ⟨-, last⟩ := Option.ite_none_right_eq_some.mp stored
    obtain rfl := Option.some.inj last
    exact .inr ⟨asked, waits⟩

omit [DecidableEq ι] [DecidableEq P] [DecidableEq D] in
theorem stored_wake {stub after : ClientStub P D} {n m : ℕ} {waited : Bool} {call : Call P D}
    (woken : stub.wake n waited = some after) (stored : after.calls[m]? = some call) :
    ∃ before, stub.calls[m]? = some before ∧ before.request = call.request ∧
      before.future = call.future := by
  obtain ⟨target, original, -, -, rfl⟩ := ClientStub.wake_eq_some woken
  rcases getElem?_modify_cases original stored with ⟨rfl, rfl⟩ | ⟨-, kept⟩
  · exact ⟨target, original, rfl, rfl⟩
  · exact ⟨call, kept, rfl, rfl⟩

omit [DecidableEq ι] [DecidableEq P] [DecidableEq D] in
/-- An event that delivers nothing leaves the deliveries as they are. -/
theorem Tracked.sent_append {events : List (RpcEvent ι P D)} {s : RpcSystem ι P D}
    {event : RpcEvent ι P D} (tracked : Tracked events s)
    (other : ∀ client response, event ≠ .deliver client response) {client : ι}
    {response : Response D} (member : RpcEvent.deliver client response ∈ events ++ [event]) :
    response ∈ s.answers.map Prod.snd := by
  rcases List.mem_append.mp member with old | last
  · exact tracked.sent client response old
  · exact absurd (List.mem_singleton.mp last).symm (other client response)

theorem Tracked.call {events : List (RpcEvent ι P D)} {s after : RpcSystem ι P D} {client : ι}
    {request : Request P} {written : Bool} (tracked : Tracked events s) (sound : s.Sound)
    (stepped : s.step (.call client request written) = some after) :
    Tracked (events ++ [.call client request written]) after := by
  obtain ⟨-, equality⟩ := Option.ite_none_left_eq_some.mp stepped
  obtain rfl := Option.some.inj equality
  refine ⟨fun other response member => tracked.sent_append (by simp) member, ?_⟩
  intro distinct other n call stored
  have front : s.DistinctIds := distinct.sublist ((List.sublist_append_left _ _).map _)
  rw [answered_append_of_ne (by simp)]
  dsimp only at stored
  by_cases same : other = client
  · subst same
    rw [Function.update_self] at stored
    rcases stored_sendRequest stored with old | ⟨rfl, waits⟩
    · exact tracked.deferred_iff front other n call old
    · exact iff_of_true waits (tracked.not_answered sound distinct)
  · rw [Function.update_of_ne same] at stored
    exact tracked.deferred_iff front other n call stored

theorem Tracked.deliver {events : List (RpcEvent ι P D)} {s after : RpcSystem ι P D} {client : ι}
    {response : Response D} (tracked : Tracked events s) (sound : s.Sound)
    (stepped : s.step (.deliver client response) = some after) :
    Tracked (events ++ [.deliver client response]) after := by
  obtain ⟨delivered, equality⟩ := Option.ite_none_right_eq_some.mp stepped
  obtain rfl := Option.some.inj equality
  refine ⟨fun other response' member => ?_, ?_⟩
  · rcases List.mem_append.mp member with old | last
    · exact tracked.sent other response' old
    · obtain ⟨-, rfl⟩ := RpcEvent.deliver.inj (List.mem_singleton.mp last)
      exact delivered
  · intro distinct other n call stored
    dsimp only at stored
    by_cases same : other = client
    · subst same
      rw [Function.update_self] at stored
      obtain ⟨before, original, asked, waits⟩ := sound.deferred_responseHandler distinct stored
      rw [waits, tracked.deferred_iff distinct other n before original, asked,
        answered_append, not_or]
      refine and_congr_right fun _ => ?_
      constructor
      · rintro apart ⟨response', equality, matching⟩
        obtain ⟨-, rfl⟩ := RpcEvent.deliver.inj equality
        exact apart matching
      · exact fun unmatched matching => unmatched ⟨response, rfl, matching⟩
    · rw [Function.update_of_ne same] at stored
      rw [answered_append_of_ne]
      · exact tracked.deferred_iff distinct other n call stored
      · rintro response' - equality
        exact same (RpcEvent.deliver.inj equality).1.symm

theorem Tracked.wake {events : List (RpcEvent ι P D)} {s after : RpcSystem ι P D} {client : ι}
    {n : ℕ} {waited : Bool} (tracked : Tracked events s)
    (stepped : s.step (.wake client n waited) = some after) :
    Tracked (events ++ [.wake client n waited]) after := by
  obtain ⟨stub, woken, rfl⟩ := Option.map_eq_some_iff.mp stepped
  refine ⟨fun other response member => tracked.sent_append (by simp) member, ?_⟩
  intro distinct other m call stored
  rw [answered_append_of_ne (by simp)]
  dsimp only at stored
  by_cases same : other = client
  · subst same
    rw [Function.update_self] at stored
    obtain ⟨before, original, asked, future⟩ := stored_wake woken stored
    rw [← asked, ← future]
    exact tracked.deferred_iff distinct other m before original
  · rw [Function.update_of_ne same] at stored
    exact tracked.deferred_iff distinct other m call stored

/-- Every event keeps the account of the calls without a response. -/
theorem Tracked.step {events : List (RpcEvent ι P D)} {s after : RpcSystem ι P D}
    {event : RpcEvent ι P D} (tracked : Tracked events s) (sound : s.Sound)
    (stepped : s.step event = some after) : Tracked (events ++ [event]) after := by
  cases event with
  | call client request written => exact tracked.call sound stepped
  | callNoReply request =>
      obtain ⟨-, equality⟩ := Option.ite_none_right_eq_some.mp stepped
      obtain rfl := Option.some.inj equality
      refine ⟨fun client response member => tracked.sent_append (by simp) member, ?_⟩
      intro distinct client n call stored
      rw [answered_append_of_ne (by simp)]
      exact tracked.deferred_iff distinct client n call stored
  | serve request code data =>
      obtain ⟨-, rest⟩ := Option.ite_none_left_eq_some.mp stepped
      have grows : ∃ answers, after = { s with answers := s.answers ++ answers } := by
        split at rest <;> obtain rfl := Option.some.inj rest
        · exact ⟨[], by rw [List.append_nil]⟩
        · exact ⟨_, rfl⟩
      obtain ⟨answers, rfl⟩ := grows
      refine ⟨fun client response member => ?_, ?_⟩
      · rw [List.map_append]
        exact List.mem_append_left _ (tracked.sent_append (by simp) member)
      · intro distinct client n call stored
        rw [answered_append_of_ne (by simp)]
        exact tracked.deferred_iff distinct client n call stored
  | deliver client response => exact tracked.deliver sound stepped
  | wake client n waited => exact tracked.wake stepped

theorem tracked_of_run {events : List (RpcEvent ι P D)} {s : RpcSystem ι P D}
    (ran : EventRun.run step init events = some s) : Tracked events s := by
  have initial : Tracked [] (init : RpcSystem ι P D) := by
    constructor
    · intro client response member
      exact absurd member List.not_mem_nil
    · intro distinct client n call stored
      simp [init] at stored
  refine EventRun.invariant_traced initial ?_ ran
  intro events before event next earlier tracked stepped
  exact tracked.step (sound_of_run earlier) stepped

/-- The table of a client holds an entry for exactly the calls under whose ids no response has
arrived. A timeout or a failed write removes nothing, so what is never answered stays for ever. -/
theorem registered_iff_unanswered {events : List (RpcEvent ι P D)} {s : RpcSystem ι P D}
    (ran : EventRun.run step init events = some s) (distinct : s.DistinctIds) (client : ι) :
    (∀ (n : ℕ) (call : Call P D), (s.stubs client).calls[n]? = some call →
      ((s.stubs client).futureQueue.lookup call.request.identity.id = some n ↔
        ¬Answered events client call.request.identity.id)) ∧
      ∀ id n, (s.stubs client).futureQueue.lookup id = some n →
        ∃ call, (s.stubs client).calls[n]? = some call ∧ call.request.identity.id = id := by
  have sound := sound_of_run ran
  refine ⟨fun n call stored => ?_, fun id n entry => ?_⟩
  · rw [← (tracked_of_run ran).deferred_iff distinct client n call stored]
    constructor
    · intro entry
      obtain ⟨call', stored', -, deferred⟩ := (sound.stub client).registered entry
      obtain rfl := Option.some.inj (stored.symm.trans stored')
      exact deferred
    · exact (sound.stub client).waiting (sound.nodup_calls distinct client) stored
  · obtain ⟨call, stored, matching, -⟩ := (sound.stub client).registered entry
    exact ⟨call, stored, matching⟩

/-- A request with the given id, to an interface that no client knows. -/
def plainRequest (id : ℤ) : Request Unit where
  identity := ⟨id, 1001⟩
  payload := ()

/-- Two clients call; the first is answered, the second gives up. -/
def twoCalls : List (RpcEvent Bool Unit ℕ) :=
  [.call true (plainRequest 1) true, .call false (plainRequest 2) true,
    .serve (plainRequest 1) 0 7, .deliver false ⟨⟨1, 1001⟩, 0, 7⟩,
    .deliver true ⟨⟨1, 1001⟩, 0, 7⟩, .wake true 0 true, .wake false 0 false]

/-- The first call returns the answer to its request, and the second keeps its entry. -/
theorem twoCalls_reaches :
    EventRun.Reaches step init twoCalls fun s => s.DistinctIds ∧
      (s.stubs true).calls[0]? =
        some ⟨plainRequest 1, .ready ⟨⟨1, 1001⟩, 0, 7⟩, some ⟨0, some 7⟩⟩ ∧
      (s.stubs false).calls[0]? =
        some ⟨plainRequest 2, .deferred, some ⟨errClientApiTimeout, none⟩⟩ := by
  decide

theorem calls_return_own_answers_two :
    EventRun.Reaches step init twoCalls fun s => ∃ response,
      (plainRequest 1, response) ∈ s.answers ∧ response.code = 0 ∧ response.data = 7 := by
  obtain ⟨s, ran, distinct, answered, -⟩ := twoCalls_reaches
  refine ⟨s, ran, ?_⟩
  rcases calls_return_own_answers ran distinct answered rfl with unsent | late | answer
  · contradiction
  · contradiction
  · obtain ⟨response, member, same⟩ := answer
    obtain ⟨code, data⟩ := CallResult.mk.inj same
    exact ⟨response, member, code.symm, (Option.some.inj data).symm⟩

theorem registered_iff_unanswered_two :
    EventRun.Reaches step init twoCalls fun s =>
      (s.stubs false).futureQueue.lookup 2 = some 0 := by
  obtain ⟨s, ran, distinct, -, unanswered⟩ := twoCalls_reaches
  refine ⟨s, ran, ((registered_iff_unanswered ran distinct false).1 0 _ unanswered).mpr ?_⟩
  rintro ⟨response, member, matching⟩
  obtain rfl : response = ⟨⟨1, 1001⟩, 0, 7⟩ := by simpa [twoCalls] using member
  contradiction

end RpcSystem

end G1Jepa.Rpc
