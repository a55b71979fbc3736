import G1Jepa.LeaseServer

/-!
# Leases across clients, server and network

`unitree_sdk2py/rpc/lease_client.py` against the lease server: every client applies for the lease
of a service until it gets one and then renews it. A client waits with a time limit, so its request
may be handled after it has given up; the server reads the clock before it takes its lock; and the
network loses, delays, reorders and repeats messages. A lease is exclusive all the same, and its
holder may rely on it for one term, as long as the clock of the server is `Timely`: it may be set,
and a lease id is a time on it.
-/

namespace G1Jepa.Rpc

/-- Where the thread of a `LeaseClient` stands; the numbers are the call that it waits for and the
time at which the request was sent. -/
inductive LeasePhase
  | idle
  | applying (call : ℕ) (sentAt : ℤ)
  | renewing (call : ℕ) (sentAt : ℤ)
  /-- An exception has ended the thread. -/
  | stopped
  deriving DecidableEq

/-- `LeaseClient`: `leaseId` is the id in its `LeaseContext`. -/
structure LeaseClient where
  stub : ClientStub LeaseParameter LeaseData := ⟨∅, []⟩
  leaseId : ℤ := 0
  phase : LeasePhase := .idle
  /-- History: when the last request that was granted or renewed was sent. -/
  confirmedAt : ℤ := 0

namespace LeaseClient

/-- The request of the next round of `__ThreadFunc`: a renewal when the context is valid. -/
def nextRequest (client : LeaseClient) (contextName : String) (requestId : ℤ) :
    Request LeaseParameter :=
  if client.leaseId ≠ 0 then
    { identity := ⟨requestId, apiIdLeaseRenewal⟩, leaseId := client.leaseId, payload := some none }
  else { identity := ⟨requestId, apiIdLeaseApply⟩, payload := some (some contextName) }

/-- `_CallBase` up to its wait; a request that is not written ends the round. -/
def call (client : LeaseClient) (request : Request LeaseParameter) (written : Bool) (now : ℤ) :
    LeaseClient :=
  let n := client.stub.calls.length
  { client with
    stub := client.stub.sendRequest request written
    phase :=
      if !written then .idle
      else if client.leaseId ≠ 0 then .renewing n now
      else .applying n now }

/-- The rest of `__Apply`. Reading the id out of empty data raises. -/
def afterApply (client : LeaseClient) (sentAt : ℤ) (result : CallResult LeaseData) : LeaseClient :=
  if result.code ≠ 0 then { client with phase := .idle }
  else
    match result.data with
    | some (.lease id _) => { client with phase := .idle, leaseId := id, confirmedAt := sentAt }
    | _ => { client with phase := .stopped }

/-- The rest of `__Renewal`. -/
def afterRenewal (client : LeaseClient) (sentAt : ℤ) (result : CallResult LeaseData) :
    LeaseClient :=
  if result.code = 0 then { client with phase := .idle, confirmedAt := sentAt }
  else if result.code = errServerLeaseNotExist then { client with phase := .idle, leaseId := 0 }
  else { client with phase := .idle }

/-- The wait of the client ends and its thread goes on. -/
def wake (client : LeaseClient) (waited : Bool) : Option LeaseClient :=
  match client.phase with
  | .idle => none
  | .stopped => none
  | .applying n sentAt => do
      let stub ← client.stub.wake n waited
      let call ← stub.calls[n]?
      let result ← call.result
      some (afterApply { client with stub } sentAt result)
  | .renewing n sentAt => do
      let stub ← client.stub.wake n waited
      let call ← stub.calls[n]?
      let result ← call.result
      some (afterRenewal { client with stub } sentAt result)

end LeaseClient

/-- A response of the lease server, with the request and the time that its handler read. -/
structure LeaseReply where
  request : Request LeaseParameter
  response : Response LeaseData
  now : ℤ

/-- A request that a client has sent, with the time. -/
structure LeaseIssue (ι : Type) where
  client : ι
  request : Request LeaseParameter
  sentAt : ℤ

/-- What the server has done so far. -/
inductive LeaseEntry
  | granted (id now : ℤ)
  | renewed (id now : ℤ)
  /-- A request under `leaseId` was let through while the cache held `current`. -/
  | admitted (leaseId current : ℤ)
  deriving DecidableEq

namespace LeaseEntry

/-- A request was let through under an id that was not the one in the cache. -/
def isForeign : LeaseEntry → Bool
  | admitted leaseId current => decide (leaseId ≠ current)
  | granted _ _ => false
  | renewed _ _ => false

def isGrant : LeaseEntry → Bool
  | granted _ _ => true
  | renewed _ _ => false
  | admitted _ _ => false

end LeaseEntry

/-- The clients of one service, its lease server and the channels between them. -/
structure LeaseSystem (ι : Type) where
  clock : ℤ
  server : LeaseServer
  /-- The request in the handler, with the time that the handler has read. -/
  handling : Option (Request LeaseParameter × ℤ)
  /-- When the handler last finished. -/
  handledAt : ℤ
  clients : ι → LeaseClient
  issued : List (LeaseIssue ι)
  written : List (Request LeaseParameter)
  replies : List LeaseReply
  log : List LeaseEntry

/-- What can happen next. -/
inductive LeaseEvent (ι : Type)
  /-- The clock moves, or it is set. -/
  | tick (time : ℤ)
  /-- The thread of a client starts a round; `written` is what the channel returns. -/
  | call (client : ι) (contextName : String) (requestId : ℤ) (written : Bool)
  /-- The handler takes a request from the channel and reads the clock. -/
  | accept (request : Request LeaseParameter)
  /-- The handler takes the lock, finishes and sends its response. -/
  | reply
  /-- The server of the service checks the lease id of some request. -/
  | check (leaseId : ℤ)
  | deliver (client : ι) (response : Response LeaseData)
  | wake (client : ι) (waited : Bool)

namespace LeaseSystem

variable {ι : Type}

def init (ι : Type) (term clock : ℤ) : LeaseSystem ι where
  clock
  server := { term }
  handling := none
  handledAt := 0
  clients _ := {}
  issued := []
  written := []
  replies := []
  log := []

/-- The entry that a handled request leaves in the log. -/
def logOf (request : Request LeaseParameter) (now code : ℤ) : LeaseData → List LeaseEntry
  | .lease id _ => [.granted id now]
  | .empty => if code = 0 then [.renewed request.leaseId now] else []

/-- The handler finishes at the current time. -/
def finish (s : LeaseSystem ι) (request : Request LeaseParameter) (now : ℤ) : LeaseSystem ι :=
  let (code, data, server) := s.server.serverRequestHandler request now s.clock
  { s with
    server
    handling := none
    handledAt := s.clock
    replies := s.replies ++ [⟨request, ⟨request.identity, code, data⟩, now⟩]
    log := s.log ++ logOf request now code data }

/-- A request of the service is checked at the current time. -/
def checkLease (s : LeaseSystem ι) (leaseId : ℤ) : LeaseSystem ι :=
  let (denied, server) := s.server.checkRequestLeaseDenied s.clock leaseId
  { s with
    server
    log := if denied then s.log else s.log ++ [.admitted leaseId s.server.cache.id] }

variable [DecidableEq ι]

def setClient (s : LeaseSystem ι) (client : ι) (after : LeaseClient) : LeaseSystem ι :=
  { s with clients := Function.update s.clients client after }

/-- The system after an event. -/
def step (s : LeaseSystem ι) : LeaseEvent ι → Option (LeaseSystem ι)
  | .tick time => some { s with clock := time }
  | .call client contextName requestId written =>
      let before := s.clients client
      if before.phase ≠ .idle then none
      else
        let request := before.nextRequest contextName requestId
        some
          { s.setClient client (before.call request written s.clock) with
            issued := s.issued ++ [⟨client, request, s.clock⟩]
            written := if written then s.written ++ [request] else s.written }
  | .accept request =>
      if s.handling.isSome ∨ request ∉ s.written then none
      else some { s with handling := some (request, s.clock) }
  | .reply => s.handling.map fun taken => s.finish taken.1 taken.2
  | .check leaseId => some (s.checkLease leaseId)
  | .deliver client response =>
      if response ∈ s.replies.map LeaseReply.response then
        let before := s.clients client
        some (s.setClient client { before with stub := before.stub.responseHandler response })
      else none
  | .wake client waited =>
      ((s.clients client).wake waited).map fun after => s.setClient client after

omit [DecidableEq ι] in
/-- The clock never goes back, and when the handler takes a request it has moved since the end of the
last one, or since zero, so that no two leases get one id. -/
def Timely (s : LeaseSystem ι) : LeaseEvent ι → Prop
  | .tick time => s.clock ≤ time
  | .accept _ => s.handledAt < s.clock
  | .call .. | .reply | .check _ | .deliver .. | .wake .. => True

omit [DecidableEq ι] in
instance (s : LeaseSystem ι) : ∀ event, Decidable (s.Timely event)
  | .tick time => inferInstanceAs (Decidable (s.clock ≤ time))
  | .accept _ => inferInstanceAs (Decidable (s.handledAt < s.clock))
  | .call .. | .reply | .check _ | .deliver .. | .wake .. => .isTrue trivial

end LeaseSystem

/-! ## The ledger of the server -/

/-- The lease was granted or renewed by a request whose handler read `now`. -/
def Confirmed (log : List LeaseEntry) (id now : ℤ) : Prop :=
  .granted id now ∈ log ∨ .renewed id now ∈ log

/-- A successful reply is on record as a grant or as a renewal. -/
inductive OnRecord (log : List LeaseEntry) (reply : LeaseReply) : Prop
  | granted {id term : ℤ} : reply.request.identity.apiId = apiIdLeaseApply →
      reply.response.data = .lease id term → .granted id reply.now ∈ log → OnRecord log reply
  | renewed : reply.request.identity.apiId = apiIdLeaseRenewal →
      .renewed reply.request.leaseId reply.now ∈ log → OnRecord log reply

theorem Confirmed.append {log entries : List LeaseEntry} {id now : ℤ}
    (confirmed : Confirmed log id now) : Confirmed (log ++ entries) id now :=
  confirmed.imp (List.mem_append_left _) (List.mem_append_left _)

theorem OnRecord.append {log entries : List LeaseEntry} {reply : LeaseReply}
    (onRecord : OnRecord log reply) : OnRecord (log ++ entries) reply := by
  cases onRecord with
  | granted applies data listed => exact .granted applies data (List.mem_append_left _ listed)
  | renewed renews listed => exact .renewed renews (List.mem_append_left _ listed)

/-- Every id was granted once; a lease that was granted or renewed is still in the cache until a
term after that has passed. -/
structure Ledger (clock handledAt : ℤ) (server : LeaseServer) (replies : List LeaseReply)
    (log : List LeaseEntry) : Prop where
  granted : ∀ reply ∈ replies, ∀ id term, reply.response.data = .lease id term →
    0 < id ∧ id ≤ handledAt
  once : ∀ left ∈ replies, ∀ right ∈ replies, ∀ id term term',
    left.response.data = .lease id term → right.response.data = .lease id term' → left = right
  onRecord : ∀ reply ∈ replies, reply.response.code = 0 → OnRecord log reply
  confirmed : ∀ id now, Confirmed log id now → id ≠ 0 ∧ now ≤ handledAt ∧
    (server.cache.id = id ∨ now + server.term < clock) ∧
    (server.cache.id ≠ 0 → now ≤ server.cache.lastModified)

namespace Ledger

variable {clock handledAt : ℤ} {server : LeaseServer} {replies : List LeaseReply}
  {log : List LeaseEntry}

theorem init (clock handledAt : ℤ) (server : LeaseServer) :
    Ledger clock handledAt server [] [] where
  granted _ member := absurd member List.not_mem_nil
  once _ member := absurd member List.not_mem_nil
  onRecord _ member := absurd member List.not_mem_nil
  confirmed _ _ confirmed := by rcases confirmed with member | member <;> simp at member

theorem tick (ledger : Ledger clock handledAt server replies log) {later : ℤ}
    (ordered : clock ≤ later) : Ledger later handledAt server replies log where
  granted := ledger.granted
  once := ledger.once
  onRecord := ledger.onRecord
  confirmed id now confirmed := by
    obtain ⟨proper, earlier, current, recent⟩ := ledger.confirmed id now confirmed
    exact ⟨proper, earlier, current.imp_right fun past => past.trans_le ordered, recent⟩

theorem letThrough (ledger : Ledger clock handledAt server replies log) (leaseId current : ℤ) :
    Ledger clock handledAt server replies (log ++ [.admitted leaseId current]) where
  granted := ledger.granted
  once := ledger.once
  onRecord reply member success := (ledger.onRecord reply member success).append
  confirmed id now confirmed := ledger.confirmed id now (by simpa [Confirmed] using confirmed)

/-- A lease that has run out may be dropped. -/
theorem clear (ledger : Ledger clock handledAt server replies log)
    (late : server.cache.lastModified + server.term < clock) :
    Ledger clock handledAt { server with cache := server.cache.clear } replies log where
  granted := ledger.granted
  once := ledger.once
  onRecord := ledger.onRecord
  confirmed id now confirmed := by
    obtain ⟨proper, earlier, current, recent⟩ := ledger.confirmed id now confirmed
    refine ⟨proper, earlier, .inr ?_, fun held => absurd rfl held⟩
    rcases current with rfl | past
    · have := recent proper
      dsimp only
      omega
    · exact past

/-- The handler finishes without a lease. -/
theorem refuse (ledger : Ledger clock handledAt server replies log) (ordered : handledAt ≤ clock)
    {reply : LeaseReply} (failed : reply.response.code ≠ 0)
    (empty : reply.response.data = .empty) :
    Ledger clock clock server (replies ++ [reply]) log where
  granted other member id term data := by
    rcases List.mem_append.mp member with old | new
    · obtain ⟨positive, bound⟩ := ledger.granted other old id term data
      exact ⟨positive, bound.trans ordered⟩
    · obtain rfl := List.mem_singleton.mp new
      cases empty.symm.trans data
  once left memberL right memberR id term term' dataL dataR := by
    rcases List.mem_append.mp memberL with oldL | newL
    · rcases List.mem_append.mp memberR with oldR | newR
      · exact ledger.once left oldL right oldR id term term' dataL dataR
      · obtain rfl := List.mem_singleton.mp newR
        cases empty.symm.trans dataR
    · obtain rfl := List.mem_singleton.mp newL
      cases empty.symm.trans dataL
  onRecord other member success := by
    rcases List.mem_append.mp member with old | new
    · exact ledger.onRecord other old success
    · obtain rfl := List.mem_singleton.mp new
      exact absurd success failed
  confirmed id now confirmed := by
    obtain ⟨proper, earlier, rest⟩ := ledger.confirmed id now confirmed
    exact ⟨proper, earlier.trans ordered, rest⟩

/-- The handler grants a lease under the current time, its term counted from the time that it has
read. -/
theorem grant (ledger : Ledger clock handledAt server replies log) (positive : 0 ≤ handledAt)
    (reply : LeaseReply) {term : ℤ} (after : handledAt < reply.now) (past : reply.now ≤ clock)
    (free : server.cache.id = 0 ∨ server.cache.lastModified + server.term < reply.now)
    (applies : reply.request.identity.apiId = apiIdLeaseApply)
    (data : reply.response.data = .lease clock term) (name : String) :
    Ledger clock clock { server with cache := server.cache.set clock name reply.now }
      (replies ++ [reply]) (log ++ [.granted clock reply.now]) where
  granted other member id term' found := by
    rcases List.mem_append.mp member with old | new
    · obtain ⟨proper, bound⟩ := ledger.granted other old id term' found
      exact ⟨proper, by omega⟩
    · obtain rfl := List.mem_singleton.mp new
      obtain ⟨rfl, -⟩ := LeaseData.lease.inj (data.symm.trans found)
      omega
  once left memberL right memberR id termL termR dataL dataR := by
    rcases List.mem_append.mp memberL with oldL | newL
    · have bound := (ledger.granted left oldL id termL dataL).2
      rcases List.mem_append.mp memberR with oldR | newR
      · exact ledger.once left oldL right oldR id termL termR dataL dataR
      · obtain rfl := List.mem_singleton.mp newR
        obtain ⟨rfl, -⟩ := LeaseData.lease.inj (data.symm.trans dataR)
        omega
    · obtain rfl := List.mem_singleton.mp newL
      obtain ⟨rfl, -⟩ := LeaseData.lease.inj (data.symm.trans dataL)
      rcases List.mem_append.mp memberR with oldR | newR
      · have bound := (ledger.granted right oldR clock termR dataR).2
        omega
      · exact (List.mem_singleton.mp newR).symm
  onRecord other member success := by
    rcases List.mem_append.mp member with old | new
    · exact (ledger.onRecord other old success).append
    · obtain rfl := List.mem_singleton.mp new
      exact .granted applies data (List.mem_append_right _ List.mem_cons_self)
  confirmed id now confirmed := by
    have origin : Confirmed log id now ∨ id = clock ∧ now = reply.now := by
      simp only [Confirmed, List.mem_append, List.mem_singleton, reduceCtorEq, or_false,
        LeaseEntry.granted.injEq] at confirmed ⊢
      tauto
    rcases origin with old | ⟨rfl, rfl⟩
    · obtain ⟨proper, earlier, current, recent⟩ := ledger.confirmed id now old
      refine ⟨proper, by omega, .inr ?_, fun _ => by simp only [LeaseCache.set]; omega⟩
      dsimp only
      rcases current with rfl | ended
      · have := recent proper
        have := free.resolve_left proper
        omega
      · exact ended
    · exact ⟨by omega, past, .inl rfl, fun _ => le_rfl⟩

/-- The handler renews the lease from the time that it has read. -/
theorem renew (ledger : Ledger clock handledAt server replies log) (reply : LeaseReply)
    (after : handledAt < reply.now) (past : reply.now ≤ clock)
    (current : server.cache.id = reply.request.leaseId) (proper : reply.request.leaseId ≠ 0)
    (renews : reply.request.identity.apiId = apiIdLeaseRenewal)
    (empty : reply.response.data = .empty) :
    Ledger clock clock { server with cache := server.cache.renewal reply.now }
      (replies ++ [reply]) (log ++ [.renewed reply.request.leaseId reply.now]) where
  granted other member id term found := by
    rcases List.mem_append.mp member with old | new
    · obtain ⟨positive, bound⟩ := ledger.granted other old id term found
      exact ⟨positive, by omega⟩
    · obtain rfl := List.mem_singleton.mp new
      cases empty.symm.trans found
  once left memberL right memberR id term term' dataL dataR := by
    rcases List.mem_append.mp memberL with oldL | newL
    · rcases List.mem_append.mp memberR with oldR | newR
      · exact ledger.once left oldL right oldR id term term' dataL dataR
      · obtain rfl := List.mem_singleton.mp newR
        cases empty.symm.trans dataR
    · obtain rfl := List.mem_singleton.mp newL
      cases empty.symm.trans dataL
  onRecord other member success := by
    rcases List.mem_append.mp member with old | new
    · exact (ledger.onRecord other old success).append
    · obtain rfl := List.mem_singleton.mp new
      exact .renewed renews (List.mem_append_right _ List.mem_cons_self)
  confirmed id now confirmed := by
    have origin : Confirmed log id now ∨ id = reply.request.leaseId ∧ now = reply.now := by
      simp only [Confirmed, List.mem_append, List.mem_singleton, reduceCtorEq, or_false,
        LeaseEntry.renewed.injEq] at confirmed ⊢
      tauto
    rcases origin with old | ⟨rfl, rfl⟩
    · obtain ⟨named, earlier, held, -⟩ := ledger.confirmed id now old
      exact ⟨named, by omega, held, fun _ => by simp only [LeaseCache.renewal]; omega⟩
    · exact ⟨proper, past, .inl current, fun _ => le_rfl⟩

end Ledger

/-! ## The messages and the clients -/

namespace LeaseSystem

variable {ι : Type}

/-- No two requests of the clients have the same id. -/
def DistinctIds (s : LeaseSystem ι) : Prop :=
  (s.issued.map fun issue => issue.request.identity.id).Nodup

instance (s : LeaseSystem ι) : Decidable s.DistinctIds :=
  inferInstanceAs (Decidable (List.Nodup _))

theorem DistinctIds.issue_eq {s : LeaseSystem ι} (distinct : s.DistinctIds)
    {left right : LeaseIssue ι} (memberL : left ∈ s.issued) (memberR : right ∈ s.issued)
    (same : left.request.identity.id = right.request.identity.id) : left = right :=
  List.inj_on_of_nodup_map distinct memberL memberR same

/-- What is in the channels comes from the clients and from the handler, in this order in time. -/
structure Messages (s : LeaseSystem ι) : Prop where
  stub : ∀ client,
    (s.clients client).stub.Sound fun response => response ∈ s.replies.map LeaseReply.response
  handledAt : 0 ≤ s.handledAt ∧ s.handledAt ≤ s.clock
  issued : ∀ issue ∈ s.issued, issue.sentAt ≤ s.clock ∧
    (issue.request.identity.apiId = apiIdLeaseRenewal → issue.request.leaseId ≠ 0)
  written : ∀ request ∈ s.written, ∃ issue ∈ s.issued, issue.request = request
  handling : ∀ request now, s.handling = some (request, now) → s.handledAt < now ∧ now ≤ s.clock ∧
    ∃ issue ∈ s.issued, issue.request = request ∧ issue.sentAt ≤ now
  replies : ∀ reply ∈ s.replies, reply.response.identity = reply.request.identity ∧
    ∃ issue ∈ s.issued, issue.request = reply.request ∧ issue.sentAt ≤ reply.now

/-- What a client knows: the request that it waits for is its own, and a lease that it has was
granted to it and is on record from the time `confirmedAt` on. -/
structure ClientSound (s : LeaseSystem ι) (client : ι) (state : LeaseClient) : Prop where
  applying : ∀ n sentAt, state.phase = .applying n sentAt → ∃ request,
    state.stub.requests[n]? = some request ∧ request.identity.apiId = apiIdLeaseApply ∧
      ⟨client, request, sentAt⟩ ∈ s.issued
  renewing : ∀ n sentAt, state.phase = .renewing n sentAt → ∃ request,
    state.stub.requests[n]? = some request ∧ request.identity.apiId = apiIdLeaseRenewal ∧
      request.leaseId = state.leaseId ∧ ⟨client, request, sentAt⟩ ∈ s.issued
  granted : state.leaseId ≠ 0 → ∃ reply ∈ s.replies, ∃ term,
    reply.response.data = .lease state.leaseId term ∧
      ∃ issue ∈ s.issued, issue.client = client ∧ issue.request = reply.request
  confirmed : state.leaseId ≠ 0 →
    ∃ now, state.confirmedAt ≤ now ∧ Confirmed s.log state.leaseId now

/-- The invariant of all runs. -/
structure Sound (s : LeaseSystem ι) : Prop where
  messages : s.Messages
  ledger : Ledger s.clock s.handledAt s.server s.replies s.log
  clients : s.DistinctIds → ∀ client, s.ClientSound client (s.clients client)

theorem sound_init {term clock : ℤ} (started : 0 ≤ clock) : (init ι term clock).Sound where
  messages :=
    { stub := fun _ => ClientStub.sound_empty
      handledAt := ⟨le_rfl, started⟩
      issued := fun _ member => absurd member List.not_mem_nil
      written := fun _ member => absurd member List.not_mem_nil
      handling := fun _ _ taken => by simp [init] at taken
      replies := fun _ member => absurd member List.not_mem_nil }
  ledger := Ledger.init clock 0 _
  clients _ _ :=
    { applying := fun _ _ phase => by simp [init] at phase
      renewing := fun _ _ phase => by simp [init] at phase
      granted := fun held => absurd rfl held
      confirmed := fun held => absurd rfl held }

/-- What a client knows stays true when the records grow. -/
theorem ClientSound.mono {s next : LeaseSystem ι} {client : ι} {state : LeaseClient}
    (sound : s.ClientSound client state) (issued : s.issued ⊆ next.issued)
    (replies : s.replies ⊆ next.replies)
    (log : ∀ id now, Confirmed s.log id now → Confirmed next.log id now) :
    next.ClientSound client state where
  applying n sentAt phase := by
    obtain ⟨request, stored, applies, member⟩ := sound.applying n sentAt phase
    exact ⟨request, stored, applies, issued member⟩
  renewing n sentAt phase := by
    obtain ⟨request, stored, renews, same, member⟩ := sound.renewing n sentAt phase
    exact ⟨request, stored, renews, same, issued member⟩
  granted held := by
    obtain ⟨reply, member, term, data, issue, listed, own, asked⟩ := sound.granted held
    exact ⟨reply, replies member, term, data, issue, issued listed, own, asked⟩
  confirmed held := by
    obtain ⟨now, later, confirmed⟩ := sound.confirmed held
    exact ⟨now, later, log _ _ confirmed⟩

/-- Only the state of one client changes. -/
theorem Sound.setClient [DecidableEq ι] {s : LeaseSystem ι} (sound : s.Sound) {client : ι}
    {after : LeaseClient}
    (stub : after.stub.Sound fun response => response ∈ s.replies.map LeaseReply.response)
    (kept : s.DistinctIds → s.ClientSound client after) : (s.setClient client after).Sound where
  messages :=
    { sound.messages with
      stub := fun other => by
        dsimp only [LeaseSystem.setClient]
        by_cases same : other = client
        · subst same
          rwa [Function.update_self]
        · rw [Function.update_of_ne same]
          exact sound.messages.stub other }
  ledger := sound.ledger
  clients distinct other := by
    dsimp only [LeaseSystem.setClient]
    by_cases same : other = client
    · subst same
      rw [Function.update_self]
      exact (kept distinct).mono (List.Subset.refl _) (List.Subset.refl _) fun _ _ old => old
    · rw [Function.update_of_ne same]
      exact (sound.clients distinct other).mono (List.Subset.refl _) (List.Subset.refl _)
        fun _ _ old => old

theorem Sound.tick {s : LeaseSystem ι} (sound : s.Sound) {later : ℤ}
    (ordered : s.clock ≤ later) : Sound { s with clock := later } where
  messages :=
    { sound.messages with
      handledAt := ⟨sound.messages.handledAt.1, sound.messages.handledAt.2.trans ordered⟩
      issued := fun issue member =>
        ⟨(sound.messages.issued issue member).1.trans ordered,
          (sound.messages.issued issue member).2⟩
      handling := fun request now taken => by
        obtain ⟨after, past, source⟩ := sound.messages.handling request now taken
        exact ⟨after, past.trans ordered, source⟩ }
  ledger := sound.ledger.tick ordered
  clients distinct client :=
    (sound.clients distinct client).mono (List.Subset.refl _) (List.Subset.refl _)
      fun _ _ old => old

theorem Sound.accept {s : LeaseSystem ι} (sound : s.Sound) {request : Request LeaseParameter}
    (written : request ∈ s.written) (after : s.handledAt < s.clock) :
    Sound { s with handling := some (request, s.clock) } where
  messages :=
    { sound.messages with
      handling := fun taken now started => by
        obtain ⟨rfl, rfl⟩ := Prod.mk.inj (Option.some.inj started)
        obtain ⟨issue, member, same⟩ := sound.messages.written request written
        exact ⟨after, le_rfl, issue, member, same, (sound.messages.issued issue member).1⟩ }
  ledger := sound.ledger
  clients distinct client :=
    (sound.clients distinct client).mono (List.Subset.refl _) (List.Subset.refl _)
      fun _ _ old => old

/-- The server checks a lease id: at most a lease that has run out goes. -/
theorem Sound.checkLease {s : LeaseSystem ι} (sound : s.Sound) (leaseId : ℤ) :
    (s.checkLease leaseId).Sound := by
  have logged (denied : Bool) {cache : LeaseCache}
      (ledger : Ledger s.clock s.handledAt { s.server with cache } s.replies s.log) :
      Sound { s with
        server := { s.server with cache }
        log := if denied then s.log else s.log ++ [.admitted leaseId s.server.cache.id] } := by
    refine ⟨{ sound.messages with }, ?_, fun distinct client => ?_⟩
    · cases denied with
      | true => exact ledger
      | false => exact ledger.letThrough leaseId s.server.cache.id
    · refine (sound.clients distinct client).mono (List.Subset.refl _) (List.Subset.refl _) ?_
      intro id now old
      cases denied with
      | true => exact old
      | false => exact old.append
  rw [LeaseSystem.checkLease, LeaseServer.checkRequestLeaseDenied]
  by_cases vacant : s.server.cache.id = 0
  · rw [if_pos vacant]
    exact logged _ sound.ledger
  · rw [if_neg vacant]
    by_cases late : s.server.cache.lastModified + s.server.term < s.clock
    · rw [if_pos late]
      exact logged _ (sound.ledger.clear late)
    · rw [if_neg late]
      exact logged _ sound.ledger

/-- The handler finishes, in any of the ways that `Handled` lists. -/
theorem Sound.finish {s : LeaseSystem ι} (sound : s.Sound) {request : Request LeaseParameter}
    {now : ℤ} (taken : s.handling = some (request, now)) : (s.finish request now).Sound := by
  obtain ⟨after, past, issue, member, rfl, sent⟩ := sound.messages.handling request now taken
  obtain ⟨positive, ordered⟩ := sound.messages.handledAt
  have finished {code : ℤ} {data : LeaseData} {server : LeaseServer}
      (ledger : Ledger s.clock s.clock server
        (s.replies ++ [⟨issue.request, ⟨issue.request.identity, code, data⟩, now⟩])
        (s.log ++ logOf issue.request now code data)) :
      Sound { s with
        server
        handling := none
        handledAt := s.clock
        replies := s.replies ++ [⟨issue.request, ⟨issue.request.identity, code, data⟩, now⟩]
        log := s.log ++ logOf issue.request now code data } := by
    refine ⟨{ sound.messages with
              stub := ?_
              handledAt := ⟨positive.trans ordered, le_rfl⟩
              handling := fun _ _ none => by contradiction
              replies := ?_ }, ledger, ?_⟩
    · intro client
      refine (sound.messages.stub client).mono fun response old => ?_
      rw [List.map_append]
      exact List.mem_append_left _ old
    · intro reply answered
      rcases List.mem_append.mp answered with old | new
      · exact sound.messages.replies reply old
      · obtain rfl := List.mem_singleton.mp new
        exact ⟨rfl, issue, member, rfl, sent⟩
    · intro distinct client
      exact (sound.clients distinct client).mono (List.Subset.refl _)
        (List.subset_append_left _ _) fun _ _ old => old.append
  rw [LeaseSystem.finish]
  have handled := s.server.handled_serverRequestHandler issue.request now s.clock
  generalize s.server.serverRequestHandler issue.request now s.clock = result at handled ⊢
  cases handled with
  | refused failed =>
      refine finished ?_
      rw [logOf, if_neg failed, List.append_nil]
      exact sound.ledger.refuse ordered failed rfl
  | dropped late =>
      refine finished ?_
      rw [logOf, if_neg (by decide), List.append_nil]
      exact (sound.ledger.clear (late.trans_le past)).refuse ordered
        (show errServerLeaseNotExist ≠ 0 by decide) rfl
  | granted applies free =>
      exact finished (sound.ledger.grant positive
        ⟨issue.request, ⟨issue.request.identity, 0, .lease s.clock s.server.term⟩, now⟩
        after past free applies rfl _)
  | renewed renews current =>
      have proper := (sound.messages.issued issue member).2 renews
      exact finished (sound.ledger.renew ⟨issue.request, ⟨issue.request.identity, 0, .empty⟩, now⟩
        after past current proper renews rfl)

/-- The request of a round is a renewal of the client's lease or an application. -/
theorem nextRequest_cases (client : LeaseClient) (contextName : String) (requestId : ℤ) :
    let request := client.nextRequest contextName requestId
    (client.leaseId ≠ 0 ∧ request.identity.apiId = apiIdLeaseRenewal ∧
      request.leaseId = client.leaseId) ∨
      (client.leaseId = 0 ∧ request.identity.apiId = apiIdLeaseApply) := by
  by_cases held : client.leaseId ≠ 0
  · exact .inl ⟨held, by simp only [LeaseClient.nextRequest, if_pos held, and_self]⟩
  · exact .inr ⟨not_not.mp held, by simp only [LeaseClient.nextRequest, if_neg held]⟩

theorem ClientSound.call {s : LeaseSystem ι} {client : ι} {before : LeaseClient}
    (sound : s.ClientSound client before) {contextName : String} {requestId sentAt : ℤ}
    (issued : ⟨client, before.nextRequest contextName requestId, sentAt⟩ ∈ s.issued)
    (written : Bool) :
    s.ClientSound client
      (before.call (before.nextRequest contextName requestId) written sentAt) := by
  have last : (before.stub.sendRequest (before.nextRequest contextName requestId)
      written).requests[before.stub.calls.length]? =
        some (before.nextRequest contextName requestId) := by
    rw [ClientStub.requests_sendRequest, ← List.length_map Call.request]
    exact List.getElem?_concat_length
  have shape := nextRequest_cases before contextName requestId
  refine ⟨?_, ?_, sound.granted, sound.confirmed⟩
  · intro n time phase
    cases written with
    | false => contradiction
    | true =>
        rcases shape with ⟨held, -⟩ | ⟨vacant, applies⟩
        · simp [LeaseClient.call, held] at phase
        · obtain ⟨rfl, rfl⟩ : before.stub.calls.length = n ∧ sentAt = time := by
            simpa [LeaseClient.call, vacant] using phase
          exact ⟨_, last, applies, issued⟩
  · intro n time phase
    cases written with
    | false => contradiction
    | true =>
        rcases shape with ⟨held, renews, same⟩ | ⟨vacant, -⟩
        · obtain ⟨rfl, rfl⟩ : before.stub.calls.length = n ∧ sentAt = time := by
            simpa [LeaseClient.call, held] using phase
          exact ⟨_, last, renews, same, issued⟩
        · simp [LeaseClient.call, vacant] at phase

/-- A client starts a round. -/
theorem Sound.call [DecidableEq ι] {s : LeaseSystem ι} (sound : s.Sound) (client : ι)
    (contextName : String) (requestId : ℤ) (written : Bool) :
    let before := s.clients client
    let request := before.nextRequest contextName requestId
    Sound
      { s.setClient client (before.call request written s.clock) with
        issued := s.issued ++ [⟨client, request, s.clock⟩]
        written := if written then s.written ++ [request] else s.written } := by
  intro before request
  have listed : (⟨client, request, s.clock⟩ : LeaseIssue ι) ∈
      s.issued ++ [⟨client, request, s.clock⟩] := List.mem_append_right _ List.mem_cons_self
  have earlier : s.issued ⊆ s.issued ++ [⟨client, request, s.clock⟩] :=
    List.subset_append_left _ _
  refine ⟨{ sound.messages with
            stub := ?_
            issued := ?_
            written := ?_
            handling := ?_
            replies := ?_ }, sound.ledger, ?_⟩
  · intro other
    dsimp only [LeaseSystem.setClient]
    by_cases same : other = client
    · subst same
      rw [Function.update_self]
      exact (sound.messages.stub other).sendRequest request written
    · rw [Function.update_of_ne same]
      exact sound.messages.stub other
  · intro issue member
    rcases List.mem_append.mp member with old | new
    · exact sound.messages.issued issue old
    · obtain rfl := List.mem_singleton.mp new
      refine ⟨le_rfl, fun renews => ?_⟩
      rcases nextRequest_cases before contextName requestId with ⟨held, -, same⟩ | ⟨-, applies⟩
      · exact same.trans_ne held
      · cases applies.symm.trans renews
  · intro other member
    have origin : other ∈ s.written ∨ other = request := by
      cases written with
      | true => exact (List.mem_append.mp member).imp_right List.mem_singleton.mp
      | false => exact .inl member
    rcases origin with old | rfl
    · obtain ⟨issue, member, same⟩ := sound.messages.written other old
      exact ⟨issue, earlier member, same⟩
    · exact ⟨_, listed, rfl⟩
  · intro other now taken
    obtain ⟨after, past, issue, member, source⟩ := sound.messages.handling other now taken
    exact ⟨after, past, issue, earlier member, source⟩
  · intro reply answered
    obtain ⟨identity, issue, member, source⟩ := sound.messages.replies reply answered
    exact ⟨identity, issue, earlier member, source⟩
  · intro distinct other
    have distinctBefore : s.DistinctIds :=
      List.Nodup.sublist ((List.sublist_append_left _ _).map _) distinct
    let next : LeaseSystem ι :=
      { s.setClient client (before.call request written s.clock) with
        issued := s.issued ++ [⟨client, request, s.clock⟩]
        written := if written then s.written ++ [request] else s.written }
    have kept : next.ClientSound other (s.clients other) :=
      (sound.clients distinctBefore other).mono earlier (List.Subset.refl _) fun _ _ old => old
    dsimp only [LeaseSystem.setClient]
    by_cases same : other = client
    · subst same
      rw [Function.update_self]
      exact kept.call listed written
    · rwa [Function.update_of_ne same]

/-- A response reaches a client, whose thread may still wait for it. -/
theorem Sound.deliver [DecidableEq ι] {s : LeaseSystem ι} (sound : s.Sound) (client : ι)
    {response : Response LeaseData} (sent : response ∈ s.replies.map LeaseReply.response) :
    let before := s.clients client
    (s.setClient client { before with stub := before.stub.responseHandler response }).Sound := by
  intro before
  have requests := ClientStub.requests_responseHandler before.stub response
  refine sound.setClient ((sound.messages.stub client).responseHandler sent) fun distinct => ?_
  have kept := sound.clients distinct client
  refine ⟨?_, ?_, kept.granted, kept.confirmed⟩
  · rw [requests]
    exact kept.applying
  · rw [requests]
    exact kept.renewing

/-- The end of a wait: the code of the answer is an error of the client, or the call has found the
reply to its own request. -/
theorem ClientSound.result_eq {s : LeaseSystem ι} (messages : s.Messages)
    (distinct : s.DistinctIds) {client : ι} {state : LeaseClient} {n : ℕ} {waited : Bool}
    {stub : ClientStub LeaseParameter LeaseData} {call : Call LeaseParameter LeaseData}
    {result : CallResult LeaseData}
    (sound : state.stub.Sound fun response => response ∈ s.replies.map LeaseReply.response)
    (woken : state.stub.wake n waited = some stub) (stored : stub.calls[n]? = some call)
    (returned : call.result = some result) {sentAt : ℤ}
    (issued : ⟨client, call.request, sentAt⟩ ∈ s.issued) :
    (result.code ≠ 0 ∧ result.code ≠ errServerLeaseNotExist) ∨
      ∃ reply ∈ s.replies, reply.request = call.request ∧ sentAt ≤ reply.now ∧
        result = ⟨reply.response.code, some reply.response.data⟩ := by
  rcases (sound.wake woken).returned stored returned with rfl | rfl | ⟨response, ready, rfl⟩
  · exact .inl ⟨by decide, by decide⟩
  · exact .inl ⟨by decide, by decide⟩
  · rcases (sound.wake woken).answered stored with deferred | ⟨other, same, delivered, matching⟩
    · cases deferred.symm.trans ready
    · obtain rfl := Future.ready.inj (ready.symm.trans same)
      obtain ⟨reply, answered, rfl⟩ := List.mem_map.mp delivered
      obtain ⟨identity, issue, member, request, sent⟩ := messages.replies reply answered
      have own : issue = ⟨client, call.request, sentAt⟩ := by
        refine distinct.issue_eq member issued ?_
        rw [request, ← identity]
        exact matching
      subst own
      refine .inr ⟨reply, answered, request.symm, sent, ?_⟩
      rw [callResult, if_neg]
      rw [identity, ← request]
      exact not_not.mpr rfl

/-- What a client knows after an application. -/
theorem ClientSound.afterApply {s : LeaseSystem ι} {client : ι} {state : LeaseClient}
    (sound : s.ClientSound client state)
    (ledger : Ledger s.clock s.handledAt s.server s.replies s.log)
    {request : Request LeaseParameter} {sentAt : ℤ} {result : CallResult LeaseData}
    (applies : request.identity.apiId = apiIdLeaseApply)
    (issued : ⟨client, request, sentAt⟩ ∈ s.issued)
    (ended : (result.code ≠ 0 ∧ result.code ≠ errServerLeaseNotExist) ∨
      ∃ reply ∈ s.replies, reply.request = request ∧ sentAt ≤ reply.now ∧
        result = ⟨reply.response.code, some reply.response.data⟩) :
    s.ClientSound client (state.afterApply sentAt result) := by
  have idle : s.ClientSound client { state with phase := .idle } :=
    ⟨fun _ _ phase => by contradiction, fun _ _ phase => by contradiction, sound.granted,
      sound.confirmed⟩
  rw [LeaseClient.afterApply]
  by_cases failed : result.code ≠ 0
  · rwa [if_pos failed]
  · rw [if_neg failed]
    obtain ⟨reply, answered, rfl, later, rfl⟩ := ended.resolve_left fun refused => failed refused.1
    cases ledger.onRecord reply answered (not_not.mp failed) with
    | renewed renews => cases applies.symm.trans renews
    | @granted id term _ data listed =>
        rw [data]
        exact ⟨fun _ _ phase => by contradiction, fun _ _ phase => by contradiction,
          fun _ => ⟨reply, answered, term, data, _, issued, rfl, rfl⟩,
          fun _ => ⟨reply.now, later, .inl listed⟩⟩

/-- What a client knows after a renewal. -/
theorem ClientSound.afterRenewal {s : LeaseSystem ι} {client : ι} {state : LeaseClient}
    (sound : s.ClientSound client state)
    (ledger : Ledger s.clock s.handledAt s.server s.replies s.log)
    {request : Request LeaseParameter} {sentAt : ℤ} {result : CallResult LeaseData}
    (renews : request.identity.apiId = apiIdLeaseRenewal) (own : request.leaseId = state.leaseId)
    (ended : (result.code ≠ 0 ∧ result.code ≠ errServerLeaseNotExist) ∨
      ∃ reply ∈ s.replies, reply.request = request ∧ sentAt ≤ reply.now ∧
        result = ⟨reply.response.code, some reply.response.data⟩) :
    s.ClientSound client (state.afterRenewal sentAt result) := by
  have idle : s.ClientSound client { state with phase := .idle } :=
    ⟨fun _ _ phase => by contradiction, fun _ _ phase => by contradiction, sound.granted,
      sound.confirmed⟩
  rw [LeaseClient.afterRenewal]
  by_cases success : result.code = 0
  · rw [if_pos success]
    obtain ⟨reply, answered, rfl, later, rfl⟩ := ended.resolve_left fun refused => refused.1 success
    cases ledger.onRecord reply answered success with
    | granted applies => cases applies.symm.trans renews
    | renewed _ listed =>
        exact ⟨idle.applying, idle.renewing, sound.granted,
          fun _ => ⟨reply.now, later, .inr (own ▸ listed)⟩⟩
  · rw [if_neg success]
    by_cases lost : result.code = errServerLeaseNotExist
    · rw [if_pos lost]
      exact ⟨fun _ _ phase => by contradiction, fun _ _ phase => by contradiction,
        fun held => absurd rfl held, fun held => absurd rfl held⟩
    · rwa [if_neg lost]

theorem stub_afterApply (state : LeaseClient) (sentAt : ℤ) (result : CallResult LeaseData) :
    (state.afterApply sentAt result).stub = state.stub := by
  rw [LeaseClient.afterApply]
  split
  case isTrue => rfl
  case isFalse => split <;> rfl

theorem stub_afterRenewal (state : LeaseClient) (sentAt : ℤ) (result : CallResult LeaseData) :
    (state.afterRenewal sentAt result).stub = state.stub := by
  rw [LeaseClient.afterRenewal]
  split
  case isTrue => rfl
  case isFalse => split <;> rfl

/-- A thread that goes on had been waiting, and its call has returned. -/
theorem wake_eq_some {state after : LeaseClient} {waited : Bool}
    (woken : state.wake waited = some after) :
    ∃ n sentAt stub call result, state.stub.wake n waited = some stub ∧
      stub.calls[n]? = some call ∧ call.result = some result ∧
      (state.phase = .applying n sentAt ∧
        after = LeaseClient.afterApply { state with stub } sentAt result ∨
      state.phase = .renewing n sentAt ∧
        after = LeaseClient.afterRenewal { state with stub } sentAt result) := by
  rw [LeaseClient.wake.eq_def] at woken
  cases waits : state.phase with
  | idle => simp [waits] at woken
  | stopped => simp [waits] at woken
  | applying n sentAt =>
      rw [waits] at woken
      simp only [Option.bind_eq_bind, Option.bind_eq_some_iff] at woken
      obtain ⟨stub, awake, call, stored, result, returned, same⟩ := woken
      exact ⟨n, sentAt, stub, call, result, awake, stored, returned,
        .inl ⟨rfl, waits ▸ (Option.some.inj same).symm⟩⟩
  | renewing n sentAt =>
      rw [waits] at woken
      simp only [Option.bind_eq_bind, Option.bind_eq_some_iff] at woken
      obtain ⟨stub, awake, call, stored, result, returned, same⟩ := woken
      exact ⟨n, sentAt, stub, call, result, awake, stored, returned,
        .inr ⟨rfl, waits ▸ (Option.some.inj same).symm⟩⟩

/-- The wait of a client ends. -/
theorem Sound.wake [DecidableEq ι] {s : LeaseSystem ι} (sound : s.Sound) {client : ι}
    {waited : Bool} {after : LeaseClient} (woken : (s.clients client).wake waited = some after) :
    (s.setClient client after).Sound := by
  obtain ⟨n, sentAt, stub, call, result, awake, stored, returned, phase⟩ := wake_eq_some woken
  have stubs := sound.messages.stub client
  have requests := ClientStub.requests_wake awake
  have asked : stub.requests[n]? = some call.request :=
    ClientStub.getElem?_requests.mpr ⟨call, stored, rfl⟩
  refine sound.setClient ?_ fun distinct => ?_
  · rcases phase with ⟨-, rfl⟩ | ⟨-, rfl⟩
    · rw [stub_afterApply]
      exact stubs.wake awake
    · rw [stub_afterRenewal]
      exact stubs.wake awake
  · have before := sound.clients distinct client
    have kept : s.ClientSound client { s.clients client with stub } :=
      ⟨requests ▸ before.applying, requests ▸ before.renewing, before.granted, before.confirmed⟩
    rcases phase with ⟨phase, rfl⟩ | ⟨phase, rfl⟩
    · obtain ⟨request, same, applies, issued⟩ := kept.applying n sentAt phase
      obtain rfl := Option.some.inj (asked.symm.trans same)
      exact kept.afterApply sound.ledger applies issued
        (ClientSound.result_eq sound.messages distinct stubs awake stored returned issued)
    · obtain ⟨request, same, renews, own, issued⟩ := kept.renewing n sentAt phase
      obtain rfl := Option.some.inj (asked.symm.trans same)
      exact kept.afterRenewal sound.ledger renews own
        (ClientSound.result_eq sound.messages distinct stubs awake stored returned issued)

theorem Sound.step [DecidableEq ι] {s next : LeaseSystem ι} {event : LeaseEvent ι}
    (sound : s.Sound) (timely : s.Timely event) (stepped : s.step event = some next) :
    next.Sound := by
  cases event with
  | tick time =>
      obtain rfl := Option.some.inj stepped
      exact sound.tick timely
  | call client contextName requestId written =>
      rw [LeaseSystem.step] at stepped
      obtain ⟨-, same⟩ := Option.ite_none_left_eq_some.mp stepped
      obtain rfl := Option.some.inj same
      exact sound.call client contextName requestId written
  | accept request =>
      rw [LeaseSystem.step] at stepped
      obtain ⟨ready, same⟩ := Option.ite_none_left_eq_some.mp stepped
      obtain rfl := Option.some.inj same
      rw [not_or, not_not] at ready
      exact sound.accept ready.2 timely
  | reply =>
      rw [LeaseSystem.step] at stepped
      obtain ⟨⟨request, now⟩, taken, rfl⟩ := Option.map_eq_some_iff.mp stepped
      exact sound.finish taken
  | check leaseId =>
      obtain rfl := Option.some.inj stepped
      exact sound.checkLease leaseId
  | deliver client response =>
      rw [LeaseSystem.step] at stepped
      obtain ⟨sent, same⟩ := Option.ite_none_right_eq_some.mp stepped
      obtain rfl := Option.some.inj same
      exact sound.deliver client sent
  | wake client waited =>
      rw [LeaseSystem.step] at stepped
      obtain ⟨after, woken, rfl⟩ := Option.map_eq_some_iff.mp stepped
      exact sound.wake woken

theorem sound_of_run [DecidableEq ι] {term clock : ℤ} (started : 0 ≤ clock)
    {events : List (LeaseEvent ι)} {s : LeaseSystem ι}
    (ran : EventRun.run step (init ι term clock) events = some s)
    (timely : EventRun.Along step Timely (init ι term clock) events) : s.Sound :=
  EventRun.invariant_along (sound_init started)
    (fun _ _ _ sound allowed stepped => sound.step allowed stepped) ran timely

/-! ## Safety -/

variable [DecidableEq ι]

/-- Only the handler and the check touch the server and the log. -/
theorem step_server {s next : LeaseSystem ι} {event : LeaseEvent ι}
    (stepped : s.step event = some next) :
    (next.server = s.server ∧ next.log = s.log) ∨ (∃ request now, next = s.finish request now) ∨
      ∃ leaseId, next = s.checkLease leaseId := by
  cases event with
  | tick time =>
      obtain rfl := Option.some.inj stepped
      exact .inl ⟨rfl, rfl⟩
  | call client contextName requestId written =>
      rw [LeaseSystem.step] at stepped
      obtain ⟨-, same⟩ := Option.ite_none_left_eq_some.mp stepped
      obtain rfl := Option.some.inj same
      exact .inl ⟨rfl, rfl⟩
  | accept request =>
      rw [LeaseSystem.step] at stepped
      obtain ⟨-, same⟩ := Option.ite_none_left_eq_some.mp stepped
      obtain rfl := Option.some.inj same
      exact .inl ⟨rfl, rfl⟩
  | reply =>
      rw [LeaseSystem.step] at stepped
      obtain ⟨⟨request, now⟩, -, rfl⟩ := Option.map_eq_some_iff.mp stepped
      exact .inr (.inl ⟨request, now, rfl⟩)
  | check leaseId =>
      obtain rfl := Option.some.inj stepped
      exact .inr (.inr ⟨leaseId, rfl⟩)
  | deliver client response =>
      rw [LeaseSystem.step] at stepped
      obtain ⟨-, same⟩ := Option.ite_none_right_eq_some.mp stepped
      obtain rfl := Option.some.inj same
      exact .inl ⟨rfl, rfl⟩
  | wake client waited =>
      rw [LeaseSystem.step] at stepped
      obtain ⟨after, -, rfl⟩ := Option.map_eq_some_iff.mp stepped
      exact .inl ⟨rfl, rfl⟩

/-- The term of the server is fixed, and no more requests under other ids than grants have been
let through, one fewer while a lease is in the cache. -/
structure Counted (term : ℤ) (server : LeaseServer) (log : List LeaseEntry) : Prop where
  term : server.term = term
  admitted : log.countP LeaseEntry.isForeign + (if server.cache.id = 0 then 0 else 1) ≤
    log.countP LeaseEntry.isGrant

omit [DecidableEq ι] in
theorem countP_append_of_not {p : LeaseEntry → Bool} {log : List LeaseEntry} {entry : LeaseEntry}
    (uncounted : p entry = false) : (log ++ [entry]).countP p = log.countP p := by
  rw [List.countP_append, List.countP_singleton, uncounted]
  rfl

omit [DecidableEq ι] in
theorem Counted.finish {term : ℤ} {s : LeaseSystem ι} (counted : Counted term s.server s.log)
    (request : Request LeaseParameter) (now : ℤ) :
    Counted term (s.finish request now).server (s.finish request now).log := by
  obtain ⟨fixed, admitted⟩ := counted
  rw [LeaseSystem.finish]
  have handled := s.server.handled_serverRequestHandler request now s.clock
  generalize s.server.serverRequestHandler request now s.clock = result at handled ⊢
  cases handled with
  | refused failed =>
      refine ⟨fixed, ?_⟩
      dsimp only [logOf]
      rw [if_neg failed, List.append_nil]
      exact admitted
  | dropped late =>
      refine ⟨fixed, ?_⟩
      dsimp only [logOf]
      rw [if_neg (show errServerLeaseNotExist ≠ 0 by decide), List.append_nil,
        if_pos (show s.server.cache.clear.id = 0 from rfl)]
      exact (Nat.le_add_right _ _).trans admitted
  | granted applies free =>
      refine ⟨fixed, ?_⟩
      have grants : (s.log ++ [LeaseEntry.granted s.clock now]).countP LeaseEntry.isGrant =
          s.log.countP LeaseEntry.isGrant + 1 := by
        rw [List.countP_append, List.countP_singleton]
        rfl
      dsimp only [logOf]
      rw [countP_append_of_not rfl, grants]
      split <;> omega
  | renewed renews current =>
      refine ⟨fixed, ?_⟩
      dsimp only [logOf]
      rw [if_pos rfl, countP_append_of_not rfl, countP_append_of_not rfl]
      exact admitted

omit [DecidableEq ι] in
theorem Counted.checkLease {term : ℤ} {s : LeaseSystem ι} (counted : Counted term s.server s.log)
    (leaseId : ℤ) :
    Counted term (s.checkLease leaseId).server (s.checkLease leaseId).log := by
  obtain ⟨fixed, admitted⟩ := counted
  have grants : (s.log ++ [LeaseEntry.admitted leaseId s.server.cache.id]).countP
      LeaseEntry.isGrant = s.log.countP LeaseEntry.isGrant := countP_append_of_not rfl
  have foreign : (s.log ++ [LeaseEntry.admitted leaseId s.server.cache.id]).countP
      LeaseEntry.isForeign =
        s.log.countP LeaseEntry.isForeign + if leaseId ≠ s.server.cache.id then 1 else 0 := by
    simp only [List.countP_append, List.countP_singleton, LeaseEntry.isForeign, decide_eq_true_eq]
  -- A lease that is current lets only its own id through.
  have current : Counted term s.server (if decide (s.server.cache.id ≠ leaseId) then s.log
      else s.log ++ [.admitted leaseId s.server.cache.id]) := by
    by_cases same : s.server.cache.id = leaseId
    · rw [if_neg (by simpa using same)]
      refine ⟨fixed, ?_⟩
      rwa [foreign, grants, if_neg (not_not.mpr same.symm), Nat.add_zero]
    · rw [if_pos (by simpa using same)]
      exact ⟨fixed, admitted⟩
  rw [LeaseSystem.checkLease, LeaseServer.checkRequestLeaseDenied]
  by_cases vacant : s.server.cache.id = 0
  · rw [if_pos vacant]
    exact current
  · rw [if_neg vacant]
    by_cases late : s.server.cache.lastModified + s.server.term < s.clock
    · rw [if_pos late]
      refine ⟨fixed, ?_⟩
      rw [if_neg vacant] at admitted
      have cleared : s.server.cache.clear.id = 0 := rfl
      dsimp only
      rw [if_neg (by simp), if_pos cleared, foreign, grants]
      split <;> omega
    · rw [if_neg late]
      exact current

theorem counted_of_run {term clock : ℤ} {events : List (LeaseEvent ι)} {s : LeaseSystem ι}
    (ran : EventRun.run step (init ι term clock) events = some s) :
    Counted term s.server s.log := by
  refine @EventRun.invariant _ _ step (fun s => Counted term s.server s.log) _ _ _ ⟨rfl, le_rfl⟩
    (fun before event next counted stepped => ?_) ran
  rcases step_server stepped with ⟨server, log⟩ | ⟨request, now, rfl⟩ | ⟨leaseId, rfl⟩
  · rwa [server, log]
  · exact counted.finish request now
  · exact counted.checkLease leaseId

omit [DecidableEq ι] in
/-- Two clients with one lease are one client: each id was granted in one reply, to one request. -/
theorem Sound.exclusive {s : LeaseSystem ι} (sound : s.Sound) (distinct : s.DistinctIds)
    {left right : ι} (held : (s.clients left).leaseId ≠ 0)
    (same : (s.clients left).leaseId = (s.clients right).leaseId) : left = right := by
  obtain ⟨reply, answered, term, data, issue, member, own, asked⟩ :=
    (sound.clients distinct left).granted held
  obtain ⟨reply', answered', term', data', issue', member', own', asked'⟩ :=
    (sound.clients distinct right).granted (same ▸ held)
  rw [← same] at data'
  obtain rfl := sound.ledger.once reply answered reply' answered' _ term term' data data'
  obtain rfl := distinct.issue_eq member member' (by rw [asked, asked'])
  exact own.symm.trans own'

omit [DecidableEq ι] in
/-- For one term from the sending of its last confirmed request, the lease of a client is the one in
the cache. -/
theorem Sound.current {s : LeaseSystem ι} (sound : s.Sound) (distinct : s.DistinctIds)
    {client : ι} (held : (s.clients client).leaseId ≠ 0)
    (fresh : s.clock ≤ (s.clients client).confirmedAt + s.server.term) :
    s.server.cache.id = (s.clients client).leaseId ∧
      s.clock ≤ s.server.cache.lastModified + s.server.term := by
  obtain ⟨now, later, confirmed⟩ := (sound.clients distinct client).confirmed held
  obtain ⟨-, -, current, recent⟩ := sound.ledger.confirmed _ now confirmed
  have same : s.server.cache.id = (s.clients client).leaseId :=
    current.resolve_right (by omega)
  have := recent (same.trans_ne held)
  exact ⟨same, by omega⟩

/-- In every interleaving on a timely clock no two clients have the same lease, not even when it has
run out. -/
theorem lease_exclusive {term clock : ℤ} (started : 0 ≤ clock) {events : List (LeaseEvent ι)}
    {s : LeaseSystem ι} (ran : EventRun.run step (init ι term clock) events = some s)
    (timely : EventRun.Along step Timely (init ι term clock) events) (distinct : s.DistinctIds)
    {left right : ι} (apart : left ≠ right) (held : (s.clients left).leaseId ≠ 0) :
    (s.clients left).leaseId ≠ (s.clients right).leaseId :=
  fun same => apart ((sound_of_run started ran timely).exclusive distinct held same)

/-- One client gets the lease and never renews it; the other is refused, applies again after a
request has found the lease too old, and gets one of its own. -/
def twoLeases : List (LeaseEvent Bool) :=
  let apply (id : ℤ) (name : String) : Request LeaseParameter :=
    { identity := ⟨id, apiIdLeaseApply⟩, payload := some (some name) }
  [.tick 1, .call true "a" 7 true, .call false "b" 8 true, .tick 3, .accept (apply 7 "a"),
    .tick 4, .reply, .deliver true ⟨⟨7, apiIdLeaseApply⟩, 0, .lease 4 10⟩, .wake true true,
    .tick 5, .accept (apply 8 "b"), .reply, .check 4, .check 9,
    .deliver false ⟨⟨8, apiIdLeaseApply⟩, errServerLeaseExist, .empty⟩, .wake false true,
    .tick 14, .check 9, .call false "b" 9 true, .accept (apply 9 "b"), .reply,
    .deliver false ⟨⟨9, apiIdLeaseApply⟩, 0, .lease 14 10⟩, .wake false true]

theorem twoLeases_reaches :
    EventRun.Reaches step (init Bool 10 0) twoLeases fun s => s.DistinctIds ∧ s.clock = 14 ∧
      (s.clients true).leaseId = 4 ∧ (s.clients false).leaseId = 14 ∧
      (s.clients false).confirmedAt = 14 ∧
      s.log = [.granted 4 3, .admitted 4 4, .admitted 9 4, .granted 14 14] := by
  decide

theorem twoLeases_timely : EventRun.Along step Timely (init Bool 10 0) twoLeases := by
  decide

theorem lease_exclusive_two :
    EventRun.Reaches step (init Bool 10 0) twoLeases fun s =>
      (s.clients true).leaseId ≠ (s.clients false).leaseId := by
  obtain ⟨s, ran, distinct, -, first, -⟩ := twoLeases_reaches
  exact ⟨s, ran, lease_exclusive (by decide) ran twoLeases_timely distinct (by decide)
    (by rw [first]; decide)⟩

/-- Without a timely clock two clients get one id: the clock is set back after a lease has run
out. -/
example :
    EventRun.Reaches step (init Bool 10 0)
      [.tick 4, .call true "a" 7 true,
        .accept { identity := ⟨7, apiIdLeaseApply⟩, payload := some (some "a") }, .reply,
        .deliver true ⟨⟨7, apiIdLeaseApply⟩, 0, .lease 4 10⟩, .wake true true, .tick 15, .check 9,
        .tick 4, .call false "b" 8 true,
        .accept { identity := ⟨8, apiIdLeaseApply⟩, payload := some (some "b") }, .reply,
        .deliver false ⟨⟨8, apiIdLeaseApply⟩, 0, .lease 4 10⟩, .wake false true]
      fun s => s.DistinctIds ∧ (s.clients true).leaseId = 4 ∧ (s.clients false).leaseId = 4 := by
  decide

/-- In every interleaving on a timely clock, for one term from the time at which a client sent the
last request that was confirmed to it, its id is the only one that the server lets through, and no
other client is in that position. -/
theorem lease_guards_its_term {term clock : ℤ} (started : 0 ≤ clock)
    {events : List (LeaseEvent ι)} {s : LeaseSystem ι}
    (ran : EventRun.run step (init ι term clock) events = some s)
    (timely : EventRun.Along step Timely (init ι term clock) events) (distinct : s.DistinctIds)
    {client : ι} (held : (s.clients client).leaseId ≠ 0)
    (fresh : s.clock ≤ (s.clients client).confirmedAt + term) :
    (∀ leaseId, s.server.checkRequestLeaseDenied s.clock leaseId =
      (decide ((s.clients client).leaseId ≠ leaseId), s.server)) ∧
      ∀ other, (s.clients other).leaseId ≠ 0 → s.clock ≤ (s.clients other).confirmedAt + term →
        other = client := by
  have sound := sound_of_run started ran timely
  rw [← (counted_of_run ran).term] at fresh ⊢
  obtain ⟨same, live⟩ := sound.current distinct held fresh
  refine ⟨fun leaseId => ?_, fun other heldToo freshToo => ?_⟩
  · rw [← same]
    exact LeaseServer.checkRequestLeaseDenied_of_live (same.trans_ne held) live leaseId
  · obtain ⟨sameToo, -⟩ := sound.current distinct heldToo freshToo
    exact sound.exclusive distinct heldToo (sameToo.symm.trans same)

theorem lease_guards_its_term_two :
    EventRun.Reaches step (init Bool 10 0) twoLeases fun s =>
      s.server.checkRequestLeaseDenied s.clock 4 = (true, s.server) := by
  obtain ⟨s, ran, distinct, clock, -, second, confirmed, -⟩ := twoLeases_reaches
  have guarded := (lease_guards_its_term (by decide) ran twoLeases_timely distinct
    (show (s.clients false).leaseId ≠ 0 by rw [second]; decide)
    (by rw [clock, confirmed]; decide)).1 4
  rw [second] at guarded
  exact ⟨s, ran, guarded⟩

/-- In every interleaving, what the server lets through under an id other than the one in its cache
does not exceed the grants: such a request is the one that finds an old lease, and clears it. -/
theorem foreign_le_grants {term clock : ℤ} {events : List (LeaseEvent ι)} {s : LeaseSystem ι}
    (ran : EventRun.run step (init ι term clock) events = some s) :
    s.log.countP LeaseEntry.isForeign ≤ s.log.countP LeaseEntry.isGrant :=
  (Nat.le_add_right _ _).trans (counted_of_run ran).admitted

theorem foreign_le_grants_two :
    EventRun.Reaches step (init Bool 10 0) twoLeases fun s =>
      s.log.countP LeaseEntry.isForeign ≤ 2 := by
  obtain ⟨s, ran, -, -, -, -, -, log⟩ := twoLeases_reaches
  have grants : s.log.countP LeaseEntry.isGrant = 2 := by
    rw [log]
    rfl
  exact ⟨s, ran, grants ▸ foreign_le_grants ran⟩

end LeaseSystem

end G1Jepa.Rpc
