import G1Jepa.RpcServer

/-!
# Clients and server together

The calls of `client_base.py` against the server of `server.py`, with its queues and threads, over a
network that loses, delays, reorders and repeats messages. What the server sends is what the
abstract server of `RpcSystem` may send, so every call returns what a handler computed for it.
-/

namespace G1Jepa.Rpc

/-- Any number of clients, a server and what the network holds. -/
structure RpcService (ι σ : Type) where
  rpc : RpcSystem ι (String × List ℕ) (String × List ℕ)
  server : ServerSystem σ

/-- An event of a client or of the server. -/
inductive ServiceEvent (ι : Type)
  | client (event : RpcEvent ι (String × List ℕ) (String × List ℕ))
  | server (event : ServerEvent)

/-- What arrives is among the given requests. -/
def ServerEvent.FromNetwork (written : List ServiceRequest) : ServerEvent → Prop
  | .arrive request => request ∈ written
  | _ => True

instance (written : List ServiceRequest) (event : ServerEvent) :
    Decidable (event.FromNetwork written) :=
  match event with
  | .arrive request => inferInstanceAs (Decidable (request ∈ written))
  | .receive | .enqueue | .take _ | .handle .. | .lease .. => .isTrue trivial

namespace RpcService

variable {ι σ : Type} [DecidableEq ι]

def init (ι : Type) (registrations : List (Registration σ)) (service : σ)
    (enablePriority : Bool) : RpcService ι σ where
  rpc := .init
  server := .init registrations service enablePriority

/-- What arrives at the server is in its channel, and the responses go into theirs. -/
def step (s : RpcService ι σ) : ServiceEvent ι → Option (RpcService ι σ)
  | .client (.serve _ _ _) => none
  | .client event => (s.rpc.step event).map fun rpc => { s with rpc }
  | .server event =>
      if event.FromNetwork s.rpc.written then
        (s.server.step event).map fun server =>
          { rpc := { s.rpc with answers := server.sent }, server }
      else none

/-! ## The server as the abstract server -/

/-- The responses of the network are those that the server has sent, each for a request that it has
handled, and its requests come from the network. -/
structure Linked (s : RpcService ι σ) : Prop where
  sound : s.server.Sound
  answers : s.rpc.answers = s.server.sent
  handled : ∀ answered ∈ s.server.sent, ∃ handled ∈ s.server.handled,
    handled.request = answered.1 ∧ handled.response = some answered.2
  arrived : ∀ request ∈ s.server.arrived, request ∈ s.rpc.written

omit [DecidableEq ι] in
theorem linked_init {registrations : List (Registration σ)} {service : σ} {enablePriority : Bool} :
    (init ι registrations service enablePriority).Linked :=
  ⟨ServerSystem.sound_init, rfl, fun _ member => absurd member List.not_mem_nil,
    fun _ member => absurd member List.not_mem_nil⟩

/-- A client sends no response, and a request that has been written stays. -/
theorem client_step {rpc after : RpcSystem ι (String × List ℕ) (String × List ℕ)}
    {event : RpcEvent ι (String × List ℕ) (String × List ℕ)} (ran : rpc.step event = some after)
    (client : ∀ request code data, event ≠ .serve request code data) :
    after.answers = rpc.answers ∧ ∀ request ∈ rpc.written, request ∈ after.written := by
  cases event with
  | call owner request written =>
      obtain ⟨-, equality⟩ := Option.ite_none_left_eq_some.mp ran
      obtain rfl := Option.some.inj equality
      refine ⟨rfl, fun other member => ?_⟩
      cases written with
      | false => exact member
      | true => exact List.mem_append_left _ member
  | callNoReply request =>
      obtain ⟨-, equality⟩ := Option.ite_none_right_eq_some.mp ran
      obtain rfl := Option.some.inj equality
      exact ⟨rfl, fun other member => List.mem_append_left _ member⟩
  | serve request code data => exact absurd rfl (client request code data)
  | deliver owner response =>
      obtain ⟨-, equality⟩ := Option.ite_none_right_eq_some.mp ran
      obtain rfl := Option.some.inj equality
      exact ⟨rfl, fun _ member => member⟩
  | wake owner n waited =>
      obtain ⟨stub, -, rfl⟩ := Option.map_eq_some_iff.mp ran
      exact ⟨rfl, fun _ member => member⟩

theorem client_of_step {s after : RpcService ι σ}
    {event : RpcEvent ι (String × List ℕ) (String × List ℕ)}
    (ran : s.step (.client event) = some after) :
    (∀ request code data, event ≠ .serve request code data) ∧
      ∃ rpc, s.rpc.step event = some rpc ∧ after = { s with rpc } := by
  cases event with
  | serve request code data => contradiction
  | call owner request written =>
      obtain ⟨rpc, stepped, rfl⟩ := Option.map_eq_some_iff.mp ran
      exact ⟨by simp, rpc, stepped, rfl⟩
  | callNoReply request =>
      obtain ⟨rpc, stepped, rfl⟩ := Option.map_eq_some_iff.mp ran
      exact ⟨by simp, rpc, stepped, rfl⟩
  | deliver owner response =>
      obtain ⟨rpc, stepped, rfl⟩ := Option.map_eq_some_iff.mp ran
      exact ⟨by simp, rpc, stepped, rfl⟩
  | wake owner n waited =>
      obtain ⟨rpc, stepped, rfl⟩ := Option.map_eq_some_iff.mp ran
      exact ⟨by simp, rpc, stepped, rfl⟩

omit [DecidableEq ι] in
/-- A request that a thread has taken came from the network. -/
theorem Linked.mem_written {s : RpcService ι σ} (linked : s.Linked) {prio : Bool}
    {request : ServiceRequest} (taken : s.server.taken prio = some request) :
    request ∈ s.rpc.written := by
  have waits : request ∈ s.server.pipeline.lanes prio := by
    rw [show s.server.pipeline.lanes prio = s.server.lane prio from rfl,
      (ServerSystem.lane_of_taken taken).1]
    exact List.mem_cons_self
  have own : request ∈ LossyPipeline.kept
      (ServerSystem.isPrio s.server.enablePriority) s.server.pipeline prio :=
    List.mem_append_left _ (List.mem_append_right _ waits)
  have arrived := (linked.sound.ordered.kept prio).subset own
  exact linked.arrived request (List.mem_of_mem_filter arrived)

/-- A handled request is answered by the abstract server, or its response is not written. -/
theorem Linked.serve {s : RpcService ι σ} (linked : s.Linked) {handled : HandledRequest σ}
    (member : handled.request ∈ s.rpc.written) (written : Bool) :
    ∃ events, EventRun.run RpcSystem.step s.rpc events =
      some { s.rpc with answers := s.server.sent ++ handled.sendResponse written } := by
  rw [← linked.answers, HandledRequest.sendResponse]
  cases written with
  | false => exact ⟨[], by simp⟩
  | true =>
      refine ⟨[.serve handled.request handled.answer.1 handled.answer.2],
        EventRun.run_cons_eq_some.mpr ⟨_, ?_, rfl⟩⟩
      rw [RpcSystem.step, if_neg (not_not.mpr member), HandledRequest.response]
      cases handled.request.noreply <;> simp

omit [DecidableEq ι] in
/-- Handling a request keeps the responses linked to the handled requests. -/
theorem Linked.handled_append {s : RpcService ι σ} (linked : s.Linked) (handled : HandledRequest σ)
    (written : Bool) :
    ∀ answered ∈ s.server.sent ++ handled.sendResponse written,
      ∃ record ∈ s.server.handled ++ [handled],
        record.request = answered.1 ∧ record.response = some answered.2 := by
  intro answered member
  rcases List.mem_append.mp member with old | new
  · obtain ⟨record, listed, same⟩ := linked.handled answered old
    exact ⟨record, List.mem_append_left _ listed, same⟩
  · obtain ⟨asked, responded, -⟩ := ServerSystem.identity_of_sendResponse new
    exact ⟨handled, List.mem_append_right _ List.mem_cons_self, asked, responded⟩

/-- Every event of the composed system is an event of the clients, a response of the abstract
server, or nothing. -/
theorem Linked.step {s after : RpcService ι σ} {event : ServiceEvent ι} (linked : s.Linked)
    (ran : s.step event = some after) :
    after.Linked ∧ ∃ events, EventRun.run RpcSystem.step s.rpc events = some after.rpc := by
  cases event with
  | client event =>
      obtain ⟨client, rpc, stepped, rfl⟩ := client_of_step ran
      obtain ⟨answers, written⟩ := client_step stepped client
      refine ⟨⟨linked.sound, answers.trans linked.answers, linked.handled,
        fun request member => ?_⟩, [event], ?_⟩
      · exact written request (linked.arrived request member)
      · exact EventRun.run_cons_eq_some.mpr ⟨rpc, stepped, rfl⟩
  | server event =>
      obtain ⟨network, rest⟩ := Option.ite_none_right_eq_some.mp ran
      obtain ⟨server, stepped, rfl⟩ := Option.map_eq_some_iff.mp rest
      have arrived : ∀ request ∈ server.arrived, request ∈ s.rpc.written := by
        intro request member
        rcases ServerSystem.arrived_of_step stepped request member with old | rfl
        · exact linked.arrived request old
        · exact network
      rcases ServerSystem.sent_of_step stepped with
        ⟨handled, sent⟩ | ⟨prio, now, written, request, rfl, taken, handled, sent⟩
      · refine ⟨⟨linked.sound.step stepped, rfl, ?_, arrived⟩, [], ?_⟩
        · rw [handled, sent]
          exact linked.handled
        · rw [sent, ← linked.answers]
          rfl
      · refine ⟨⟨linked.sound.step stepped, rfl, ?_, arrived⟩, ?_⟩
        · rw [handled, sent]
          exact linked.handled_append _ written
        · rw [sent]
          exact @Linked.serve _ _ _ s linked ⟨request, s.server.server, s.server.service, now⟩
            (linked.mem_written taken) written

/-! ## Runs of clients and server -/

variable {registrations : List (Registration σ)} {service : σ} {enablePriority : Bool}
  {events : List (ServiceEvent ι)} {s : RpcService ι σ}

/-- A run of clients and server is a run of the clients against the abstract server. -/
theorem run_refines
    (ran : EventRun.run step (init ι registrations service enablePriority) events = some s) :
    s.Linked ∧ ∃ steps, EventRun.run RpcSystem.step .init steps = some s.rpc :=
  @EventRun.simulated _ _ step _ _ RpcSystem.step RpcService.rpc Linked _ _ events linked_init
    (fun _ _ _ linked stepped => linked.step stepped) ran

/-- A run of clients and server is a run of the server. -/
theorem run_server
    (ran : EventRun.run step (init ι registrations service enablePriority) events = some s) :
    ∃ steps, EventRun.run ServerSystem.step (.init registrations service enablePriority) steps =
      some s.server := by
  refine (@EventRun.simulated _ _ step _ _ ServerSystem.step RpcService.server (fun _ => True) _ s
    events trivial ?_ ran).2
  rintro before event after - stepped
  refine ⟨trivial, ?_⟩
  cases event with
  | client event =>
      obtain ⟨-, rpc, -, rfl⟩ := client_of_step stepped
      exact ⟨[], rfl⟩
  | server event =>
      obtain ⟨-, rest⟩ := Option.ite_none_right_eq_some.mp stepped
      obtain ⟨server, advanced, rfl⟩ := Option.map_eq_some_iff.mp rest
      exact ⟨[event], EventRun.run_cons_eq_some.mpr ⟨server, advanced, rfl⟩⟩

omit [DecidableEq ι] in
/-- The answers in the channel were computed for the requests that they answer. -/
theorem Linked.handled_of_answer (linked : s.Linked) {request : ServiceRequest}
    {response : ServiceResponse} (member : (request, response) ∈ s.rpc.answers) :
    ∃ handled ∈ s.server.handled, handled.request = request ∧
      (response.code, response.data) = handled.answer := by
  rw [linked.answers] at member
  obtain ⟨handled, listed, asked, responded⟩ := linked.handled _ member
  refine ⟨handled, listed, asked, ?_⟩
  rw [HandledRequest.response] at responded
  obtain ⟨-, equality⟩ := Option.ite_none_left_eq_some.mp responded
  obtain rfl := Option.some.inj equality
  rfl

/-- However calls, the queues and threads of the server and the network interleave, a call returns a
send error, a timeout, or what the server answered to this very request by its registrations. -/
theorem call_returns_handler_answer
    (ran : EventRun.run step (init ι registrations service enablePriority) events = some s)
    (distinct : s.rpc.DistinctIds) {client : ι} {n : ℕ}
    {call : Call (String × List ℕ) (String × List ℕ)} {result : CallResult (String × List ℕ)}
    (stored : (s.rpc.stubs client).calls[n]? = some call) (returned : call.result = some result) :
    result = ⟨errClientSend, none⟩ ∨ result = ⟨errClientApiTimeout, none⟩ ∨
      ∃ handled ∈ s.server.handled, handled.request = call.request ∧
        result = ⟨handled.answer.1, some handled.answer.2⟩ ∧
        ServerSystem.AnsweredBy registrations handled := by
  obtain ⟨linked, steps, reached⟩ := run_refines ran
  obtain ⟨serverSteps, served⟩ := run_server ran
  rcases (RpcSystem.sound_of_run reached).returned_own_answer distinct stored returned with
    unsent | late | ⟨response, member, rfl⟩
  · exact .inl unsent
  · exact .inr (.inl late)
  · obtain ⟨handled, listed, asked, same⟩ := linked.handled_of_answer member
    have answered := ServerSystem.answeredBy_of_sameApi
      ((ServerSystem.sameApi_of_run served).2 handled listed)
    refine .inr (.inr ⟨handled, listed, asked, ?_, answered⟩)
    rw [← same]

open ServerSystem in
/-- A call of the echo service by one of two clients; its response also reaches the other. -/
def urgentCall : List (ServiceEvent Bool) :=
  [.client (.call true urgentRequest true), .server (.arrive urgentRequest), .server .receive,
    .server .enqueue, .server (.take true), .server (.handle true 0 true),
    .client (.deliver false ⟨⟨2, 7⟩, 0, ("urgent", [])⟩),
    .client (.deliver true ⟨⟨2, 7⟩, 0, ("urgent", [])⟩), .client (.wake true 0 true)]

open ServerSystem in
theorem call_returns_handler_answer_urgent :
    EventRun.Reaches step (init Bool echoRegistrations 0 true) urgentCall fun s =>
      ∃ handled ∈ s.server.handled, handled.request = urgentRequest ∧
        handled.answer = (0, "urgent", []) := by
  have reaches : EventRun.Reaches step (init Bool echoRegistrations 0 true) urgentCall fun s =>
      s.rpc.DistinctIds ∧ (s.rpc.stubs true).calls[0]? =
        some ⟨urgentRequest, .ready ⟨⟨2, 7⟩, 0, ("urgent", [])⟩,
          some ⟨0, some ("urgent", [])⟩⟩ := by
    decide +kernel
  obtain ⟨s, ran, distinct, stored⟩ := reaches
  refine ⟨s, ran, ?_⟩
  rcases call_returns_handler_answer ran distinct stored rfl with
    unsent | late | ⟨handled, listed, asked, same, -⟩
  · contradiction
  · contradiction
  · obtain ⟨code, data⟩ := CallResult.mk.inj same
    exact ⟨handled, listed, asked, Prod.ext code.symm (Option.some.inj data).symm⟩

end RpcService

end G1Jepa.Rpc
