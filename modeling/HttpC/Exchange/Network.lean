import HttpC.Exchange.Client
import HttpC.Exchange.Requests
import HttpC.Server.Service

/-!
# A client and the server

A client that uses `http_connection_send_request` and `http_connection_receive_response` in turn,
the event-loop server, and the bytes on their way between them. The client is the one at one
slot, from the time its connection is accepted there; the other slots are busy with other clients.

## Main results

* `exchange_of_run` — what the client gets are the answers to its requests, in order.
* `response_ready` — an answer that has been written whole is received.
-/

namespace HttpC

open Transition

/-! ## The model -/

structure Client where
  awaitingResponseToHead : Bool
  sent : List HttpRequest
  /-- What its successful calls returned. -/
  receipts : List ResponseReceipt
  /-- A call has failed, and the client gives up. -/
  lost : Bool
  deriving DecidableEq, Repr

def Client.fresh : Client := ⟨false, [], [], false⟩

structure Network where
  server : System
  client : Client
  /-- Bytes on their way to the server. -/
  up : Bytes
  /-- Bytes on their way to the client. -/
  down : Bytes

inductive NetworkAction where
  | server (a : ServerAction)
  /-- `http_connection_send_request`; `some n` when the connection fails after `n` bytes. -/
  | send (request : HttpRequest) (taken : Option Nat)
  /-- `http_connection_receive_response`, with the reads it makes. -/
  | receive (call : ResponseCall) (wire : Wire)
  /-- A call fails for another reason. -/
  | giveUp

/-- A read that brings bytes, or none in time. -/
def StreamEvent.flows : StreamEvent → Bool
  | .data _ | .tryAgain false => true
  | _ => false

namespace Network

/-- What an event at the client's slot does to the bytes on their way. -/
def deliver (N : Network) : SlotEvent → Option Network
  | .accepted => some { N with client := .fresh, up := [], down := [] }
  | .received bytes =>
    if bytes <+: N.up then some { N with up := N.up.drop bytes.length } else none
  | .wrote bytes => some { N with down := N.down ++ bytes }
  | _ => some N

def deliverAll (N : Network) : List SlotEvent → Option Network
  | [] => some N
  | e :: es => (N.deliver e).bind fun N => N.deliverAll es

/-- The request on its way; a client sends it when it has the response to the one before. -/
def send (lib : CommonLib) (N : Network) (request : HttpRequest) (taken : Option Nat) :
    Option Network :=
  if N.client.lost = false ∧ N.client.receipts.length = N.client.sent.length then
    let sent := httpConnectionSendRequest lib record [] ⟨[], N.client.awaitingResponseToHead⟩ request
    some { N with
      up := N.up ++ (taken.elim sent.2.1 sent.2.1.take)
      client := { N.client with
        awaitingResponseToHead := sent.2.2.awaitingResponseToHead
        sent := N.client.sent ++ [request]
        lost := taken.isSome } }
  else none

/-- The client's call: it reads some of the bytes on their way, and leaves some of these. -/
def receive (lib : CommonLib) (room : Nat) (N : Network) (call : ResponseCall) (wire : Wire) :
    Option Network :=
  if N.client.lost = false ∧ N.client.receipts.length < N.client.sent.length ∧
      wire.all StreamEvent.flows ∧ arriving wire <+: N.down ∧ room < call.mem.length then
    match receiveResponse lib none call.ptr call.mem ⟨wire, N.client.awaitingResponseToHead⟩
        call.response with
    | none => none
    | some o =>
      if o.result = .ok then
        some { N with
          down := arriving o.connection.wire ++ N.down.drop (arriving wire).length
          client := { N.client with
            awaitingResponseToHead := o.connection.awaitingResponseToHead
            receipts := N.client.receipts ++ [o] } }
      else some { N with client := { N.client with lost := true } }
  else none

end Network

section

variable (env : ServerEnv) (slotCount i room : Nat)

def networkStep (N : Network) : NetworkAction → Option (Network × List ServerEvent)
  | .server a =>
    match (sendingMachine env slotCount).step N.server a with
    | none => none
    | some (server, es) => ({ N with server }.deliverAll (slotLog i es)).map fun N => (N, es)
  | .send request taken => (N.send env.lib request taken).map fun N => (N, [])
  | .receive call wire => (N.receive env.lib room call wire).map fun N => (N, [])
  | .giveUp => some ({ N with client := { N.client with lost := true } }, [])

def networkMachine : Machine Network NetworkAction ServerEvent where
  Initial N := N.server.Initial ∧ N.client = .fresh ∧ N.up = [] ∧ N.down = []
  step := networkStep env slotCount i room

end

/-! ## The server in the network -/

theorem Network.server_deliverAll {N N' : Network} {es : List SlotEvent}
    (h : N.deliverAll es = some N') : N'.server = N.server := by
  induction es generalizing N with
  | nil =>
    obtain rfl := Option.some.inj h
    rfl
  | cons e es ih =>
    obtain ⟨M, hM, hrest⟩ := Option.bind_eq_some_iff.mp h
    have hserver : M.server = N.server := by
      cases e with
      | received bytes =>
        obtain ⟨-, hM⟩ := Option.ite_none_right_eq_some.mp hM
        obtain rfl := Option.some.inj hM
        rfl
      | _ =>
        obtain rfl := Option.some.inj hM
        rfl
    exact (ih hrest).trans hserver

/-- The server runs as it does alone. -/
def networkProjection (env : ServerEnv) (slotCount i room : Nat) :
    Projection (networkMachine env slotCount i room) (sendingMachine env slotCount) where
  view := Network.server
  keep := some
  initial _ h := h.1
  act
    | .server a => some a
    | _ => none
  idle N a N' es h hact := by
    cases a with
    | server a => cases hact
    | send request taken =>
      obtain ⟨M, hM, heq⟩ := Option.map_eq_some_iff.mp h
      obtain ⟨rfl, rfl⟩ := Prod.mk.inj heq
      obtain ⟨-, hM⟩ := Option.ite_none_right_eq_some.mp hM
      obtain rfl := Option.some.inj hM
      exact ⟨rfl, rfl⟩
    | receive call wire =>
      obtain ⟨M, hM, heq⟩ := Option.map_eq_some_iff.mp h
      obtain ⟨rfl, rfl⟩ := Prod.mk.inj heq
      obtain ⟨-, hM⟩ := Option.ite_none_right_eq_some.mp hM
      split at hM
      · cases hM
      · split at hM <;> obtain rfl := Option.some.inj hM <;> exact ⟨rfl, rfl⟩
    | giveUp =>
      obtain ⟨rfl, rfl⟩ := Prod.mk.inj (Option.some.inj h)
      exact ⟨rfl, rfl⟩
  move N a b N' es h hact := by
    cases a with
    | server a =>
      obtain rfl := Option.some.inj hact
      simp only [networkMachine, networkStep] at h
      split at h
      · cases h
      · next server fs hstep =>
        obtain ⟨M, hM, heq⟩ := Option.map_eq_some_iff.mp h
        obtain ⟨rfl, rfl⟩ := Prod.mk.inj heq
        rw [List.filterMap_some, Network.server_deliverAll hM]
        exact hstep
    | _ => cases hact

/-! ## Refusals -/

section

variable {lib : CommonLib} {capacity : Nat} {requests : List HttpRequest}

open Serial

/-- A client that has been refused has sent more than was dispatched, or nothing was. -/
theorem requests_lt_of_refused {log : List SlotEvent} {c : SerialService}
    (hreads : InStep.Reads lib (.fresh false) log c)
    (hacc : (Pipeline.pipelining lib capacity).Accepts log)
    (hfit : (Pipeline.fitting lib capacity).Accepts log)
    (hsendable : ∀ r ∈ requests, Sendable lib r)
    (hs : (log.foldl Pipeline.record .start).received <+: requestStream lib requests)
    (hrefused : c.turn.refusal = true) :
    c.requests.length < max requests.length 1 := by
  induction log using List.reverseRecOn generalizing c with
  | nil =>
    cases hreads
    simp [Service.fresh, Turn.refusal] at hrefused
  | append_singleton log e ih =>
    rw [InStep.Reads, List.filterMap_append] at hreads
    obtain ⟨c₀, hlog, he⟩ := hreads.split
    obtain ⟨hacc', hgood, -⟩ := (Monitor.accepts_append _ log [e]).mp hacc
    have hfit' := ((Monitor.accepts_append _ log [e]).mp hfit).1
    change (Pipeline.pipelining lib capacity).Good (log.foldl Pipeline.record .start) e at hgood
    rw [List.foldl_append] at hs
    have hold := fun hreceived => @ih c₀ hlog hacc' hfit' hreceived
    have hrequests : c₀.requests = (log.foldl Pipeline.record .start).dispatched := by
      obtain ⟨hrequests, -⟩ := Service.takes_eq hlog
      exact hrequests.trans (foldl_requests lib log .start)
    cases e with
    | accepted =>
      cases he with
      | cons hnext hnil =>
        cases hnil
        obtain ⟨-, hnext⟩ := Option.ite_none_left_eq_some.mp hnext
        obtain rfl := Option.some.inj hnext
        simp [Service.fresh, Turn.refusal] at hrefused
    | received bytes =>
      cases he
      exact hold ((List.prefix_append _ _).trans hs) hrefused
    | dispatched request =>
      cases he with
      | cons hnext hnil =>
        cases hnil
        obtain ⟨_, hnext⟩ := Option.dite_none_right_eq_some.mp hnext
        obtain rfl := Option.some.inj hnext
        simp [Service.request, Turn.refusal] at hrefused
    | answered a r =>
      cases he with
      | cons hnext hnil =>
        cases hnil
        obtain ⟨_, hnext⟩ := Option.dite_none_right_eq_some.mp hnext
        obtain rfl := Option.some.inj hnext
        have hcode : a = .refused ∧ r.code = HTTP_CODE_413 := by
          simpa [Service.answer, Turn.refusal] using hrefused
        rcases hgood with ⟨-, hother⟩ | ⟨-, -, -, hlarge⟩
        · exact absurd hcode.2 (hother hcode.1)
        · change c₀.requests.length < _
          rw [hrequests]
          by_cases hnone : (log.foldl Pipeline.record .start).dispatched = []
          · simp [hnone]
          · exact lt_max_of_lt_left (hlarge.more hacc' hfit' hsendable hs hnone)
    | provided stream bytes | wrote bytes =>
      cases he with
      | cons hnext hnil =>
        cases hnil
        obtain ⟨_, hnext⟩ := Option.dite_none_right_eq_some.mp hnext
        obtain rfl := Option.some.inj hnext
        refine hold hs ?_
        simpa [Service.proceed, Turn.refusal] using hrefused
    | finished =>
      cases he with
      | cons hnext hnil =>
        cases hnil
        obtain ⟨_, hnext⟩ := Option.dite_none_right_eq_some.mp hnext
        obtain rfl := Option.some.inj hnext
        exact hold hs (by rwa [Service.refusal_complete] at hrefused)
    | released =>
      cases he with
      | cons hnext hnil =>
        cases hnil
        obtain rfl := Option.some.inj hnext
        exact hold hs hrefused
    | _ =>
      cases he
      exact hold hs hrefused

end

/-! ## What the client is given -/

/-- What the server answers, if it answers all the requests: a response to each of them that the
client can read, in a buffer of `room` bytes and more. -/
structure Meant (lib : CommonLib) (room : Nat) (c : SerialService) (sent : List HttpRequest)
    (msgs : List ResponseMessage) : Prop where
  gives : c.Gives (msgs.map ResponseMessage.encode)
  count : sent.length ≤ msgs.length
  sendable : ∀ r ∈ sent, Sendable lib r
  readable : ∀ (k : Nat) (m : ResponseMessage) (r : HttpRequest), msgs[k]? = some m →
    sent[k]? = some r → m.WellFormed lib r.asksForHead ∧
      declaredFraming lib r.asksForHead m.head ≠ some .untilClose
  room : ∀ m ∈ msgs, m.encode.length ≤ room

section

variable {lib : CommonLib} {capacity room : Nat} {log : List SlotEvent} {c c' : SerialService}
  {sent : List HttpRequest} {msgs : List ResponseMessage} {N N' : Network} {e : SlotEvent}

open Serial

theorem Meant.before (h : Meant lib room c' sent msgs) (hreads : InStep.Reads lib c [e] c')
    (he : e ≠ .accepted) : Meant lib room c sent msgs := by
  suffices hgives : c.Gives (msgs.map ResponseMessage.encode) from { h with gives := hgives }
  have hgives := h.gives
  rw [InStep.Reads, List.filterMap_cons] at hreads
  cases hserial : e.serial lib with
  | none =>
    rw [hserial] at hreads
    cases hreads
    exact hgives
  | some x =>
    rw [hserial] at hreads
    cases hreads with
    | cons hnext hnil =>
      cases hnil
      refine hgives.of_next hnext ?_
      rintro rfl
      cases e <;> first | exact he rfl | cases hserial

theorem encodeAll_take_isPrefix (msgs : List ResponseMessage) {j k : Nat} (h : j ≤ k) :
    encodeAll (msgs.take j) <+: encodeAll (msgs.take k) := by
  obtain ⟨rest, hrest⟩ := List.take_prefix_take_left (l := msgs) h
  rw [← hrest, encodeAll, encodeAll, List.flatMap_append]
  exact List.prefix_append _ _

theorem encodeAll_take_succ {k : Nat} {m : ResponseMessage} (hm : msgs[k]? = some m) :
    encodeAll (msgs.take (k + 1)) = encodeAll (msgs.take k) ++ m.encode := by
  rw [encodeAll, encodeAll, List.take_add_one, hm, List.flatMap_append]
  simp

/-- The answers that have been written whole are the first ones. -/
theorem Meant.flatten_answers (h : Meant lib room c sent msgs) :
    c.answers.flatten = encodeAll (msgs.take c.answers.length) := by
  have htake := List.prefix_iff_eq_take.mp h.gives.1
  rw [encodeAll, List.flatMap_def, List.map_take, ← htake]

/-- The wire holds the answers so far, as far as they are written. -/
theorem Meant.wire_isPrefix (h : Meant lib room c sent msgs) {n : Nat} (hn : n ≤ msgs.length)
    (hle : c.answers.length + (if c.turn.answering then 1 else 0) ≤ n) :
    c.wire <+: encodeAll (msgs.take n) := by
  rw [c.wire_eq, h.flatten_answers]
  cases hanswering : c.turn.answering with
  | false =>
    rw [hanswering] at hle
    have hsent : c.turn.sent = [] := by
      cases hturn : c.turn <;> simp_all [Turn.answering, Turn.sent]
    rw [hsent, List.append_nil]
    exact encodeAll_take_isPrefix msgs (by simpa using hle)
  | true =>
    rw [hanswering, if_pos rfl] at hle
    have hm := List.getElem?_eq_getElem (l := msgs) (i := c.answers.length) (by omega)
    have hdue : c.turn.sent <+: msgs[c.answers.length].encode := by
      refine c.sent_prefix.trans ?_
      have hgives := h.gives.2
      rwa [List.getD_eq_getElem?_getD, List.getElem?_map, hm] at hgives
    refine List.IsPrefix.trans ?_ (encodeAll_take_isPrefix msgs hle)
    rw [encodeAll_take_succ hm]
    exact (List.prefix_append_right_inj _).mpr hdue

theorem ResponseMessage.encode_ne_nil (m : ResponseMessage) : m.encode ≠ [] := by
  intro hnil
  have hlength := congrArg List.length hnil
  rw [ResponseMessage.encode, List.length_append, m.head.length_encode] at hlength
  simp at hlength

/-- What the wire holds whole has been written whole. -/
theorem Meant.whole_le (h : Meant lib room c sent msgs) {n : Nat} (hn : n ≤ msgs.length)
    (hwhole : encodeAll (msgs.take n) <+: c.wire) :
    n ≤ c.answers.length + (if c.turn.answering then 1 else 0) := by
  by_contra hlt
  rw [Nat.not_le] at hlt
  set k := c.answers.length + (if c.turn.answering then 1 else 0) with hk
  have hm := List.getElem?_eq_getElem (l := msgs) (i := k) (by omega)
  have hnext := ((encodeAll_take_isPrefix msgs hlt).trans hwhole).trans
    (h.wire_isPrefix (by omega) hk.ge)
  rw [encodeAll_take_succ hm] at hnext
  have hle := hnext.length_le
  rw [List.length_append] at hle
  exact msgs[k].encode_ne_nil (List.length_eq_zero_iff.mp (by omega))

/-- There are no more answers than requests, but for a refusal of the first one. -/
theorem Meant.length_answers_le (h : Meant lib room c sent msgs)
    (hreads : InStep.Reads lib (.fresh false) log c)
    (hacc : (Pipeline.pipelining lib capacity).Accepts log)
    (hfit : (Pipeline.fitting lib capacity).Accepts log)
    (hs : (log.foldl Pipeline.record .start).received <+: requestStream lib sent) :
    c.answers.length + (if c.turn.answering then 1 else 0) ≤ max sent.length 1 := by
  have hrequests : c.requests = (log.foldl Pipeline.record .start).dispatched :=
    (Service.takes_eq hreads).1.trans (foldl_requests lib log .start)
  have hle := (Pipeline.dispatched_delivered hacc hfit h.sendable hs).length_le
  rw [← hrequests, List.length_map] at hle
  have hrefused := requests_lt_of_refused hreads hacc hfit h.sendable hs
  have hcounted := c.counted
  cases hturn : c.turn with
  | client =>
    have hcount : c.answers.length = c.requests.length := by
      simpa [hturn, Turn.taken, Turn.refused] using hcounted
    simp [Turn.answering]
    omega
  | server =>
    have hcount : c.answers.length + 1 = c.requests.length := by
      simpa [hturn, Turn.taken, Turn.refused] using hcounted
    simp [Turn.answering]
    omega
  | answer due part refusal =>
    cases refusal with
    | false =>
      have hcount : c.answers.length + 1 = c.requests.length := by
        simpa [hturn, Turn.taken, Turn.refused] using hcounted
      simp [Turn.answering]
      omega
    | true =>
      have hcount : c.answers.length = c.requests.length := by
        simpa [hturn, Turn.taken, Turn.refused] using hcounted
      have hlt := hrefused (by rw [hturn]; rfl)
      rw [Turn.answering, if_pos rfl]
      omega
  | closed =>
    have hcount : c.answers.length = c.requests.length + 1 := by
      simpa [hturn, Turn.taken, Turn.refused] using hcounted
    have hlt := hrefused (by rw [hturn]; rfl)
    simp only [Turn.answering, Bool.false_eq_true, if_false]
    omega


theorem Meant.fewer {request : HttpRequest} (h : Meant lib room c (sent ++ [request]) msgs) :
    Meant lib room c sent msgs where
  gives := h.gives
  count := by
    have hcount := h.count
    rw [List.length_append] at hcount
    omega
  sendable r hr := h.sendable r (List.mem_append_left _ hr)
  readable k m r hm hr := h.readable k m r hm (by
    rw [List.getElem?_append_left (List.getElem?_eq_some_iff.mp hr).1]
    exact hr)
  room := h.room

end

/-! ## What holds between the client and the server -/

/-- The bytes on their way are what one side has sent and the other has not read. -/
structure Linked (lib : CommonLib) (room : Nat) (log : List SlotEvent) (c : SerialService)
    (N : Network) : Prop where
  up_prefix : (log.foldl Pipeline.record .start).received ++ N.up <+:
    requestStream lib N.client.sent
  up_eq : N.client.lost = false →
    (log.foldl Pipeline.record .start).received ++ N.up = requestStream lib N.client.sent
  turns : N.client.receipts.length ≤ N.client.sent.length ∧
    N.client.sent.length ≤ N.client.receipts.length + 1
  awaiting : ∀ r, N.client.sent[N.client.receipts.length]? = some r →
    N.client.awaitingResponseToHead = r.asksForHead
  delivered : ∀ msgs, Meant lib room c N.client.sent msgs →
    List.Forall₂ (ResponseMessage.ReceivedBy lib) (msgs.take N.client.receipts.length)
      N.client.receipts ∧
    encodeAll (msgs.take N.client.receipts.length) <+: wireOf log ∧
    (N.client.lost = false →
      wireOf log = encodeAll (msgs.take N.client.receipts.length) ++ N.down)

namespace Linked

open Serial

variable {lib : CommonLib} {capacity room : Nat} {log es : List SlotEvent} {c c' : SerialService}
  {msgs : List ResponseMessage} {N N' : Network} {e : SlotEvent}

theorem fresh (c : SerialService) (server : System) :
    Linked lib room [] c ⟨server, .fresh, [], []⟩ where
  up_prefix := List.prefix_rfl
  up_eq _ := rfl
  turns := ⟨le_rfl, Nat.zero_le _⟩
  awaiting := nofun
  delivered _ _ := ⟨.nil, List.nil_prefix, fun _ => rfl⟩

/-- A new connection at the slot has a new client. -/
theorem accepted (log : List SlotEvent) (c : SerialService) (server : System) :
    Linked lib room (log ++ [.accepted]) c ⟨server, .fresh, [], []⟩ where
  up_prefix := by simp [Pipeline.record, Pipeline.start, Client.fresh]
  up_eq _ := by simp [Pipeline.record, Pipeline.start, Client.fresh]
  turns := ⟨le_rfl, Nat.zero_le _⟩
  awaiting := nofun
  delivered _ _ := ⟨.nil, List.nil_prefix,
    fun _ => by simp [wireOf, SlotEvent.wire, Client.fresh, encodeAll]⟩

/-- An event of the slot moves bytes between the server and the network only. -/
theorem deliver (h : Linked lib room log c N) (hdeliver : N.deliver e = some N')
    (hreads : InStep.Reads lib c [e] c') : Linked lib room (log ++ [e]) c' N' := by
  have hbefore : e ≠ .accepted → ∀ msgs, Meant lib room c' N.client.sent msgs →
      Meant lib room c N.client.sent msgs := fun he msgs hmeant => hmeant.before hreads he
  cases e with
  | accepted =>
    obtain rfl := Option.some.inj hdeliver
    exact accepted log c' N.server
  | received bytes =>
    obtain ⟨⟨rest, hrest⟩, hdeliver⟩ := Option.ite_none_right_eq_some.mp hdeliver
    obtain rfl := Option.some.inj hdeliver
    have hup : (List.foldl Pipeline.record .start (log ++ [.received bytes])).received ++
        N.up.drop bytes.length = (log.foldl Pipeline.record .start).received ++ N.up := by
      simp [Pipeline.record, ← hrest]
    exact ⟨hup ▸ h.up_prefix, fun hlost => hup.trans (h.up_eq hlost), h.turns, h.awaiting,
      fun msgs hmeant => by
        simpa [wireOf, SlotEvent.wire] using h.delivered msgs (hbefore (by simp) msgs hmeant)⟩
  | wrote bytes =>
    obtain rfl := Option.some.inj hdeliver
    refine ⟨by simpa [Pipeline.record] using h.up_prefix,
      by simpa [Pipeline.record] using h.up_eq, h.turns, h.awaiting, fun msgs hmeant => ?_⟩
    obtain ⟨hreceived, hwhole, hwire⟩ := h.delivered msgs (hbefore (by simp) msgs hmeant)
    have hwrote : wireOf (log ++ [.wrote bytes]) = wireOf log ++ bytes := by
      rw [wireOf, List.foldl_append]
      rfl
    rw [hwrote]
    refine ⟨hreceived, hwhole.trans (List.prefix_append _ _), fun hlost => ?_⟩
    rw [← List.append_assoc, ← hwire hlost]
  | _ =>
    obtain rfl := Option.some.inj hdeliver
    refine ⟨by simpa [Pipeline.record] using h.up_prefix,
      by simpa [Pipeline.record] using h.up_eq, h.turns, h.awaiting, fun msgs hmeant => ?_⟩
    simpa [wireOf, SlotEvent.wire] using h.delivered msgs (hbefore (by simp) msgs hmeant)

theorem deliverAll (h : Linked lib room log c N) (hdeliver : N.deliverAll es = some N')
    (hreads : InStep.Reads lib c es c') : Linked lib room (log ++ es) c' N' := by
  induction es generalizing log c N with
  | nil =>
    obtain rfl := Option.some.inj hdeliver
    cases hreads
    rwa [List.append_nil]
  | cons e es ih =>
    obtain ⟨M, hM, hrest⟩ := Option.bind_eq_some_iff.mp hdeliver
    rw [InStep.Reads, ← List.singleton_append, List.filterMap_append] at hreads
    obtain ⟨d, he, hes⟩ := hreads.split
    rw [← List.singleton_append, ← List.append_assoc]
    exact ih (h.deliver hM he) hrest hes

theorem send (h : Linked lib room log c N) {request : HttpRequest} {taken : Option Nat}
    (hsend : N.send lib request taken = some N') : Linked lib room log c N' := by
  obtain ⟨⟨hlost, hturn⟩, hsend⟩ := Option.ite_none_right_eq_some.mp hsend
  rw [httpConnectionSendRequest_record] at hsend
  obtain rfl := Option.some.inj hsend
  have hup := h.up_eq hlost
  have hstream : requestStream lib (N.client.sent ++ [request]) =
      requestStream lib N.client.sent ++ serializedRequest lib request := by
    simp [requestStream_append]
  refine ⟨?_, ?_, ?_, ?_, ?_⟩
  · change _ ++ (N.up ++ _) <+: requestStream lib (N.client.sent ++ [request])
    rw [← List.append_assoc, hup, hstream]
    refine (List.prefix_append_right_inj _).mpr ?_
    cases taken with
    | none => exact List.prefix_rfl
    | some n => exact List.take_prefix _ _
  · intro htaken
    obtain rfl : taken = none := by simpa using htaken
    change _ ++ (N.up ++ _) = requestStream lib (N.client.sent ++ [request])
    rw [← List.append_assoc, hup, hstream]
    rfl
  · change _ ≤ (N.client.sent ++ [request]).length ∧ (N.client.sent ++ [request]).length ≤ _
    rw [List.length_append, List.length_singleton]
    exact ⟨by dsimp only; omega, by dsimp only; omega⟩
  · intro r hr
    change (N.client.sent ++ [request])[N.client.receipts.length]? = some r at hr
    rw [hturn, List.getElem?_concat_length] at hr
    exact congrArg HttpRequest.asksForHead (Option.some.inj hr)
  · intro msgs hmeant
    obtain ⟨hreceived, hwhole, hwire⟩ := h.delivered msgs (Meant.fewer hmeant)
    exact ⟨hreceived, hwhole, fun _ => hwire hlost⟩

/-- While the client waits, only bytes of the response to its last request are on their way. -/
theorem down_prefix (h : Linked lib room log c N) (hreads : InStep.Reads lib (.fresh false) log c)
    (hacc : (Pipeline.pipelining lib capacity).Accepts log)
    (hfit : (Pipeline.fitting lib capacity).Accepts log)
    (hmeant : Meant lib room c N.client.sent msgs) (hlost : N.client.lost = false)
    (hturn : N.client.receipts.length < N.client.sent.length) :
    ∃ m r, msgs[N.client.receipts.length]? = some m ∧
      N.client.sent[N.client.receipts.length]? = some r ∧ N.down <+: m.encode ∧
      (N.client.receipts.length < c.answers.length → N.down = m.encode) := by
  have hlength : N.client.sent.length = N.client.receipts.length + 1 := by
    have hturns := h.turns
    omega
  have hk : N.client.receipts.length < msgs.length := by
    have hcount := hmeant.count
    omega
  have hm := List.getElem?_eq_getElem hk
  refine ⟨_, _, hm, List.getElem?_eq_getElem hturn, ?_⟩
  have hle := hmeant.length_answers_le hreads hacc hfit ((List.prefix_append _ _).trans h.up_prefix)
  rw [hlength, max_eq_left (by omega)] at hle
  have hwire : c.wire = encodeAll (msgs.take N.client.receipts.length) ++ N.down :=
    ((Service.takes_eq hreads).2.trans (foldl_wire lib log [])).trans
      ((h.delivered msgs hmeant).2.2 hlost)
  refine ⟨?_, fun hanswered => ?_⟩
  · have hpart := hmeant.wire_isPrefix hk hle
    rw [hwire, encodeAll_take_succ hm] at hpart
    exact (List.prefix_append_right_inj _).mp hpart
  · -- the answer has been written, and no other is written now
    have hdone : c.turn.answering = false := by
      by_contra hanswering
      rw [Bool.not_eq_false] at hanswering
      rw [if_pos hanswering] at hle
      omega
    have hcount : c.answers.length = N.client.receipts.length + 1 := by omega
    have hsent : c.turn.sent = [] := by
      cases hcase : c.turn <;> simp_all [Turn.answering, Turn.sent]
    have hall := c.wire_eq
    rw [hwire, hsent, List.append_nil, hmeant.flatten_answers, hcount, encodeAll_take_succ hm]
      at hall
    exact List.append_cancel_left hall

/-- No response is received before it has been written. -/
theorem received_le (h : Linked lib room log c N) (hreads : InStep.Reads lib (.fresh false) log c)
    (hmeant : Meant lib room c N.client.sent msgs) :
    N.client.receipts.length ≤ c.answers.length + (if c.turn.answering then 1 else 0) := by
  obtain ⟨hreceived, hwhole, -⟩ := h.delivered msgs hmeant
  have hlength := hreceived.length_eq
  rw [List.length_take] at hlength
  have hwire : c.wire = wireOf log := (Service.takes_eq hreads).2.trans (foldl_wire lib log [])
  exact hmeant.whole_le (by omega) (hwire ▸ hwhole)

/-- The call has the response to the last request, if it is all there. -/
theorem receive_ready (h : Linked lib room log c N)
    (hreads : InStep.Reads lib (.fresh false) log c)
    (hacc : (Pipeline.pipelining lib capacity).Accepts log)
    (hfit : (Pipeline.fitting lib capacity).Accepts log)
    (hmeant : Meant lib room c N.client.sent msgs) (hlost : N.client.lost = false)
    (hturn : N.client.receipts.length < N.client.sent.length) {call : ResponseCall} {wire : Wire}
    (hroom : room < call.mem.length) {m : ResponseMessage}
    (hm : msgs[N.client.receipts.length]? = some m) (hall : arriving wire = m.encode) :
    ∃ o, receiveResponse lib none call.ptr call.mem ⟨wire, N.client.awaitingResponseToHead⟩
        call.response = some o ∧ m.ReceivedBy lib o ∧ arriving o.connection.wire = [] := by
  obtain ⟨_, r, hm', hr, -⟩ := h.down_prefix hreads hacc hfit hmeant hlost hturn
  obtain rfl := Option.some.inj (hm.symm.trans hm')
  obtain ⟨hwf, hself⟩ := hmeant.readable _ m r hm hr
  rw [← h.awaiting r hr] at hwf hself
  have hcut := length_arriving_mem_cutsFrom 0 wire
  rw [Nat.zero_add, hall] at hcut
  obtain ⟨o, ho, hreceived, hrest, -⟩ :=
    @ResponseMessage.WellFormed.receive_next lib call.ptr call.mem
      ⟨wire, N.client.awaitingResponseToHead⟩ m [] hwf hself (by rw [List.append_nil]; exact hall)
      hcut ((hmeant.room m (List.mem_of_getElem? hm)).trans_lt hroom) call.response
  exact ⟨o, ho, hreceived, hrest⟩

theorem receive (h : Linked lib room log c N) (hreads : InStep.Reads lib (.fresh false) log c)
    (hacc : (Pipeline.pipelining lib capacity).Accepts log)
    (hfit : (Pipeline.fitting lib capacity).Accepts log) {call : ResponseCall} {wire : Wire}
    (hreceive : N.receive lib room call wire = some N') : Linked lib room log c N' := by
  obtain ⟨⟨hlost, hturn, hflows, harriving, hroom⟩, hreceive⟩ :=
    Option.ite_none_right_eq_some.mp hreceive
  have hflow : Flowing wire := by
    intro e he
    have hflow := List.all_eq_true.mp hflows e he
    cases e with
    | data bytes => exact .inl ⟨bytes, rfl⟩
    | tryAgain expired =>
      cases expired with
      | false => exact .inr rfl
      | true => cases hflow
    | _ => cases hflow
  split at hreceive
  · cases hreceive
  · next o ho =>
    split at hreceive
    · next hok =>
      obtain rfl := Option.some.inj hreceive
      refine ⟨h.up_prefix, h.up_eq, ?_, ?_, fun msgs hmeant => ?_⟩
      · have hturns := h.turns
        simp only [List.length_append, List.length_singleton]
        omega
      · intro r hr
        have hturns := h.turns
        have hlt := (List.getElem?_eq_some_iff.mp hr).1
        simp only [List.length_append, List.length_singleton] at hlt
        omega
      · obtain ⟨m, r, hm, hr, hdown, -⟩ := h.down_prefix hreads hacc hfit hmeant hlost hturn
        obtain ⟨hwf, hself⟩ := hmeant.readable _ m r hm hr
        rw [← h.awaiting r hr] at hwf hself
        -- the call has read the whole response, and nothing is behind it
        have hall : arriving wire = m.encode :=
          @ResponseMessage.WellFormed.receive_whole lib call.ptr call.mem
            ⟨wire, N.client.awaitingResponseToHead⟩ call.response o m hwf hself hflow
            (harriving.trans hdown) ((hmeant.room m (List.mem_of_getElem? hm)).trans_lt hroom)
            ho hok
        have hend : N.down = m.encode :=
          hdown.eq_of_length (Nat.le_antisymm hdown.length_le (hall ▸ harriving.length_le))
        obtain ⟨o', ho', hreceived, hrest⟩ :=
          h.receive_ready hreads hacc hfit hmeant hlost hturn hroom hm hall
        obtain rfl := Option.some.inj (ho.symm.trans ho')
        obtain ⟨hreceipts, -, hwire⟩ := h.delivered msgs hmeant
        have htake : msgs.take (N.client.receipts.length + 1) =
            msgs.take N.client.receipts.length ++ [m] := by
          rw [List.take_add_one, hm]
          rfl
        have hwritten : wireOf log = encodeAll (msgs.take (N.client.receipts.length + 1)) := by
          rw [hwire hlost, encodeAll_take_succ hm, hend]
        simp only [List.length_append, List.length_singleton]
        refine ⟨?_, hwritten ▸ List.prefix_rfl, fun _ => ?_⟩
        · rw [htake]
          exact List.rel_append hreceipts (.cons hreceived .nil)
        · rw [hwritten, hrest, hend, hall, List.drop_length, List.append_nil, List.append_nil]
    · obtain rfl := Option.some.inj hreceive
      exact ⟨h.up_prefix, nofun, h.turns, h.awaiting,
        fun msgs hmeant =>
          ⟨(h.delivered msgs hmeant).1, (h.delivered msgs hmeant).2.1, nofun⟩⟩

end Linked

/-! ## Runs -/

theorem slotLog_append (i : Nat) (log es : List ServerEvent) :
    slotLog i (log ++ es) = slotLog i log ++ slotLog i es :=
  List.filterMap_append

section

variable {env : ServerEnv} {slotCount i room : Nat} {log : List ServerEvent} {N : Network}
  {c : SerialService}

/-- What the server makes of the requests, in a network. -/
theorem Network.accepts (run : Run (networkMachine env slotCount i room) log N) :
    ∃ capacity, (Pipeline.pipelining env.lib capacity).Accepts (slotLog i log) ∧
      (Pipeline.fitting env.lib capacity).Accepts (slotLog i log) := by
  have hserver := run.project (networkProjection env slotCount i room)
  rw [show (networkProjection env slotCount i room).keep = some from rfl, List.filterMap_some]
    at hserver
  have hslot := (hserver.project (sendingProjection env slotCount i)).of_restrict
  exact ⟨_, (pipelining_of_run hslot).1, Pipeline.fitting_of_run hslot⟩

/-- The slot is a serial service, in a network too. -/
theorem Network.serial (run : Run (networkMachine env slotCount i room) log N)
    (hfits : ∀ e ∈ slotLog i log, e.fits env.lib) :
    ∃ c, Run serialServices ((slotLog i log).filterMap (SlotEvent.serial env.lib)) c := by
  have hserver := run.project (networkProjection env slotCount i room)
  rw [show (networkProjection env slotCount i room).keep = some from rfl, List.filterMap_some]
    at hserver
  obtain ⟨c, hrun, -⟩ := (hserver.project (sendingProjection env slotCount i)).refine
    (slotRefinement env) hfits
  exact ⟨c, hrun⟩

theorem Network.linked (run : Run (networkMachine env slotCount i room) log N)
    (hreads : InStep.Reads env.lib (.fresh false) (slotLog i log) c) :
    Linked env.lib room (slotLog i log) c N := by
  induction run generalizing c with
  | @start M h =>
    obtain ⟨-, hclient, hup, hdown⟩ := h
    obtain ⟨server, client, up, down⟩ := M
    obtain rfl : client = .fresh := hclient
    obtain rfl : up = [] := hup
    obtain rfl : down = [] := hdown
    exact .fresh c server
  | @next log es N N' a run hstep ih =>
    rw [slotLog_append, InStep.Reads, List.filterMap_append] at hreads
    obtain ⟨c₀, hlog, hes⟩ := hreads.split
    obtain ⟨capacity, hacc, hfit⟩ := Network.accepts run
    have hidle : es = [] → c = c₀ := by
      rintro rfl
      cases hes
      rfl
    rw [slotLog_append]
    cases a with
    | server a =>
      simp only [networkMachine, networkStep] at hstep
      split at hstep
      · cases hstep
      · next server fs hserver =>
        obtain ⟨M, hM, heq⟩ := Option.map_eq_some_iff.mp hstep
        obtain ⟨rfl, rfl⟩ := Prod.mk.inj heq
        have hlinked := ih hlog
        have hmoved : Linked env.lib room (slotLog i log) c₀ { N with server } :=
          ⟨hlinked.up_prefix, hlinked.up_eq, hlinked.turns, hlinked.awaiting, hlinked.delivered⟩
        exact hmoved.deliverAll hM hes
    | send request taken =>
      obtain ⟨M, hM, heq⟩ := Option.map_eq_some_iff.mp hstep
      obtain ⟨rfl, rfl⟩ := Prod.mk.inj heq
      rw [hidle rfl, show slotLog i [] = [] from rfl, List.append_nil]
      exact (ih hlog).send hM
    | receive call wire =>
      obtain ⟨M, hM, heq⟩ := Option.map_eq_some_iff.mp hstep
      obtain ⟨rfl, rfl⟩ := Prod.mk.inj heq
      rw [hidle rfl, show slotLog i [] = [] from rfl, List.append_nil]
      exact (ih hlog).receive hlog hacc hfit hM
    | giveUp =>
      obtain ⟨rfl, rfl⟩ := Prod.mk.inj (Option.some.inj hstep)
      rw [hidle rfl, show slotLog i [] = [] from rfl, List.append_nil]
      have hlinked := ih hlog
      refine ⟨hlinked.up_prefix, fun hlost => ?_, hlinked.turns, hlinked.awaiting,
        fun msgs hmeant => ?_⟩
      · cases hlost
      · obtain ⟨hreceived, hwhole, -⟩ := hlinked.delivered msgs hmeant
        refine ⟨hreceived, hwhole, fun hlost => ?_⟩
        cases hlost


/-- **The client gets the answers to its requests, in order.** In every run of the server, its
clients and the network, whatever the splits, the other clients and the deferrals: the handlers
are given the requests the client sent, and each call that succeeds returns the response meant for
the request sent before it, which has been written. -/
theorem exchange_of_run (run : Run (networkMachine env slotCount i room) log N)
    (hfits : ∀ e ∈ slotLog i log, e.fits env.lib) :
    ∃ c, Run serialServices ((slotLog i log).filterMap (SlotEvent.serial env.lib)) c ∧
      ∀ msgs, Meant env.lib room c N.client.sent msgs →
        ((slotLog i log).foldl Pipeline.record .start).dispatched <+:
            N.client.sent.map HttpRequest.delivered ∧
          List.Forall₂ (ResponseMessage.ReceivedBy env.lib)
            (msgs.take N.client.receipts.length) N.client.receipts ∧
          N.client.receipts.length ≤ c.answers.length + (if c.turn.answering then 1 else 0) := by
  obtain ⟨c, hserial⟩ := Network.serial run hfits
  obtain ⟨_, rfl, hreads⟩ := hserial.takes
  have hlinked := Network.linked run hreads
  obtain ⟨capacity, hacc, hfit⟩ := Network.accepts run
  refine ⟨c, hserial, fun msgs hmeant =>
    ⟨?_, (hlinked.delivered msgs hmeant).1, hlinked.received_le hreads hmeant⟩⟩
  exact Pipeline.dispatched_delivered hacc hfit hmeant.sendable
    ((List.prefix_append _ _).trans hlinked.up_prefix)

/-- **An answer that has been written whole is received.** The call that reads all that is on its
way, however it is split, returns a response. -/
theorem response_ready (run : Run (networkMachine env slotCount i room) log N)
    (hfits : ∀ e ∈ slotLog i log, e.fits env.lib)
    (hlost : N.client.lost = false) (hturn : N.client.receipts.length < N.client.sent.length)
    {call : ResponseCall} {wire : Wire} (hflows : wire.all StreamEvent.flows = true)
    (hall : arriving wire = N.down) (hroom : room < call.mem.length) :
    ∃ c, Run serialServices ((slotLog i log).filterMap (SlotEvent.serial env.lib)) c ∧
      ∀ msgs, Meant env.lib room c N.client.sent msgs →
        N.client.receipts.length < c.answers.length →
          ∃ m o, msgs[N.client.receipts.length]? = some m ∧ m.ReceivedBy env.lib o ∧
            (networkMachine env slotCount i room).step N (.receive call wire) =
              some ({ N with
                down := []
                client := { N.client with
                  awaitingResponseToHead := o.connection.awaitingResponseToHead
                  receipts := N.client.receipts ++ [o] } }, []) := by
  obtain ⟨c, hserial⟩ := Network.serial run hfits
  obtain ⟨_, rfl, hreads⟩ := hserial.takes
  have hlinked := Network.linked run hreads
  obtain ⟨capacity, hacc, hfit⟩ := Network.accepts run
  refine ⟨c, hserial, fun msgs hmeant hanswered => ?_⟩
  obtain ⟨m, r, hm, -, -, hdown⟩ := hlinked.down_prefix hreads hacc hfit hmeant hlost hturn
  obtain ⟨o, ho, hreceived, hrest⟩ := hlinked.receive_ready hreads hacc hfit hmeant hlost hturn
    hroom hm (hall.trans (hdown hanswered))
  have hreceive : N.receive env.lib room call wire = some { N with
      down := []
      client := { N.client with
        awaitingResponseToHead := o.connection.awaitingResponseToHead
        receipts := N.client.receipts ++ [o] } } := by
    rw [Network.receive, if_pos ⟨hlost, hturn, hflows, hall ▸ List.prefix_rfl, hroom⟩, ho]
    simp only [hreceived.result, if_true, hrest, hall, List.drop_length, List.append_nil]
  refine ⟨m, o, hm, hreceived, ?_⟩
  simp only [networkMachine, networkStep, hreceive, Option.map_some]

end

/-! ## Two requests -/

/-- A response that has no body. -/
def noContent : ResponseMessage :=
  ⟨⟨ascii "HTTP/1.1", ascii "204", ascii "No Content", []⟩, .empty⟩

theorem noContent_wellFormed : noContent.WellFormed .reference false where
  head :=
    { first := by decide +kernel
      second := by decide +kernel
      startLine := by decide +kernel
      fields := by decide +kernel }
  framed := ⟨.none, by decide +kernel, trivial⟩

/-- The handler's answer. -/
def noContentResponse : HttpResponse :=
  prepareDefaultResponse (.lit "204") (.lit "No Content")

def smallNetwork : Network := ⟨smallSystem, .fresh, [], []⟩

theorem smallNetwork_initial : (networkMachine smallServer 1 0 40).Initial smallNetwork :=
  ⟨smallSystem_initial, rfl, rfl, rfl⟩

/-- The request is answered, and the socket takes the response in two parts. -/
def exchanging : List NetworkAction :=
  .send plainRequest none :: (atSlot0 [.event false,
    .read calm (.ok (ascii "GET / HTTP/1.1\r\n\r\n")), .route, .handler .respond noContentResponse,
    .conclude calm, .event false, .write calm 20 (.tryAgain .forWrite), .event false,
    .write calm 7 .ok, .finish calm]).map .server

/-- The client has the first response, and the second one is on its way. -/
def exchangingTwice : List NetworkAction :=
  connecting.map .server ++ exchanging ++
    [.receive ⟨5000, List.replicate 64 0, .zero⟩
      [.data (noContent.encode.take 5), .tryAgain false, .data (noContent.encode.drop 5)]] ++
    exchanging

/-- The answers are the two responses. -/
theorem exchangingTwice_meant {c : SerialService}
    (run : Run serialServices ((slotLog 0 ((networkMachine smallServer 1 0 40).log smallNetwork
      exchangingTwice)).filterMap (SlotEvent.serial .reference)) c) :
    Meant .reference 40 c [plainRequest, plainRequest] [noContent, noContent] ∧
      c.answers.length = 2 := by
  obtain ⟨_, rfl, htakes⟩ := run.takes
  have hexec : (serialServices.execute (.fresh false) ((slotLog 0 ((networkMachine smallServer 1 0
      40).log smallNetwork exchangingTwice)).filterMap (SlotEvent.serial .reference))).map
        (fun r => (r.1.answers, r.1.turn.due)) =
      some ([noContent, noContent].map ResponseMessage.encode, []) := by decide +kernel
  rw [serialServices, Serial.Service.machine, htakes.execute] at hexec
  obtain ⟨hanswers, hdue⟩ := Prod.mk.inj (Option.some.inj hexec)
  refine ⟨⟨⟨hanswers ▸ List.prefix_rfl, hdue ▸ List.nil_prefix⟩, le_rfl, ?_, ?_, ?_⟩, ?_⟩
  · simpa using plainRequest_sendable
  · intro k m r hm hr
    have hboth : ∀ x : ResponseMessage, [noContent, noContent][k]? = some x → x = noContent := by
      intro x hx
      simpa using List.mem_of_getElem? hx
    obtain rfl := hboth m hm
    have hrequest : r = plainRequest := by simpa using List.mem_of_getElem? hr
    rw [hrequest]
    exact ⟨noContent_wellFormed, by decide +kernel⟩
  · decide +kernel
  · exact congrArg List.length hanswers

theorem exchange_of_run_twice :
    ∃ N, (networkMachine smallServer 1 0 40).execute smallNetwork exchangingTwice =
        some (N, (networkMachine smallServer 1 0 40).log smallNetwork exchangingTwice) ∧
      List.Forall₂ (ResponseMessage.ReceivedBy .reference) [noContent] N.client.receipts := by
  obtain ⟨N, hexec, run⟩ := run_of_execute (M := networkMachine smallServer 1 0 40)
    exchangingTwice smallNetwork_initial (by decide +kernel)
  have hview : ((networkMachine smallServer 1 0 40).execute smallNetwork exchangingTwice).map
      (fun r => (r.1.client.sent, r.1.client.receipts.length)) =
      some ([plainRequest, plainRequest], 1) := by decide +kernel
  rw [hexec] at hview
  obtain ⟨hsent, hreceipts⟩ := Prod.mk.inj (Option.some.inj hview)
  dsimp only at hsent hreceipts
  obtain ⟨c, hserial, hgives⟩ := exchange_of_run run (List.all_eq_true.mp (by decide +kernel))
  obtain ⟨-, hreceived, -⟩ := hgives _ (hsent ▸ (exchangingTwice_meant hserial).1)
  rw [hreceipts] at hreceived
  exact ⟨N, hexec, hreceived⟩

theorem response_ready_twice : ∃ N N' : Network, N.client.receipts.length = 1 ∧
    (networkMachine smallServer 1 0 40).step N
      (.receive ⟨6000, List.replicate 41 0, .zero⟩
        (noContent.encode.map fun b => .data [b])) = some (N', []) ∧
      N'.client.receipts.length = 2 := by
  obtain ⟨N, hexec, run⟩ := run_of_execute (M := networkMachine smallServer 1 0 40)
    exchangingTwice smallNetwork_initial (by decide +kernel)
  have hview : ((networkMachine smallServer 1 0 40).execute smallNetwork exchangingTwice).map
      (fun r => (r.1.client.sent, r.1.client.receipts.length, r.1.client.lost, r.1.down)) =
      some ([plainRequest, plainRequest], 1, false, noContent.encode) := by decide +kernel
  rw [hexec] at hview
  have hview := Option.some.inj hview
  simp only [Prod.mk.injEq] at hview
  obtain ⟨hsent, hreceipts, hlost, hdown⟩ := hview
  obtain ⟨c, hserial, hready⟩ := @response_ready smallServer 1 0 40 _ N run
    (List.all_eq_true.mp (by decide +kernel)) hlost (by rw [hsent, hreceipts]; decide)
    ⟨6000, List.replicate 41 0, .zero⟩ (noContent.encode.map fun b => .data [b])
    (by decide +kernel) (by rw [hdown]; decide +kernel) (by decide)
  obtain ⟨hmeant, hanswers⟩ := exchangingTwice_meant hserial
  obtain ⟨m, o, -, -, hstep⟩ := hready _ (hsent ▸ hmeant) (by rw [hreceipts, hanswers]; decide)
  exact ⟨N, _, hreceipts, hstep, by simp [hreceipts]⟩

end HttpC
