import HttpC.Connection.SentMessages
import HttpC.Server.Dispatch
import HttpC.Server.Parking
import HttpC.Server.Sending

/-!
# The server's own answers

The server answers a request itself if no route serves it, if it does not fit in the receive
buffer, and if a worker cancels it or is late. Such an answer has no body and says so, in the
default header buffer of the slot.

## Main results

* `slotEffect_source` — where the answers and the bytes of a step come from.
* `own_answers_received` — in every run, what the server answers itself is a response that a client
  receives.
-/

namespace HttpC

open Transition

/-! ## Sources -/

/-- The answers the server makes itself, with their statuses. -/
def ownStatuses : List (Answer × Span × Span) :=
  [(.refused, HTTP_CODE_404, HTTP_REASON_PHRASE_404),
    (.refused, HTTP_CODE_405, HTTP_REASON_PHRASE_405),
    (.refused, HTTP_CODE_413, HTTP_REASON_PHRASE_413),
    (.cancelled, HTTP_CODE_503, HTTP_REASON_PHRASE_503),
    (.expired, HTTP_CODE_504, HTTP_REASON_PHRASE_504)]

/-- Bytes of an answer. -/
def SlotEvent.Traffic : SlotEvent → Prop
  | .provided _ _ | .wrote _ => True
  | _ => False

/-- No step of a request towards its answer, and no bytes of one. -/
def SlotEvent.Plain : SlotEvent → Prop
  | .dispatched _ | .handled _ _ _ | .ticketTaken _ | .parked | .answered _ _ => False
  | .provided _ _ | .wrote _ => False
  | _ => True

variable {env : ServerEnv} {v v' : SlotView} {es : List SlotEvent}

/-- Where an event comes from. -/
inductive Source (env : ServerEnv) (v : SlotView) : SlotAction → SlotEvent → Prop
  | plain {x : SlotAction} {e : SlotEvent} (he : e.Plain) : Source env v x e
  | wrote {w : Platform} {n : Nat} {r : IoResult} {bytes : Bytes} :
    Source env v (.write w n r) (.wrote bytes)
  | provided {stream : Stream} {bytes : Bytes} :
    Source env v (.provide bytes) (.provided stream bytes)
  | dispatched : Source env v .route (.dispatched v.slot.parser.request)
  | ticketTaken {generation : Nat} : Source env v .defer (.ticketTaken generation)
  | handled {o : HandlerOutcome} {r : HttpResponse} {route : Nat} {m : Bool}
    (h : v.focus = .handling route m) : Source env v (.handler o r) (.handled route o r)
  | parked {w : Platform} {m : Bool} {r : HttpResponse}
    (h : v.focus = .returned (some .defer) m r) : Source env v (.conclude w) .parked
  | handler {w : Platform} {m : Bool} {r : HttpResponse}
    (h : v.focus = .returned (some .respond) m r) :
    Source env v (.conclude w) (.answered .handler r)
  | unrouted {w : Platform} {m : Bool} {r : HttpResponse} (h : v.focus = .returned none m r) :
    Source env v (.conclude w)
      (.answered .refused (withDefaultHeaders env.lib v.slot (unroutedResponse env m)).2)
  | completed {w : Platform} :
    Source env v (.flush w) (.answered .completed v.slot.pendingResponse)
  | tooLarge {w : Platform} : Source env v (.tooLarge w) (.answered .refused
      (withDefaultHeaders env.lib v.slot
        (prepareDefaultResponse HTTP_CODE_413 HTTP_REASON_PHRASE_413)).2)
  | cancelled {w : Platform} : Source env v (.flush w) (.answered .cancelled
      (withDefaultHeaders env.lib v.slot
        (prepareDefaultResponse HTTP_CODE_503 HTTP_REASON_PHRASE_503)).2)
  | expired {now : Nat} {w : Platform} : Source env v (.sweepPending now w) (.answered .expired
      (withDefaultHeaders env.lib v.slot
        (prepareDefaultResponse HTTP_CODE_504 HTTP_REASON_PHRASE_504)).2)

section

variable {x : SlotAction} {e : SlotEvent}

theorem Source.of_plain (hes : ∀ e ∈ es, e.Plain) : ∀ e ∈ es, Source env v x e :=
  fun e he => .plain (hes e he)

theorem Source.cons (he : Source env v x e) (hes : ∀ e ∈ es, e.Plain) :
    ∀ e' ∈ e :: es, Source env v x e' := by
  intro e' he'
  rcases List.mem_cons.mp he' with rfl | he'
  · exact he
  · exact .plain (hes e' he')

theorem plain_nil : ∀ e ∈ ([] : List SlotEvent), e.Plain := by simp

theorem plain_finalizerCall (slot : Slot) : ∀ e ∈ finalizerCall slot, e.Plain := by
  intro e he
  obtain rfl := finalized_of_mem_finalizerCall he
  trivial

theorem plain_slotClose (slot : Slot) : ∀ e ∈ (slotClose slot).2, e.Plain := by
  intro e he
  rcases List.mem_append.mp he with he | he
  · exact plain_finalizerCall slot e he
  · obtain rfl := List.mem_singleton.mp he
    trivial

theorem plain_serializeAndSend (lib : CommonLib) (w : Platform) (slot : Slot) (r : HttpResponse) :
    ∀ e ∈ (serializeAndSend lib w slot r).2, e.Plain := by
  obtain ⟨memory, hcase | ⟨used, hcase⟩⟩ := serializeAndSend_cases lib w slot r
  · rw [hcase]
    exact plain_slotClose _
  · rw [hcase]
    exact plain_nil

theorem mem_ownStatuses_unrouted (m : Bool) : ∃ code reason,
    unroutedResponse env m = prepareDefaultResponse code reason ∧
      (.refused, code, reason) ∈ ownStatuses := by
  unfold unroutedResponse
  split_ifs
  · exact ⟨_, _, rfl, by simp [ownStatuses]⟩
  · exact ⟨_, _, rfl, by simp [ownStatuses]⟩

end

/-- Every event of a step has a source. -/
theorem slotEffect_source (env : ServerEnv) (v : SlotView) (x : SlotAction) :
    ∀ e ∈ (slotEffect env v x).2, Source env v x e := by
  have hclose : ∀ slot, ∀ e ∈ (v.leave (slotClose slot)).2, Source env v x e :=
    fun slot => .of_plain (plain_slotClose slot)
  have hnil : ∀ e ∈ ([] : List SlotEvent), Source env v x e := .of_plain plain_nil
  have hown : ∀ (w : Platform) (slot : Slot) (a : Answer) (code reason : Span),
      slot.defaultHeaders = v.slot.defaultHeaders →
      Source env v x (.answered a
        (withDefaultHeaders env.lib v.slot (prepareDefaultResponse code reason)).2) →
      ∀ e ∈ (respondWithStatus env.lib w slot a code reason).2, Source env v x e := by
    intro w slot a code reason hheaders hsource
    have hsame : (withDefaultHeaders env.lib slot (prepareDefaultResponse code reason)).2 =
        (withDefaultHeaders env.lib v.slot (prepareDefaultResponse code reason)).2 := by
      simp only [withDefaultHeaders, hheaders]
    rw [← hsame] at hsource
    exact Source.cons hsource (plain_serializeAndSend _ _ _ _)
  cases x with
  | accept w sd =>
    cases sd with
    | none => exact .of_plain (by simp [slotEffect, SlotView.goto, acceptConnection, releaseSlot,
        SlotEvent.Plain])
    | some sd => exact Source.cons (.plain trivial) plain_nil
  | event error =>
    cases error with
    | true => exact hclose _
    | false => exact hnil
  | handshake w r =>
    cases r with
    | failed => exact hclose _
    | ok | tryAgain => exact hnil
  | tooLarge w => exact hown _ _ _ _ _ rfl .tooLarge
  | read w r =>
    cases r with
    | tryAgain want => exact hnil
    | failed => exact hclose _
    | ok bytes =>
      simp only [slotEffect, SlotView.goto, slotDriveReceive]
      split_ifs
      · exact Source.cons (.plain trivial) plain_nil
      · exact Source.cons (.plain trivial) plain_nil
      · exact Source.cons (.plain trivial) (plain_slotClose _)
  | route =>
    simp only [slotEffect, routeRequest]
    rcases routeLoop env v.slot.parser.request 0 env.routes false with ⟨matched, _ | route⟩
    · exact Source.cons .dispatched plain_nil
    · exact Source.cons .dispatched plain_nil
  | defer => exact Source.cons .ticketTaken plain_nil
  | handler outcome response =>
    simp only [slotEffect, handlerReturned]
    split
    · next hf => exact Source.cons (.handled hf) plain_nil
    · exact hnil
  | conclude w =>
    cases hf : v.focus with
    | returned o m r =>
      simp only [slotEffect, hf]
      cases o with
      | none => exact Source.cons (.unrouted hf) (plain_serializeAndSend _ _ _ _)
      | some outcome =>
        cases outcome with
        | respond => exact Source.cons (.handler hf) (plain_serializeAndSend _ _ _ _)
        | defer => exact Source.cons (.parked hf) plain_nil
        | close => exact hclose _
    | _ =>
      simp only [slotEffect, hf]
      exact hnil
  | probe r =>
    simp only [slotEffect, SlotView.leave, slotProbePending]
    split_ifs
    · exact hnil
    · cases r with
      | ok bytes => exact Source.cons (.plain trivial) plain_nil
      | tryAgain want => exact hnil
      | failed => exact hclose _
  | write w written r =>
    cases r with
    | ok | tryAgain => exact Source.cons .wrote plain_nil
    | failed => exact Source.cons .wrote (plain_slotClose _)
  | drain => exact hnil
  | provide bytes =>
    simp only [slotEffect, SlotView.goto, slotProvide]
    split_ifs
    · exact Source.cons .provided plain_nil
    · exact Source.cons .provided (plain_finalizerCall _)
  | finish w =>
    simp only [slotEffect, SlotView.goto, slotFinishSend]
    split_ifs <;> first
      | exact Source.cons (.plain trivial) (plain_slotClose _)
      | exact Source.cons (.plain trivial) plain_nil
  | stray | reclaim => exact hclose _
  | flush w =>
    simp only [slotEffect, SlotView.leave, slotFlush]
    split_ifs
    · exact hown _ _ _ _ _ rfl .cancelled
    · exact Source.cons .completed (plain_serializeAndSend _ _ _ _)
    · exact hnil
  | sweepPending now w =>
    simp only [slotEffect, SlotView.leave, slotSweepPending]
    split_ifs
    · exact hown _ _ _ _ _ rfl .expired
    · exact hnil
  | sweepIdle now =>
    simp only [slotEffect, SlotView.leave, slotSweepIdle]
    split_ifs
    · exact hclose _
    · exact hnil
  | teardown =>
    simp only [slotEffect]
    split_ifs
    · exact hclose v.slot
    · exact hnil
  | post n p =>
    simp only [slotEffect]
    split
    · exact hnil
    · exact Source.cons (.plain trivial) plain_nil

/-! ## The buffers -/

/-- The sizes of the send buffer and of the default header buffer. -/
def Slot.sizes (slot : Slot) : Nat × Nat := (slot.sendBufferSize, slot.defaultHeaders.size)

section

variable {slot : Slot}

@[simp] theorem sizes_streamCleared (slot : Slot) : (streamCleared slot).sizes = slot.sizes := by
  unfold streamCleared
  split_ifs <;> rfl

@[simp] theorem sizes_slotClose (slot : Slot) : (slotClose slot).1.sizes = slot.sizes := by
  rw [slotClose_slot]
  exact sizes_streamCleared slot

@[simp] theorem sizes_slotTeardown (slot : Slot) : (slotTeardown slot).1.sizes = slot.sizes := by
  have hcleared : (streamFinalize slot).1.sizes = slot.sizes := sizes_streamCleared slot
  unfold slotTeardown
  dsimp only
  split_ifs
  · exact hcleared
  · exact hcleared

@[simp] theorem sizes_serializeAndSend (lib : CommonLib) (w : Platform) (slot : Slot)
    (r : HttpResponse) : (serializeAndSend lib w slot r).1.sizes = slot.sizes := by
  have hinstall : (installStream slot r).sizes = slot.sizes := by
    unfold installStream
    split_ifs <;> rfl
  obtain ⟨memory, hcase | ⟨used, hcase⟩⟩ := serializeAndSend_cases lib w slot r
  · rw [hcase, sizes_slotClose]
    exact hinstall
  · rw [hcase]
    exact hinstall

/-- Adding the field writes within the buffer. -/
theorem sizes_withDefaultHeaders (lib : CommonLib) (slot : Slot) (r : HttpResponse) :
    (withDefaultHeaders lib slot r).1.sizes = slot.sizes := by
  have hused : (httpHeadersInit slot.defaultHeaders).usedSize ≤
      (httpHeadersInit slot.defaultHeaders).buffer.size := Nat.zero_le _
  refine Prod.ext rfl ?_
  rcases httpHeadersAdd_cases lib hused HTTP_HEADER_CONTENT_LENGTH HDR_VAL_ZERO with
    ⟨-, headers, hadd, hextends⟩ | ⟨-, headers, hadd, hsame⟩
  · simp only [withDefaultHeaders, hadd]
    exact hextends.size
  · simp only [withDefaultHeaders, hadd]
    exact hsame.size.symm

theorem sizes_respondWithStatus (lib : CommonLib) (w : Platform) (slot : Slot) (a : Answer)
    (code reason : Span) :
    (respondWithStatus lib w slot a code reason).1.sizes = slot.sizes := by
  have hserialized := sizes_serializeAndSend lib w
    (withDefaultHeaders lib slot (prepareDefaultResponse code reason)).1
    (withDefaultHeaders lib slot (prepareDefaultResponse code reason)).2
  exact hserialized.trans (sizes_withDefaultHeaders lib slot _)

/-- No step changes the sizes of the buffers. -/
theorem sizes_slotEffect (env : ServerEnv) (v : SlotView) (x : SlotAction) :
    (slotEffect env v x).1.slot.sizes = v.slot.sizes := by
  have hclose : ∀ slot : Slot, slot.sizes = v.slot.sizes →
      (slotClose slot).1.sizes = v.slot.sizes := by
    intro slot hslot
    rw [sizes_slotClose, hslot]
  cases x with
  | accept w sd => cases sd <;> rfl
  | event error =>
    cases error with
    | true => exact hclose _ rfl
    | false => rfl
  | handshake w r =>
    cases r with
    | failed => exact hclose _ rfl
    | ok | tryAgain => rfl
  | tooLarge w => exact sizes_respondWithStatus env.lib w _ .refused HTTP_CODE_413 _
  | read w r =>
    cases r with
    | tryAgain want => rfl
    | failed => exact hclose _ rfl
    | ok bytes =>
      simp only [slotEffect, SlotView.goto, slotDriveReceive]
      split_ifs
      · rfl
      · rfl
      · exact hclose _ rfl
  | route =>
    simp only [slotEffect, routeRequest]
    split <;> rfl
  | defer => rfl
  | handler outcome response =>
    simp only [slotEffect, handlerReturned]
    split <;> rfl
  | conclude w =>
    simp only [slotEffect]
    split
    · next o m r _ =>
      cases o with
      | none =>
        have hserialized := sizes_serializeAndSend env.lib w
          (withDefaultHeaders env.lib v.slot (unroutedResponse env m)).1
          (withDefaultHeaders env.lib v.slot (unroutedResponse env m)).2
        exact hserialized.trans (sizes_withDefaultHeaders _ _ _)
      | some outcome =>
        cases outcome with
        | respond => exact sizes_serializeAndSend _ _ _ _
        | defer => rfl
        | close => exact hclose _ rfl
    · rfl
  | probe r =>
    simp only [slotEffect, SlotView.leave, slotProbePending]
    split_ifs
    · rfl
    · cases r with
      | ok bytes | tryAgain want => rfl
      | failed => exact hclose _ rfl
  | write w written r =>
    cases r with
    | ok | tryAgain => rfl
    | failed => exact hclose _ rfl
  | drain => rfl
  | provide bytes =>
    simp only [slotEffect, SlotView.goto, slotProvide]
    split_ifs
    · rfl
    · exact sizes_streamCleared _
  | finish w =>
    simp only [slotEffect, SlotView.goto, slotFinishSend]
    split_ifs <;> first | exact hclose _ rfl | rfl
  | stray | reclaim => exact hclose _ rfl
  | flush w =>
    simp only [slotEffect, SlotView.leave, slotFlush]
    split_ifs
    · exact sizes_respondWithStatus _ _ _ _ _ _
    · exact sizes_serializeAndSend _ _ _ _
    · rfl
  | sweepPending now w =>
    simp only [slotEffect, SlotView.leave, slotSweepPending]
    split_ifs
    · exact sizes_respondWithStatus _ _ _ _ _ _
    · rfl
  | sweepIdle now =>
    simp only [slotEffect, SlotView.leave, slotSweepIdle]
    split_ifs
    · exact hclose _ rfl
    · rfl
  | teardown =>
    simp only [slotEffect]
    split_ifs
    · exact sizes_slotTeardown _
    · rfl
  | post n p =>
    simp only [slotEffect]
    split
    · rfl
    · simp only [deferralPost]
      split_ifs
      · rfl
      · rfl
      · cases p <;> rfl

end

/-! ## What they are -/

def Answer.own : Answer → Bool
  | .refused | .cancelled | .expired => true
  | .handler | .completed => false

def ownFields : List (Span × Span) := [(HTTP_HEADER_CONTENT_LENGTH, HDR_VAL_ZERO)]

/-- The status of an own answer frames an empty body. -/
theorem declaredFraming_own {a : Answer} {code reason : Span} (h : (a, code, reason) ∈ ownStatuses)
    (lib : CommonLib) (forHead : Bool) :
    declaredFraming lib forHead (sentHead HTTP_VERSION_1_1 code reason ownFields) =
      some .none := by
  have hcode : ∀ x ∈ ownStatuses, x.2.1.bytes.length = 3 ∧ IsNumeral x.2.1.bytes ∧
      decimalValue x.2.1.bytes < 2 ^ 32 := by decide +kernel
  obtain ⟨hthree, hnumeral, hsmall⟩ := hcode _ h
  have hstatus := lib.spanToUInt32_numeral ⟨0, code.bytes⟩ hnumeral hsmall
  have hzero : lib.spanToUInt32 ⟨0, ascii "0"⟩ = some 0 :=
    lib.spanToUInt32_numeral ⟨0, ascii "0"⟩ (by decide +kernel) (by decide +kernel)
  have hlookup : lookup (ownFields.map fieldLine) HTTP_HEADER_CONTENT_LENGTH.bytes =
      some (ascii "0") := by decide +kernel
  simp only [declaredFraming, sentHead, hthree, ne_eq, not_true_eq_false, if_false, hstatus,
    hlookup, hzero]
  split_ifs <;> rfl

/-- The server's own answers declare their empty bodies. -/
theorem own_declared {a : Answer} {code reason : Span} (h : (a, code, reason) ∈ ownStatuses)
    {slot : Slot} (hsize : slot.defaultHeaders.size = 32) (lib : CommonLib) (forHead : Bool) :
    (withDefaultHeaders lib slot (prepareDefaultResponse code reason)).2.Declared lib forHead
      ownFields where
  headers := by
    have hused : (httpHeadersInit slot.defaultHeaders).usedSize ≤
        (httpHeadersInit slot.defaultHeaders).buffer.size := Nat.zero_le _
    have hfits : LineFits (httpHeadersInit slot.defaultHeaders) HTTP_HEADER_CONTENT_LENGTH
        HDR_VAL_ZERO := by
      have hsizes : 0 + HTTP_HEADER_CONTENT_LENGTH.size + HDR_VAL_ZERO.size + 4 ≤ 32 := by decide
      exact ⟨by decide, by decide, hsizes.trans_eq hsize.symm⟩
    refine ⟨⟨slot.defaultHeaders, ?_⟩, by decide +kernel⟩
    rcases httpHeadersAdd_cases lib hused HTTP_HEADER_CONTENT_LENGTH HDR_VAL_ZERO with
      ⟨-, headers, hadd, -⟩ | ⟨hnot, -⟩
    · simp only [ownFields, addFields, withDefaultHeaders, hadd]
    · exact absurd hfits hnot
  version := by
    have htoken : IsToken HTTP_VERSION_1_1 := ⟨by decide +kernel, by decide +kernel⟩
    exact htoken
  code := by
    have hcode : ∀ x ∈ ownStatuses, ¬ space.bytes <:+: x.2.1.bytes ∧
        ¬ crlf.bytes <:+: x.2.1.bytes := by decide +kernel
    exact hcode _ h
  reason := by
    have hreason : ∀ x ∈ ownStatuses, ¬ crlf.bytes <:+: x.2.2.bytes := by decide +kernel
    exact hreason _ h
  framed := declaredFraming_own h lib forHead

/-! ## Runs -/

/-- An answer the server makes itself. -/
structure OwnAnswer (lib : CommonLib) (a : Answer) (r : HttpResponse) (code reason : Span) :
    Prop where
  status : (a, code, reason) ∈ ownStatuses
  httpVersion : r.httpVersion = HTTP_VERSION_1_1
  code : r.code = code
  reason : r.reasonPhrase = reason
  body : r.body.bytes = []
  stored : r.bodyProvider = none
  declared : ∀ forHead, r.Declared lib forHead ownFields

theorem own_of_run {log : List SlotEvent} (run : Run (slotMachine env) log v) {a : Answer}
    {r : HttpResponse} (h : .answered a r ∈ log) (hown : a.own = true) :
    ∃ code reason, OwnAnswer env.lib a r code reason := by
  suffices hall : v.slot.defaultHeaders.size = 32 ∧ ∀ a r, .answered a r ∈ log → a.own = true →
      ∃ code reason, OwnAnswer env.lib a r code reason from hall.2 a r h hown
  refine run.invariant (I := fun log v => v.slot.defaultHeaders.size = 32 ∧
    ∀ a r, .answered a r ∈ log → a.own = true →
      ∃ code reason, OwnAnswer env.lib a r code reason) ?_ ?_
  · rintro v ⟨-, -, storage, hstorage, hs⟩
    refine ⟨?_, by simp⟩
    rw [hs]
    exact hstorage.headers
  · rintro log v x v' es - ⟨hsize, hall⟩ hstep
    simp only [slotMachine, slotStep] at hstep
    split_ifs at hstep
    obtain ⟨rfl, rfl⟩ := Prod.mk.inj (Option.some.inj hstep)
    refine ⟨(congrArg Prod.snd (sizes_slotEffect env v x)).trans hsize, fun a r hmem hown => ?_⟩
    rcases List.mem_append.mp hmem with hmem | hmem
    · exact hall a r hmem hown
    · suffices hstatus : ∃ code reason, (a, code, reason) ∈ ownStatuses ∧
          r = (withDefaultHeaders env.lib v.slot (prepareDefaultResponse code reason)).2 by
        obtain ⟨code, reason, hstatus, rfl⟩ := hstatus
        exact ⟨_, _, hstatus, rfl, rfl, rfl, rfl, rfl, own_declared hstatus hsize env.lib⟩
      cases slotEffect_source env v x _ hmem with
      | plain he => exact absurd he id
      | handler | completed => cases hown
      | unrouted hf =>
        obtain ⟨code, reason, hresponse, hstatus⟩ := @mem_ownStatuses_unrouted env _
        exact ⟨code, reason, hstatus, by rw [hresponse]⟩
      | tooLarge | cancelled | expired => exact ⟨_, _, by simp [ownStatuses], rfl⟩

/-- **No client waits for the body of an answer the server makes itself.** In every run, what a
slot answers without a handler or a worker has a status of the server, and the next call of a
client with a buffer larger than the answer returns that status line with an empty body, however the
bytes are split and whatever comes next, if some read ends where the answer does. -/
theorem own_answers_received {slotCount : Nat} {log : List ServerEvent} {s : System}
    (run : Run (serverMachine env slotCount) log s) (i : Nat) {a : Answer} {r : HttpResponse}
    (h : .answered a r ∈ slotLog i log) (hown : a.own = true) :
    ∃ code reason, (a, code, reason) ∈ ownStatuses ∧
      ∀ (forHead : Bool) (wire : Wire) (rest : Bytes) (ptr : Nat) (mem : Bytes)
        (initial : HttpResponse),
        arriving wire = serializedResponse env.lib (serializedPart r) ++ rest →
        (serializedResponse env.lib (serializedPart r)).length ∈ cutsFrom 0 wire →
        (serializedResponse env.lib (serializedPart r)).length < mem.length →
        ∃ o, receiveResponse env.lib none ptr mem ⟨wire, forHead⟩ initial = some o ∧
          o.result = .ok ∧ o.response.httpVersion.bytes = HTTP_VERSION_1_1.bytes ∧
          o.response.code.bytes = code.bytes ∧ o.response.reasonPhrase.bytes = reason.bytes ∧
          o.response.body.bytes = [] ∧
          arriving o.connection.wire = rest := by
  obtain ⟨code, reason, hanswer⟩ := own_of_run (slotRun_of_run env slotCount run i) h hown
  have hpart : serializedPart r = r := by rw [serializedPart, hanswer.stored]; rfl
  rw [hpart]
  refine ⟨code, reason, hanswer.status, ?_⟩
  intro forHead wire rest ptr mem initial hstream hcut hroom
  obtain ⟨o, ho, hok, hsame, hrest⟩ :=
    (hanswer.declared forHead).receive_next hstream hcut ptr hroom initial
  refine ⟨o, ho, hok, ?_, ?_, ?_, ?_, hrest⟩
  · rw [hsame.httpVersion, hanswer.httpVersion]
  · rw [hsame.code, hanswer.code]
  · rw [hsame.reasonPhrase, hanswer.reason]
  · rw [hsame.body, hanswer.body]

/-- A request that no route of the small server has the method of. -/
def unroutable : List ServerAction :=
  connecting ++ atSlot0 [.event false, .read calm (.ok (ascii "PUT / HTTP/1.1\r\n\r\n")), .route,
    .conclude calm]

theorem own_answers_received_405 : ∃ o,
    receiveResponse .reference none 1000 (List.replicate 64 0)
      ⟨[.data (ascii "HTTP/1.1 405 Method Not Allowed\r\nContent-"), .tryAgain false,
        .data (ascii "Length: 0\r\n\r\n")], false⟩ .zero = some o ∧ o.result = .ok ∧
    o.response.httpVersion.bytes = ascii "HTTP/1.1" ∧ o.response.body.bytes = [] := by
  obtain ⟨s, hexec, run⟩ := run_of_execute (M := serverMachine smallServer 1) unroutable
    smallSystem_initial rfl
  have hmem : ∃ r, .answered .refused r ∈
        slotLog 0 ((serverMachine smallServer 1).log smallSystem unroutable) ∧
      serializedResponse .reference (serializedPart r) =
        ascii "HTTP/1.1 405 Method Not Allowed\r\nContent-Length: 0\r\n\r\n" :=
    ⟨(withDefaultHeaders .reference smallSlot
      (prepareDefaultResponse HTTP_CODE_405 HTTP_REASON_PHRASE_405)).2, by decide +kernel,
      by decide +kernel⟩
  obtain ⟨r, hmem, hbytes⟩ := hmem
  obtain ⟨code, reason, -, hreceived⟩ := own_answers_received run 0 hmem rfl
  obtain ⟨o, ho, hok, hversion, -, -, hbody, -⟩ := hreceived false
    [.data (ascii "HTTP/1.1 405 Method Not Allowed\r\nContent-"), .tryAgain false,
      .data (ascii "Length: 0\r\n\r\n")] [] 1000 (List.replicate 64 0) .zero
    (by rw [show smallServer.lib = .reference from rfl, hbytes]; decide +kernel)
    (by rw [show smallServer.lib = .reference from rfl, hbytes]; decide +kernel)
    (by rw [show smallServer.lib = .reference from rfl, hbytes]; decide +kernel)
  exact ⟨o, ho, hok, hversion, hbody⟩

end HttpC
