import HttpC.Exchange.Network

/-!
# The answers of handlers and workers

If the handlers and the workers of a server answer with responses that declare their bodies, its
clients receive these responses, and the server's own answers in the places between them.

## Main results

* `answers_received` — what a client's calls return are the answers of the server, in order.
-/

namespace HttpC

open Transition Serial

/-! ## The answers in a log -/

/-- The answers on a connection, with an event. -/
def SlotEvent.answers (l : List (Answer × HttpResponse)) : SlotEvent → List (Answer × HttpResponse)
  | .accepted => []
  | .answered a r => l ++ [(a, r)]
  | _ => l

/-- The answers on the last connection. -/
def answersOf (log : List SlotEvent) : List (Answer × HttpResponse) :=
  log.foldl SlotEvent.answers []

section

variable {lib : CommonLib} {log : List SlotEvent} {c c' : SerialService}

theorem answersOf_append (log : List SlotEvent) (e : SlotEvent) :
    answersOf (log ++ [e]) = SlotEvent.answers (answersOf log) e := by
  rw [answersOf, List.foldl_append]
  rfl

theorem mem_of_mem_answersOf {a : Answer} {r : HttpResponse} (h : (a, r) ∈ answersOf log) :
    .answered a r ∈ log := by
  induction log using List.reverseRecOn with
  | nil => cases h
  | append_singleton log e ih =>
    rw [answersOf_append] at h
    cases e with
    | accepted => cases h
    | answered a' r' =>
      rcases List.mem_append.mp h with h | h
      · exact List.mem_append_left _ (ih h)
      · obtain ⟨rfl, rfl⟩ := Prod.mk.inj (List.mem_singleton.mp h)
        exact List.mem_append_right _ List.mem_cons_self
    | _ => exact List.mem_append_left _ (ih h)

/-- The answers of the service are those in the log, if none of them is streamed. -/
structure Answering (lib : CommonLib) (log : List SlotEvent) (c : SerialService) : Prop where
  written : c.answers ++ (if c.turn.answering then [c.turn.due] else []) =
    (answersOf log).map fun x => serializedResponse lib (serializedPart x.2)
  provider : c.turn.answering = true → ∃ x ∈ answersOf log,
    providing.after log = if x.2.bodyProvider.isSome then some x.2.stream else none

/-- An event that neither answers nor ends an answer. -/
theorem Answering.same {e : SlotEvent} (h : Answering lib log c)
    (hlog : answersOf (log ++ [e]) = answersOf log)
    (hcurrent : providing.after (log ++ [e]) = providing.after log)
    (hanswers : c'.answers = c.answers) (hanswering : c'.turn.answering = c.turn.answering)
    (hdue : c'.turn.due = c.turn.due) :
    Answering lib (log ++ [e]) c' where
  written := by
    rw [hlog, hanswers, hanswering, hdue]
    exact h.written
  provider := by
    rw [hlog, hcurrent, hanswering]
    exact h.provider

theorem answering_of_reads (hreads : InStep.Reads lib (.fresh false) log c)
    (hproviding : providing.Accepts log) (hstored : ∀ x ∈ answersOf log, x.2.bodyProvider = none) :
    Answering lib log c := by
  induction log using List.reverseRecOn generalizing c with
  | nil =>
    cases hreads
    exact ⟨rfl, fun hanswering => absurd hanswering Bool.false_ne_true⟩
  | append_singleton log e ih =>
    rw [InStep.Reads, List.filterMap_append] at hreads
    obtain ⟨c₀, hlog, he⟩ := hreads.split
    obtain ⟨hacc, hgood, -⟩ := (Monitor.accepts_append _ log [e]).mp hproviding
    rw [answersOf_append] at hstored
    have hcurrent : providing.after (log ++ [e]) = providing.record (providing.after log) e := by
      rw [Monitor.after_append]
      rfl
    cases e with
    | accepted =>
      cases he with
      | cons hnext hnil =>
        cases hnil
        obtain ⟨-, hnext⟩ := Option.ite_none_left_eq_some.mp hnext
        obtain rfl := Option.some.inj hnext
        refine ⟨?_, fun hanswering => absurd hanswering Bool.false_ne_true⟩
        rw [answersOf_append]
        rfl
    | answered a r =>
      have hold := ih hlog hacc fun x hx => hstored x (List.mem_append_left _ hx)
      cases he with
      | cons hnext hnil =>
        cases hnil
        obtain ⟨hpre, hnext⟩ := Option.dite_none_right_eq_some.mp hnext
        obtain rfl := Option.some.inj hnext
        have hidle : c₀.turn.answering = false := by
          rw [hpre.2]
          split_ifs <;> rfl
        have hwritten := hold.written
        rw [hidle, if_neg Bool.false_ne_true, List.append_nil] at hwritten
        refine ⟨?_, fun _ => ⟨(a, r), ?_, hcurrent⟩⟩
        · rw [answersOf_append, SlotEvent.answers, List.map_append, ← hwritten]
          rfl
        · rw [answersOf_append]
          exact List.mem_append_right _ List.mem_cons_self
    | provided stream bytes =>
      have hold := ih hlog hacc hstored
      cases he with
      | cons hnext hnil =>
        obtain ⟨hpre, -⟩ := Option.dite_none_right_eq_some.mp hnext
        -- the answer that is written has no provider
        obtain ⟨x, hx, hafter⟩ := hold.provider hpre.2.1
        have hprovider : providing.after log = some stream := hgood
        rw [hafter, hstored x hx] at hprovider
        cases hprovider
    | finished =>
      have hold := ih hlog hacc hstored
      cases he with
      | cons hnext hnil =>
        cases hnil
        obtain ⟨hpre, hnext⟩ := Option.dite_none_right_eq_some.mp hnext
        obtain rfl := Option.some.inj hnext
        have hwritten := hold.written
        rw [if_pos hpre.2.1] at hwritten
        have hdone : (c₀.complete hpre.2.1 hpre.2.2).turn.answering = false := by
          simp only [Service.complete]
          split_ifs <;> rfl
        refine ⟨?_, fun h => absurd (hdone.symm.trans h) Bool.false_ne_true⟩
        rw [hdone, if_neg Bool.false_ne_true, List.append_nil, answersOf_append]
        exact hwritten
    | dispatched request =>
      have hold := ih hlog hacc hstored
      cases he with
      | cons hnext hnil =>
        cases hnil
        obtain ⟨hpre, hnext⟩ := Option.dite_none_right_eq_some.mp hnext
        obtain rfl := Option.some.inj hnext
        exact hold.same (answersOf_append _ _) hcurrent rfl (by rw [hpre.2]; rfl)
          (by rw [hpre.2]; rfl)
    | wrote bytes =>
      have hold := ih hlog hacc hstored
      cases he with
      | cons hnext hnil =>
        cases hnil
        obtain ⟨hpre, hnext⟩ := Option.dite_none_right_eq_some.mp hnext
        obtain rfl := Option.some.inj hnext
        exact hold.same (answersOf_append _ _) hcurrent rfl hpre.2.1.symm rfl
    | released =>
      have hold := ih hlog hacc hstored
      cases he with
      | cons hnext hnil =>
        cases hnil
        obtain rfl := Option.some.inj hnext
        exact hold.same (answersOf_append _ _) hcurrent rfl rfl rfl
    | _ =>
      have hold := ih hlog hacc hstored
      cases he
      exact hold.same (answersOf_append _ _) hcurrent rfl rfl rfl

end

/-! ## The messages of the answers -/

/-- Whether the request at this place asks for a head. -/
def awaitsHead (sent : List HttpRequest) (k : Nat) : Bool :=
  sent[k]?.elim false HttpRequest.asksForHead

/-- An answer that a client can read in the place of the request. -/
def Readable (lib : CommonLib) (sent : List HttpRequest) (k : Nat) (r : HttpResponse) : Prop :=
  r.bodyProvider = none ∧ ∃ fields, r.Declared lib (awaitsHead sent k) fields

/-- The messages are the answers. -/
structure Renders (lib : CommonLib) (sent : List HttpRequest) (l : List (Answer × HttpResponse))
    (msgs : List ResponseMessage) : Prop where
  length : msgs.length = l.length
  place : ∀ (k : Nat) (a : Answer) (r : HttpResponse), l[k]? = some (a, r) →
    r.bodyProvider = none ∧ ∃ fields, r.Declared lib (awaitsHead sent k) fields ∧
      msgs[k]? = some (r.message fields)

section

variable {lib : CommonLib} {room : Nat} {log : List SlotEvent} {c : SerialService}
  {sent : List HttpRequest} {l : List (Answer × HttpResponse)} {msgs : List ResponseMessage}

theorem serializedPart_eq {r : HttpResponse} (h : r.bodyProvider = none) :
    serializedPart r = r := by
  rw [serializedPart, h]
  rfl

theorem exists_renders (h : ∀ (k : Nat) (a : Answer) (r : HttpResponse), l[k]? = some (a, r) →
    Readable lib sent k r) : ∃ msgs, Renders lib sent l msgs := by
  have hchoice : ∀ k : Fin l.length, ∃ fields, l[k].2.Declared lib (awaitsHead sent k) fields :=
    fun k => (h k _ _ (List.getElem?_eq_getElem k.isLt)).2
  choose fields hfields using hchoice
  refine ⟨List.ofFn fun k : Fin l.length => l[k].2.message (fields k), List.length_ofFn, ?_⟩
  intro k a r hx
  obtain ⟨hk, heq⟩ := List.getElem?_eq_some_iff.mp hx
  have hdeclared := hfields ⟨k, hk⟩
  rw [show l[(⟨k, hk⟩ : Fin l.length)] = (a, r) from heq] at hdeclared
  refine ⟨(h k a r hx).1, fields ⟨k, hk⟩, hdeclared, ?_⟩
  rw [List.getElem?_ofFn, dif_pos hk, show l[(⟨k, hk⟩ : Fin l.length)] = (a, r) from heq]

theorem Renders.map_encode (h : Renders lib sent l msgs) : msgs.map ResponseMessage.encode =
    l.map fun x => serializedResponse lib (serializedPart x.2) := by
  refine List.ext_getElem? fun k => ?_
  rw [List.getElem?_map, List.getElem?_map]
  cases hx : l[k]? with
  | none =>
    rw [List.getElem?_eq_none_iff, ← h.length] at hx
    rw [List.getElem?_eq_none hx]
    rfl
  | some x =>
    obtain ⟨a, r⟩ := x
    obtain ⟨hstored, fields, hdeclared, hm⟩ := h.place k a r hx
    rw [hm, Option.map_some, Option.map_some, hdeclared.encode_eq, serializedPart_eq hstored]

/-- What stands in a place of the messages. -/
theorem Renders.getElem? (h : Renders lib sent l msgs) {k : Nat} {m : ResponseMessage}
    (hm : msgs[k]? = some m) : ∃ a r fields, (a, r) ∈ l ∧ m = r.message fields ∧
      serializedPart r = r ∧ r.Declared lib (awaitsHead sent k) fields := by
  have hk := (List.getElem?_eq_some_iff.mp hm).1
  rw [h.length] at hk
  have hx := List.getElem?_eq_getElem hk
  obtain ⟨hstored, fields, hdeclared, hm'⟩ := h.place k l[k].1 l[k].2 hx
  exact ⟨_, _, fields, List.getElem_mem hk, Option.some.inj (hm.symm.trans hm'),
    serializedPart_eq hstored, hdeclared⟩

/-- What receives the messages receives the answers. -/
theorem Renders.received (h : Renders lib sent l msgs) {n : Nat} {receipts : List ResponseReceipt}
    (hreceived : List.Forall₂ (ResponseMessage.ReceivedBy lib) (msgs.take n) receipts) :
    List.Forall₂ (fun x o => o.result = .ok ∧ SameResponse lib o.response x.2) (l.take n)
      receipts := by
  rw [List.forall₂_iff_get] at hreceived ⊢
  obtain ⟨hlength, hget⟩ := hreceived
  refine ⟨by rw [← hlength, List.length_take, List.length_take, h.length], fun k hk hk' => ?_⟩
  have hkl := hk
  rw [List.length_take] at hkl
  have hx := List.getElem?_eq_getElem (l := l) (i := k) (by omega)
  obtain ⟨-, fields, hdeclared, hm⟩ := h.place k l[k].1 l[k].2 hx
  have hgot := hget k (by rw [List.length_take, h.length]; exact hkl) hk'
  rw [List.get_eq_getElem, List.getElem_take,
    (List.getElem?_eq_some_iff.mp hm).2] at hgot
  have hhere : (l.take n).get ⟨k, hk⟩ = l[k] := List.getElem_take
  exact ⟨hgot.result, hhere ▸ hdeclared.same hgot⟩

/-- The answers so far, and the least response for each request that is not answered. -/
theorem Answering.meant (h : Answering lib log c) (hmsgs : Renders lib sent (answersOf log) msgs)
    (hroom : 9 ≤ room) (hsendable : ∀ r ∈ sent, Sendable lib r)
    (hsize : ∀ a r, (a, r) ∈ answersOf log →
      (serializedResponse lib (serializedPart r)).length ≤ room) :
    Meant lib room c sent (msgs ++ List.replicate sent.length (plainResponse 9)) := by
  have hwritten := h.written
  rw [← hmsgs.map_encode] at hwritten
  have hplace : ∀ (k : Nat) (m : ResponseMessage),
      (msgs ++ List.replicate sent.length (plainResponse 9))[k]? = some m →
      msgs[k]? = some m ∨ m = plainResponse 9 := by
    intro k m hm
    by_cases hk : k < msgs.length
    · exact .inl (by rwa [List.getElem?_append_left hk] at hm)
    · rw [List.getElem?_append_right (Nat.le_of_not_lt hk)] at hm
      exact .inr (List.eq_of_mem_replicate (List.mem_of_getElem? hm))
  refine ⟨⟨?_, ?_⟩, ?_, hsendable, fun k m r hm hr => ?_, fun m hm => ?_⟩
  · rw [List.map_append, ← hwritten, List.append_assoc]
    exact List.prefix_append _ _
  · rw [List.map_append, ← hwritten]
    cases hanswering : c.turn.answering with
    | false =>
      have hdue : c.turn.due = [] := by
        cases hturn : c.turn <;> simp_all [Turn.answering, Turn.due]
      rw [hdue]
      exact List.nil_prefix
    | true => simp
  · rw [List.length_append, List.length_replicate]
    omega
  · rcases hplace k m hm with hm | rfl
    · obtain ⟨a, r', fields, -, rfl, -, hdeclared⟩ := hmsgs.getElem? hm
      rw [awaitsHead, hr] at hdeclared
      exact ⟨hdeclared.wellFormed, hdeclared.ends⟩
    · obtain ⟨hwf, hdeclared⟩ := wellFormed_plainResponse lib r.asksForHead 9
      exact ⟨hwf, by rw [hdeclared]; simp⟩
  · obtain ⟨k, hk⟩ := List.mem_iff_getElem?.mp hm
    rcases hplace k m hk with hm | rfl
    · obtain ⟨a, r, fields, hmem, rfl, hpart, hdeclared⟩ := hmsgs.getElem? hm
      rw [hdeclared.encode_eq, ← hpart]
      exact hsize a r hmem
    · exact (length_plainResponse le_rfl).le.trans hroom

end

/-! ## Runs -/

section

variable {env : ServerEnv} {slotCount i room : Nat} {log : List ServerEvent} {N : Network}

/-- **A client receives what its requests are answered.** In every run of the server, its clients
and the network, if the handlers and the workers answer with responses that declare their bodies:
the calls of the client that succeed return the answers, in order, with the server's own answers
in their places. -/
theorem answers_received (run : Run (networkMachine env slotCount i room) log N)
    (hfits : ∀ e ∈ slotLog i log, e.fits env.lib) (hroom : 9 ≤ room)
    (hsize : ∀ a r, (a, r) ∈ answersOf (slotLog i log) →
      (serializedResponse env.lib (serializedPart r)).length ≤ room)
    (hsendable : ∀ r ∈ N.client.sent, Sendable env.lib r)
    (hreadable : ∀ (k : Nat) (a : Answer) (r : HttpResponse),
      (answersOf (slotLog i log))[k]? = some (a, r) → a.own = false →
        Readable env.lib N.client.sent k r) :
    List.Forall₂ (fun x o => o.result = .ok ∧ SameResponse env.lib o.response x.2)
      ((answersOf (slotLog i log)).take N.client.receipts.length) N.client.receipts := by
  have hserver := run.project (networkProjection env slotCount i room)
  rw [show (networkProjection env slotCount i room).keep = some from rfl, List.filterMap_some]
    at hserver
  have hslot := (hserver.project (sendingProjection env slotCount i)).of_restrict
  obtain ⟨c, hserial⟩ := Network.serial run hfits
  obtain ⟨_, rfl, hreads⟩ := hserial.takes
  have hall : ∀ (k : Nat) (a : Answer) (r : HttpResponse),
      (answersOf (slotLog i log))[k]? = some (a, r) → Readable env.lib N.client.sent k r := by
    intro k a r hx
    cases hown : a.own with
    | false => exact hreadable k a r hx hown
    | true =>
      obtain ⟨code, reason, hanswer⟩ :=
        own_of_run hslot (mem_of_mem_answersOf (List.mem_of_getElem? hx)) hown
      exact ⟨hanswer.stored, ownFields, hanswer.declared _⟩
  have hanswering : Answering env.lib (slotLog i log) c := by
    refine answering_of_reads hreads (sendingSlot_of_run hserver i).2 fun x hx => ?_
    obtain ⟨k, hk⟩ := List.mem_iff_getElem?.mp hx
    exact (hall k x.1 x.2 hk).1
  obtain ⟨msgs, hmsgs⟩ := exists_renders hall
  have hmeant := hanswering.meant hmsgs hroom hsendable hsize
  have hlinked := Network.linked run hreads
  obtain ⟨hreceived, -⟩ := hlinked.delivered _ hmeant
  -- there are no more receipts than answers
  have hle : N.client.receipts.length ≤ msgs.length := by
    have hwritten := congrArg List.length hanswering.written
    have hbound := hlinked.received_le hreads hmeant
    rw [← hmsgs.map_encode, List.length_append, List.length_map] at hwritten
    split_ifs at hwritten hbound <;> simp at hwritten <;> omega
  rw [List.take_append_of_le_length hle] at hreceived
  exact hmsgs.received hreceived

end

theorem noContentResponse_readable (k : Nat) :
    Readable .reference [plainRequest, plainRequest] k noContentResponse := by
  have hframed : ∀ forHead, declaredFraming .reference forHead
      (noContentResponse.head []) = some .none := by decide +kernel
  exact ⟨rfl, [], ⟨⟨.empty, rfl⟩, by simp⟩, ⟨by decide +kernel, by decide +kernel⟩,
    ⟨by decide +kernel, by decide +kernel⟩, by decide +kernel, hframed _⟩

theorem answers_received_twice : ∃ N : Network, ∃ o, N.client.receipts = [o] ∧
    o.result = .ok ∧ SameResponse .reference o.response noContentResponse := by
  obtain ⟨N, hexec, run⟩ := run_of_execute (M := networkMachine smallServer 1 0 40)
    exchangingTwice smallNetwork_initial (by decide +kernel)
  have hview : ((networkMachine smallServer 1 0 40).execute smallNetwork exchangingTwice).map
      (fun r => (r.1.client.sent, r.1.client.receipts.length)) =
      some ([plainRequest, plainRequest], 1) := by decide +kernel
  rw [hexec] at hview
  obtain ⟨hsent, hreceipts⟩ := Prod.mk.inj (Option.some.inj hview)
  dsimp only at hsent hreceipts
  have hanswers : answersOf (slotLog 0 ((networkMachine smallServer 1 0 40).log smallNetwork
      exchangingTwice)) = List.replicate 2 (.handler, noContentResponse) := by decide +kernel
  have hreceived := answers_received run (List.all_eq_true.mp (by decide +kernel)) (by decide)
    (by
      intro a r hmem
      rw [hanswers] at hmem
      obtain ⟨rfl, rfl⟩ := Prod.mk.inj (List.eq_of_mem_replicate hmem)
      decide +kernel)
    (by
      intro r hr
      obtain rfl : r = plainRequest := by simpa [hsent] using hr
      exact plainRequest_sendable)
    (by
      intro k a r hx hown
      rw [hanswers] at hx
      obtain ⟨rfl, rfl⟩ := Prod.mk.inj (List.eq_of_mem_replicate (List.mem_of_getElem? hx))
      exact hsent ▸ noContentResponse_readable k)
  rw [hreceipts, hanswers] at hreceived
  obtain ⟨o, ho⟩ := List.length_eq_one_iff.mp hreceipts
  rw [ho] at hreceived
  cases hreceived with
  | cons h _ => exact ⟨N, o, ho, h⟩

end HttpC
