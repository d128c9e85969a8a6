import HttpC.RequestFraming
import HttpC.Library.Frames

/-!
# The requests of a byte stream

A stream of pipelined requests is read one request at offset `0`, then at
`headers_end + content_length`, and so on.

## Main results

* `Fed.firstRequest_eq` — a parser that is complete on some bytes holds their first request.
* `Fed.of_firstRequest` — fed a part of a stream, a parser waits for the first request or holds it.
* `feed_init_firstRequest` — a fresh parser is complete on exactly the bytes that have one.
-/

namespace HttpC

open Framing

variable (lib : CommonLib)

/-- What a request says, by content. -/
structure RequestContent where
  method : Bytes
  path : Bytes
  version : Bytes
  /-- The field lines, each with its CRLF. -/
  headers : Bytes
  body : Bytes
  deriving DecidableEq, Repr

def HttpRequest.content (r : HttpRequest) : RequestContent :=
  ⟨r.method.bytes, r.path.bytes, r.httpVersion.bytes, r.headers.block, r.body.bytes⟩

/-- The request whose head this is, in its stream. -/
def RequestHead.content (h : RequestHead) (stream : Bytes) : RequestContent :=
  ⟨h.method, h.path, h.version, h.block, (stream.drop h.length).take h.contentLength⟩

/-- The whole request at the start of a stream. -/
def firstRequest (stream : Bytes) : Option (Frame RequestContent) :=
  match headStatus lib stream with
  | .accepted h =>
    if h.length + h.contentLength ≤ stream.length then
      some ⟨h.content stream, h.length + h.contentLength⟩
    else none
  | _ => none

theorem firstRequest_eq_some {stream : Bytes} {f : Frame RequestContent} :
    firstRequest lib stream = some f ↔
      ∃ h, headStatus lib stream = .accepted h ∧ h.length + h.contentLength ≤ stream.length ∧
        f = ⟨h.content stream, h.length + h.contentLength⟩ := by
  unfold firstRequest
  cases hs : headStatus lib stream with
  | accepted h =>
    simp only [HeadStatus.accepted.injEq, exists_eq_left']
    split_ifs with hle
    · simp [hle, eq_comm]
    · simp [hle]
  | _ => simp

/-- The parser of one request. -/
def requestFrames : FrameParser UInt8 RequestContent where
  first := firstRequest lib
  length_pos h := by
    obtain ⟨h, hs, -, rfl⟩ := (firstRequest_eq_some lib).mp h
    have := (accepted_length_le lib hs).1
    dsimp only
    omega
  length_le h := by
    obtain ⟨h, -, hle, rfl⟩ := (firstRequest_eq_some lib).mp h
    exact hle
  stable h r := by
    obtain ⟨head, hs, hle, rfl⟩ := (firstRequest_eq_some lib).mp h
    refine (firstRequest_eq_some lib).mpr ⟨head, ?_, by rw [List.length_append]; omega, ?_⟩
    · rw [headStatus_append lib (by simp [hs]), hs]
    · rw [RequestHead.content, RequestHead.content, List.drop_append_of_le_length (by omega),
        List.take_append_of_le_length]
      rw [List.length_drop]
      omega

/-- The requests of a stream: parse one at offset `0`, advance by its length, repeat. -/
def sequentialParse (stream : Bytes) : List (Frame RequestContent) :=
  (requestFrames lib).frames stream

/-- Whole requests at the start of a stream, and what follows them. -/
def Consumed : Bytes → List (Frame RequestContent) → Bytes → Prop := (requestFrames lib).Consumed

/-- Every request of the stream, also one that is not complete, has a length below 2³². -/
def StreamFits (stream : Bytes) : Prop :=
  ∀ fs rest, Consumed lib stream fs rest → LengthFits lib rest

section

variable {lib}

/-- A head that lies in a prefix is read there. -/
theorem headStatus_of_append {s r : Bytes} {h : RequestHead}
    (hs : headStatus lib (s ++ r) = .accepted h) (hle : h.length ≤ s.length) :
    headStatus lib s = .accepted h := by
  obtain ⟨term, hf, hl, hp⟩ := (headStatus_accepted lib).mp hs
  have hT : headersTerminator.bytes.length = 4 := by decide
  refine (headStatus_accepted lib).mpr ⟨term, ListSearch.find?_of_append hf (by omega), hl, ?_⟩
  rwa [List.take_append_of_le_length hle] at hp

theorem LengthFits.of_append {s r : Bytes} (h : LengthFits lib (s ++ r)) : LengthFits lib s :=
  h.of_prefix lib (List.prefix_append s r)

theorem StreamFits.of_append {s r : Bytes} (h : StreamFits lib (s ++ r)) : StreamFits lib s :=
  fun fs rest hc => (h fs (rest ++ r) (FrameParser.Consumed.append_right hc r)).of_append

/-! ## Parsed requests -/

/-- The spans of a parsed head, by content. -/
theorem content_headRequest {s : Span} {h : RequestHead} (hs : headStatus lib s.bytes = .accepted h)
    (body : Span) :
    ({ headRequest lib (s.sub 0 h.length) h with body } : HttpRequest).content =
      ⟨h.method, h.path, h.version, h.block, body.bytes⟩ := by
  obtain ⟨term, hf, hl, hp⟩ := (headStatus_accepted lib).mp hs
  obtain ⟨rest, hsplit, hblock, -, -, -⟩ := (parse?_eq_some lib).mp hp
  set head := s.sub 0 h.length with hhead
  have hbytes : head.bytes = s.bytes.take h.length := by simp [hhead]
  have hT : headersTerminator.bytes.length = 4 := by decide
  have hlen := ListSearch.find?_length_le hf
  -- the head ends in the blank line
  have hend : s.bytes.take h.length = s.bytes.take term ++ (crlf.bytes ++ crlf.bytes) := by
    have hocc := (ListSearch.find?_eq_some.mp hf).1.2
    rw [headersTerminator_bytes] at hocc
    rw [hl, List.take_add, List.prefix_iff_eq_take.mp hocc]
    simp
  have hrest := rest_of_head hend hsplit
  rw [← hbytes] at hsplit
  have htail := bytes_tail_startLine hsplit
  have hfields := (@block_httpHeadersParse_head lib (head.tail
    (startLineLength h.method h.path h.version)) (by rwa [htail])).1
  rw [htail, ← hblock] at hfields
  obtain ⟨hmethod, hpath, hversion⟩ := bytes_startLine hsplit
  simp only [HttpRequest.content, headRequest, hmethod, hpath, hversion, hfields]

/-- A complete parser holds the first request of its bytes, unless its length wraps. -/
theorem Fed.firstRequest_eq {s : Span} {p : HttpRequestParser} (h : Fed lib s p)
    (hp : p.state = .complete) (hfits : LengthFits lib s.bytes) :
    firstRequest lib s.bytes = some ⟨p.request.content, httpRequestParserGetConsumed p⟩ := by
  cases h with
  | missing hs hfresh => rcases hfresh with rfl | rfl <;> simp at hp
  | refused hs herr => simp [herr] at hp
  | waiting hs hlt => simp [parserAfterHead] at hp
  | @complete h body hs hle hbody =>
    have hlt := hfits h hs
    rw [wrap32, Nat.mod_eq_of_lt hlt] at hle
    refine (firstRequest_eq_some lib).mpr ⟨h, hs, hle, ?_⟩
    have hbytes : body.bytes = (s.bytes.drop h.length).take h.contentLength := by
      rw [hbody hlt, bodySpan]
      split_ifs with hcl
      · rfl
      · simp [Nat.eq_zero_of_not_pos hcl]
    simp only [content_headRequest hs, hbytes, RequestHead.content, Frame.mk.injEq, true_and]
    exact Nat.mod_eq_of_lt hlt

/-- A parser that is complete stays so on more bytes. -/
theorem Fed.of_complete {s t : Span} {p : HttpRequestParser} (h : Fed lib s p)
    (hp : p.state = .complete) (hptr : s.ptr = t.ptr) (hbytes : s.bytes <+: t.bytes) :
    Fed lib t p := by
  have hfed := (feed_step h hptr hbytes).1
  rwa [show httpRequestParserFeed lib p t = (.ok, p) by simp [httpRequestParserFeed, hp]] at hfed

/-- A parser that is still waiting has seen no head, or less than it declares. -/
theorem Fed.firstRequest_waiting {s : Span} {p : HttpRequestParser} (h : Fed lib s p)
    (hp : p.state.result = .tryAgain) {f : Frame RequestContent} {r : Bytes}
    (hf : firstRequest lib (s.bytes ++ r) = some f) : s.size < f.length := by
  obtain ⟨head, hs, hle, rfl⟩ := (firstRequest_eq_some lib).mp hf
  by_contra hlt
  rw [Span.size] at hlt
  dsimp only at hlt
  have hseen := headStatus_of_append hs (by omega)
  cases h with
  | missing hmiss hfresh => simp [hseen] at hmiss
  | refused href herr => simp [hseen] at href
  | @waiting head' hs' hlt' =>
    rw [hseen] at hs'
    obtain rfl := HeadStatus.accepted.inj hs'
    have := Nat.mod_le (head.length + head.contentLength) (2 ^ 32)
    rw [wrap32, Span.size] at hlt'
    omega
  | complete hs' hle' hbody => simp [RequestParserState.result] at hp

/-- Fed a part of a stream, a parser holds the stream's first request once it is all there, and
waits for it until then. -/
theorem Fed.of_firstRequest {s : Span} {p : HttpRequestParser} (h : Fed lib s p)
    (hfits : LengthFits lib s.bytes) {f : Frame RequestContent} {r : Bytes}
    (hf : firstRequest lib (s.bytes ++ r) = some f) :
    (s.size < f.length → p.state.result = .tryAgain) ∧
    (f.length ≤ s.size → p.state = .complete ∧ p.request.content = f.content ∧
      httpRequestParserGetConsumed p = f.length) := by
  have hcomplete : p.state = .complete → f.length ≤ s.size ∧ p.request.content = f.content ∧
      httpRequestParserGetConsumed p = f.length := by
    intro hp
    have hone := h.firstRequest_eq hp hfits
    have hle := (requestFrames lib).length_le hone
    have hmore := (requestFrames lib).stable hone r
    obtain rfl := Option.some.inj (hmore.symm.trans hf)
    exact ⟨hle, rfl, rfl⟩
  have herror : p.state ≠ .error := by
    intro hp
    obtain ⟨head, hs, -, -⟩ := (firstRequest_eq_some lib).mp hf
    cases h with
    | missing hmiss hfresh => rcases hfresh with rfl | rfl <;> simp at hp
    | refused href _ =>
      rw [headStatus_append lib (by simp [href]), href] at hs
      cases hs
    | waiting hs' hlt => simp [parserAfterHead] at hp
    | complete hs' hle hbody => simp at hp
  constructor
  · intro hlt
    cases hstate : p.state with
    | complete => exact absurd (hcomplete hstate).1 (Nat.not_le.mpr hlt)
    | error => exact absurd hstate herror
    | requestLine | headers | body => rfl
  · intro hle
    have hp : p.state = .complete := by
      cases hstate : p.state with
      | complete => rfl
      | error => exact absurd hstate herror
      | requestLine | headers | body =>
        have hwaits : p.state.result = .tryAgain := by rw [hstate]; rfl
        exact absurd (h.firstRequest_waiting hwaits hf) (Nat.not_lt.mpr hle)
    exact ⟨hp, (hcomplete hp).2⟩

/-- A fresh parser is complete on exactly the bytes that have a first request. -/
theorem feed_init_firstRequest (s : Span) (hfits : LengthFits lib s.bytes) :
    ((httpRequestParserFeed lib httpRequestParserInit s).1 = .ok ↔
      (firstRequest lib s.bytes).isSome = true) := by
  obtain ⟨hfed, hres⟩ := @feed_of_fresh lib _ s fresh_init
  generalize (httpRequestParserFeed lib httpRequestParserInit s).2 = p at hfed hres
  rw [hres]
  constructor
  · intro hok
    have hp : p.state = .complete := by
      cases hstate : p.state <;> simp [hstate, RequestParserState.result] at hok ⊢
    rw [hfed.firstRequest_eq hp hfits]
    rfl
  · intro hsome
    obtain ⟨f, hf⟩ := Option.isSome_iff_exists.mp hsome
    have hle := (requestFrames lib).length_le hf
    rw [← List.append_nil s.bytes] at hf
    rw [((hfed.of_firstRequest hfits hf).2 hle).1]
    rfl

end

end HttpC
