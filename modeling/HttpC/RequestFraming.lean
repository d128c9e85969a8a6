import HttpC.RequestParser

/-!
# What an accepted request promises

The parser is fed growing prefixes of one buffer. `ok` should mean that the whole request
lies inside the bytes fed so far, and a head with a Transfer-Encoding should never get that
far. Both hold under an exact condition: the first unless `headers_end + content_length`
leaves 32 bits, the second unless the field escapes the lookup.

Feeding in pieces is no different from feeding at once, and a body is framed by one
Content-Length only where the copies of the field agree.

## Main results

* `feed_within_buffer_iff` — when `ok` means the request is inside the buffer.
* `feed_incremental` — growing feeds report what one feed of the last prefix does.
* `feed_refuses_transferEncoding_iff` — when a head with a Transfer-Encoding is refused.
* `feed_contentLength_iff` — when all Content-Length lines agree on the body.
-/

namespace HttpC

open ListSearch

variable (lib : CommonLib)

/-! ## Growing feeds -/

/-- Lengths of prefixes of `buffer`, each at least the one before. -/
structure GrowingPrefixes (buffer : Span) (ns : List Nat) : Prop where
  growing : ns.Pairwise (· ≤ ·)
  le_size : ∀ n ∈ ns, n ≤ buffer.size

instance (buffer : Span) (ns : List Nat) : Decidable (GrowingPrefixes buffer ns) :=
  decidable_of_iff (ns.Pairwise (· ≤ ·) ∧ ∀ n ∈ ns, n ≤ buffer.size)
    ⟨fun h => ⟨h.1, h.2⟩, fun h => ⟨h.growing, h.le_size⟩⟩

/-- The parser after the prefixes of the lengths `ns`, fed in order. -/
def parserAfterFeeds (buffer : Span) (ns : List Nat) : HttpRequestParser :=
  ns.foldl (fun p n => (httpRequestParserFeed lib p (buffer.sub 0 n)).2) httpRequestParserInit

/-- The feed of length `n` after those of the lengths `ns`. -/
def feedAfter (buffer : Span) (ns : List Nat) (n : Nat) : Result × HttpRequestParser :=
  httpRequestParserFeed lib (parserAfterFeeds lib buffer ns) (buffer.sub 0 n)

/-- After any growing feeds the parser has made of the last prefix what one feed would. -/
theorem feedAfter_fed {buffer : Span} {ns : List Nat} {n : Nat}
    (hg : GrowingPrefixes buffer (ns ++ [n])) :
    Fed lib (buffer.sub 0 n) (feedAfter lib buffer ns n).2 ∧
      (feedAfter lib buffer ns n).1 = (feedAfter lib buffer ns n).2.state.result := by
  induction ns using List.reverseRecOn generalizing n with
  | nil => exact feed_of_fresh fresh_init
  | append_singleton ns m ih =>
    obtain ⟨hpair, hle⟩ := hg
    obtain ⟨hms, -, hmn⟩ := List.pairwise_append.mp hpair
    have hm : m ≤ n := hmn m (by simp) n (by simp)
    obtain ⟨hfed, -⟩ := ih ⟨hms, fun k hk => hle k (List.mem_append_left _ hk)⟩
    have hlast : parserAfterFeeds lib buffer (ns ++ [m]) = (feedAfter lib buffer ns m).2 := by
      simp [parserAfterFeeds, feedAfter]
    rw [feedAfter, hlast]
    exact feed_step hfed rfl (by simpa using List.take_prefix_take_left hm)

/-! ## The request lies inside the buffer -/

/-- What `ok` should say about the parser and the bytes it was fed. -/
def WithinBuffer (p : HttpRequestParser) (buffer : Span) : Prop :=
  p.headersEnd + p.contentLength ≤ buffer.size ∧
  p.request.body.bytes = (buffer.sub p.headersEnd p.contentLength).bytes ∧
  (0 < p.contentLength → p.request.body.ptr = buffer.ptr + p.headersEnd) ∧
  httpRequestParserGetConsumed p = p.headersEnd + p.contentLength

instance (p : HttpRequestParser) (buffer : Span) : Decidable (WithinBuffer p buffer) :=
  inferInstanceAs (Decidable (_ ∧ _))

/-- The length of the whole request fits in 32 bits, if there is a head. -/
def LengthFits (bytes : Bytes) : Prop :=
  ∀ h, headStatus lib bytes = .accepted h → h.length + h.contentLength < 2 ^ 32

/-- `ok` means that the request lies inside the bytes fed, exactly when its length does not
wrap. -/
theorem feed_within_buffer_iff (buffer : Span) (hsize : buffer.size < 2 ^ 32) (ns : List Nat)
    (n : Nat) (hg : GrowingPrefixes buffer (ns ++ [n])) :
    ((feedAfter lib buffer ns n).1 = .ok →
      WithinBuffer (feedAfter lib buffer ns n).2 (buffer.sub 0 n)) ↔
    LengthFits lib (buffer.bytes.take n) := by
  obtain ⟨hfed, hres⟩ := feedAfter_fed lib hg
  have hpre : (buffer.sub 0 n).bytes = buffer.bytes.take n := by simp
  have hn : (buffer.sub 0 n).size ≤ buffer.size := by simp [Span.size]
  rw [hres, LengthFits, ← hpre]
  generalize (feedAfter lib buffer ns n).2 = p at hfed ⊢
  generalize buffer.sub 0 n = s at hfed hn ⊢
  cases hfed with
  | missing hs hp =>
    have hstate : p.state.result ≠ .ok := by
      rcases hp with rfl | rfl <;> decide
    simp [hs, hstate]
  | refused hs hp => simp [hs, hp, RequestParserState.result]
  | @waiting h hs hlt =>
    have hfits : h.length + h.contentLength < 2 ^ 32 := by
      by_contra hwrap
      have hlen := accepted_length_le lib hs
      have hcl := accepted_contentLength_lt lib hs
      rw [wrap32, Span.size] at hlt
      omega
    simpa [hs, parserAfterHead, RequestParserState.result] using hfits
  | @complete h body hs hle hbody =>
    rw [hs]
    simp only [parserAfterHead, RequestParserState.result, true_implies, HeadStatus.accepted.injEq,
      forall_eq']
    constructor
    · rintro ⟨hsum, -⟩
      simp only at hsum
      omega
    · intro hfits
      rw [wrap32, Nat.mod_eq_of_lt hfits] at hle
      refine ⟨hle, ?_, ?_, ?_⟩
      · simp only [hbody hfits, bodySpan]
        split_ifs with hcl
        · rfl
        · simp [Nat.eq_zero_of_not_pos hcl]
      · intro hcl
        simp only at hcl
        simp [hbody hfits, bodySpan, hcl]
      · exact Nat.mod_eq_of_lt hfits

/-- A request with a body of three bytes, fed in three parts. -/
theorem feed_within_buffer_post :
    let buffer : Span := ⟨1000, ascii "POST / HTTP/1.1\r\nContent-Length: 3\r\n\r\nabc"⟩
    buffer.size < 2 ^ 32 ∧ GrowingPrefixes buffer ([10, 39] ++ [41]) ∧
      (((feedAfter .reference buffer [10, 39] 41).1 = .ok →
          WithinBuffer (feedAfter .reference buffer [10, 39] 41).2 (buffer.sub 0 41)) ↔
        LengthFits .reference (buffer.bytes.take 41)) :=
  ⟨by decide, by decide, feed_within_buffer_iff _ _ (by decide) _ _ (by decide)⟩

/-- With a length that wraps, `ok` comes with the head alone. -/
theorem feed_not_within_buffer :
    ¬ ∀ (buffer : Span) (ns : List Nat) (n : Nat), buffer.size < 2 ^ 32 →
      GrowingPrefixes buffer (ns ++ [n]) → (feedAfter .reference buffer ns n).1 = .ok →
        WithinBuffer (feedAfter .reference buffer ns n).2 (buffer.sub 0 n) := by
  intro h
  have hbad := h ⟨1000, ascii "POST / HTTP/1.1\r\nContent-Length: 4294967295\r\n\r\n"⟩ [] 47
    (by decide) (by decide) (by decide +kernel)
  exact absurd hbad (by decide +kernel)

/-! ## Feeding in pieces and feeding at once -/

/-- Two feeds report the same: the result and, with `ok`, the request and how much of the
buffer it took. -/
def SameReport (r r' : Result × HttpRequestParser) : Prop :=
  r.1 = r'.1 ∧ (r.1 = .ok → r.2.request = r'.2.request ∧
    httpRequestParserGetConsumed r.2 = httpRequestParserGetConsumed r'.2)

theorem LengthFits.of_prefix {bytes : Bytes} (h : LengthFits lib bytes) {pre : Bytes}
    (hpre : pre <+: bytes) : LengthFits lib pre := by
  obtain ⟨rest, rfl⟩ := hpre
  intro head hs
  refine h head ?_
  rw [headStatus_append lib (by rw [hs]; simp), hs]

/-- The bytes fed last decide the state a parser is in, and the request of a complete one. -/
theorem Fed.agree {s : Span} {p q : HttpRequestParser} (hp : Fed lib s p) (hq : Fed lib s q)
    (hfit : LengthFits lib s.bytes) :
    p.state.result = q.state.result ∧ (p.state.result = .ok → p = q) := by
  have hmissing : ∀ {p : HttpRequestParser}, p.Fresh → p.state.result = .tryAgain := by
    rintro p (rfl | rfl) <;> rfl
  have hrefused : ∀ {p : HttpRequestParser}, p.state = .error → p.state.result = .error := by
    intro p hp
    rw [hp]
    rfl
  cases hp with
  | missing hs hp =>
    cases hq with
    | missing _ hq =>
      rw [hmissing hp, hmissing hq]
      exact ⟨rfl, fun h => by cases h⟩
    | refused hs' _ | waiting hs' _ | complete hs' _ _ => simp [hs] at hs'
  | refused hs hp =>
    cases hq with
    | refused _ hq =>
      rw [hrefused hp, hrefused hq]
      exact ⟨rfl, fun h => by cases h⟩
    | missing hs' _ | waiting hs' _ | complete hs' _ _ => simp [hs] at hs'
  | @waiting h hs hlt =>
    cases hq with
    | waiting hs' _ => exact ⟨rfl, fun h => by cases h⟩
    | missing hs' _ | refused hs' _ => simp [hs] at hs'
    | complete hs' hle _ =>
      obtain rfl := HeadStatus.accepted.inj (hs.symm.trans hs')
      omega
  | @complete h body hs hle hbody =>
    cases hq with
    | missing hs' _ | refused hs' _ => simp [hs] at hs'
    | waiting hs' hlt =>
      obtain rfl := HeadStatus.accepted.inj (hs.symm.trans hs')
      omega
    | complete hs' _ hbody' =>
      obtain rfl := HeadStatus.accepted.inj (hs.symm.trans hs')
      refine ⟨rfl, fun _ => ?_⟩
      rw [hbody (hfit h hs), hbody' (hfit h hs)]

theorem feed_settled {p : HttpRequestParser} {s : Span} (h : p.state.result ≠ .tryAgain) :
    httpRequestParserFeed lib p s = (p.state.result, p) := by
  cases hstate : p.state with
  | complete | error => simp [httpRequestParserFeed, hstate, RequestParserState.result]
  | requestLine | headers | body => simp [hstate, RequestParserState.result] at h

/-- A parser that said `ok` or `error` does not change any more. -/
theorem feedAfter_settled {buffer : Span} {ns : List Nat} {n : Nat}
    (hg : GrowingPrefixes buffer (ns ++ [n]))
    (hsettled : (feedAfter lib buffer ns n).1 ≠ .tryAgain) (ms : List Nat) (m : Nat) :
    feedAfter lib buffer (ns ++ [n] ++ ms) m = feedAfter lib buffer ns n := by
  obtain ⟨-, hres⟩ := feedAfter_fed lib hg
  have hlast : parserAfterFeeds lib buffer (ns ++ [n]) = (feedAfter lib buffer ns n).2 := by
    simp [parserAfterFeeds, feedAfter]
  have hkept : parserAfterFeeds lib buffer (ns ++ [n] ++ ms) = (feedAfter lib buffer ns n).2 := by
    induction ms using List.reverseRecOn with
    | nil => rw [List.append_nil, hlast]
    | append_singleton ms k ih =>
      have hstep : parserAfterFeeds lib buffer (ns ++ [n] ++ (ms ++ [k])) =
          (httpRequestParserFeed lib (parserAfterFeeds lib buffer (ns ++ [n] ++ ms))
            (buffer.sub 0 k)).2 := by
        simp [parserAfterFeeds]
      rw [hstep, ih, feed_settled lib (hres ▸ hsettled)]
  rw [feedAfter, hkept, feed_settled lib (hres ▸ hsettled), ← hres]

/-- Growing feeds report what a fresh parser reports on the last prefix, and what has become
`ok` or an error stays so. -/
theorem feed_incremental (buffer : Span) (ns : List Nat) (n : Nat)
    (hg : GrowingPrefixes buffer (ns ++ [n])) (hfit : LengthFits lib buffer.bytes) :
    SameReport (feedAfter lib buffer ns n)
      (httpRequestParserFeed lib httpRequestParserInit (buffer.sub 0 n)) ∧
    ((feedAfter lib buffer ns n).1 ≠ .tryAgain → ∀ ms m,
      GrowingPrefixes buffer (ns ++ [n] ++ ms ++ [m]) →
        SameReport (feedAfter lib buffer (ns ++ [n] ++ ms) m) (feedAfter lib buffer ns n) ∧
        SameReport (httpRequestParserFeed lib httpRequestParserInit (buffer.sub 0 m))
          (httpRequestParserFeed lib httpRequestParserInit (buffer.sub 0 n))) := by
  -- one feed is the case of no feeds before it
  have hagree : ∀ ms m, GrowingPrefixes buffer (ms ++ [m]) →
      SameReport (feedAfter lib buffer ms m) (feedAfter lib buffer [] m) := by
    intro ms m hg
    obtain ⟨hfed, hres⟩ := feedAfter_fed lib hg
    have hg' : GrowingPrefixes buffer ([] ++ [m]) :=
      ⟨by simp, fun k hk => hg.le_size k (by simp_all)⟩
    obtain ⟨hfed', hres'⟩ := feedAfter_fed lib hg'
    have hpre : (buffer.sub 0 m).bytes <+: buffer.bytes := by simpa using List.take_prefix m _
    obtain ⟨hsame, heq⟩ := hfed.agree lib hfed' (hfit.of_prefix lib hpre)
    refine ⟨by rw [hres, hres', hsame], fun hok => ?_⟩
    rw [heq (hres ▸ hok)]
    exact ⟨rfl, rfl⟩
  refine ⟨hagree ns n hg, fun hsettled ms m hms => ?_⟩
  have hkept := feedAfter_settled lib hg hsettled ms m
  refine ⟨by rw [hkept]; exact ⟨rfl, fun _ => ⟨rfl, rfl⟩⟩, ?_⟩
  obtain ⟨h1, h1'⟩ := hagree _ m hms
  obtain ⟨h2, h2'⟩ := hagree ns n hg
  rw [hkept] at h1 h1'
  refine ⟨h1.symm.trans h2, fun hok => ?_⟩
  obtain ⟨hr, hc⟩ := h1' (h1.trans hok)
  obtain ⟨hr', hc'⟩ := h2' (h1.trans hok)
  exact ⟨hr.symm.trans hr', hc.symm.trans hc'⟩

/-- A request with a body, cut inside the start line, a CRLF, the blank line and the body. -/
theorem feed_incremental_post :
    let buffer : Span := ⟨1000, ascii "POST / HTTP/1.1\r\nContent-Length: 3\r\n\r\nabc"⟩
    GrowingPrefixes buffer ([3, 16, 37, 40] ++ [41]) ∧ LengthFits .reference buffer.bytes ∧
      SameReport (feedAfter .reference buffer [3, 16, 37, 40] 41)
        (httpRequestParserFeed .reference httpRequestParserInit (buffer.sub 0 41)) := by
  intro buffer
  have hgrow : GrowingPrefixes buffer ([3, 16, 37, 40] ++ [41]) := by decide
  have hfit : LengthFits .reference buffer.bytes := by
    intro h hs
    have hhead : headStatus .reference buffer.bytes = .accepted ⟨ascii "POST", ascii "/",
        ascii "HTTP/1.1", ascii "Content-Length: 3\r\n", 38, 3⟩ := by decide +kernel
    obtain rfl := HeadStatus.accepted.inj (hhead.symm.trans hs)
    decide
  exact ⟨hgrow, hfit, (feed_incremental _ buffer _ _ hgrow hfit).1⟩

/-! ## A head with a Transfer-Encoding -/

/-- The head of a buffer: up to the first blank line, or everything. -/
def headBytes (buffer : Bytes) : Bytes :=
  match find? headersTerminator.bytes buffer with
  | none => buffer
  | some term => buffer.take (term + 4)

/-- A field line called `name`, up to letter case and blanks before the colon. -/
def SpellsName (name line : Bytes) : Prop :=
  ∃ n b v, line = n ++ (b ++ (headerNameTerminator.bytes ++ v)) ∧ lower n = lower name ∧
    ∀ x ∈ b, isBlank x = true

/-- A field line called Transfer-Encoding stands somewhere below the first line. -/
def HasTransferEncoding (buffer : Bytes) : Prop :=
  ∃ line ∈ (fieldLines (headBytes buffer)).tail,
    SpellsName HTTP_HEADER_TRANSFER_ENCODING.bytes line

/-- No feed says `ok`, and with the blank line the parser is in the error state. -/
def AlwaysRefused (buffer : Span) : Prop :=
  ∀ ns n, GrowingPrefixes buffer (ns ++ [n]) →
    (feedAfter lib buffer ns n).1 ≠ .ok ∧
      (headersTerminator.bytes <:+: buffer.bytes.take n →
        (feedAfter lib buffer ns n).2.state = .error)

/-- Why `parse_head` refuses a complete head: no start line of three tokens, a line below it
called Transfer-Encoding with the colon right after the name, or a bad Content-Length. -/
def RefusalCause (buffer : Bytes) : Prop :=
  ∀ term, find? headersTerminator.bytes buffer = some term →
    ∀ method path version rest,
      splitStartLine (buffer.take (term + 4)) = some (method, path, version, rest) →
        (∃ line ∈ fieldLines (headBlock rest), ∃ n v,
          cut? headerNameTerminator.bytes line = some (n, v) ∧
            lower n = lower HTTP_HEADER_TRANSFER_ENCODING.bytes) ∨
        declaredLength lib (fieldLines (headBlock rest)) = none

theorem fieldValue_ne_none {name line : Bytes} :
    fieldValue name line ≠ none ↔
      ∃ n v, cut? headerNameTerminator.bytes line = some (n, v) ∧ lower n = lower name := by
  unfold fieldValue
  cases cut? headerNameTerminator.bytes line with
  | none => simp
  | some c =>
    obtain ⟨n, v⟩ := c
    simp

/-- The causes of refusal are all there is besides acceptance. -/
theorem refusalCause_iff {buffer : Bytes} :
    RefusalCause lib buffer ↔ ∀ h, headStatus lib buffer ≠ .accepted h := by
  constructor
  · intro hc h hs
    obtain ⟨term, hf, hl, hp⟩ := (headStatus_accepted lib).mp hs
    obtain ⟨rest, hsplit, hb, -, hte, hcl⟩ := (parse?_eq_some lib).mp hp
    rw [hl] at hsplit
    rw [RequestHead.fields, hb] at hte hcl
    rcases hc term hf _ _ _ _ hsplit with ⟨line, hline, hname⟩ | hnone
    · exact fieldValue_ne_none.mpr hname (lookup_eq_none.mp hte line hline)
    · rw [hnone] at hcl
      cases hcl
  · intro hno term hf method path version rest hsplit
    by_contra hcon
    obtain ⟨hname, hdecl⟩ := not_or.mp hcon
    obtain ⟨n, hn⟩ := Option.ne_none_iff_exists'.mp hdecl
    have hte : lookup (fieldLines (headBlock rest)) HTTP_HEADER_TRANSFER_ENCODING.bytes = none := by
      refine lookup_eq_none.mpr fun line hline => ?_
      by_contra hv
      exact hname ⟨line, hline, fieldValue_ne_none.mp hv⟩
    have hlen := find?_length_le hf
    have hT : headersTerminator.bytes.length = 4 := by decide
    have hl : (buffer.take (term + 4)).length = term + 4 := by
      rw [List.length_take]
      omega
    refine hno ⟨method, path, version, headBlock rest, term + 4, n⟩
      ((headStatus_accepted lib).mpr ⟨term, hf, rfl, (parse?_eq_some lib).mpr ?_⟩)
    exact ⟨rest, hsplit, rfl, hl.symm, hte, hn⟩

/-- Growing feeds refuse a buffer exactly when its head is not accepted. -/
theorem alwaysRefused_iff {buffer : Span} :
    AlwaysRefused lib buffer ↔ ∀ h, headStatus lib buffer.bytes ≠ .accepted h := by
  constructor
  · intro hr h hs
    obtain ⟨term, hf, -, -⟩ := (headStatus_accepted lib).mp hs
    have hg : GrowingPrefixes buffer ([] ++ [buffer.size]) := ⟨by simp, by simp⟩
    have hall : (buffer.sub 0 buffer.size).bytes = buffer.bytes := by simp [Span.size]
    have hblank : headersTerminator.bytes <:+: buffer.bytes.take buffer.size := by
      rw [Span.size, List.take_length]
      exact infix_iff_occursAt.mpr ⟨term, (find?_eq_some.mp hf).1⟩
    have herr := (hr [] buffer.size hg).2 hblank
    obtain ⟨hfed, -⟩ := feedAfter_fed lib hg
    rw [← hall] at hs
    generalize (feedAfter lib buffer [] buffer.size).2 = p at hfed herr
    cases hfed with
    | missing hs' hp =>
      rw [hs'] at hs
      cases hs
    | refused hs' hp =>
      rw [hs'] at hs
      cases hs
    | waiting hs' hlt => simp [parserAfterHead] at herr
    | complete hs' hle hbody => simp at herr
  · intro hno ns n hg
    obtain ⟨hfed, hres⟩ := feedAfter_fed lib hg
    rw [hres]
    -- an accepted prefix makes an accepted buffer
    have hpre : ∀ h, headStatus lib (buffer.sub 0 n).bytes ≠ .accepted h := by
      intro h hs
      refine hno h ((headStatus_of_extends ?_ (by rw [hs]; simp)).trans hs)
      simpa using List.take_prefix n buffer.bytes
    have hblank : headersTerminator.bytes <:+: buffer.bytes.take n →
        headStatus lib (buffer.sub 0 n).bytes ≠ .missing := by
      intro hin hs
      obtain ⟨i, hi⟩ := infix_iff_occursAt.mp hin
      refine find?_eq_none.mp ((headStatus_missing lib).mp hs) i ?_
      simpa using hi
    generalize (feedAfter lib buffer ns n).2 = p at hfed ⊢
    cases hfed with
    | missing hs hp =>
      refine ⟨?_, fun hin => absurd hs (hblank hin)⟩
      rcases hp with rfl | rfl <;> decide
    | refused hs hp => exact ⟨by simp [hp, RequestParserState.result], fun _ => hp⟩
    | waiting hs hlt => exact absurd hs (hpre _)
    | complete hs hle hbody => exact absurd hs (hpre _)

/-- A buffer, with a Transfer-Encoding in its head or without, is refused by every growing sequence
of feeds exactly when `parse_head` has a cause to refuse its head. -/
theorem feed_refuses_transferEncoding_iff (buffer : Span) :
    AlwaysRefused lib buffer ↔ RefusalCause lib buffer.bytes :=
  (alwaysRefused_iff lib).trans (refusalCause_iff lib).symm

/-- A lowercase spelling among the field lines. -/
theorem feed_refuses_transferEncoding_lowercase :
    let buffer : Span :=
      ⟨1000, ascii "GET / HTTP/1.1\r\nHost: a\r\ntransfer-encoding: chunked\r\n\r\n"⟩
    HasTransferEncoding buffer.bytes ∧ AlwaysRefused .reference buffer := by
  intro buffer
  have hfield : HasTransferEncoding buffer.bytes :=
    ⟨ascii "transfer-encoding: chunked", by decide, ascii "transfer-encoding", [],
      ascii " chunked", by decide +kernel, by decide +kernel, by decide +kernel⟩
  refine ⟨hfield, (feed_refuses_transferEncoding_iff _ buffer).mpr ?_⟩
  intro term hterm method path version rest hsplit
  have hat : find? headersTerminator.bytes buffer.bytes = some 51 := by decide +kernel
  obtain rfl := Option.some.inj (hat.symm.trans hterm)
  have hstart : splitStartLine (buffer.bytes.take 55) = some (ascii "GET", ascii "/",
      ascii "HTTP/1.1", ascii "Host: a\r\ntransfer-encoding: chunked\r\n\r\n") := by
    decide +kernel
  obtain ⟨-, -, -, rfl⟩ : _ ∧ _ ∧ _ ∧ _ = rest := by
    simpa only [Option.some.injEq, Prod.mk.injEq] using hstart.symm.trans hsplit
  exact .inl ⟨ascii "transfer-encoding: chunked", by decide +kernel, ascii "transfer-encoding",
    ascii " chunked", by decide +kernel, by decide +kernel⟩

/-- A blank before the colon hides the field from the lookup. -/
theorem feed_accepts_transferEncoding_blank :
    ¬ ∀ buffer : Span, HasTransferEncoding buffer.bytes → AlwaysRefused .reference buffer := by
  intro h
  have hbad := h ⟨1000, ascii "GET / HTTP/1.1\r\nTransfer-Encoding : chunked\r\n\r\n"⟩
    ⟨ascii "Transfer-Encoding : chunked", by decide, ascii "Transfer-Encoding", [32],
      ascii " chunked", by decide +kernel, by decide +kernel, by decide +kernel⟩ [] 47 (by decide)
  exact hbad.1 (by decide)

/-! ## Copies of Content-Length -/

/-- The values of the Content-Length lines of a head, below its first line. -/
def contentLengths (buffer : Bytes) : List Bytes :=
  (fieldLines (headBytes buffer)).tail.filterMap (fieldValue HTTP_HEADER_CONTENT_LENGTH.bytes)

/-- What a feed should say about a buffer, however many Content-Length lines its head has:
`ok` only when each gives the length of the body, an error when two give different numbers. -/
def FramedAlike (r : Result × HttpRequestParser) (buffer : Bytes) : Prop :=
  (r.1 = .ok → ∀ value ∈ contentLengths buffer,
    lib.spanToUInt32 ⟨0, value⟩ = some r.2.contentLength) ∧
  (headersTerminator.bytes <:+: buffer →
    (∃ v ∈ contentLengths buffer, ∃ w ∈ contentLengths buffer,
      lib.spanToUInt32 ⟨0, v⟩ ≠ lib.spanToUInt32 ⟨0, w⟩) → r.1 = .error)

/-- Those of the lines behind the start line, which takes its tokens where it finds them and may be
spread over several lines. -/
def lengthsBehindStart (buffer : Bytes) : List Bytes :=
  match splitStartLine (headBytes buffer) with
  | none => []
  | some (_, _, _, rest) =>
    (fieldLines rest).filterMap (fieldValue HTTP_HEADER_CONTENT_LENGTH.bytes)

/-- There is a cause to refuse the head, or all copies give one number, and one of them stands
behind the start line unless that number is zero. -/
def CopiesAgree (buffer : Bytes) : Prop :=
  RefusalCause lib buffer ∨
    ∃ n, (∀ value ∈ contentLengths buffer, lib.spanToUInt32 ⟨0, value⟩ = some n) ∧
      (n = 0 ∨ lengthsBehindStart buffer ≠ [])

/-- Behind the start line stand the field lines that the parser sees, and the blank line. -/
theorem splitStartLine_headBytes {buffer : Bytes} {h : RequestHead}
    (hs : headStatus lib buffer = .accepted h) :
    ∃ rest, splitStartLine (headBytes buffer) = some (h.method, h.path, h.version, rest) ∧
      (fieldLines rest = h.fields ∨ fieldLines rest = h.fields ++ [[]]) := by
  obtain ⟨term, hf, hl, hp⟩ := (headStatus_accepted lib).mp hs
  obtain ⟨rest, hsplit, hblock, -, -, -⟩ := (parse?_eq_some lib).mp hp
  have hhead : headBytes buffer = buffer.take h.length := by rw [headBytes, hf, hl]
  have hocc := (find?_eq_some.mp hf).1.2
  have hend : buffer.take h.length = buffer.take term ++ (crlf.bytes ++ crlf.bytes) := by
    rw [headersTerminator_bytes] at hocc
    rw [hl, List.take_add, List.prefix_iff_eq_take.mp hocc]
    simp
  refine ⟨rest, by rw [hhead, hsplit], ?_⟩
  rw [RequestHead.fields, hblock]
  rcases rest_of_head hend hsplit with rfl | ⟨x, rfl⟩
  · exact .inl (by decide)
  · refine .inr ?_
    have hmax : max 2 ((x ++ (crlf.bytes ++ crlf.bytes)).length - 2) =
        (x ++ crlf.bytes).length := by simp
    rw [fieldLines_append_crlf, fieldLines_crlf, headBlock, hmax, ← List.append_assoc,
      List.take_left]

/-- The field lines that the parser sees are lines below the first. -/
theorem fields_subset_headLines {buffer : Bytes} {h : RequestHead}
    (hs : headStatus lib buffer = .accepted h) :
    ∀ line ∈ h.fields, line ∈ (fieldLines (headBytes buffer)).tail := by
  obtain ⟨rest, hsplit, hkept⟩ := splitStartLine_headBytes lib hs
  have hlines := fieldLines_append_crlf (h.method ++ (space.bytes ++ (h.path ++ (space.bytes ++
    h.version)))) rest
  have hbytes := splitStartLine_bytes hsplit
  simp only [List.append_assoc] at hlines
  rw [← hbytes] at hlines
  have hne : fieldLines (h.method ++ (space.bytes ++ (h.path ++ (space.bytes ++
      (h.version ++ crlf.bytes))))) ≠ [] := fieldLines_ne_nil (by simp)
  intro line hline
  rw [hlines, List.tail_append_of_ne_nil hne]
  refine List.mem_append_right _ ?_
  rcases hkept with hkept | hkept <;> rw [hkept]
  · exact hline
  · exact List.mem_append_left _ hline

/-- The copies behind the start line are those that the parser sees. -/
theorem lengthsBehindStart_eq {buffer : Bytes} {h : RequestHead}
    (hs : headStatus lib buffer = .accepted h) :
    lengthsBehindStart buffer =
      h.fields.filterMap (fieldValue HTTP_HEADER_CONTENT_LENGTH.bytes) := by
  obtain ⟨rest, hsplit, hkept⟩ := splitStartLine_headBytes lib hs
  have hblank : fieldValue HTTP_HEADER_CONTENT_LENGTH.bytes [] = none := by decide
  rw [lengthsBehindStart, hsplit]
  dsimp only
  rcases hkept with hkept | hkept <;> rw [hkept]
  simp [hblank]

/-- In an acceptable head the copies agree if each gives the length that the parser takes. -/
theorem copiesAgree_iff {buffer : Bytes} {h : RequestHead}
    (hs : headStatus lib buffer = .accepted h) :
    CopiesAgree lib buffer ↔ ∀ value ∈ contentLengths buffer,
      lib.spanToUInt32 ⟨0, value⟩ = some h.contentLength := by
  obtain ⟨-, -, -, hp⟩ := (headStatus_accepted lib).mp hs
  obtain ⟨-, -, -, -, -, hcl⟩ := (parse?_eq_some lib).mp hp
  have hcause : ¬ RefusalCause lib buffer := fun hc => (refusalCause_iff lib).mp hc h hs
  have hfirst : lookup h.fields HTTP_HEADER_CONTENT_LENGTH.bytes =
      (lengthsBehindStart buffer).head? := by
    rw [lengthsBehindStart_eq lib hs, List.head?_filterMap, lookup]
  rw [declaredLength, hfirst] at hcl
  rw [CopiesAgree, or_iff_right hcause]
  cases hbehind : lengthsBehindStart buffer with
  | nil =>
    rw [hbehind] at hcl
    obtain hzero : 0 = h.contentLength := Option.some.inj hcl
    simp [← hzero]
  | cons first others =>
    rw [hbehind] at hcl
    -- the first copy behind the start line is the one that counts
    have hmem : first ∈ contentLengths buffer := by
      have hbelow : first ∈ lengthsBehindStart buffer := by simp [hbehind]
      rw [lengthsBehindStart_eq lib hs, List.mem_filterMap] at hbelow
      obtain ⟨line, hline, hvalue⟩ := hbelow
      exact List.mem_filterMap.mpr ⟨line, fields_subset_headLines lib hs line hline, hvalue⟩
    constructor
    · rintro ⟨n, hall, -⟩
      obtain rfl : n = h.contentLength := Option.some.inj ((hall first hmem).symm.trans hcl)
      exact hall
    · exact fun hall => ⟨_, hall, .inr (List.cons_ne_nil _ _)⟩

/-- A head that is not accepted frames nothing. -/
theorem copiesAgree_of_refused {buffer : Bytes} (h : ∀ h, headStatus lib buffer ≠ .accepted h) :
    CopiesAgree lib buffer :=
  .inl ((refusalCause_iff lib).mpr h)

/-- Of a head that declares a body the parser has seen a Content-Length line. -/
theorem declared_mem_contentLengths {buffer : Bytes} {h : RequestHead}
    (hs : headStatus lib buffer = .accepted h) (hpos : 0 < h.contentLength) :
    ∃ value ∈ contentLengths buffer, lib.spanToUInt32 ⟨0, value⟩ = some h.contentLength := by
  obtain ⟨-, -, -, hp⟩ := (headStatus_accepted lib).mp hs
  obtain ⟨-, -, -, -, -, hcl⟩ := (parse?_eq_some lib).mp hp
  unfold declaredLength at hcl
  split at hcl
  · have hzero := Option.some.inj hcl
    omega
  · next value hlookup =>
    obtain ⟨line, hline, hvalue⟩ := List.exists_of_findSome?_eq_some hlookup
    exact ⟨value, List.mem_filterMap.mpr ⟨line, fields_subset_headLines lib hs line hline, hvalue⟩,
      hcl⟩

/-- Content-Length frames a buffer in one way exactly when the copies of the field in an
acceptable head agree. -/
theorem feed_contentLength_iff (buffer : Span) (ns : List Nat) (n : Nat)
    (hg : GrowingPrefixes buffer (ns ++ [n])) :
    FramedAlike lib (feedAfter lib buffer ns n) (buffer.bytes.take n) ↔
      CopiesAgree lib (buffer.bytes.take n) := by
  obtain ⟨hfed, hres⟩ := feedAfter_fed lib hg
  have hpre : (buffer.sub 0 n).bytes = buffer.bytes.take n := by simp
  rw [FramedAlike, hres, ← hpre]
  generalize (feedAfter lib buffer ns n).2 = p at hfed ⊢
  generalize buffer.sub 0 n = s at hfed ⊢
  have hblank : headersTerminator.bytes <:+: s.bytes → headStatus lib s.bytes ≠ .missing := by
    intro hin hs
    obtain ⟨i, hi⟩ := infix_iff_occursAt.mp hin
    exact find?_eq_none.mp ((headStatus_missing lib).mp hs) i hi
  cases hfed with
  | missing hs hp =>
    have hstate : p.state.result ≠ .ok := by rcases hp with rfl | rfl <;> decide
    refine iff_of_true ⟨fun hok => absurd hok hstate, fun hin => absurd hs (hblank hin)⟩ ?_
    exact copiesAgree_of_refused lib (by simp [hs])
  | refused hs hp =>
    refine iff_of_true ?_ (copiesAgree_of_refused lib (by simp [hs]))
    simp [hp, RequestParserState.result]
  | @waiting h hs hlt =>
    rw [copiesAgree_iff lib hs]
    have hlen := accepted_length_le lib hs
    have hpos : 0 < h.contentLength := by
      have hle := Nat.mod_le (h.length + h.contentLength) (2 ^ 32)
      rw [wrap32, Span.size] at hlt
      omega
    obtain ⟨v, hv, hcl⟩ := declared_mem_contentLengths lib hs hpos
    have hin : headersTerminator.bytes <:+: s.bytes := by
      obtain ⟨term, hf, -, -⟩ := (headStatus_accepted lib).mp hs
      exact infix_iff_occursAt.mpr ⟨term, (find?_eq_some.mp hf).1⟩
    simp only [parserAfterHead, RequestParserState.result, reduceCtorEq, false_implies, true_and,
      hin, true_implies, imp_false]
    constructor
    · intro hno w hw
      by_contra hne
      exact hno ⟨v, hv, w, hw, fun heq => hne (heq.symm.trans hcl)⟩
    · rintro hall ⟨v, hv, w, hw, hne⟩
      exact hne ((hall v hv).trans (hall w hw).symm)
  | @complete h body hs hle hbody =>
    rw [copiesAgree_iff lib hs]
    simp only [parserAfterHead, RequestParserState.result, true_implies, reduceCtorEq, imp_false]
    constructor
    · exact fun h => h.1
    · rintro hall
      refine ⟨hall, fun _ => ?_⟩
      rintro ⟨v, hv, w, hw, hne⟩
      exact hne ((hall v hv).trans (hall w hw).symm)

/-- Two copies with the same number, in two letter cases. -/
theorem feed_contentLength_copies :
    let buffer : Span :=
      ⟨1000, ascii "POST / HTTP/1.1\r\nContent-Length: 3\r\ncontent-length: 03\r\n\r\nabc"⟩
    GrowingPrefixes buffer ([20] ++ [61]) ∧
      FramedAlike .reference (feedAfter .reference buffer [20] 61) (buffer.bytes.take 61) := by
  intro buffer
  have hgrow : GrowingPrefixes buffer ([20] ++ [61]) := by decide
  refine ⟨hgrow, (feed_contentLength_iff _ buffer _ _ hgrow).mpr (.inr ⟨3, ?_, .inr ?_⟩)⟩
  · decide +kernel
  · decide +kernel

/-- A second copy with another number is not looked at. -/
theorem feed_accepts_two_contentLengths :
    ¬ ∀ (buffer : Span) (ns : List Nat) (n : Nat), GrowingPrefixes buffer (ns ++ [n]) →
      FramedAlike .reference (feedAfter .reference buffer ns n) (buffer.bytes.take n) := by
  intro h
  have hbad := h
    ⟨1000, ascii "POST / HTTP/1.1\r\nContent-Length: 3\r\nContent-Length: 5\r\n\r\nabc"⟩
    [] 60 (by decide)
  have hok : (feedAfter .reference
      ⟨1000, ascii "POST / HTTP/1.1\r\nContent-Length: 3\r\nContent-Length: 5\r\n\r\nabc"⟩
      [] 60).1 = .ok := by
    decide +kernel
  exact absurd (hbad.1 hok (ascii "5") (by decide +kernel)) (by decide +kernel)

end HttpC
