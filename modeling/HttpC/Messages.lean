import HttpC.Headers

/-!
# Requests and responses

`http_request.c` and `http_response.c`. Both messages have a start line of three tokens,
a header block and a body; the two parsers split the start line the same way, at a space,
a space and a CRLF, and look for the blank line in what is left.

## Main results

* `spanSplit_startLine` — the three splits of a start line, by offset.
* `httpRequestParse_eq`, `httpResponseParse_eq` — what the parsers return on a start line.
-/

namespace HttpC

open ListSearch

/-! ## The model -/

/-- `http_request_t`. -/
structure HttpRequest where
  method : Span
  path : Span
  httpVersion : Span
  headers : HttpHeaders
  body : Span
  deriving DecidableEq, Repr

/-- `memset(request, 0, ...)`. -/
def HttpRequest.zero : HttpRequest := ⟨.empty, .empty, .empty, httpHeadersInit .empty, .empty⟩

/-- `http_response_t`. The function pointers are identities; `none` is `NULL`. -/
structure HttpResponse where
  httpVersion : Span
  code : Span
  reasonPhrase : Span
  headers : HttpHeaders
  body : Span
  bodyProvider : Option Nat
  bodyFinalizer : Option Nat
  bodyProviderContext : Nat
  deriving DecidableEq, Repr

def HttpResponse.zero : HttpResponse :=
  ⟨.empty, .empty, .empty, httpHeadersInit .empty, .empty, none, none, 0⟩

def httpRequestInitialize (request : HttpRequest) (method path httpVersion : Span)
    (headers : HttpHeaders) : Result × HttpRequest :=
  if method.isEmpty ∨ path.isEmpty ∨ httpVersion.isEmpty then (.invalidArgument, request)
  else (.ok, ⟨method, path, httpVersion, headers, .empty⟩)

variable (lib : CommonLib)

/-- The tail shared by both parsers: the header part and the body of what follows the start
line. Without a blank line everything is header. -/
def splitHeadersAndBody (raw : Span) : Span × Span :=
  match lib.spanFind raw headersTerminator with
  | none => (raw, .empty)
  | some (term, bodyPart) => (lib.spanSlice raw 0 (term + crlf.size), bodyPart)

def httpRequestParse (request : HttpRequest) (raw : Span) : Result × HttpRequest :=
  let request := { request with body := .empty }
  match lib.spanSplit raw space with
  | none => (.error, request)
  | some (method, raw) =>
    let request := { request with method }
    match lib.spanSplit raw space with
    | none => (.error, request)
    | some (path, raw) =>
      let request := { request with path }
      match lib.spanSplit raw crlf with
      | none => (.error, request)
      | some (httpVersion, raw) =>
        let parts := splitHeadersAndBody lib raw
        (.ok, { request with
          httpVersion, headers := httpHeadersParse lib parts.1, body := parts.2 })

def httpResponseParse (response : HttpResponse) (raw : Span) : Result × HttpResponse :=
  if raw.isEmpty then (.invalidArgument, response)
  else
    let response := { response with body := .empty }
    match lib.spanSplit raw space with
    | none => (.error, response)
    | some (httpVersion, raw) =>
      let response := { response with httpVersion }
      match lib.spanSplit raw space with
      | none => (.error, response)
      | some (code, raw) =>
        let response := { response with code }
        match lib.spanSplit raw crlf with
        | none => (.error, response)
        | some (reasonPhrase, raw) =>
          let parts := splitHeadersAndBody lib raw
          (.ok, { response with
            reasonPhrase, headers := httpHeadersParse lib parts.1, body := parts.2 })

/-- A chain of stream writes: the first that fails ends it with `error`. -/
def writeChain {σ : Type} : List (σ → Result × σ) → σ → Result × σ
  | [], stream => (.ok, stream)
  | step :: steps, stream =>
    let (result, stream) := step stream
    if lib.failed result then (.error, stream) else writeChain steps stream

def httpRequestSerializeTo {σ : Type} (request : HttpRequest) (write : σ → Span → Result × σ)
    (stream : σ) : Result × σ :=
  writeChain lib
    [(write · request.method), (write · space), (write · request.path), (write · space),
      (write · request.httpVersion), (write · crlf),
      httpHeadersSerializeTo lib request.headers write, (write · crlf),
      fun st => if request.body.isEmpty then (.ok, st) else write st request.body] stream

def httpResponseSerializeTo {σ : Type} (response : HttpResponse)
    (write : σ → Span → Result × σ) (stream : σ) : Result × σ :=
  writeChain lib
    [(write · response.httpVersion), (write · space), (write · response.code), (write · space),
      (write · response.reasonPhrase), (write · crlf),
      httpHeadersSerializeTo lib response.headers write, (write · crlf),
      fun st => if response.body.isEmpty then (.ok, st) else write st response.body] stream

/-! ## Spans by offset -/

namespace Span

@[simp] theorem tail_zero (s : Span) : s.tail 0 = s := by simp [tail]

@[simp] theorem tail_tail (s : Span) (i j : Nat) : (s.tail i).tail j = s.tail (i + j) := by
  simp [tail, Nat.add_assoc]

@[simp] theorem sub_tail (s : Span) (i j n : Nat) : (s.tail i).sub j n = s.sub (i + j) n := by
  simp [tail, sub, Nat.add_assoc]

end Span

variable {lib} in
theorem CommonLib.spanSplit_some {s d : Span} {x y : Bytes} (hd : d.bytes ≠ [])
    (h : cut? d.bytes s.bytes = some (x, y)) :
    lib.spanSplit s d = some (s.sub 0 x.length, s.tail (x.length + d.size)) := by
  rw [lib.spanSplit_eq _ _ hd, (cut?_eq_some.mp h).2]
  rfl

variable {lib} in
theorem CommonLib.spanSplit_none {s d : Span} (hd : d.bytes ≠ [])
    (h : cut? d.bytes s.bytes = none) : lib.spanSplit s d = none := by
  rw [lib.spanSplit_eq _ _ hd, find?_eq_none.mpr (cut?_eq_none.mp h)]
  rfl

/-! ## Start lines -/

/-- The three tokens of a start line and what follows its CRLF. The tokens are looked for
in the whole input, not in its first line. -/
def splitStartLine (raw : Bytes) : Option (Bytes × Bytes × Bytes × Bytes) :=
  match cut? space.bytes raw with
  | none => none
  | some (a, raw) =>
    match cut? space.bytes raw with
    | none => none
    | some (b, raw) =>
      match cut? crlf.bytes raw with
      | none => none
      | some (c, raw) => some (a, b, c, raw)

theorem splitStartLine_eq_some {raw a b c rest : Bytes} :
    splitStartLine raw = some (a, b, c, rest) ↔
      cut? space.bytes raw = some (a, b ++ (space.bytes ++ (c ++ (crlf.bytes ++ rest)))) ∧
      cut? space.bytes (b ++ (space.bytes ++ (c ++ (crlf.bytes ++ rest)))) =
        some (b, c ++ (crlf.bytes ++ rest)) ∧
      cut? crlf.bytes (c ++ (crlf.bytes ++ rest)) = some (c, rest) := by
  constructor
  · intro h
    unfold splitStartLine at h
    split at h
    · simp at h
    · next a' r1 h1 =>
      split at h
      · simp at h
      · next b' r2 h2 =>
        split at h
        · simp at h
        · next c' r3 h3 =>
          simp only [Option.some.injEq, Prod.mk.injEq] at h
          obtain ⟨rfl, rfl, rfl, rfl⟩ := h
          obtain ⟨rfl, -⟩ := cut?_eq_some.mp h3
          obtain ⟨rfl, -⟩ := cut?_eq_some.mp h2
          exact ⟨h1, h2, h3⟩
  · rintro ⟨h1, h2, h3⟩
    simp only [splitStartLine, h1, h2, h3]

theorem splitStartLine_bytes {raw a b c rest : Bytes}
    (h : splitStartLine raw = some (a, b, c, rest)) :
    raw = a ++ (space.bytes ++ (b ++ (space.bytes ++ (c ++ (crlf.bytes ++ rest))))) :=
  (cut?_eq_some.mp (splitStartLine_eq_some.mp h).1).1

/-- Tokens without a space, and a third without a CRLF, are split where they were joined. -/
theorem splitStartLine_join {a b c : Bytes} (ha : ¬ space.bytes <:+: a)
    (hb : ¬ space.bytes <:+: b) (hc : ¬ crlf.bytes <:+: c) (rest : Bytes) :
    splitStartLine (a ++ (space.bytes ++ (b ++ (space.bytes ++ (c ++ (crlf.bytes ++ rest)))))) =
      some (a, b, c, rest) := by
  have hspace : Unbordered space.bytes := by
    rw [space_bytes]
    exact unbordered_singleton 32
  exact splitStartLine_eq_some.mpr ⟨cut?_append_sep hspace ha _, cut?_append_sep hspace hb _,
    cut?_append_sep crlf_unbordered hc _⟩

/-- Where the three tokens of a start line lie. -/
theorem spanSplit_startLine {raw : Span} {a b c rest : Bytes}
    (h : splitStartLine raw.bytes = some (a, b, c, rest)) :
    lib.spanSplit raw space = some (raw.sub 0 a.length, raw.tail (a.length + 1)) ∧
    lib.spanSplit (raw.tail (a.length + 1)) space =
      some (raw.sub (a.length + 1) b.length, raw.tail (a.length + 1 + (b.length + 1))) ∧
    lib.spanSplit (raw.tail (a.length + 1 + (b.length + 1))) crlf =
      some (raw.sub (a.length + 1 + (b.length + 1)) c.length,
        raw.tail (a.length + 1 + (b.length + 1) + (c.length + 2))) := by
  obtain ⟨h1, h2, h3⟩ := splitStartLine_eq_some.mp h
  have hraw := splitStartLine_bytes h
  have ht1 : (raw.tail (a.length + 1)).bytes =
      b ++ (space.bytes ++ (c ++ (crlf.bytes ++ rest))) := by
    rw [Span.bytes_tail, hraw, ← List.append_assoc a, ← space_length, ← List.length_append,
      List.drop_left]
  have ht2 : (raw.tail (a.length + 1 + (b.length + 1))).bytes = c ++ (crlf.bytes ++ rest) := by
    rw [← Span.tail_tail, Span.bytes_tail, ht1, ← List.append_assoc b, ← space_length,
      ← List.length_append, List.drop_left]
  refine ⟨CommonLib.spanSplit_some space_ne_nil h1, ?_, ?_⟩
  · rw [CommonLib.spanSplit_some space_ne_nil (ht1 ▸ h2)]
    simp
  · rw [CommonLib.spanSplit_some crlf_ne_nil (ht2 ▸ h3)]
    simp

/-- A start line that lacks a token fails at one of the three splits. -/
theorem spanSplit_startLine_none {raw : Span} (h : splitStartLine raw.bytes = none) :
    lib.spanSplit raw space = none ∨
    ∃ x r, lib.spanSplit raw space = some (x, r) ∧ (lib.spanSplit r space = none ∨
      ∃ y r', lib.spanSplit r space = some (y, r') ∧ lib.spanSplit r' crlf = none) := by
  unfold splitStartLine at h
  cases h1 : cut? space.bytes raw.bytes with
  | none => exact .inl (CommonLib.spanSplit_none space_ne_nil h1)
  | some p1 =>
    obtain ⟨a, r1⟩ := p1
    have hr1 : (raw.tail (a.length + space.size)).bytes = r1 := by
      obtain ⟨hb, -⟩ := cut?_eq_some.mp h1
      rw [Span.bytes_tail, hb, ← List.append_assoc, Span.size, ← List.length_append, List.drop_left]
    refine .inr ⟨_, _, CommonLib.spanSplit_some space_ne_nil h1, ?_⟩
    simp only [h1] at h
    cases h2 : cut? space.bytes r1 with
    | none => exact .inl (CommonLib.spanSplit_none space_ne_nil (hr1 ▸ h2))
    | some p2 =>
      obtain ⟨b, r2⟩ := p2
      have hcut := hr1.symm ▸ h2
      have hr2 : ((raw.tail (a.length + space.size)).tail (b.length + space.size)).bytes = r2 := by
        obtain ⟨hb, -⟩ := cut?_eq_some.mp hcut
        rw [Span.bytes_tail, hb, ← List.append_assoc, Span.size, ← List.length_append,
          List.drop_left]
      refine .inr ⟨_, _, CommonLib.spanSplit_some space_ne_nil hcut, ?_⟩
      simp only [h2] at h
      cases h3 : cut? crlf.bytes r2 with
      | none => exact CommonLib.spanSplit_none crlf_ne_nil (hr2 ▸ h3)
      | some p3 => simp [h3] at h

/-- Offset of the bytes after the start line. -/
def startLineLength (a b c : Bytes) : Nat := a.length + 1 + (b.length + 1) + (c.length + 2)

theorem length_splitStartLine {raw a b c rest : Bytes}
    (h : splitStartLine raw = some (a, b, c, rest)) :
    raw.length = startLineLength a b c + rest.length := by
  rw [splitStartLine_bytes h, startLineLength]
  simp only [List.length_append, space_length, crlf_length]
  omega

theorem bytes_tail_startLine {raw : Span} {a b c rest : Bytes}
    (h : splitStartLine raw.bytes = some (a, b, c, rest)) :
    (raw.tail (startLineLength a b c)).bytes = rest := by
  set line := a ++ (space.bytes ++ (b ++ (space.bytes ++ (c ++ crlf.bytes)))) with hline
  have hlen : startLineLength a b c = line.length := by
    simp [startLineLength, hline]
    omega
  have hraw : raw.bytes = line ++ rest := by
    rw [splitStartLine_bytes h, hline]
    simp only [List.append_assoc]
  rw [Span.bytes_tail, hlen, hraw, List.drop_left]

/-- The three tokens by offset, as bytes. -/
theorem bytes_startLine {raw : Span} {a b c rest : Bytes}
    (h : splitStartLine raw.bytes = some (a, b, c, rest)) :
    (raw.sub 0 a.length).bytes = a ∧ (raw.sub (a.length + 1) b.length).bytes = b ∧
      (raw.sub (a.length + 1 + (b.length + 1)) c.length).bytes = c := by
  have hraw := splitStartLine_bytes h
  have hdrop : raw.bytes.drop (a.length + 1) =
      b ++ (space.bytes ++ (c ++ (crlf.bytes ++ rest))) := by
    rw [hraw, ← List.append_assoc, ← space_length, ← List.length_append, List.drop_left]
  refine ⟨?_, ?_, ?_⟩
  · rw [Span.bytes_sub, List.drop_zero, hraw, List.take_left]
  · rw [Span.bytes_sub, hdrop, List.take_left]
  · rw [Span.bytes_sub, ← List.drop_drop, hdrop, ← List.append_assoc, ← space_length,
      ← List.length_append, List.drop_left, List.take_left]

/-- The request parser on a start line of three tokens. -/
theorem httpRequestParse_eq (request : HttpRequest) {raw : Span} {a b c rest : Bytes}
    (h : splitStartLine raw.bytes = some (a, b, c, rest)) :
    httpRequestParse lib request raw =
      let parts := splitHeadersAndBody lib (raw.tail (startLineLength a b c))
      (.ok, ⟨raw.sub 0 a.length, raw.sub (a.length + 1) b.length,
        raw.sub (a.length + 1 + (b.length + 1)) c.length,
        httpHeadersParse lib parts.1, parts.2⟩) := by
  obtain ⟨h1, h2, h3⟩ := spanSplit_startLine lib h
  simp only [httpRequestParse, h1, h2, h3, startLineLength]

/-- The response parser on a start line of three tokens. -/
theorem httpResponseParse_eq (response : HttpResponse) {raw : Span} {a b c rest : Bytes}
    (h : splitStartLine raw.bytes = some (a, b, c, rest)) :
    httpResponseParse lib response raw =
      let parts := splitHeadersAndBody lib (raw.tail (startLineLength a b c))
      (.ok, { response with
        httpVersion := raw.sub 0 a.length, code := raw.sub (a.length + 1) b.length,
        reasonPhrase := raw.sub (a.length + 1 + (b.length + 1)) c.length,
        headers := httpHeadersParse lib parts.1, body := parts.2 }) := by
  obtain ⟨h1, h2, h3⟩ := spanSplit_startLine lib h
  have hne : raw.isEmpty = false := by
    rw [Span.isEmpty_eq_false_iff, splitStartLine_bytes h]
    simp
  simp only [httpResponseParse, hne, h1, h2, h3, startLineLength, Bool.false_eq_true, if_false]

/-- Without three tokens it fails. -/
theorem httpResponseParse_none (response : HttpResponse) {raw : Span}
    (h : splitStartLine raw.bytes = none) :
    lib.isError (httpResponseParse lib response raw).1 = true := by
  cases hempty : raw.isEmpty with
  | true => simp [httpResponseParse, hempty]
  | false =>
    rcases spanSplit_startLine_none lib h with h1 | ⟨x, r, h1, h2 | ⟨y, r', h2, h3⟩⟩
    · simp [httpResponseParse, hempty, h1]
    · simp [httpResponseParse, hempty, h1, h2]
    · simp [httpResponseParse, hempty, h1, h2, h3]

variable {lib} in
/-- What was parsed has a start line. -/
theorem httpRequestParse_ok {initial parsed : HttpRequest} {raw : Span}
    (h : httpRequestParse lib initial raw = (.ok, parsed)) :
    ∃ a b c rest, splitStartLine raw.bytes = some (a, b, c, rest) := by
  cases hsplit : splitStartLine raw.bytes with
  | some t => exact ⟨t.1, t.2.1, t.2.2.1, t.2.2.2, rfl⟩
  | none =>
    rcases spanSplit_startLine_none lib hsplit with h1 | ⟨x, r, h1, h2 | ⟨y, r', h2, h3⟩⟩
    · simp [httpRequestParse, h1] at h
    · simp [httpRequestParse, h1, h2] at h
    · simp [httpRequestParse, h1, h2, h3] at h

variable {lib} in
theorem httpResponseParse_ok {initial parsed : HttpResponse} {raw : Span}
    (h : httpResponseParse lib initial raw = (.ok, parsed)) :
    ∃ a b c rest, splitStartLine raw.bytes = some (a, b, c, rest) := by
  cases hsplit : splitStartLine raw.bytes with
  | some t => exact ⟨t.1, t.2.1, t.2.2.1, t.2.2.2, rfl⟩
  | none =>
    have herr := httpResponseParse_none lib initial hsplit
    rw [h] at herr
    simp at herr

/-- The parts on either side of the blank line. -/
theorem splitHeadersAndBody_blank {raw : Span} {b rest : Bytes}
    (h : cut? headersTerminator.bytes raw.bytes = some (b, rest)) :
    splitHeadersAndBody lib raw = (raw.sub 0 (b.length + 2), raw.tail (b.length + 4)) := by
  obtain ⟨hb, hf⟩ := cut?_eq_some.mp h
  have hlen : b.length + 2 ≤ raw.size := by
    rw [Span.size, hb, headersTerminator_bytes]
    simp
  simp only [splitHeadersAndBody, lib.spanFind_eq _ _ headersTerminator_ne_nil, hf, Option.map_some,
    crlf_size, headersTerminator_size]
  rw [lib.spanSlice_eq _ _ _ (by omega)]

theorem splitHeadersAndBody_no_blank {raw : Span}
    (h : cut? headersTerminator.bytes raw.bytes = none) :
    splitHeadersAndBody lib raw = (raw, .empty) := by
  simp [splitHeadersAndBody, lib.spanFind_eq _ _ headersTerminator_ne_nil,
    find?_eq_none.mpr (cut?_eq_none.mp h)]

end HttpC
