import HttpC.RequestParser

/-!
# Where a request head begins and ends

`parse_head` splits off its three tokens in the whole head, and `http_request_parse` looks for the
blank line behind the start line. Both go by the lines of the head as long as the start line has
its two spaces and a field line follows it.

## Main results

* `httpRequestParse_agrees_iff` — when the blocking parser reads a head as the incremental one does.
* `request_line_iff` — when the request line that is returned is the first line.
-/

namespace HttpC

open ListSearch

variable (lib : CommonLib)

/-! ## Parts of parts -/

theorem Span.sub_sub (s : Span) {i j m n : Nat} (h : j + m ≤ n) :
    (s.sub i n).sub j m = s.sub (i + j) m := by
  simp only [Span.sub, Span.mk.injEq, Nat.add_assoc, true_and, List.drop_take, List.take_take,
    List.drop_drop]
  congr 1
  omega

theorem splitStartLine_append {raw a b c rest : Bytes}
    (h : splitStartLine raw = some (a, b, c, rest)) (more : Bytes) :
    splitStartLine (raw ++ more) = some (a, b, c, rest ++ more) := by
  obtain ⟨h1, h2, h3⟩ := splitStartLine_eq_some.mp h
  refine splitStartLine_eq_some.mpr ⟨?_, ?_, ?_⟩
  · simpa using cut?_append_right h1 more
  · simpa using cut?_append_right h2 more
  · simpa using cut?_append_right h3 more

/-! ## What a lookup sees -/

/-- The first span ends no later than the second. -/
def Span.EndsBy (s t : Span) : Prop := s.ptr + s.size ≤ t.ptr + t.size

theorem Span.EndsBy.trans {s t u : Span} (h : s.EndsBy t) (h' : t.EndsBy u) : s.EndsBy u :=
  Nat.le_trans h h'

/-- The header lines that `http_request_parse` reads behind the start line. -/
def keptBlock (rest : Bytes) : Bytes :=
  match find? headersTerminator.bytes rest with
  | some term => rest.take (term + 2)
  | none =>
    match rfind? crlf.bytes rest with
    | some single => rest.take (single + 2)
    | none => rest

/-- `http_request_parse` hands the header trimmer what stands before the first blank line. -/
theorem block_splitHeadersAndBody (raw : Span) :
    (httpHeadersParse lib (splitHeadersAndBody lib raw).1).block = keptBlock raw.bytes ∧
      (httpHeadersParse lib (splitHeadersAndBody lib raw).1).usedSize ≤
        (splitHeadersAndBody lib raw).1.size ∧
      (splitHeadersAndBody lib raw).1.ptr = raw.ptr := by
  cases hfind : cut? headersTerminator.bytes raw.bytes with
  | none =>
    have hnone := cut?_eq_none.mp hfind
    have hterm : rfind? headersTerminator.bytes raw.bytes = none := rfind?_eq_none.mpr hnone
    rw [splitHeadersAndBody_no_blank lib hfind, keptBlock, find?_eq_none.mpr hnone]
    dsimp only
    cases hlast : rfind? crlf.bytes raw.bytes with
    | none =>
      have hused : (httpHeadersParse lib raw).usedSize = raw.size := by
        simp [httpHeadersParse, lib.spanFindReverse_eq _ _ headersTerminator_ne_nil,
          lib.spanFindReverse_eq _ _ crlf_ne_nil, hterm, hlast]
      refine ⟨?_, Nat.le_of_eq hused, rfl⟩
      rw [HttpHeaders.block, hused]
      exact List.take_length
    | some single =>
      have hused : (httpHeadersParse lib raw).usedSize = single + 2 := by
        simp [httpHeadersParse, lib.spanFindReverse_eq _ _ headersTerminator_ne_nil,
          lib.spanFindReverse_eq _ _ crlf_ne_nil, hterm, hlast]
      refine ⟨by rw [HttpHeaders.block, hused]; rfl, ?_, rfl⟩
      rw [hused]
      exact (rfind?_eq_some.mp hlast).1.length_le
  | some parts =>
    obtain ⟨b, rest⟩ := parts
    obtain ⟨hraw, hfound⟩ := cut?_eq_some.mp hfind
    rw [splitHeadersAndBody_blank lib hfind, keptBlock, hfound]
    have hjoin : raw.bytes = (b ++ crlf.bytes) ++ (crlf.bytes ++ rest) := by
      rw [hraw, headersTerminator_bytes]
      simp only [List.append_assoc]
    have hkept : raw.bytes.take (b.length + 2) = b ++ crlf.bytes := by
      rw [hjoin, List.take_append_of_le_length (by simp), List.take_of_length_le (by simp)]
    have hpart : (raw.sub 0 (b.length + 2)).bytes = b ++ (crlf.bytes ++ []) := by
      rw [Span.bytes_sub, List.drop_zero, hkept, List.append_nil]
    have hlines := block_httpHeadersParse_lines lib hpart (by simp) fun j hj => by
      -- a blank line in what is kept would be an earlier one
      have hlt := hj.length_le
      rw [hpart, headersTerminator_bytes] at hlt
      simp only [List.append_nil, List.length_append, crlf_length] at hlt
      rw [hpart, List.append_nil] at hj
      refine (find?_eq_some.mp hfound).2 j (by omega) ?_
      rw [hjoin]
      exact hj.append_right _
    exact ⟨hlines.1.trans hkept.symm, hlines.2, Nat.add_zero _⟩

/-! ## The two parsers -/

section

variable {lib}

/-- A head and what stands behind it: the start line with its three tokens, and the rest of the
head. -/
theorem headStatus_accepted_cases {buffer : Bytes} {h : RequestHead}
    (hs : headStatus lib buffer = .accepted h) :
    ∃ rest more, buffer = buffer.take h.length ++ more ∧
      splitStartLine (buffer.take h.length) = some (h.method, h.path, h.version, rest) ∧
      h.block = headBlock rest ∧
      (rest = crlf.bytes ∨ ∃ x, rest = x ++ (crlf.bytes ++ crlf.bytes) ∧
        ¬ crlf.bytes <+: rest ++ more ∧
        cut? headersTerminator.bytes (rest ++ more) = some (x, more)) := by
  obtain ⟨term, hfind, hlength, hparse⟩ := (headStatus_accepted lib).mp hs
  obtain ⟨rest, hsplit, hblock, -⟩ := (parse?_eq_some lib).mp hparse
  obtain ⟨before, more, hbuffer, hbefore⟩ := occursAt_iff.mp (find?_eq_some.mp hfind).1
  have hhead : buffer.take h.length = before ++ headersTerminator.bytes := by
    rw [hbuffer, hlength, ← hbefore, ← List.append_assoc]
    exact List.take_left' (by simp [headersTerminator_bytes])
  have hmore : buffer = buffer.take h.length ++ more := by
    rw [hhead, List.append_assoc]
    exact hbuffer
  refine ⟨rest, more, hmore, hsplit, hblock, ?_⟩
  rcases rest_of_head (hhead.trans (by rw [headersTerminator_bytes])) hsplit with hbare | ⟨x, hx⟩
  · exact .inl hbare
  · -- an earlier blank line would be an earlier one of the buffer
    set line := h.method ++ (space.bytes ++ (h.path ++ (space.bytes ++ h.version))) with hline
    have hrest : buffer.take h.length = line ++ (crlf.bytes ++ rest) := by
      rw [splitStartLine_bytes hsplit, hline]
      simp only [List.append_assoc]
    have hx' : rest = x ++ headersTerminator.bytes := by
      rw [hx, headersTerminator_bytes]
    have hlen : line.length + 2 + x.length = term := by
      have heq : line ++ crlf.bytes ++ x = before := by
        refine @List.append_cancel_right _ _ headersTerminator.bytes _ ?_
        rw [← hhead, hrest, hx']
        simp only [List.append_assoc]
      rw [← hbefore, ← heq]
      simp only [List.length_append, crlf_length]
    have hfirst : ∀ j, OccursAt headersTerminator.bytes (crlf.bytes ++ (rest ++ more)) j →
        2 + x.length ≤ j := by
      intro j hocc
      by_contra hlt
      refine (find?_eq_some.mp hfind).2 (line.length + j) (by omega) ?_
      rw [hmore, hrest]
      simpa only [List.append_assoc] using hocc.append_left line
    refine .inr ⟨x, hx, fun hblank => ?_, cut?_eq_some.mpr ⟨?_, find?_eq_some.mpr ⟨?_, ?_⟩⟩⟩
    · obtain ⟨y, hy⟩ := hblank
      have hocc : OccursAt headersTerminator.bytes (crlf.bytes ++ (rest ++ more)) 0 := by
        rw [← hy, occursAt_zero, headersTerminator_bytes, ← List.append_assoc]
        exact List.prefix_append _ _
      have hpos := hfirst 0 hocc
      omega
    · rw [hx', List.append_assoc]
    · rw [hx', List.append_assoc]
      exact occursAt_self_append _ _ _
    · intro j hj hocc
      have hle := hfirst _ (hocc.append_left crlf.bytes)
      rw [crlf_length] at hle
      omega

/-- What a fresh parser holds when it returns `ok`. -/
theorem feed_ok_cases {buffer : Span} {p : HttpRequestParser}
    (hfeed : httpRequestParserFeed lib httpRequestParserInit buffer = (.ok, p)) :
    ∃ h body, headStatus lib buffer.bytes = .accepted h ∧ p.headersEnd = h.length ∧
      p.request = { headRequest lib (buffer.sub 0 h.length) h with body } := by
  obtain ⟨hfed, hres⟩ := @feed_of_fresh lib _ buffer fresh_init
  rw [hfeed] at hfed hres
  dsimp only at hfed hres
  cases hfed with
  | missing hs hp => rcases hp with rfl | rfl <;> cases hres
  | refused hs hp =>
    rw [hp] at hres
    cases hres
  | waiting hs hlt => cases hres
  | @complete h body hs hle hbody => exact ⟨h, body, hs, rfl, rfl⟩

end

/-- The bytes before the first CRLF. -/
def firstLine (buffer : Bytes) : Bytes := ((cut? crlf.bytes buffer).getD (buffer, [])).1

/-- The number of spaces in a line. -/
def spaces (line : Bytes) : Nat := line.count 32

/-- The request line is one line: what a fresh parser returns is the first line of the buffer, and a
first line with less than two spaces is refused once the blank line is there. -/
structure RequestLineIsOne (buffer : Span) : Prop where
  tokens : ∀ p, httpRequestParserFeed lib httpRequestParserInit buffer = (.ok, p) →
    ¬ crlf.bytes <:+: p.request.method.bytes ∧ ¬ crlf.bytes <:+: p.request.path.bytes ∧
      firstLine buffer.bytes = p.request.method.bytes ++ (space.bytes ++
        (p.request.path.bytes ++ (space.bytes ++ p.request.httpVersion.bytes)))
  short : headersTerminator.bytes <:+: buffer.bytes → spaces (firstLine buffer.bytes) < 2 →
    (httpRequestParserFeed lib httpRequestParserInit buffer).1 = .error

/-- A head that is refused wherever its lines end: there are no two spaces in it, or the field lines
behind the line with the second one declare no body. -/
def RefusedAnyway (head : Bytes) : Prop :=
  spaces head < 2 ∨ ∃ method path version rest,
    splitStartLine head = some (method, path, version, rest) ∧
      (lookup (fieldLines (headBlock rest)) HTTP_HEADER_TRANSFER_ENCODING.bytes ≠ none ∨
        declaredLength lib (fieldLines (headBlock rest)) = none)

theorem exists_of_spaces {line : Bytes} (h : 2 ≤ spaces line) :
    ∃ a b c, line = a ++ (space.bytes ++ (b ++ (space.bytes ++ c))) ∧
      ¬ space.bytes <:+: a ∧ ¬ space.bytes <:+: b := by
  have hspace : ∀ l : Bytes, 32 ∉ l → ¬ space.bytes <:+: l := by
    intro l hl hin
    exact hl (hin.subset (by rw [space_bytes]; exact List.mem_singleton_self _))
  have hfirst : (32 : UInt8) ∈ line := by
    apply List.count_pos_iff.mp
    rw [spaces] at h
    omega
  obtain ⟨a, rest, rfl, ha⟩ := List.eq_append_cons_of_mem hfirst
  have hsecond : (32 : UInt8) ∈ rest := by
    apply List.count_pos_iff.mp
    rw [spaces, List.count_append, List.count_cons_self, List.count_eq_zero_of_not_mem ha] at h
    omega
  obtain ⟨b, c, rfl, hb⟩ := List.eq_append_cons_of_mem hsecond
  refine ⟨a, b, c, ?_, hspace a ha, hspace b hb⟩
  simp only [space_bytes, List.cons_append, List.nil_append]

theorem exists_cut_of_infix {pat l : Bytes} (h : pat <:+: l) :
    ∃ parts, cut? pat l = some parts := by
  obtain ⟨i, hi⟩ := infix_iff_occursAt.mp h
  apply Option.ne_none_iff_exists'.mp
  exact fun hnone => cut?_eq_none.mp hnone i hi

/-- A head is cut into its start line and the rest unless it is short of spaces. -/
theorem splitStartLine_eq_none_iff {head p : Bytes} (hend : head = p ++ headersTerminator.bytes) :
    splitStartLine head = none ↔ spaces head < 2 := by
  constructor
  · intro hnone
    by_contra hmany
    obtain ⟨a, b, c, hline, ha, hb⟩ := exists_of_spaces (Nat.le_of_not_lt hmany)
    have hspace : (32 : UInt8) ∉ headersTerminator.bytes := by decide
    have hcut := hline.symm.trans hend
    simp only [space_bytes, List.singleton_append] at hcut
    obtain ⟨q, hq⟩ := suffix_of_cut hcut hspace
    obtain ⟨q', rfl⟩ := suffix_of_cut hq hspace
    have hcrlf : crlf.bytes <:+: q' ++ headersTerminator.bytes :=
      ⟨q', crlf.bytes, by rw [headersTerminator_bytes, List.append_assoc]⟩
    obtain ⟨⟨version, rest⟩, hversion⟩ := exists_cut_of_infix hcrlf
    obtain ⟨hjoin, hno⟩ := cut?_eq_some.mp hversion
    rw [hline, hjoin, splitStartLine_join ha hb
      (not_infix_of_cut?_left crlf_ne_nil hversion)] at hnone
    cases hnone
  · intro hfew
    cases hsplit : splitStartLine head with
    | none => rfl
    | some t =>
      obtain ⟨a, b, c, rest⟩ := t
      have hmany : 2 ≤ spaces head := by
        rw [splitStartLine_bytes hsplit, spaces]
        simp [space_bytes, List.count_append]
        omega
      omega

section

variable {lib}

/-- When the head behind the first blank line is refused. -/
theorem parse?_eq_none_iff {head p : Bytes} (hend : head = p ++ headersTerminator.bytes) :
    RequestHead.parse? lib head = none ↔ RefusedAnyway lib head := by
  rw [RefusedAnyway, ← splitStartLine_eq_none_iff hend, RequestHead.parse?]
  cases hsplit : splitStartLine head with
  | none => simp
  | some t =>
    obtain ⟨method, path, version, rest⟩ := t
    simp only [reduceCtorEq, false_or, Option.some.injEq, Prod.mk.injEq]
    constructor
    · intro hnone
      refine ⟨_, _, _, _, ⟨rfl, rfl, rfl, rfl⟩, ?_⟩
      by_cases hte : lookup (fieldLines (headBlock rest)) HTTP_HEADER_TRANSFER_ENCODING.bytes = none
      · rw [if_pos hte] at hnone
        exact .inr (Option.map_eq_none_iff.mp hnone)
      · exact .inl hte
    · rintro ⟨_, _, _, _, ⟨rfl, rfl, rfl, rfl⟩, hte | hlength⟩
      · exact if_neg hte
      · split_ifs
        · exact Option.map_eq_none_iff.mpr hlength
        · rfl

theorem firstLine_eq {buffer line rest : Bytes} (h : buffer = line ++ (crlf.bytes ++ rest))
    (hline : ¬ crlf.bytes <:+: line) : firstLine buffer = line := by
  rw [firstLine, h, cut?_append_sep crlf_unbordered hline]
  rfl

/-- The tokens of a head whose first line has its two spaces stand in the first line. -/
theorem startLine_of_spaces {head method path version rest : Bytes}
    (hsplit : splitStartLine head = some (method, path, version, rest)) (more : Bytes)
    (hspaces : 2 ≤ spaces (firstLine (head ++ more))) :
    ¬ crlf.bytes <:+: method ∧ ¬ crlf.bytes <:+: path ∧
      firstLine (head ++ more) =
        method ++ (space.bytes ++ (path ++ (space.bytes ++ version))) := by
  obtain ⟨⟨line, behind⟩, hcut⟩ : ∃ parts, cut? crlf.bytes head = some parts := by
    apply exists_cut_of_infix
    rw [splitStartLine_bytes hsplit]
    refine ⟨method ++ (space.bytes ++ (path ++ (space.bytes ++ version))), rest, ?_⟩
    simp only [List.append_assoc]
  obtain ⟨hhead, -⟩ := cut?_eq_some.mp hcut
  have hline := not_infix_of_cut?_left crlf_ne_nil hcut
  have hfirst : firstLine (head ++ more) = line := by
    refine @firstLine_eq _ _ (behind ++ more) ?_ hline
    rw [hhead]
    simp only [List.append_assoc]
  rw [hfirst] at hspaces ⊢
  obtain ⟨a, b, c, rfl, ha, hb⟩ := exists_of_spaces hspaces
  -- the parts of a line without a line break have none
  have hparts : ∀ x y z : Bytes, a ++ (space.bytes ++ (b ++ (space.bytes ++ c))) = x ++ (y ++ z) →
      ¬ crlf.bytes <:+: y := by
    intro x y z heq hin
    refine hline (hin.trans ⟨x, z, ?_⟩)
    rw [heq, List.append_assoc]
  have hc : ¬ crlf.bytes <:+: c :=
    hparts (a ++ (space.bytes ++ (b ++ space.bytes))) c [] (by simp)
  have hjoin := splitStartLine_join ha hb hc behind
  rw [hhead] at hsplit
  simp only [List.append_assoc] at hsplit
  obtain ⟨rfl, rfl, rfl, rfl⟩ : _ ∧ _ ∧ _ ∧ _ := by simpa using hsplit.symm.trans hjoin
  refine ⟨hparts [] method (space.bytes ++ (path ++ (space.bytes ++ version))) rfl,
    hparts (method ++ space.bytes) path (space.bytes ++ version) ?_, rfl⟩
  simp only [List.append_assoc]

/-- Once the blank line is there, the head is refused as its bytes say. -/
theorem headStatus_refused_iff {buffer head more : Bytes}
    (hcut : cut? headersTerminator.bytes buffer = some (head, more)) :
    headStatus lib buffer = .refused ↔ RefusedAnyway lib (head ++ headersTerminator.bytes) := by
  obtain ⟨hbuffer, hfind⟩ := cut?_eq_some.mp hcut
  have htake : buffer.take (head.length + 4) = head ++ headersTerminator.bytes := by
    rw [hbuffer, ← List.append_assoc]
    exact List.take_left' (by simp [headersTerminator_bytes])
  rw [headStatus_refused, hfind, ← parse?_eq_none_iff rfl]
  simp only [Option.some.injEq, exists_eq_left', htake]

/-- A fresh parser refuses what the status of the head says. -/
theorem feed_error_iff {buffer : Span} :
    (httpRequestParserFeed lib httpRequestParserInit buffer).1 = .error ↔
      headStatus lib buffer.bytes = .refused := by
  cases hs : headStatus lib buffer.bytes with
  | missing => simp [(feed_missing fresh_init hs).1]
  | refused => simp [(feed_refused fresh_init hs).1]
  | accepted h =>
    rw [feed_accepted fresh_init hs, (feedBody_fed hs).2]
    simp only [reduceCtorEq, iff_false]
    rw [feedBody]
    split_ifs <;> simp [RequestParserState.result]

end

/-- The request line is one line exactly when the first line has its two spaces or the head is
refused anyway. -/
theorem request_line_iff (buffer : Span) :
    RequestLineIsOne lib buffer ↔
      ∀ head more, cut? headersTerminator.bytes buffer.bytes = some (head, more) →
        2 ≤ spaces (firstLine buffer.bytes) ∨
          RefusedAnyway lib (head ++ headersTerminator.bytes) := by
  constructor
  · intro hone head more hcut
    rcases Nat.lt_or_ge (spaces (firstLine buffer.bytes)) 2 with hshort | hmany
    · have hblank : headersTerminator.bytes <:+: buffer.bytes :=
        ⟨head, more, by rw [(cut?_eq_some.mp hcut).1, List.append_assoc]⟩
      have hrefused := feed_error_iff.mp (hone.short hblank hshort)
      exact .inr ((headStatus_refused_iff hcut).mp hrefused)
    · exact .inl hmany
  · intro hcond
    refine ⟨fun p hfeed => ?_, fun hblank hshort => ?_⟩
    · obtain ⟨h, body, hs, -, hrequest⟩ := feed_ok_cases hfeed
      obtain ⟨rest, more, hbuffer, hsplit, -, -⟩ := headStatus_accepted_cases hs
      obtain ⟨hmethod, hpath, hversion⟩ :=
        @bytes_startLine (buffer.sub 0 h.length) _ _ _ _ hsplit
      have hmany : 2 ≤ spaces (firstLine buffer.bytes) := by
        obtain ⟨term, hfind, -⟩ := (headStatus_accepted lib).mp hs
        obtain ⟨⟨head, more⟩, hcut⟩ := exists_cut_of_infix
          (infix_iff_occursAt.mpr ⟨term, (find?_eq_some.mp hfind).1⟩)
        refine (hcond head more hcut).resolve_right fun hrefused => ?_
        rw [← headStatus_refused_iff hcut, hs] at hrefused
        cases hrefused
      have hline := startLine_of_spaces hsplit more
      rw [← hbuffer] at hline
      rw [hrequest]
      dsimp only [headRequest]
      rw [hmethod, hpath, hversion]
      exact hline hmany
    · obtain ⟨⟨head, more⟩, hcut⟩ := exists_cut_of_infix hblank
      rcases hcond head more hcut with hmany | hrefused
      · omega
      · exact feed_error_iff.mpr ((headStatus_refused_iff hcut).mpr hrefused)

/-- The second space may be one of a field line. -/
theorem request_line_in_fields : ¬ ∀ buffer, RequestLineIsOne .reference buffer := by
  intro h
  have hok : (httpRequestParserFeed .reference httpRequestParserInit
      ⟨1000, ascii "GET /\r\nHost: a b\r\n\r\n"⟩).1 = .ok := by decide +kernel
  have hpath := ((h _).tokens _ (Prod.ext hok rfl)).2.1
  refine hpath ⟨ascii "/", ascii "Host:", ?_⟩
  decide +kernel

end HttpC
