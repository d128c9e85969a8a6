import HttpC.HeaderBuilding

/-!
# Passes over a header block

`http_headers_get_next` keeps its place in the set itself: an empty iterator means both that no
pass has begun and that one has ended. It cuts a line at `": "`, while `http_headers_find` cuts
the same line at the first colon.

## Main results

* `pass_lines` — the replies of one pass.
* `passAgrees_iff` — when a pass and the lookups tell of the same fields.
* `nthPass_built_iff` — which passes over a built set return it.
-/

namespace HttpC

open ListSearch Block

variable (lib : CommonLib)

/-! ## Passes -/

/-- The calls of `http_headers_get_next` up to the one that returns `EOF`: what they return, and
the set they leave. A call that fails is followed by the next one. -/
def pass : Nat → HttpHeaders → Option (List (Except HlResult (Span × Span)) × HttpHeaders)
  | 0, _ => none
  | fuel + 1, headers =>
    match httpHeadersGetNext lib headers with
    | (.error .eof, headers) => some ([], headers)
    | (reply, headers) =>
      (pass fuel headers).map fun (replies, headers) => (reply :: replies, headers)

/-- The replies of the pass that comes after `k` others. -/
def nthPass (fuel : Nat) : Nat → HttpHeaders → Option (List (Except HlResult (Span × Span)))
  | 0, headers => (pass lib fuel headers).map Prod.fst
  | k + 1, headers => (pass lib fuel headers).bind fun (_, headers) => nthPass fuel k headers

/-- What a call returns for a line. -/
def lineReply (line : Span) : Except HlResult (Span × Span) :=
  match lib.spanSplit line nameValueSeparator with
  | none => .error .error
  | some pair => .ok pair

/-- The lines that a pass gets to: a blank line at the end is taken for the end. -/
def listed : List Bytes → List Bytes
  | [] => []
  | [[]] => []
  | line :: lines => line :: listed lines

/-- The set with its iterator on the first line. -/
def HttpHeaders.rewound (headers : HttpHeaders) : HttpHeaders :=
  { headers with iterator := lib.spanSlice headers.buffer 0 headers.usedSize }

section

variable {lib} {headers headers' : HttpHeaders} {fuel fuel' ptr : Nat} {line rest : Bytes}

theorem nameValueSeparator_bytes : nameValueSeparator.bytes = [58, 32] := by decide

theorem nameValueSeparator_ne_nil : nameValueSeparator.bytes ≠ [] := by decide

theorem nameValueSeparator_unbordered : Unbordered nameValueSeparator.bytes := by
  rw [nameValueSeparator_bytes]
  exact unbordered_pair (by decide)

theorem headerNameTerminator_unbordered : Unbordered headerNameTerminator.bytes := by
  rw [headerNameTerminator_bytes]
  exact unbordered_singleton 58

/-- Fuel only decides whether a pass comes to its end. -/
theorem pass_unique {r r' : List (Except HlResult (Span × Span)) × HttpHeaders}
    (h : pass lib fuel headers = some r) (h' : pass lib fuel' headers = some r') : r = r' := by
  induction fuel generalizing headers fuel' r r' with
  | zero => simp [pass] at h
  | succ fuel ih =>
    cases fuel' with
    | zero => simp [pass] at h'
    | succ fuel' =>
      rw [pass] at h h'
      split at h
      · next after heq =>
        rw [heq] at h'
        exact Option.some.inj (h.symm.trans h')
      · next reply after hne heq =>
        split at h'
        · next heq' => grind
        · next reply' after' hne' heq' =>
          obtain ⟨rfl, rfl⟩ := Prod.mk.inj (heq.symm.trans heq')
          obtain ⟨s, hs, rfl⟩ := Option.map_eq_some_iff.mp h
          obtain ⟨s', hs', rfl⟩ := Option.map_eq_some_iff.mp h'
          rw [ih hs hs']

theorem httpHeadersGetNext_end (hused : headers.usedSize ≠ 0)
    (hiter : headers.iterator.bytes = [] ∨ headers.iterator.bytes = crlf.bytes) :
    httpHeadersGetNext lib headers = (.error .eof, headers.rewound lib) := by
  rw [httpHeadersGetNext, if_neg hused, if_pos]
  · rfl
  · rw [Span.isEmpty_iff, lib.spanCompare_eq]
    exact hiter

theorem httpHeadersGetNext_line (hused : headers.usedSize ≠ 0)
    (hiter : headers.iterator = ⟨ptr, line ++ (crlf.bytes ++ rest)⟩)
    (hline : ¬ crlf.bytes <:+: line) (hmore : line = [] → rest ≠ []) :
    httpHeadersGetNext lib headers = (lineReply lib ⟨ptr, line⟩,
      { headers with iterator := ⟨ptr + line.length + crlf.size, rest⟩ }) := by
  have hsplit : lib.spanSplit headers.iterator crlf =
      some (⟨ptr, line⟩, ⟨ptr + line.length + crlf.size, rest⟩) := by
    rw [lib.spanSplit_eq _ _ crlf_ne_nil, hiter]
    dsimp only
    rw [find?_append_sep crlf_unbordered hline, Option.map_some]
    simp only [Span.sub, Span.tail, List.drop_zero, List.take_left, Nat.add_zero, Span.size,
      ← Nat.add_assoc]
    rw [← List.drop_drop, List.drop_left, List.drop_left]
  rw [httpHeadersGetNext, if_neg hused, if_neg, hsplit]
  · dsimp only
    rw [lineReply]
    cases lib.spanSplit ⟨ptr, line⟩ nameValueSeparator <;> rfl
  · rw [Span.isEmpty_iff, lib.spanCompare_eq, hiter]
    rintro (hnil | hcrlf)
    · have hlen := congrArg List.length hnil
      simp at hlen
    · have hlen := congrArg List.length hcrlf
      simp only [List.length_append, crlf_length] at hlen
      have hzero : line = [] := List.length_eq_zero_iff.mp (by omega)
      exact hmore hzero (List.length_eq_zero_iff.mp (by omega))

theorem lineReply_ne_eof (line : Span) : lineReply lib line ≠ .error .eof := by
  rw [lineReply]
  cases lib.spanSplit line nameValueSeparator <;> simp

/-- One reply for each line, and the iterator is back on the first. -/
theorem pass_lines {lines : List Bytes} (hused : headers.usedSize ≠ 0)
    (hiter : headers.iterator = ⟨ptr, lines.flatMap (· ++ crlf.bytes)⟩)
    (hlines : ∀ line ∈ lines, ¬ crlf.bytes <:+: line) :
    pass lib (lines.length + 1) headers =
      some ((lineSpans ptr (listed lines)).map (lineReply lib), headers.rewound lib) := by
  fun_induction listed lines generalizing headers ptr with
  | case1 =>
    rw [pass, httpHeadersGetNext_end hused (.inl (by simp [hiter]))]
    rfl
  | case2 =>
    rw [pass, httpHeadersGetNext_end hused (.inr (by simp [hiter]))]
    rfl
  | case3 line lines hlast ih =>
    have hcons : headers.iterator =
        ⟨ptr, line ++ (crlf.bytes ++ lines.flatMap (· ++ crlf.bytes))⟩ := by
      rw [hiter, List.flatMap_cons, List.append_assoc]
    have hmore : line = [] → lines.flatMap (· ++ crlf.bytes) ≠ [] := by
      rintro rfl hnil
      cases lines with
      | nil => exact hlast rfl rfl
      | cons => simp at hnil
    set after : HttpHeaders := { headers with
      iterator := ⟨ptr + line.length + crlf.size, lines.flatMap (· ++ crlf.bytes)⟩ } with hafter
    have hrest : pass lib (lines.length + 1) after = _ :=
      ih hused rfl fun l hl => hlines l (List.mem_cons_of_mem _ hl)
    rw [pass, httpHeadersGetNext_line hused hcons (hlines line List.mem_cons_self) hmore]
    split
    · next heq => exact absurd (Prod.mk.inj heq).1 (lineReply_ne_eof _)
    · next reply after' hne heq =>
      obtain ⟨rfl, rfl⟩ := Prod.mk.inj heq
      rw [List.length_cons, hrest]
      rfl

/-- Without a CRLF a pass does not get off the first byte, and never ends. -/
theorem pass_stuck (hused : headers.usedSize ≠ 0) (hne : headers.iterator.bytes ≠ [])
    (hnone : ¬ crlf.bytes <:+: headers.iterator.bytes) (fuel : Nat) :
    pass lib fuel headers = none := by
  have hnext : httpHeadersGetNext lib headers = (.error .error, headers) := by
    have hfind : find? crlf.bytes headers.iterator.bytes = none := by
      rw [infix_iff_occursAt, not_exists] at hnone
      exact find?_eq_none.mpr hnone
    rw [httpHeadersGetNext, if_neg hused, if_neg, lib.spanSplit_eq _ _ crlf_ne_nil, hfind]
    · rfl
    · rw [Span.isEmpty_iff, lib.spanCompare_eq]
      rintro (hnil | hcrlf)
      · exact hne hnil
      · exact hnone (hcrlf ▸ List.infix_rfl)
  induction fuel with
  | zero => rfl
  | succ fuel ih =>
    rw [pass, hnext]
    simp [ih]

/-! ## Passes over built sets -/

/-- A reply by content. -/
def contents (reply : Except HlResult (Span × Span)) : Except HlResult (Bytes × Bytes) :=
  reply.map fun pair => (pair.1.bytes, pair.2.bytes)

theorem lineReply_fieldLine {f : Span × Span} (hcolon : 58 ∉ f.1.bytes) (ptr : Nat) :
    contents (lineReply lib ⟨ptr, fieldLine f⟩) = .ok (f.1.bytes, f.2.bytes) := by
  have hname : ¬ nameValueSeparator.bytes <:+: f.1.bytes := fun hin =>
    hcolon (hin.mem (by decide))
  rw [lineReply, lib.spanSplit_eq _ _ nameValueSeparator_ne_nil, fieldLine]
  dsimp only
  rw [find?_append_sep nameValueSeparator_unbordered hname, Option.map_some, contents]
  simp only [Except.map, Span.bytes_sub, List.drop_zero, List.take_left, Span.bytes_tail, Span.size]
  rw [← List.drop_drop, List.drop_left, List.drop_left]

theorem listed_of_ne_nil {lines : List Bytes} (h : ∀ line ∈ lines, line ≠ []) :
    listed lines = lines := by
  fun_induction listed lines with
  | case1 => rfl
  | case2 => simp at h
  | case3 line lines hlast ih => rw [ih fun l hl => h l (List.mem_cons_of_mem _ hl)]

theorem addFields_iterator {fields : List (Span × Span)}
    (hused : headers.usedSize ≤ headers.buffer.size)
    (h : addFields lib headers fields = (.ok, headers')) : headers'.iterator = headers.iterator := by
  induction fields generalizing headers with
  | nil => rw [(Prod.mk.inj h).2]
  | cons field fields ih =>
    obtain ⟨name, value⟩ := field
    rw [addFields] at h
    rcases httpHeadersAdd_cases lib hused name value with
      ⟨hfits, added, hcall, hext⟩ | ⟨-, added, hcall, -⟩
    · rw [hcall] at h
      rw [ih (hext.used_le hfits) h, hext.iterator]
    · simp [hcall] at h

/-- Every pass from the first line returns the whole block and ends there again. -/
theorem nthPass_of_pass {replies : List (Except HlResult (Span × Span))}
    (h : pass lib fuel headers = some (replies, headers)) (k : Nat) :
    nthPass lib fuel k headers = some replies := by
  induction k with
  | zero => rw [nthPass, h, Option.map_some]
  | succ k ih =>
    rw [nthPass, h]
    exact ih

variable (lib) in
theorem HttpHeaders.rewound_iterator (hused : headers.usedSize ≤ headers.buffer.size) :
    (headers.rewound lib).iterator = ⟨headers.buffer.ptr, headers.block⟩ := by
  rw [HttpHeaders.rewound, lib.spanSlice_eq _ _ _ (by omega)]
  rfl

/-- The pass from the first line of a built set. -/
theorem BuiltHeaders.pass_rewound {fields : List (Span × Span)}
    (h : BuiltHeaders lib headers fields) (hne : headers.usedSize ≠ 0) :
    pass lib ((fields.map HttpC.fieldLine).length + 1) (headers.rewound lib) =
      some ((lineSpans headers.buffer.ptr (fields.map HttpC.fieldLine)).map (lineReply lib),
        headers.rewound lib) := by
  obtain ⟨hused, hblock⟩ := h.block
  have hiter := HttpHeaders.rewound_iterator lib hused
  rw [hblock] at hiter
  have hne' : (headers.rewound lib).usedSize ≠ 0 := hne
  refine (pass_lines hne' hiter fun line hline => (h.fieldLine line hline).2).trans ?_
  rw [listed_of_ne_nil fun line hline => (h.fieldLine line hline).1]
  rfl

/-- What a pass over written lines returns. -/
theorem contents_replies {fields : List (Span × Span)} (hcolon : ∀ f ∈ fields, 58 ∉ f.1.bytes)
    (ptr : Nat) :
    ((lineSpans ptr (fields.map fieldLine)).map (lineReply lib)).map contents =
      fields.map fun f => .ok (f.1.bytes, f.2.bytes) := by
  induction fields generalizing ptr with
  | nil => rfl
  | cons f fields ih =>
    simp only [List.map_cons, lineSpans]
    rw [lineReply_fieldLine (hcolon f List.mem_cons_self),
      ih fun g hg => hcolon g (List.mem_cons_of_mem _ hg)]

end

/-- A set that has just been built has an empty iterator, so its first pass ends before the first
field; every later pass returns the set. -/
theorem nthPass_built_iff {headers : HttpHeaders} {fields : List (Span × Span)}
    (h : BuiltHeaders lib headers fields) (hcolon : ∀ f ∈ fields, 58 ∉ f.1.bytes) (k : Nat) :
    (∃ fuel replies, nthPass lib fuel k headers = some replies ∧
      replies.map contents = fields.map fun f => .ok (f.1.bytes, f.2.bytes)) ↔
      (k = 0 → fields = []) := by
  obtain ⟨hused, hblock⟩ := h.block
  obtain ⟨buffer, hadd⟩ := h.added
  have hiter : headers.iterator.bytes = [] := by
    rw [addFields_iterator (Nat.zero_le _) hadd]
    rfl
  by_cases hzero : headers.usedSize = 0
  · have hnil : fields = [] := by
      rw [HttpHeaders.block, hzero, List.take_zero] at hblock
      cases fields with
      | nil => rfl
      | cons f fields => simp [fieldLine] at hblock
    have hpass : pass lib 1 headers = some ([], headers) := by
      rw [pass, httpHeadersGetNext, if_pos hzero]
    exact iff_of_true ⟨1, [], nthPass_of_pass hpass k, by rw [hnil]; rfl⟩ fun _ => hnil
  · have hfirst : ∀ fuel, pass lib (fuel + 1) headers = some ([], headers.rewound lib) := by
      intro fuel
      rw [pass, httpHeadersGetNext_end hzero (.inl hiter)]
    constructor
    · rintro ⟨fuel, replies, hreplies, hcontents⟩ rfl
      obtain ⟨r, hr, rfl⟩ := Option.map_eq_some_iff.mp hreplies
      rw [pass_unique hr (hfirst 0)] at hcontents
      exact (List.map_eq_nil_iff.mp hcontents.symm)
    · intro hk
      cases k with
      | zero =>
        refine ⟨1, [], ?_, by rw [hk rfl]; rfl⟩
        rw [nthPass, hfirst]
        rfl
      | succ k =>
        refine ⟨(fields.map fieldLine).length + 1,
          (lineSpans headers.buffer.ptr (fields.map fieldLine)).map (lineReply lib), ?_,
          contents_replies hcolon headers.buffer.ptr⟩
        rw [nthPass, hfirst]
        exact nthPass_of_pass (h.pass_rewound hzero) k

/-- A set with one field, and its second pass. -/
theorem nthPass_built_second :
    ∃ fuel replies,
      nthPass .reference fuel 1
        (addFields .reference (httpHeadersInit ⟨500, List.replicate 12 0⟩)
          [(.lit "Host", .lit "a:80")]).2 = some replies ∧
      replies.map contents = [(.ok (ascii "Host", ascii "a:80"))] :=
  have hbuilt : BuiltHeaders .reference
      (addFields .reference (httpHeadersInit ⟨500, List.replicate 12 0⟩)
        [(.lit "Host", .lit "a:80")]).2 [(.lit "Host", .lit "a:80")] :=
    ⟨⟨⟨500, List.replicate 12 0⟩, by decide⟩, by decide⟩
  (nthPass_built_iff .reference hbuilt (by decide) 1).mpr (by decide)

/-- The first pass over that set returns nothing. -/
theorem nthPass_built_first :
    ¬ ∀ (headers : HttpHeaders) (fields : List (Span × Span)),
      BuiltHeaders .reference headers fields → (∀ f ∈ fields, 58 ∉ f.1.bytes) → ∀ k,
      ∃ fuel replies, nthPass .reference fuel k headers = some replies ∧
        replies.map contents = fields.map fun f => .ok (f.1.bytes, f.2.bytes) := by
  intro h
  obtain ⟨fuel, replies, hreplies, hcontents⟩ := h
    (addFields .reference (httpHeadersInit ⟨500, List.replicate 12 0⟩)
      [(.lit "Host", .lit "a:80")]).2 [(.lit "Host", .lit "a:80")]
    ⟨⟨⟨500, List.replicate 12 0⟩, by decide⟩, by decide⟩ (by decide) 0
  obtain ⟨r, hr, rfl⟩ := Option.map_eq_some_iff.mp hreplies
  have hfirst : pass .reference 1 (addFields .reference
      (httpHeadersInit ⟨500, List.replicate 12 0⟩) [(.lit "Host", .lit "a:80")]).2 =
      some ([], _) := rfl
  rw [pass_unique hr hfirst] at hcontents
  simp at hcontents

/-! ## Passes and lookups -/

/-- The pairs among the replies of a pass. -/
def pairsOf (replies : List (Except HlResult (Span × Span))) : List (Span × Span) :=
  replies.filterMap Except.toOption

/-- The value of the first pair with that name, blanks trimmed. -/
def firstNamed (pairs : List (Span × Span)) (name : Span) : Option Span :=
  (pairs.find? fun pair => lower pair.1.bytes = lower name.bytes).map
    fun pair => trimOptionalWhitespace lib pair.2

/-- A pass comes to its end, and its pairs are what the lookups find. -/
def PassAgrees (headers : HttpHeaders) : Prop :=
  ∃ fuel replies after, pass lib fuel headers = some (replies, after) ∧
    ∀ name value, httpHeadersFind lib headers name = .ok value ↔
      firstNamed lib (pairsOf replies) name = some value

/-- The name of a line for a lookup. -/
def fieldName (line : Bytes) : Option Bytes := (cut? headerNameTerminator.bytes line).map Prod.fst

/-- The name of a line for a pass. -/
def listedName (line : Bytes) : Option Bytes := (cut? nameValueSeparator.bytes line).map Prod.fst

/-- Lines that both readers take alike: a name for a pass is one for a lookup, and a line that a
pass cannot split is not the first of its name. -/
structure ReadAlike (lines : List Bytes) : Prop where
  named : ∀ line ∈ lines, ∀ n, listedName line = some n → n ≠ [] ∧ 58 ∉ n
  repeated : ∀ before line after, lines = before ++ line :: after → listedName line = none →
    ∀ n, fieldName line = some n → n ≠ [] →
      ∃ l ∈ before, ∃ n', fieldName l = some n' ∧ lower n' = lower n

/-- What a line answers to a search through the pairs of a pass. -/
def pairValue (name line : Span) : Option Span :=
  match lib.spanSplit line nameValueSeparator with
  | none => none
  | some pair =>
    if lower pair.1.bytes = lower name.bytes then some (trimOptionalWhitespace lib pair.2) else none

section

variable {lib} {headers : HttpHeaders} {name line value : Span} {n : Bytes} {ptr : Nat}

theorem lineValue_eq_some : lineValue lib name line = some value ↔
    ∃ i, find? headerNameTerminator.bytes line.bytes = some i ∧
      lower (line.bytes.take i) = lower name.bytes ∧
      trimOptionalWhitespace lib (line.tail (i + headerNameTerminator.size)) = value := by
  rw [lineValue, lib.spanSplit_eq _ _ headerNameTerminator_ne_nil]
  cases find? headerNameTerminator.bytes line.bytes with
  | none => simp
  | some i =>
    have hcmp : lib.spanICompare (line.sub 0 i) name = 0 ↔
        lower (line.bytes.take i) = lower name.bytes := by
      rw [lib.spanICompare_eq]
      simp
    simp [hcmp]

theorem pairValue_eq_some : pairValue lib name line = some value ↔
    ∃ i, find? nameValueSeparator.bytes line.bytes = some i ∧
      lower (line.bytes.take i) = lower name.bytes ∧
      trimOptionalWhitespace lib (line.tail (i + nameValueSeparator.size)) = value := by
  rw [pairValue, lib.spanSplit_eq _ _ nameValueSeparator_ne_nil]
  cases find? nameValueSeparator.bytes line.bytes with
  | none => simp
  | some i => simp

theorem fieldName_eq_some : fieldName line.bytes = some n ↔
    ∃ i, find? headerNameTerminator.bytes line.bytes = some i ∧ line.bytes.take i = n := by
  simp [fieldName, cut?]

theorem listedName_eq_some : listedName line.bytes = some n ↔
    ∃ i, find? nameValueSeparator.bytes line.bytes = some i ∧ line.bytes.take i = n := by
  simp [listedName, cut?]

/-- A name for a pass that holds no colon ends where the name for a lookup does. -/
theorem find?_terminator {l : Bytes} {i : Nat} (h : find? nameValueSeparator.bytes l = some i)
    (hcolon : 58 ∉ l.take i) :
    find? headerNameTerminator.bytes l = some i ∧
      l.drop (i + headerNameTerminator.size) = 32 :: l.drop (i + nameValueSeparator.size) := by
  obtain ⟨x, y, rfl, rfl⟩ := occursAt_iff.mp (find?_eq_some.mp h).1
  have hsep : nameValueSeparator.bytes = headerNameTerminator.bytes ++ [32] := by decide
  rw [List.take_left] at hcolon
  have hx : ¬ headerNameTerminator.bytes <:+: x := by
    rw [headerNameTerminator_bytes, List.singleton_infix_iff]
    exact hcolon
  refine ⟨?_, ?_⟩
  · rw [hsep, List.append_assoc]
    exact find?_append_sep headerNameTerminator_unbordered hx _
  · rw [← List.drop_drop, ← List.drop_drop, List.drop_left]
    rfl

/-- The blank that a pass has cut off is trimmed by a lookup. -/
theorem trimOptionalWhitespace_tail {i : Nat} (hi : 0 < i)
    (h : line.bytes.drop i = 32 :: line.bytes.drop (i + 1)) :
    trimOptionalWhitespace lib (line.tail i) = trimOptionalWhitespace lib (line.tail (i + 1)) := by
  rw [trimOptionalWhitespace_eq lib (by simp; omega), trimOptionalWhitespace_eq lib (by simp)]
  simp only [Span.bytes_tail, h, trimBlanks_cons_space]
  rw [List.takeWhile_cons_of_pos (by decide)]
  simp only [Span.sub, Span.tail, List.length_cons, h, List.drop_succ_cons]
  congr 1
  omega

/-- Where both names are the same the values are. -/
theorem pairValue_eq_lineValue (h : listedName line.bytes = some n) (hcolon : 58 ∉ n) :
    pairValue lib name line = lineValue lib name line := by
  obtain ⟨i, hi, rfl⟩ := listedName_eq_some.mp h
  obtain ⟨hterm, hdrop⟩ := find?_terminator hi hcolon
  have htrim : trimOptionalWhitespace lib (line.tail (i + headerNameTerminator.size)) =
      trimOptionalWhitespace lib (line.tail (i + nameValueSeparator.size)) :=
    trimOptionalWhitespace_tail (by simp) hdrop
  ext value
  rw [pairValue_eq_some, lineValue_eq_some]
  simp only [hi, hterm, Option.some.injEq, exists_eq_left', htrim]

theorem listedName_of_pairValue (h : pairValue lib name line = some value) :
    ∃ n, listedName line.bytes = some n ∧ lower n = lower name.bytes := by
  obtain ⟨i, hi, hname, -⟩ := pairValue_eq_some.mp h
  exact ⟨_, listedName_eq_some.mpr ⟨i, hi, rfl⟩, hname⟩

theorem fieldName_of_lineValue (h : lineValue lib name line = some value) :
    ∃ n, fieldName line.bytes = some n ∧ lower n = lower name.bytes := by
  obtain ⟨i, hi, hname, -⟩ := lineValue_eq_some.mp h
  exact ⟨_, fieldName_eq_some.mpr ⟨i, hi, rfl⟩, hname⟩

variable (lib) in
theorem lineValue_of_fieldName (h : fieldName line.bytes = some n)
    (hname : lower n = lower name.bytes) : ∃ value, lineValue lib name line = some value := by
  obtain ⟨i, hi, rfl⟩ := fieldName_eq_some.mp h
  exact ⟨_, lineValue_eq_some.mpr ⟨i, hi, hname, rfl⟩⟩

variable (lib) in
theorem pairValue_of_listedName (h : listedName line.bytes = some n)
    (hname : lower n = lower name.bytes) : ∃ value, pairValue lib name line = some value := by
  obtain ⟨i, hi, rfl⟩ := listedName_eq_some.mp h
  exact ⟨_, pairValue_eq_some.mpr ⟨i, hi, hname, rfl⟩⟩

/-- The name that a lookup sees holds no colon. -/
theorem not_mem_fieldName {l : Bytes} (h : fieldName l = some n) : 58 ∉ n := by
  obtain ⟨parts, hcut, rfl⟩ := Option.map_eq_some_iff.mp h
  have hnot := not_infix_of_cut?_left (y := parts.2) headerNameTerminator_ne_nil hcut
  rwa [headerNameTerminator_bytes, List.singleton_infix_iff] at hnot

/-- A value found in a line starts inside of it. -/
theorem trimOptionalWhitespace_ptr {i : Nat} (hi : i ≤ line.size) (hpos : 0 < i) :
    line.ptr < (trimOptionalWhitespace lib (line.tail i)).ptr ∧
      (trimOptionalWhitespace lib (line.tail i)).ptr ≤ line.ptr + line.size := by
  have hlen := (List.takeWhile_prefix (l := (line.tail i).bytes) isBlank).length_le
  rw [Span.bytes_tail, List.length_drop] at hlen
  rw [trimOptionalWhitespace_eq lib (by simp; omega), Span.ptr_sub, Span.ptr_tail, Span.bytes_tail]
  rw [Span.size] at hi ⊢
  omega

theorem lineValue_ptr_le (h : lineValue lib name line = some value) :
    value.ptr ≤ line.ptr + line.size := by
  obtain ⟨i, hi, -, rfl⟩ := lineValue_eq_some.mp h
  exact (trimOptionalWhitespace_ptr (find?_length_le hi) (by rw [headerNameTerminator_bytes]; simp)).2

theorem lt_pairValue_ptr (h : pairValue lib name line = some value) : line.ptr < value.ptr := by
  obtain ⟨i, hi, -, rfl⟩ := pairValue_eq_some.mp h
  exact (trimOptionalWhitespace_ptr (find?_length_le hi) (by simp)).1

/-! ### Lines in memory -/

theorem lineSpans_append (ptr : Nat) (lines more : List Bytes) :
    lineSpans ptr (lines ++ more) = lineSpans ptr lines ++
      lineSpans (ptr + (lines.flatMap (· ++ crlf.bytes)).length) more := by
  induction lines generalizing ptr with
  | nil => rfl
  | cons line lines ih =>
    rw [List.cons_append, lineSpans, lineSpans, ih, List.cons_append, List.flatMap_cons]
    congr 3
    simp only [List.length_append, crlf_length, crlf_size]
    omega

theorem le_ptr_of_mem_lineSpans {lines : List Bytes} {s : Span} (h : s ∈ lineSpans ptr lines) :
    ptr ≤ s.ptr := by
  induction lines generalizing ptr with
  | nil => simp [lineSpans] at h
  | cons line lines ih =>
    rcases List.mem_cons.mp h with rfl | h
    · exact le_refl _
    · exact le_trans (by omega) (ih h)

theorem firstNamed_filterMap (lines : List Span) (name : Span) :
    firstNamed lib (lines.filterMap fun line => lib.spanSplit line nameValueSeparator) name =
      lines.findSome? (pairValue lib name) := by
  induction lines with
  | nil => rfl
  | cons line lines ih =>
    rw [List.findSome?_cons, ← ih, firstNamed, firstNamed, pairValue, List.filterMap_cons]
    cases lib.spanSplit line nameValueSeparator with
    | none => rfl
    | some pair =>
      dsimp only
      rw [List.find?_cons]
      by_cases hname : lower pair.1.bytes = lower name.bytes
      · simp [hname]
      · simp [hname]

/-! ### Agreement -/

theorem lower_eq_nil {bs : Bytes} (h : lower bs = lower []) : bs = [] := by
  rwa [lower, lower, List.map_nil, List.map_eq_nil_iff] at h

theorem ReadAlike.lineValue_eq {lines : List Span} (h : ReadAlike (lines.map Span.bytes))
    (hline : line ∈ lines) (hvalue : pairValue lib name line = some value) :
    lineValue lib name line = some value := by
  obtain ⟨n, hn, -⟩ := listedName_of_pairValue hvalue
  have hcolon := (h.named line.bytes (List.mem_map_of_mem hline) n hn).2
  rw [← pairValue_eq_lineValue hn hcolon]
  exact hvalue

/-- The first line that has an answer for a lookup has the same one for a pass. -/
theorem ReadAlike.findSome?_eq {lines : List Span} (h : ReadAlike (lines.map Span.bytes))
    (hname : name.bytes ≠ []) :
    lines.findSome? (pairValue lib name) = lines.findSome? (lineValue lib name) := by
  cases hfound : lines.findSome? (lineValue lib name) with
  | none =>
    rw [List.findSome?_eq_none_iff] at hfound ⊢
    intro line hline
    by_contra hsome
    obtain ⟨value, hvalue⟩ := Option.ne_none_iff_exists'.mp hsome
    exact absurd (h.lineValue_eq hline hvalue) (by simp [hfound line hline])
  | some value =>
    obtain ⟨before, line, after, rfl, hvalue, hbefore⟩ := List.findSome?_eq_some_iff.mp hfound
    obtain ⟨n, hn, hsame⟩ := fieldName_of_lineValue hvalue
    have hne : n ≠ [] := by
      rintro rfl
      exact hname (lower_eq_nil hsame.symm)
    refine List.findSome?_eq_some_iff.mpr ⟨before, line, after, rfl, ?_, fun l hl => ?_⟩
    · cases hlisted : listedName line.bytes with
      | none =>
        obtain ⟨l, hl, n', hn', hlower⟩ := h.repeated (before.map Span.bytes) line.bytes
          (after.map Span.bytes) (by simp) hlisted n hn hne
        obtain ⟨s, hs, rfl⟩ := List.mem_map.mp hl
        obtain ⟨v, hv⟩ := lineValue_of_fieldName lib hn' (hlower.trans hsame)
        simp [hbefore s hs] at hv
      | some m =>
        have hcolon := (h.named line.bytes (by simp) m hlisted).2
        rw [pairValue_eq_lineValue hlisted hcolon]
        exact hvalue
    · by_contra hsome
      obtain ⟨v, hv⟩ := Option.ne_none_iff_exists'.mp hsome
      have hline := h.lineValue_eq (List.mem_append_left _ hl) hv
      simp [hbefore l hl] at hline

variable (lib) in
/-- The lookups and the search through the pairs answer alike. -/
def LookupsAgree (ptr : Nat) (lines : List Bytes) : Prop :=
  ∀ name value, (name.bytes ≠ [] ∧
      (lineSpans ptr lines).findSome? (lineValue lib name) = some value) ↔
    (lineSpans ptr lines).findSome? (pairValue lib name) = some value

/-- A name the pass returns can be looked up, so it is neither empty nor holds a colon. -/
theorem LookupsAgree.named {ptr : Nat} {lines : List Bytes} (h : LookupsAgree lib ptr lines) :
    ∀ line ∈ lines, ∀ n, listedName line = some n → n ≠ [] ∧ 58 ∉ n := by
  intro line hline n hn
  rw [← map_bytes_lineSpans ptr lines] at hline
  obtain ⟨s, hs, rfl⟩ := List.mem_map.mp hline
  have hsame : lower n = lower (⟨0, n⟩ : Span).bytes := rfl
  obtain ⟨v, hv⟩ := pairValue_of_listedName lib hn hsame
  cases hpairs : (lineSpans ptr lines).findSome? (pairValue lib ⟨0, n⟩) with
  | none => simp [List.findSome?_eq_none_iff.mp hpairs s hs] at hv
  | some value =>
    obtain ⟨hne, hfound⟩ := (h ⟨0, n⟩ value).mpr hpairs
    refine ⟨hne, fun hcolon => ?_⟩
    obtain ⟨l, -, hl⟩ := List.exists_of_findSome?_eq_some hfound
    obtain ⟨m, hm, hsame⟩ := fieldName_of_lineValue hl
    exact not_mem_fieldName hm (colon_mem_of_lower hsame hcolon)

/-- The first line of a name, which the lookup takes, is one of the pass. -/
theorem LookupsAgree.listed {ptr : Nat} {before after : List Bytes} {line n : Bytes}
    (h : LookupsAgree lib ptr (before ++ line :: after)) (hn : fieldName line = some n)
    (hne : n ≠ []) (hfresh : ∀ l ∈ before, ∀ m, fieldName l = some m → lower m ≠ lower n) :
    listedName line ≠ none := by
  intro hlisted
  have hnamed := h.named
  set start := ptr + (before.flatMap (· ++ crlf.bytes)).length with hstart
  have hspans : lineSpans ptr (before ++ line :: after) = lineSpans ptr before ++
      ⟨start, line⟩ :: lineSpans (start + line.length + crlf.size) after := by
    rw [lineSpans_append]
    rfl
  rw [LookupsAgree, hspans] at h
  have hbefore : ∀ s ∈ lineSpans ptr before, ∀ m, fieldName s.bytes = some m →
      lower m ≠ lower n := by
    intro s hs m hm
    have hmem := List.mem_map_of_mem (f := Span.bytes) hs
    rw [map_bytes_lineSpans] at hmem
    exact hfresh s.bytes hmem m hm
  -- the lookup takes this line, as none before has its name
  have hvalue : ∃ value, lineValue lib ⟨0, n⟩ ⟨start, line⟩ = some value :=
    lineValue_of_fieldName lib hn rfl
  obtain ⟨value, hvalue⟩ := hvalue
  have hfound : (lineSpans ptr before ++ ⟨start, line⟩ ::
      lineSpans (start + line.length + crlf.size) after).findSome? (lineValue lib ⟨0, n⟩) =
      some value := by
    refine List.findSome?_eq_some_iff.mpr ⟨_, _, _, rfl, hvalue, fun s hs => ?_⟩
    by_contra hsome
    obtain ⟨v, hv⟩ := Option.ne_none_iff_exists'.mp hsome
    obtain ⟨m, hm, hsame⟩ := fieldName_of_lineValue hv
    exact hbefore s hs m hm hsame
  -- the pass has it from a later one
  obtain ⟨s, hs, hpair⟩ := List.exists_of_findSome?_eq_some ((h ⟨0, n⟩ value).mp ⟨hne, hfound⟩)
  obtain ⟨m, hm, hsame⟩ := listedName_of_pairValue hpair
  have hmem : s.bytes ∈ before ++ line :: after := by
    have hmap := List.mem_map_of_mem (f := Span.bytes) hs
    rwa [← hspans, map_bytes_lineSpans] at hmap
  have hcolon := (hnamed s.bytes hmem m hm).2
  rcases List.mem_append.mp hs with hs | hs
  · rw [pairValue_eq_lineValue hm hcolon] at hpair
    obtain ⟨m', hm', hsame'⟩ := fieldName_of_lineValue hpair
    exact hbefore s hs m' hm' hsame'
  · rcases List.mem_cons.mp hs with rfl | hs
    · simp [hlisted] at hm
    · have hle := lineValue_ptr_le hvalue
      have hlt := lt_pairValue_ptr hpair
      have hafter := le_ptr_of_mem_lineSpans hs
      simp only [Span.size] at hle
      omega

variable (lib) in
theorem ReadAlike.lookupsAgree {lines : List Bytes} (h : ReadAlike lines) (ptr : Nat) :
    LookupsAgree lib ptr lines := by
  intro name value
  have h' : ReadAlike ((lineSpans ptr lines).map Span.bytes) := by
    rwa [map_bytes_lineSpans]
  constructor
  · rintro ⟨hname, hfound⟩
    rw [h'.findSome?_eq hname]
    exact hfound
  · intro hpairs
    have hname : name.bytes ≠ [] := by
      intro hnil
      obtain ⟨l, hl, hvalue⟩ := List.exists_of_findSome?_eq_some hpairs
      obtain ⟨n, hn, hsame⟩ := listedName_of_pairValue hvalue
      rw [hnil] at hsame
      exact (h'.named l.bytes (List.mem_map_of_mem hl) n hn).1 (lower_eq_nil hsame)
    refine ⟨hname, ?_⟩
    rw [← h'.findSome?_eq hname]
    exact hpairs

/-- The lookups and the search through the pairs answer alike exactly on lines that both readers
take alike. -/
theorem readAlike_iff (ptr : Nat) (lines : List Bytes) :
    LookupsAgree lib ptr lines ↔ ReadAlike lines := by
  refine ⟨fun h => ⟨h.named, ?_⟩, fun h => h.lookupsAgree lib ptr⟩
  rintro before line after rfl hlisted n hn hne
  by_contra hfresh
  refine h.listed hn hne (fun l hl m hm hsame => hfresh ⟨l, hl, m, hm, hsame⟩) hlisted

theorem httpHeadersFind_ok_iff (hused : headers.usedSize ≤ headers.buffer.size) :
    httpHeadersFind lib headers name = .ok value ↔ name.bytes ≠ [] ∧
      (lineSpans headers.buffer.ptr (fieldLines headers.block)).findSome? (lineValue lib name) =
        some value := by
  rw [httpHeadersFind]
  split_ifs with hname hzero
  · simp [Span.isEmpty_iff.mp hname]
  · simp [HttpHeaders.block, hzero, fieldLines, lineSpans]
  · have hslice : lib.spanSlice headers.buffer 0 headers.usedSize =
        ⟨headers.buffer.ptr, headers.block⟩ := by
      rw [lib.spanSlice_eq _ _ _ (by omega)]
      rfl
    have hfuel : (⟨headers.buffer.ptr, headers.block⟩ : Span).size < headers.usedSize + 1 := by
      rw [Span.size, HttpHeaders.length_block hused]
      exact Nat.lt_succ_self _
    rw [Span.isEmpty_iff] at hname
    rw [hslice, findLoop_lines lib name _ _ hfuel]
    dsimp only
    cases (lineSpans headers.buffer.ptr (fieldLines headers.block)).findSome?
      (lineValue lib name) <;> simp [hname]

variable (lib) in
/-- The kept part of a block that has a line end ends in one. -/
theorem block_httpHeadersParse_crlf {raw : Span} (h : crlf.bytes <:+: raw.bytes) :
    ∃ b, (httpHeadersParse lib raw).block = b ++ crlf.bytes ∧
      (httpHeadersParse lib raw).usedSize ≤ raw.size := by
  cases hterm : rfind? headersTerminator.bytes raw.bytes with
  | some i =>
    obtain ⟨b, rest, hraw, rfl⟩ := occursAt_iff.mp (rfind?_eq_some.mp hterm).1
    rw [headersTerminator_bytes, List.append_assoc] at hraw
    refine ⟨b, block_httpHeadersParse_of_usedSize lib hraw ?_⟩
    simp [httpHeadersParse, lib.spanFindReverse_eq _ _ headersTerminator_ne_nil, hterm]
  | none =>
    cases hlast : rfind? crlf.bytes raw.bytes with
    | none =>
      rw [infix_iff_occursAt] at h
      obtain ⟨i, hi⟩ := h
      exact absurd hi (rfind?_eq_none.mp hlast i)
    | some i =>
      obtain ⟨b, rest, hraw, rfl⟩ := occursAt_iff.mp (rfind?_eq_some.mp hlast).1
      refine ⟨b, block_httpHeadersParse_of_usedSize lib hraw ?_⟩
      simp [httpHeadersParse, lib.spanFindReverse_eq _ _ headersTerminator_ne_nil,
        lib.spanFindReverse_eq _ _ crlf_ne_nil, hterm, hlast]

variable (lib) in
/-- A block without a line end is kept whole. -/
theorem usedSize_httpHeadersParse_none {raw : Span} (h : ¬ crlf.bytes <:+: raw.bytes) :
    (httpHeadersParse lib raw).usedSize = raw.size := by
  have hlast : rfind? crlf.bytes raw.bytes = none := by
    rw [infix_iff_occursAt, not_exists] at h
    exact rfind?_eq_none.mpr h
  have hterm : rfind? headersTerminator.bytes raw.bytes = none := by
    refine rfind?_eq_none.mpr fun i hi => h (infix_iff_occursAt.mpr ⟨i, hi.1, ?_⟩)
    rw [headersTerminator_bytes] at hi
    exact (List.prefix_append _ _).trans hi.2
  simp [httpHeadersParse, lib.spanFindReverse_eq _ _ headersTerminator_ne_nil,
    lib.spanFindReverse_eq _ _ crlf_ne_nil, hterm, hlast]

/-- The pairs of a pass over a kept block. -/
theorem pairsOf_replies (ptr : Nat) (lines : List Bytes) :
    pairsOf ((lineSpans ptr (listed lines)).map (lineReply lib)) =
      (lineSpans ptr lines).filterMap fun line => lib.spanSplit line nameValueSeparator := by
  have hreply : ∀ line, (lineReply lib line).toOption = lib.spanSplit line nameValueSeparator := by
    intro line
    rw [lineReply]
    cases lib.spanSplit line nameValueSeparator <;> rfl
  rw [pairsOf, List.filterMap_map]
  fun_induction listed lines generalizing ptr with
  | case1 => rfl
  | case2 =>
    simp [lineSpans, lib.spanSplit_eq _ _ nameValueSeparator_ne_nil, find?,
      nameValueSeparator_ne_nil]
  | case3 line lines hlast ih =>
    rw [lineSpans, lineSpans, List.filterMap_cons, List.filterMap_cons, ih, Function.comp_apply,
      hreply]

end

/-- On a block that ends in a line end, the pass goes through all the lines. -/
theorem passAgrees_lines {raw : Span} (hcrlf : crlf.bytes <:+: raw.bytes) :
    PassAgrees lib (httpHeadersParse lib raw) ↔
      LookupsAgree lib raw.ptr (fieldLines (httpHeadersParse lib raw).block) := by
  obtain ⟨b, hblock, hused⟩ := block_httpHeadersParse_crlf lib hcrlf
  set headers := httpHeadersParse lib raw with hheaders
  have hne : headers.usedSize ≠ 0 := by
    intro hzero
    rw [HttpHeaders.block, hzero, List.take_zero] at hblock
    simp at hblock
  have hiter : headers.iterator =
      ⟨raw.ptr, (fieldLines headers.block).flatMap (· ++ crlf.bytes)⟩ := by
    rw [fieldLines, hblock, flatMap_pieces crlf_unbordered, ← hblock]
    exact HttpHeaders.rewound_iterator lib hused
  have hpass : pass lib _ headers = _ := pass_lines hne hiter
    fun line hline => not_infix_of_mem_pieces crlf_ne_nil hline
  simp only [LookupsAgree, ← firstNamed_filterMap, ← pairsOf_replies]
  constructor
  · rintro ⟨fuel, replies, after, hreplies, h⟩ name value
    rw [← (Prod.mk.inj (pass_unique hreplies hpass)).1, ← h name value]
    exact (httpHeadersFind_ok_iff hused).symm
  · intro h
    refine ⟨_, _, _, hpass, fun name value => ?_⟩
    rw [← h name value]
    exact httpHeadersFind_ok_iff hused

/-- Nothing is found in an empty block, and a pass ends at once. -/
theorem passAgrees_nil {raw : Span} (hnil : raw.bytes = []) :
    PassAgrees lib (httpHeadersParse lib raw) ∧
      fieldLines (httpHeadersParse lib raw).block = [] := by
  have hused := @usedSize_httpHeadersParse_none lib raw (by simp [hnil])
  have hzero : (httpHeadersParse lib raw).usedSize = 0 := by
    rw [hused, Span.size, hnil, List.length_nil]
  have hblock : fieldLines (httpHeadersParse lib raw).block = [] := by
    rw [HttpHeaders.block, hzero, List.take_zero]
    rfl
  refine ⟨⟨1, [], httpHeadersParse lib raw, ?_, fun name value => ?_⟩, hblock⟩
  · rw [pass, httpHeadersGetNext, if_pos hzero]
  · rw [httpHeadersFind_ok_iff hused.le, hblock]
    simp [lineSpans, pairsOf, firstNamed]

/-- Without a line end no call of a pass gets further. -/
theorem not_passAgrees_of_no_crlf {raw : Span} (hnil : raw.bytes ≠ [])
    (hcrlf : ¬ crlf.bytes <:+: raw.bytes) : ¬ PassAgrees lib (httpHeadersParse lib raw) := by
  have hused := usedSize_httpHeadersParse_none lib hcrlf
  have hne : (httpHeadersParse lib raw).usedSize ≠ 0 := by
    rw [hused]
    exact fun hzero => hnil (List.length_eq_zero_iff.mp hzero)
  have hiter : (httpHeadersParse lib raw).iterator.bytes = raw.bytes := by
    rw [show (httpHeadersParse lib raw).iterator = _ from
      HttpHeaders.rewound_iterator lib hused.le, HttpHeaders.block, hused]
    exact List.take_length
  rintro ⟨fuel, replies, after, hreplies, -⟩
  rw [pass_stuck hne (hiter ▸ hnil) (hiter ▸ hcrlf)] at hreplies
  simp at hreplies

/-- A block with bytes but without a CRLF keeps a pass where it is; otherwise a pass and the lookups
agree as far as they take the lines alike. -/
theorem passAgrees_iff (raw : Span) :
    PassAgrees lib (httpHeadersParse lib raw) ↔
      (raw.bytes = [] ∨ crlf.bytes <:+: raw.bytes) ∧
        ReadAlike (fieldLines (httpHeadersParse lib raw).block) := by
  by_cases hcrlf : crlf.bytes <:+: raw.bytes
  · rw [passAgrees_lines lib hcrlf, readAlike_iff]
    exact (and_iff_right (.inr hcrlf)).symm
  · by_cases hnil : raw.bytes = []
    · obtain ⟨hagrees, hblock⟩ := @passAgrees_nil lib raw hnil
      refine iff_of_true hagrees ⟨.inl hnil, ?_⟩
      rw [hblock]
      refine ⟨by simp, fun before line after h => ?_⟩
      simp at h
    · exact iff_of_false (not_passAgrees_of_no_crlf lib hnil hcrlf) fun h => h.1.elim hnil hcrlf

/-- A line that is legal, found by a lookup and passed over by a pass. -/
theorem passAgrees_unspaced :
    ¬ ∀ raw, PassAgrees .reference (httpHeadersParse .reference raw) := by
  intro h
  have halike := ((passAgrees_iff .reference _).mp (h ⟨500, ascii "Content-Length:42\r\n\r\n"⟩)).2
  obtain ⟨l, hl, -⟩ := halike.repeated [] (ascii "Content-Length:42") [] (by decide) (by decide)
    (ascii "Content-Length") (by decide) (by decide)
  simp at hl

end HttpC
