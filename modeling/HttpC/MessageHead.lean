import HttpC.Messages

/-!
# Message heads

A head as a sender writes it: a start line of three tokens, field lines, a blank line. The
receive functions look for the blank line in what they have read, the parsers look for it
again behind the start line.

## Main results

* `WellFormed.received_iff` — the blank line is found once the whole head is there.
* `WellFormed.splitHeadersAndBody_fields` — with a field line, the parsers find the same one.
* `MessageHead.splitHeadersAndBody_bare` — without one they find none, if nothing follows.
-/

namespace HttpC

open ListSearch

structure MessageHead where
  first : Bytes
  second : Bytes
  third : Bytes
  /-- The field lines, each without its CRLF. -/
  fields : List Bytes
  deriving DecidableEq, Repr

namespace MessageHead

def startLine (h : MessageHead) : Bytes :=
  h.first ++ (space.bytes ++ (h.second ++ (space.bytes ++ h.third)))

def fieldBlock (h : MessageHead) : Bytes := h.fields.flatMap (· ++ crlf.bytes)

def encode (h : MessageHead) : Bytes :=
  h.startLine ++ (crlf.bytes ++ (h.fieldBlock ++ crlf.bytes))

/-- Two tokens without a space, one line without a CRLF, and field lines that are not blank. -/
structure WellFormed (h : MessageHead) : Prop where
  first : ¬ space.bytes <:+: h.first
  second : ¬ space.bytes <:+: h.second
  startLine : ¬ crlf.bytes <:+: h.startLine
  fields : ∀ f ∈ h.fields, f ≠ [] ∧ ¬ crlf.bytes <:+: f

variable {h : MessageHead}

theorem length_encode (h : MessageHead) :
    h.encode.length = startLineLength h.first h.second h.third + h.fieldBlock.length + 2 := by
  simp [encode, startLine, startLineLength]
  omega

/-- The first blank line of a stream is the one that ends its head. -/
theorem WellFormed.find?_terminator (hwf : h.WellFormed) (rest : Bytes) :
    find? headersTerminator.bytes (h.encode ++ rest) =
      some (h.startLine.length + h.fieldBlock.length) := by
  rw [headersTerminator_bytes, encode, fieldBlock]
  simp only [List.append_assoc]
  exact find?_double_lines crlf_unbordered hwf.startLine hwf.fields rest

/-- A blank line is found in the first `n` bytes of a stream once the head is among them. -/
theorem WellFormed.received_iff (hwf : h.WellFormed) (rest : Bytes) (n : Nat) :
    (rfind? headersTerminator.bytes ((h.encode ++ rest).take n)).isSome = true ↔
      h.encode.length ≤ n := by
  have hfind := hwf.find?_terminator rest
  have hlen : h.encode.length =
      h.startLine.length + h.fieldBlock.length + headersTerminator.bytes.length := by
    rw [headersTerminator_bytes]
    simp [encode]
    omega
  rw [rfind?_isSome_iff]
  constructor
  · rintro ⟨i, hi⟩
    have hle := hi.length_le
    have hocc := hi.append_right ((h.encode ++ rest).drop n)
    rw [List.take_append_drop] at hocc
    have hfirst := (find?_eq_some.mp hfind).2 i
    rw [List.length_take] at hle
    by_contra hlt
    exact hfirst (by omega) hocc
  · intro hle
    have hocc := (find?_eq_some.mp hfind).1
    rw [← List.take_append_drop n (h.encode ++ rest)] at hocc
    refine ⟨_, hocc.of_append ?_⟩
    rw [List.length_take, List.length_append]
    omega

/-- The start line of the head and what follows it. -/
theorem WellFormed.splitStartLine_eq (hwf : h.WellFormed) (rest : Bytes) :
    splitStartLine (h.encode ++ rest) =
      some (h.first, h.second, h.third, h.fieldBlock ++ (crlf.bytes ++ rest)) := by
  have hthird : ¬ crlf.bytes <:+: h.third := by
    intro hin
    refine hwf.startLine (hin.trans ?_)
    rw [MessageHead.startLine, ← List.append_assoc, ← List.append_assoc, ← List.append_assoc]
    exact (List.suffix_append _ _).isInfix
  have hsplit := splitStartLine_join hwf.first hwf.second hthird
    (h.fieldBlock ++ (crlf.bytes ++ rest))
  simpa only [encode, MessageHead.startLine, List.append_assoc] using hsplit

variable (lib : CommonLib)

/-- The block ends in the CRLF of its last line. -/
theorem exists_fieldBlock (hne : h.fields ≠ []) : ∃ b, h.fieldBlock = b ++ crlf.bytes := by
  obtain ⟨fields, f, hfields⟩ := List.eq_nil_or_concat h.fields |>.resolve_left hne
  refine ⟨fields.flatMap (· ++ crlf.bytes) ++ f, ?_⟩
  rw [fieldBlock, hfields]
  simp

/-- With a field line, the first blank line behind the start line is the one of the head. -/
theorem WellFormed.find?_fields (hwf : h.WellFormed) {b : Bytes} (hne : h.fields ≠ [])
    (hb : h.fieldBlock = b ++ crlf.bytes) (rest : Bytes) :
    find? headersTerminator.bytes (h.fieldBlock ++ (crlf.bytes ++ rest)) = some b.length := by
  obtain ⟨f, fields, hfields⟩ := List.exists_cons_of_ne_nil hne
  have hlines := hwf.fields
  rw [hfields] at hlines
  have hblock : h.fieldBlock = f ++ (crlf.bytes ++ fields.flatMap (· ++ crlf.bytes)) := by
    rw [fieldBlock, hfields, List.flatMap_cons, List.append_assoc]
  have hfind := find?_double_lines crlf_unbordered (hlines f List.mem_cons_self).2
    (fun l hl => hlines l (List.mem_cons_of_mem _ hl)) rest
  have hlen := congrArg List.length (hb.symm.trans hblock)
  simp only [List.length_append, crlf_length] at hlen
  rw [headersTerminator_bytes, hblock]
  simp only [List.append_assoc]
  rw [hfind]
  exact congrArg some
    (show f.length + (fields.flatMap (· ++ crlf.bytes)).length = b.length by omega)

/-- With a field line, the parsers split the rest of the stream at the end of the head. -/
theorem WellFormed.splitHeadersAndBody_fields (hwf : h.WellFormed) (hne : h.fields ≠ [])
    {raw : Span} {rest : Bytes} (hraw : raw.bytes = h.fieldBlock ++ (crlf.bytes ++ rest)) :
    splitHeadersAndBody lib raw =
      (raw.sub 0 h.fieldBlock.length, raw.tail (h.fieldBlock.length + 2)) := by
  obtain ⟨b, hb⟩ := exists_fieldBlock hne
  have hcut : cut? headersTerminator.bytes raw.bytes = some (b, rest) := by
    refine cut?_eq_some.mpr ⟨?_, hraw ▸ hwf.find?_fields hne hb rest⟩
    rw [hraw, hb, headersTerminator_bytes]
    simp only [List.append_assoc]
  have hlen : h.fieldBlock.length = b.length + 2 := by rw [hb, List.length_append, crlf_length]
  rw [splitHeadersAndBody_blank lib hcut, hlen]

/-- The block of field lines, as the parsers keep it. -/
theorem WellFormed.block_fields (hwf : h.WellFormed) (hne : h.fields ≠ []) {raw : Span}
    (hraw : raw.bytes = h.fieldBlock) :
    (httpHeadersParse lib raw).block = h.fieldBlock ∧
      (httpHeadersParse lib raw).usedSize ≤ raw.size := by
  obtain ⟨b, hb⟩ := exists_fieldBlock hne
  have hfind := hwf.find?_fields hne hb []
  have hlen : h.fieldBlock.length = b.length + 2 := by rw [hb, List.length_append, crlf_length]
  rw [hb]
  have hline : raw.bytes = b ++ (crlf.bytes ++ []) := by rw [hraw, hb, List.append_nil]
  refine block_httpHeadersParse_lines lib hline (by simp) fun j hj => ?_
  have hle := hj.length_le
  rw [hraw] at hle hj
  rw [headersTerminator_bytes, List.length_append, crlf_length] at hle
  exact (find?_eq_some.mp hfind).2 j (by omega) (hj.append_right _)

/-- A lookup in the parsed block answers with the field lines of the head. -/
theorem WellFormed.httpHeadersFind_fields (hwf : h.WellFormed) (hne : h.fields ≠ [])
    {raw name : Span}
    (hraw : raw.bytes = h.fieldBlock) (hname : name.bytes ≠ []) :
    (httpHeadersFind lib (httpHeadersParse lib raw) name).map Span.bytes =
      (lookup h.fields name.bytes).elim (.error .notFound) .ok := by
  obtain ⟨hblock, hused⟩ := hwf.block_fields lib hne hraw
  rw [httpHeadersFind_block lib hused hname, hblock, fieldBlock,
    fieldLines_flatMap fun f hf => (hwf.fields f hf).2]

/-- Without field lines the parsers do not see the blank line, whose first CRLF ends the start
line: if nothing follows it, there is no body. -/
theorem splitHeadersAndBody_bare {raw : Span} (hraw : raw.bytes = crlf.bytes) :
    splitHeadersAndBody lib raw = (raw, .empty) := by
  refine splitHeadersAndBody_no_blank lib (cut?_eq_none.mpr fun i hi => ?_)
  have hle := hi.length_le
  rw [hraw, headersTerminator_bytes] at hle
  simp at hle

end MessageHead

end HttpC
