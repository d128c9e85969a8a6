import HttpC.Headers

/-!
# Building header blocks

`http_headers_add` makes four copies into the free part of the buffer and looks at each for an
overflow. What stands in the used part decides what every later call returns, and only the call
that succeeds changes it.

## Main results

* `httpHeadersAdd_cases` — one call, by its result.
* `SameSet.replies` — header sets that look the same answer all calls alike.
* `httpHeadersAdd_atomic_iff` — when a call succeeds exactly if the line fits.
* `addAll_oneHeaderEach_iff` — when the lines and the lookups are those of the calls that succeeded.
-/

namespace HttpC

open ListSearch Block

variable (lib : CommonLib)

/-! ## One call -/

/-- The line that `http_headers_add` writes, without its CRLF. -/
def fieldLine (field : Span × Span) : Bytes :=
  field.1.bytes ++ (nameValueSeparator.bytes ++ field.2.bytes)

/-- Copying into a header buffer: `content` is what stands before the free part. -/
structure Filling (headers : HttpHeaders) (free : Span) (content : Bytes) : Prop where
  ptr : free.ptr = headers.buffer.ptr + content.length
  size : free.size + content.length = headers.buffer.size
  take : headers.buffer.bytes.take content.length = content

/-- What the calls on a header set can see of it. -/
structure SameSet (headers headers' : HttpHeaders) : Prop where
  ptr : headers.buffer.ptr = headers'.buffer.ptr
  size : headers.buffer.size = headers'.buffer.size
  usedSize : headers.usedSize = headers'.usedSize
  block : headers.block = headers'.block
  iterator : headers.iterator = headers'.iterator

/-- One of the copies of `http_headers_add`, its test and what comes behind it. -/
def tryCopy (headers : HttpHeaders) (free s : Span)
    (next : HttpHeaders → Span → HlResult × HttpHeaders) : HlResult × HttpHeaders :=
  if (lib.spanCopy free s).1.isEmpty then (.bufferOverflow, headers)
  else next (headers.store (lib.spanCopy free s).1) (lib.spanCopy free s).2

theorem httpHeadersAdd_eq (headers : HttpHeaders) (name value : Span) :
    httpHeadersAdd lib headers name value =
      tryCopy lib headers (lib.spanSliceToEnd headers.buffer headers.usedSize) name
        fun headers free => tryCopy lib headers free nameValueSeparator
          fun headers free => tryCopy lib headers free value
            fun headers free => tryCopy lib headers free crlf
              fun headers free =>
                (.ok, { headers with usedSize := headers.buffer.size - free.size }) := rfl

/-- A call under way: `added` has been copied behind the used part, which is as it was. -/
structure Appending (origin headers : HttpHeaders) (free : Span) (added : Bytes) : Prop where
  filling : Filling headers free (origin.block ++ added)
  same : SameSet origin headers

section

variable {lib} {origin headers headers' : HttpHeaders} {free name value s : Span}
  {content added : Bytes}

@[simp] theorem nameValueSeparator_bytes_length : nameValueSeparator.bytes.length = 2 := by decide

theorem SameSet.refl (headers : HttpHeaders) : SameSet headers headers := ⟨rfl, rfl, rfl, rfl, rfl⟩

theorem SameSet.symm (h : SameSet headers headers') : SameSet headers' headers :=
  ⟨h.ptr.symm, h.size.symm, h.usedSize.symm, h.block.symm, h.iterator.symm⟩

theorem SameSet.trans {headers'' : HttpHeaders} (h : SameSet headers headers')
    (h' : SameSet headers' headers'') : SameSet headers headers'' :=
  ⟨h.ptr.trans h'.ptr, h.size.trans h'.size, h.usedSize.trans h'.usedSize, h.block.trans h'.block,
    h.iterator.trans h'.iterator⟩

theorem HttpHeaders.length_block (h : headers.usedSize ≤ headers.buffer.size) :
    headers.block.length = headers.usedSize := by
  rw [HttpHeaders.block, List.length_take]
  exact Nat.min_eq_left h

/-- A copy that did not come out empty has appended its bytes. -/
theorem Filling.copy (h : Filling headers free content)
    (hne : ¬ (lib.spanCopy free s).1.isEmpty = true) :
    s.bytes ≠ [] ∧
      Filling (headers.store (lib.spanCopy free s).1) (lib.spanCopy free s).2
        (content ++ s.bytes) := by
  have hsize := h.size
  rw [Span.isEmpty_iff] at hne
  by_cases hfit : s.size ≤ free.size
  · rw [lib.spanCopy_eq _ _ hfit] at hne ⊢
    rw [Span.size, Span.size] at hfit hsize
    have hlen : content.length + s.bytes.length ≤ headers.buffer.bytes.length := by omega
    have hover : (overwrite headers.buffer.bytes content.length s.bytes).length =
        headers.buffer.bytes.length := length_overwrite hlen
    refine ⟨hne, ?_, ?_, ?_⟩
    · simp [HttpHeaders.store, h.ptr, Span.size]
      omega
    · simp only [HttpHeaders.store, Span.size, Span.bytes_tail, List.length_drop,
        List.length_append,
        h.ptr, Nat.add_sub_cancel_left, hover]
      omega
    · simp only [HttpHeaders.store, h.ptr, Nat.add_sub_cancel_left, List.length_append]
      rw [take_overwrite_append (by omega), h.take]
  · exact absurd (lib.spanCopy_overflow _ _ (Nat.lt_of_not_le hfit)) hne

/-- A copy into the free part leaves the used part alone. -/
theorem SameSet.store (h : SameSet origin headers) (hfill : Filling headers free content)
    (hused : origin.usedSize ≤ content.length) (hfit : s.size ≤ free.size) :
    SameSet origin (headers.store ⟨free.ptr, s.bytes⟩) := by
  have hsize := hfill.size
  rw [Span.size] at hfit
  simp only [Span.size] at hsize hfit
  have hoffset : free.ptr - headers.buffer.ptr = content.length := by
    rw [hfill.ptr, Nat.add_sub_cancel_left]
  refine ⟨h.ptr, ?_, h.usedSize, ?_, h.iterator⟩
  · rw [h.size]
    simp only [HttpHeaders.store, Span.size, hoffset]
    exact (length_overwrite (by omega)).symm
  · rw [h.block]
    simp only [HttpHeaders.block, HttpHeaders.store, hoffset]
    refine (take_eq_of_take ?_ (h.usedSize ▸ hused)).symm
    exact take_overwrite (by omega)

theorem Appending.start (h : headers.usedSize ≤ headers.buffer.size) :
    Appending headers headers (lib.spanSliceToEnd headers.buffer headers.usedSize) [] := by
  have hlen := HttpHeaders.length_block h
  rw [lib.spanSliceToEnd_eq _ _ h]
  refine ⟨⟨?_, ?_, ?_⟩, .refl headers⟩
  · rw [List.append_nil, hlen]
    rfl
  · rw [List.append_nil, hlen, Span.size, Span.bytes_tail, List.length_drop]
    exact Nat.sub_add_cancel h
  · rw [List.append_nil, hlen, HttpHeaders.block]

/-- A copy and its test: it comes out empty and nothing is stored, or its bytes are appended. -/
theorem Appending.tryCopy_cases (h : Appending origin headers free added)
    (hused : origin.usedSize ≤ origin.buffer.size) (s : Span)
    (next : HttpHeaders → Span → HlResult × HttpHeaders) :
    (s.bytes = [] ∨ origin.buffer.size < origin.usedSize + added.length + s.size) ∧
      tryCopy lib headers free s next = (.bufferOverflow, headers) ∨
    s.bytes ≠ [] ∧ ∃ headers' free', tryCopy lib headers free s next = next headers' free' ∧
      Appending origin headers' free' (added ++ s.bytes) := by
  have hsize := h.filling.size
  rw [List.length_append, HttpHeaders.length_block hused, ← h.same.size] at hsize
  unfold tryCopy
  by_cases hfit : s.size ≤ free.size
  · split_ifs with hempty
    · rw [lib.spanCopy_eq _ _ hfit, Span.isEmpty_iff] at hempty
      exact .inl ⟨.inl hempty, rfl⟩
    · obtain ⟨hne, hfill⟩ := h.filling.copy hempty
      rw [List.append_assoc] at hfill
      refine .inr ⟨hne, _, _, rfl, hfill, ?_⟩
      rw [lib.spanCopy_eq _ _ hfit]
      refine h.same.store h.filling ?_ hfit
      rw [List.length_append, HttpHeaders.length_block hused]
      exact Nat.le_add_right _ _
  · have hlt := Nat.lt_of_not_le hfit
    rw [if_pos (Span.isEmpty_iff.mpr (lib.spanCopy_overflow _ _ hlt))]
    exact .inl ⟨.inr (by omega), rfl⟩

/-- A line that `http_headers_add` can take and that fits behind the used part. -/
def LineFits (headers : HttpHeaders) (name value : Span) : Prop :=
  name.bytes ≠ [] ∧ value.bytes ≠ [] ∧
    headers.usedSize + name.size + value.size + 4 ≤ headers.buffer.size

/-- A header set with one more line. -/
structure Extends (headers headers' : HttpHeaders) (name value : Span) : Prop where
  ptr : headers'.buffer.ptr = headers.buffer.ptr
  size : headers'.buffer.size = headers.buffer.size
  usedSize : headers'.usedSize = headers.usedSize + name.size + value.size + 4
  block : headers'.block = headers.block ++ (fieldLine (name, value) ++ crlf.bytes)
  iterator : headers'.iterator = headers.iterator

variable (lib) in
/-- A call appends the line if it fits, and otherwise leaves all that can be seen as it was. -/
theorem httpHeadersAdd_cases (hused : headers.usedSize ≤ headers.buffer.size) (name value : Span) :
    LineFits headers name value ∧
      (∃ headers', httpHeadersAdd lib headers name value = (.ok, headers') ∧
        Extends headers headers' name value) ∨
    ¬ LineFits headers name value ∧
      ∃ headers', httpHeadersAdd lib headers name value = (.bufferOverflow, headers') ∧
        SameSet headers headers' := by
  have hempty : nameValueSeparator.bytes ≠ [] := by decide
  have hlen := HttpHeaders.length_block hused
  rw [httpHeadersAdd_eq]
  rcases (Appending.start hused).tryCopy_cases hused name _ with
    ⟨hwhy, hcall⟩ | ⟨hname, h1, f1, hcall, happ⟩
  · refine .inr ⟨?_, _, hcall, .refl headers⟩
    rintro ⟨hname, -, hle⟩
    rcases hwhy with hnil | hlt
    · exact hname hnil
    · simp at hlt
      omega
  rw [hcall]
  rcases happ.tryCopy_cases hused nameValueSeparator _ with
    ⟨hwhy, hcall⟩ | ⟨-, h2, f2, hcall, happ⟩
  · refine .inr ⟨?_, _, hcall, happ.same⟩
    rintro ⟨-, -, hle⟩
    have hlt := hwhy.resolve_left hempty
    simp [Span.size] at hlt hle
    omega
  rw [hcall]
  rcases happ.tryCopy_cases hused value _ with ⟨hwhy, hcall⟩ | ⟨hvalue, h3, f3, hcall, happ⟩
  · refine .inr ⟨?_, _, hcall, happ.same⟩
    rintro ⟨-, hvalue, hle⟩
    have hlt := hwhy.resolve_left hvalue
    simp [Span.size] at hlt hle
    omega
  rw [hcall]
  rcases happ.tryCopy_cases hused crlf _ with ⟨hwhy, hcall⟩ | ⟨-, h4, f4, hcall, happ⟩
  · refine .inr ⟨?_, _, hcall, happ.same⟩
    rintro ⟨-, -, hle⟩
    have hlt := hwhy.resolve_left crlf_ne_nil
    simp [Span.size] at hlt hle
    omega
  have hsize := happ.filling.size
  have hadded : [] ++ name.bytes ++ nameValueSeparator.bytes ++ value.bytes ++ crlf.bytes =
      fieldLine (name, value) ++ crlf.bytes := by
    simp only [fieldLine, List.nil_append, List.append_assoc]
  have hcount : (fieldLine (name, value) ++ crlf.bytes).length = name.size + value.size + 4 := by
    simp [fieldLine, Span.size]
    omega
  have hsame := happ.same.size
  rw [hadded, List.length_append, hlen, hcount] at hsize
  refine .inl ⟨⟨hname, hvalue, by omega⟩, _, hcall, ?_⟩
  refine ⟨happ.same.ptr.symm, hsame.symm, ?_, ?_, happ.same.iterator.symm⟩
  · dsimp only
    omega
  · have htake := happ.filling.take
    rw [hadded, List.length_append, hlen, hcount] at htake
    rw [HttpHeaders.block]
    dsimp only
    rw [← hsize, Nat.add_sub_cancel_left]
    exact htake

theorem Extends.used_le (h : Extends headers headers' name value)
    (hfits : LineFits headers name value) : headers'.usedSize ≤ headers'.buffer.size := by
  rw [h.usedSize, h.size]
  exact hfits.2.2

/-- A successful `http_headers_add` appends one field line. -/
theorem httpHeadersAdd_ok (hused : headers.usedSize ≤ headers.buffer.size)
    (h : httpHeadersAdd lib headers name value = (.ok, headers')) :
    name.bytes ≠ [] ∧ headers'.usedSize ≤ headers'.buffer.size ∧
      headers'.block = headers.block ++ (fieldLine (name, value) ++ crlf.bytes) := by
  rcases httpHeadersAdd_cases lib hused name value with
    ⟨hfits, added, hcall, hext⟩ | ⟨-, added, hcall, -⟩
  · obtain rfl : added = headers' := (Prod.mk.inj (hcall.symm.trans h)).2
    exact ⟨hfits.1, hext.used_le hfits, hext.block⟩
  · simp [hcall] at h

end

/-! ## Calls on a header set -/

/-- A stream that keeps what is written to it. -/
def record (written : Bytes) (s : Span) : Result × Bytes := (.ok, written ++ s.bytes)

/-- What `http_headers_serialize_to` writes. -/
def writtenHeaders (lib : CommonLib) (headers : HttpHeaders) : Bytes :=
  if headers.usedSize = 0 then [] else (lib.spanSlice headers.buffer 0 headers.usedSize).bytes

/-- `http_headers_find` by content, its refusals included. -/
def answer (headers : HttpHeaders) (name : Span) : Except HlResult Bytes :=
  (httpHeadersFind lib headers name).map Span.bytes

/-- A call on a header set that is in use. -/
inductive HeaderCall where
  | add (name value : Span)
  | find (name : Span)
  | getNext
  | serialize

/-- What the caller gets to see. -/
inductive HeaderReply where
  | added (result : HlResult)
  | found (value : Except HlResult Span)
  | next (pair : Except HlResult (Span × Span))
  | written (bytes : Result × Bytes)

def HttpHeaders.call (headers : HttpHeaders) : HeaderCall → HeaderReply × HttpHeaders
  | .add name value =>
    let (result, headers) := httpHeadersAdd lib headers name value
    (.added result, headers)
  | .find name => (.found (httpHeadersFind lib headers name), headers)
  | .getNext =>
    let (pair, headers) := httpHeadersGetNext lib headers
    (.next pair, headers)
  | .serialize => (.written (httpHeadersSerializeTo lib headers record []), headers)

/-- The replies to calls in a row. -/
def HttpHeaders.replies : HttpHeaders → List HeaderCall → List HeaderReply
  | _, [] => []
  | headers, c :: calls => (headers.call lib c).1 :: HttpHeaders.replies (headers.call lib c).2 calls

section

variable {lib} {headers headers' : HttpHeaders} {name value : Span}

theorem writtenHeaders_eq (hused : headers.usedSize ≤ headers.buffer.size) :
    writtenHeaders lib headers = headers.block := by
  rw [writtenHeaders, HttpHeaders.block]
  split_ifs with hzero
  · rw [hzero, List.take_zero]
  · rw [lib.spanSlice_eq _ _ _ (by omega)]
    simp

theorem httpHeadersSerializeTo_record (headers : HttpHeaders) (written : Bytes) :
    httpHeadersSerializeTo lib headers record written =
      (.ok, written ++ writtenHeaders lib headers) := by
  rw [httpHeadersSerializeTo, writtenHeaders]
  split_ifs
  · rw [List.append_nil]
  · rfl

theorem SameSet.used_le (h : SameSet headers headers')
    (hused : headers.usedSize ≤ headers.buffer.size) :
    headers'.usedSize ≤ headers'.buffer.size := by
  rw [← h.usedSize, ← h.size]
  exact hused

variable (lib) in
/-- The used part, as the calls slice it off. -/
theorem SameSet.slice (h : SameSet headers headers')
    (hused : headers.usedSize ≤ headers.buffer.size) :
    lib.spanSlice headers.buffer 0 headers.usedSize =
      lib.spanSlice headers'.buffer 0 headers'.usedSize := by
  have hused' := h.used_le hused
  rw [lib.spanSlice_eq _ _ _ (by omega), lib.spanSlice_eq _ _ _ (by omega)]
  simp only [Span.sub, h.ptr, List.drop_zero, Span.mk.injEq, true_and]
  exact h.block

theorem SameSet.fits_iff (h : SameSet headers headers') (name value : Span) :
    LineFits headers name value ↔ LineFits headers' name value := by
  rw [LineFits, LineFits, h.usedSize, h.size]

variable (lib) in
/-- Sets that look the same answer a call alike, and still look the same after it. -/
theorem SameSet.call (h : SameSet headers headers')
    (hused : headers.usedSize ≤ headers.buffer.size) (c : HeaderCall) :
    (headers.call lib c).1 = (headers'.call lib c).1 ∧
      SameSet (headers.call lib c).2 (headers'.call lib c).2 ∧
      (headers.call lib c).2.usedSize ≤ (headers.call lib c).2.buffer.size := by
  have hslice := h.slice lib hused
  rw [← h.usedSize] at hslice
  cases c with
  | add name value =>
    simp only [HttpHeaders.call]
    rcases httpHeadersAdd_cases lib hused name value with
      ⟨hfits, added, hcall, hext⟩ | ⟨hfits, added, hcall, hsame⟩
    · rcases httpHeadersAdd_cases lib (h.used_le hused) name value with
        ⟨-, added', hcall', hext'⟩ | ⟨hfits', -⟩
      · rw [hcall, hcall']
        refine ⟨rfl, ⟨?_, ?_, ?_, ?_, ?_⟩, hext.used_le hfits⟩
        · rw [hext.ptr, hext'.ptr, h.ptr]
        · rw [hext.size, hext'.size, h.size]
        · rw [hext.usedSize, hext'.usedSize, h.usedSize]
        · rw [hext.block, hext'.block, h.block]
        · rw [hext.iterator, hext'.iterator, h.iterator]
      · exact absurd ((h.fits_iff name value).mp hfits) hfits'
    · rcases httpHeadersAdd_cases lib (h.used_le hused) name value with
        ⟨hfits', -⟩ | ⟨-, added', hcall', hsame'⟩
      · exact absurd ((h.fits_iff name value).mpr hfits') hfits
      · rw [hcall, hcall']
        exact ⟨rfl, (hsame.symm.trans h).trans hsame', hsame.used_le hused⟩
  | find name =>
    refine ⟨?_, h, hused⟩
    simp only [HttpHeaders.call, httpHeadersFind, hslice, ← h.usedSize]
  | getNext =>
    obtain ⟨buffer, used, iterator⟩ := headers
    obtain ⟨buffer', used', iterator'⟩ := headers'
    obtain rfl : used = used' := h.usedSize
    obtain rfl : iterator = iterator' := h.iterator
    have hmove : ∀ iterator', SameSet ⟨buffer, used, iterator'⟩ ⟨buffer', used, iterator'⟩ :=
      fun iterator' => ⟨h.ptr, h.size, rfl, h.block, rfl⟩
    simp only [HttpHeaders.call, httpHeadersGetNext]
    split_ifs
    · exact ⟨rfl, h, hused⟩
    · rw [hslice]
      exact ⟨rfl, hmove _, hused⟩
    · cases hline : lib.spanSplit iterator crlf with
      | none => exact ⟨rfl, h, hused⟩
      | some parts =>
        obtain ⟨line, rest⟩ := parts
        dsimp only
        cases lib.spanSplit line nameValueSeparator with
        | none => exact ⟨rfl, hmove rest, hused⟩
        | some pair => exact ⟨rfl, hmove rest, hused⟩
  | serialize =>
    refine ⟨?_, h, hused⟩
    simp only [HttpHeaders.call, httpHeadersSerializeTo, hslice, ← h.usedSize]

/-- Sets that look the same cannot be told apart by calls. -/
theorem SameSet.replies (h : SameSet headers headers')
    (hused : headers.usedSize ≤ headers.buffer.size) (calls : List HeaderCall) :
    headers.replies lib calls = headers'.replies lib calls := by
  induction calls generalizing headers headers' with
  | nil => rfl
  | cons c calls ih =>
    obtain ⟨hreply, hsame, hused'⟩ := h.call lib hused c
    rw [HttpHeaders.replies, HttpHeaders.replies, hreply, ih hsame hused']

end

/-! ## Atomicity -/

/-- A call succeeds exactly if its line fits, and a call that fails changes nothing. -/
structure AddsAtomically (headers : HttpHeaders) (name value : Span) : Prop where
  succeeds : (httpHeadersAdd lib headers name value).1 = .ok ↔
    headers.usedSize + name.size + value.size + 4 ≤ headers.buffer.size
  appended : (httpHeadersAdd lib headers name value).1 = .ok →
    (httpHeadersAdd lib headers name value).2.block =
      headers.block ++ (name.bytes ++ (ascii ": " ++ (value.bytes ++ crlf.bytes)))
  unchanged : (httpHeadersAdd lib headers name value).1 ≠ .ok →
    (httpHeadersAdd lib headers name value).2.usedSize = headers.usedSize ∧
      (httpHeadersAdd lib headers name value).2.block = headers.block ∧
      ∀ calls, (httpHeadersAdd lib headers name value).2.replies lib calls =
        headers.replies lib calls

/-- An empty value is refused, whether its line fits or not. -/
theorem httpHeadersAdd_atomic_iff {headers : HttpHeaders} {name value : Span}
    (hused : headers.usedSize ≤ headers.buffer.size) (hname : name.bytes ≠ []) :
    AddsAtomically lib headers name value ↔
      (value.bytes ≠ [] ∨ headers.buffer.size < headers.usedSize + name.size + 4) := by
  rcases httpHeadersAdd_cases lib hused name value with
    ⟨hfits, added, hcall, hext⟩ | ⟨hfits, added, hcall, hsame⟩
  · refine iff_of_true ⟨?_, ?_, ?_⟩ (.inl hfits.2.1)
    · rw [hcall]
      exact iff_of_true rfl hfits.2.2
    · intro _
      rw [hcall]
      dsimp only
      rw [hext.block]
      simp only [fieldLine, nameValueSeparator, Span.bytes_lit, List.append_assoc]
    · rw [hcall]
      exact fun hfailed => absurd rfl hfailed
  · have hfailed : (httpHeadersAdd lib headers name value).1 ≠ .ok := by
      rw [hcall]
      exact HlResult.noConfusion
    constructor
    · intro h
      by_contra hcond
      rw [not_or, not_not, Nat.not_lt] at hcond
      obtain ⟨hempty, hroom⟩ := hcond
      refine hfailed (h.succeeds.mpr ?_)
      simp only [Span.size, hempty, List.length_nil] at hroom ⊢
      omega
    · intro hcond
      refine ⟨iff_of_false hfailed fun hle => ?_, fun hok => absurd hok hfailed, fun _ => ?_⟩
      · rcases hcond with hvalue | hlt
        · exact hfits ⟨hname, hvalue, hle⟩
        · omega
      · rw [hcall]
        exact ⟨hsame.usedSize.symm, hsame.block.symm, fun calls => (hsame.replies hused calls).symm⟩

/-- A line that fills the buffer exactly. -/
theorem httpHeadersAdd_atomic_full :
    AddsAtomically .reference (httpHeadersInit ⟨500, List.replicate 10 0⟩) (.lit "Host") (.lit "ab") :=
  (httpHeadersAdd_atomic_iff .reference (by decide) (by decide)).mpr (.inl (by decide))

/-- There is room for a line without a value, and still the call fails. -/
theorem httpHeadersAdd_refuses_empty :
    ¬ ∀ (headers : HttpHeaders) (name value : Span), headers.usedSize ≤ headers.buffer.size →
      name.bytes ≠ [] → AddsAtomically .reference headers name value := by
  intro h
  have hadd := h (httpHeadersInit ⟨500, List.replicate 9 0⟩) (.lit "Host") .empty (by decide)
    (by decide)
  exact absurd (hadd.succeeds.mpr (by decide)) (by decide)

/-! ## Calls in a row -/

/-- `http_headers_add` calls in a row, up to the first that fails. -/
def addFields : HttpHeaders → List (Span × Span) → HlResult × HttpHeaders
  | headers, [] => (.ok, headers)
  | headers, (name, value) :: fields =>
    match httpHeadersAdd lib headers name value with
    | (.ok, headers) => addFields headers fields
    | failure => failure

/-- `http_headers_add` calls in a row, whatever they return: the fields of those that succeed, and
the set they leave. -/
def addAll : HttpHeaders → List (Span × Span) → List (Span × Span) × HttpHeaders
  | headers, [] => ([], headers)
  | headers, (name, value) :: calls =>
    match httpHeadersAdd lib headers name value with
    | (.ok, headers) => ((name, value) :: (addAll headers calls).1, (addAll headers calls).2)
    | (_, headers) => addAll headers calls

section

variable {lib} {headers headers' : HttpHeaders}

theorem addFields_ok {fields : List (Span × Span)} (hused : headers.usedSize ≤ headers.buffer.size)
    (h : addFields lib headers fields = (.ok, headers')) :
    (∀ f ∈ fields, f.1.bytes ≠ []) ∧ headers'.usedSize ≤ headers'.buffer.size ∧
      headers'.block = headers.block ++ (fields.map fieldLine).flatMap (· ++ crlf.bytes) := by
  induction fields generalizing headers with
  | nil =>
    obtain rfl := (Prod.mk.inj h).2
    exact ⟨by simp, hused, by simp⟩
  | cons field fields ih =>
    obtain ⟨name, value⟩ := field
    rw [addFields] at h
    rcases hadd : httpHeadersAdd lib headers name value with ⟨result, added⟩
    rw [hadd] at h
    cases result with
    | ok =>
      obtain ⟨hname, hused', hblock⟩ := httpHeadersAdd_ok hused hadd
      obtain ⟨hnames, hused'', hblock'⟩ := ih hused' h
      refine ⟨?_, hused'', ?_⟩
      · rintro f (_ | ⟨_, hf⟩)
        · exact hname
        · exact hnames f hf
      · rw [hblock', hblock, List.map_cons, List.flatMap_cons, List.append_assoc]
    | invalidArg | eof | notFound | error | bufferOverflow => simp at h

variable (lib) in
theorem addAll_block (hused : headers.usedSize ≤ headers.buffer.size) (calls : List (Span × Span)) :
    (∀ f ∈ (addAll lib headers calls).1, f.1.bytes ≠ []) ∧
      (addAll lib headers calls).2.usedSize ≤ (addAll lib headers calls).2.buffer.size ∧
      (addAll lib headers calls).2.block = headers.block ++
        ((addAll lib headers calls).1.map fieldLine).flatMap (· ++ crlf.bytes) := by
  induction calls generalizing headers with
  | nil => exact ⟨by simp [addAll], hused, by simp [addAll]⟩
  | cons call calls ih =>
    obtain ⟨name, value⟩ := call
    rcases httpHeadersAdd_cases lib hused name value with
      ⟨hfits, added, hcall, hext⟩ | ⟨-, added, hcall, hsame⟩
    · obtain ⟨hnames, hused', hblock⟩ := ih (hext.used_le hfits)
      simp only [addAll, hcall]
      refine ⟨?_, hused', ?_⟩
      · rintro f (_ | ⟨_, hf⟩)
        · exact hfits.1
        · exact hnames f hf
      · rw [hblock, hext.block, List.map_cons, List.flatMap_cons, List.append_assoc]
    · simp only [addAll, hcall, hsame.block]
      exact ih (hsame.used_le hused)

/-! ## What the lines say -/

theorem fieldLine_no_crlf {f : Span × Span} :
    ¬ crlf.bytes <:+: fieldLine f ↔ ¬ crlf.bytes <:+: f.1.bytes ∧ ¬ crlf.bytes <:+: f.2.bytes := by
  have hsep : nameValueSeparator.bytes = [58, 32] := by decide
  have hcolon : (58 : UInt8) ∉ crlf.bytes := by decide
  have hblank : (32 : UInt8) ∉ crlf.bytes := by decide
  constructor
  · intro hline
    refine ⟨fun hname => hline (hname.trans ?_), fun hvalue => hline (hvalue.trans ?_)⟩
    · exact (List.prefix_append _ _).isInfix
    · exact ((List.suffix_append _ _).trans (List.suffix_append _ _)).isInfix
  · rintro ⟨hname, hvalue⟩ hin
    rw [fieldLine, hsep] at hin
    rcases infix_append_cons hcolon hin with hin | hin
    · exact hname hin
    · rcases infix_append_cons (x := []) hblank hin with hin | hin
      · simp at hin
      · exact hvalue hin

theorem fieldValue_fieldLine {f : Span × Span} (h : ¬ headerNameTerminator.bytes <:+: f.1.bytes)
    (name : Bytes) :
    fieldValue name (fieldLine f) =
      if lower f.1.bytes = lower name then some (trimBlanks (32 :: f.2.bytes)) else none := by
  have hsep : nameValueSeparator.bytes = headerNameTerminator.bytes ++ [32] := by decide
  have hunbordered : Unbordered headerNameTerminator.bytes := by
    rw [headerNameTerminator_bytes]
    exact unbordered_singleton 58
  rw [fieldValue, fieldLine, hsep, List.append_assoc, cut?_append_sep hunbordered h]
  rfl

/-- Letter case aside, names have their colons at the same places. -/
theorem colon_mem_of_lower {n m : Bytes} (h : lower n = lower m) (hcolon : 58 ∈ m) : 58 ∈ n := by
  have hmem : (58 : UInt8) ∈ lower n := by
    rw [h]
    exact List.mem_map.mpr ⟨58, hcolon, by decide⟩
  obtain ⟨b, hb, hlower⟩ := List.mem_map.mp hmem
  have hb58 : b = 58 := by
    rw [lowerByte] at hlower
    split_ifs at hlower
    · grind
    · exact hlower
  rwa [hb58] at hb

/-- A line whose name holds a colon answers no lookup for that name. -/
theorem fieldValue_colon {name : Bytes} (h : 58 ∈ name) (line : Bytes) :
    fieldValue name line = none := by
  rw [fieldValue]
  cases hcut : cut? headerNameTerminator.bytes line with
  | none => rfl
  | some parts =>
    obtain ⟨n, v⟩ := parts
    have hn : ¬ headerNameTerminator.bytes <:+: n :=
      not_infix_of_cut?_left headerNameTerminator_ne_nil hcut
    rw [headerNameTerminator_bytes, List.singleton_infix_iff] at hn
    exact if_neg fun hsame => hn (colon_mem_of_lower hsame h)

theorem trimBlanks_cons_space (v : Bytes) : trimBlanks (32 :: v) = trimBlanks v := by
  rw [trimBlanks, List.dropWhile_cons_of_pos (by decide), trimBlanks]

/-- A lookup over written lines is a search through the pairs. -/
theorem lookup_fieldLines {fields : List (Span × Span)} (h : ∀ f ∈ fields, 58 ∉ f.1.bytes)
    (name : Bytes) :
    lookup (fields.map fieldLine) name =
      (fields.find? fun f => lower f.1.bytes = lower name).map fun f => trimBlanks f.2.bytes := by
  induction fields with
  | nil => rfl
  | cons f fields ih =>
    have hf : ¬ headerNameTerminator.bytes <:+: f.1.bytes := by
      rw [headerNameTerminator_bytes, List.singleton_infix_iff]
      exact h f List.mem_cons_self
    rw [List.map_cons, lookup_cons, fieldValue_fieldLine hf, trimBlanks_cons_space,
      ih fun g hg => h g (List.mem_cons_of_mem _ hg), List.find?_cons]
    by_cases hname : lower f.1.bytes = lower name
    · simp [hname]
    · simp [hname]

end

/-- A header block that successful `http_headers_add` calls have built from names and values
without a CRLF. -/
structure BuiltHeaders (headers : HttpHeaders) (fields : List (Span × Span)) : Prop where
  added : ∃ buffer, addFields lib (httpHeadersInit buffer) fields = (.ok, headers)
  lines : ∀ f ∈ fields, ¬ crlf.bytes <:+: f.1.bytes ∧ ¬ crlf.bytes <:+: f.2.bytes

section

variable {lib} {headers : HttpHeaders} {fields : List (Span × Span)}

theorem BuiltHeaders.block (h : BuiltHeaders lib headers fields) :
    headers.usedSize ≤ headers.buffer.size ∧
      headers.block = (fields.map fieldLine).flatMap (· ++ crlf.bytes) := by
  obtain ⟨buffer, hadd⟩ := h.added
  obtain ⟨-, hused, hblock⟩ := addFields_ok (Nat.zero_le _) hadd
  exact ⟨hused, hblock⟩

/-- A field line is neither blank nor more than one line. -/
theorem BuiltHeaders.fieldLine (h : BuiltHeaders lib headers fields) :
    ∀ line ∈ fields.map fieldLine, line ≠ [] ∧ ¬ crlf.bytes <:+: line := by
  obtain ⟨buffer, hadd⟩ := h.added
  obtain ⟨hnames, -, -⟩ := addFields_ok (Nat.zero_le _) hadd
  intro line hline
  obtain ⟨f, hf, rfl⟩ := List.mem_map.mp hline
  refine ⟨?_, fieldLine_no_crlf.mpr (h.lines f hf)⟩
  simp [HttpC.fieldLine, hnames f hf]

end

/-! ## One header each -/

/-- One line for each field that was added, and the lookups find these and nothing else. -/
structure OneHeaderEach (headers : HttpHeaders) (added : List (Span × Span)) : Prop where
  lines : fieldLines (writtenHeaders lib headers) = added.map fieldLine
  lookups : ∀ name : Span, name.bytes ≠ [] → answer lib headers name =
    ((added.find? fun f => lower f.1.bytes = lower name.bytes).map
      fun f => trimBlanks f.2.bytes).elim (.error .notFound) .ok

/-- Neither names nor values are looked at when they are copied, so a colon in a name or a CRLF
in either is read back as what it means there. -/
theorem addAll_oneHeaderEach_iff (buffer : Span) (calls : List (Span × Span)) :
    let out := addAll lib (httpHeadersInit buffer) calls
    OneHeaderEach lib out.2 out.1 ↔
      ∀ f ∈ out.1, 58 ∉ f.1.bytes ∧ ¬ crlf.bytes <:+: f.1.bytes ∧ ¬ crlf.bytes <:+: f.2.bytes := by
  intro out
  have hstart : (httpHeadersInit buffer).usedSize ≤ (httpHeadersInit buffer).buffer.size :=
    Nat.zero_le _
  obtain ⟨hnames, hused, hblock⟩ := addAll_block lib hstart calls
  change ∀ f ∈ out.1, _ at hnames
  change out.2.block = [] ++ (out.1.map fieldLine).flatMap (· ++ crlf.bytes) at hblock
  rw [List.nil_append] at hblock
  constructor
  · intro h f hf
    have hlines := h.lines
    rw [writtenHeaders_eq hused] at hlines
    have hline : ¬ crlf.bytes <:+: fieldLine f := by
      have hmem : fieldLine f ∈ fieldLines out.2.block := by
        rw [hlines]
        exact List.mem_map_of_mem hf
      exact not_infix_of_mem_pieces crlf_ne_nil hmem
    refine ⟨fun hcolon => ?_, fieldLine_no_crlf.mp hline⟩
    -- the pairs say that the name is there, the reader never sees a name with a colon
    have hanswer := h.lookups f.1 (hnames f hf)
    have hnone : lookup (fieldLines out.2.block) f.1.bytes = none :=
      lookup_eq_none.mpr fun line _ => fieldValue_colon hcolon line
    rw [answer, httpHeadersFind_block lib hused (hnames f hf), hnone] at hanswer
    cases hfind : out.1.find? fun g => lower g.1.bytes = lower f.1.bytes with
    | none => exact absurd (List.find?_eq_none.mp hfind f hf) (by simp)
    | some g =>
      rw [hfind] at hanswer
      simp at hanswer
  · intro h
    have hlines : fieldLines out.2.block = out.1.map fieldLine := by
      rw [hblock]
      refine fieldLines_flatMap fun line hline => ?_
      obtain ⟨f, hf, rfl⟩ := List.mem_map.mp hline
      exact fieldLine_no_crlf.mpr (h f hf).2
    refine ⟨?_, fun name hname => ?_⟩
    · rw [writtenHeaders_eq hused, hlines]
    · rw [answer, httpHeadersFind_block lib hused hname, hlines,
        lookup_fieldLines fun f hf => (h f hf).1]

/-- A value with a CRLF inside brings a header that nobody added. -/
theorem addAll_injects :
    ¬ ∀ (buffer : Span) (calls : List (Span × Span)),
      OneHeaderEach .reference (addAll .reference (httpHeadersInit buffer) calls).2
        (addAll .reference (httpHeadersInit buffer) calls).1 := by
  intro h
  have hone := h ⟨500, List.replicate 32 0⟩ [(.lit "A", .lit "b\r\nX: y")]
  exact absurd hone.lines (by decide)

end HttpC
