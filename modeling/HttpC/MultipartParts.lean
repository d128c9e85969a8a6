import HttpC.Multipart

/-!
# Parts and their encoding

The encoding of RFC 2046 and what `mp_iterator_next` makes of it. Each call starts at a delimiter,
goes over the header lines of a part and looks for the next delimiter in its data.

## Main results

* `mpIteratorNext_part`, `mpIteratorNext_cut` — one call on a part that the search goes through,
  and on one that it does not.
* `multipart_roundtrip_iff` — when the iteration returns the parts that were encoded.
-/

namespace HttpC

open ListSearch

/-! ## Parts -/

/-- A header line of a part. -/
structure PartHeader where
  name : Bytes
  /-- Blanks between the colon and the value. -/
  blanks : Bytes
  value : Bytes
  deriving DecidableEq, Repr

namespace PartHeader

/-- The line without its CRLF. -/
def line (h : PartHeader) : Bytes := h.name ++ 58 :: (h.blanks ++ h.value)

structure WellFormed (h : PartHeader) : Prop where
  colon : 58 ∉ h.name
  name : ¬ crlf.bytes <:+: h.name
  blanks : ∀ b ∈ h.blanks, isBlank b = true
  value : ¬ crlf.bytes <:+: h.value
  lead : ∀ b ∈ h.value.head?, isBlank b = false

instance (h : PartHeader) : Decidable h.WellFormed :=
  decidable_of_iff (58 ∉ h.name ∧ ¬ crlf.bytes <:+: h.name ∧ h.blanks.all isBlank = true ∧
      ¬ crlf.bytes <:+: h.value ∧ h.value.head?.all (fun b => !isBlank b) = true)
    ⟨fun ⟨h1, h2, h3, h4, h5⟩ => ⟨h1, h2, List.all_eq_true.mp h3, h4, by
      simpa [Option.all_eq_true] using h5⟩,
      fun h => ⟨h.colon, h.name, List.all_eq_true.mpr h.blanks, h.value, by
        simpa [Option.all_eq_true] using h.lead⟩⟩

theorem WellFormed.line_no_crlf {h : PartHeader} (hwf : h.WellFormed) :
    ¬ crlf.bytes <:+: h.line := by
  have hblanks : ∀ blanks : Bytes, (∀ b ∈ blanks, isBlank b = true) →
      ¬ crlf.bytes <:+: blanks ++ h.value := by
    intro blanks
    induction blanks with
    | nil => exact fun _ => hwf.value
    | cons b blanks ih =>
      intro hall hin
      have hb : b ∉ crlf.bytes := by
        have hblank := hall b List.mem_cons_self
        rw [crlf_bytes]
        rintro hmem
        simp only [List.mem_cons, List.not_mem_nil, or_false] at hmem
        rcases hmem with rfl | rfl <;> revert hblank <;> decide
      rcases infix_append_cons (x := []) hb hin with hnil | hrest
      · simp [crlf_bytes] at hnil
      · exact ih (fun c hc => hall c (List.mem_cons_of_mem _ hc)) hrest
  intro hin
  rcases infix_append_cons (by decide) hin with hname | hrest
  · exact hwf.name hname
  · exact hblanks h.blanks hwf.blanks hrest

theorem line_ne_nil (h : PartHeader) : h.line ≠ [] := by simp [line]

end PartHeader

/-- A part to be encoded. -/
structure Part where
  headers : List PartHeader
  data : Bytes
  deriving DecidableEq, Repr

namespace Part

def block (p : Part) : Bytes := p.headers.flatMap fun h => h.line ++ crlf.bytes

/-- Where the data begin, behind the start of the delimiter. -/
def start (boundary : Bytes) (p : Part) : Nat := 2 + boundary.length + 2 + p.block.length + 2

/-- The value of the Content-Type line, the last one if there are several. -/
def contentType (p : Part) : Bytes :=
  p.headers.foldl (fun value h => if lower h.name = lower CONTENT_TYPE.bytes then h.value else value)
    []

structure WellFormed (p : Part) : Prop where
  nonempty : p.headers ≠ []
  headers : ∀ h ∈ p.headers, h.WellFormed

instance (p : Part) : Decidable p.WellFormed :=
  decidable_of_iff (p.headers ≠ [] ∧ ∀ h ∈ p.headers, h.WellFormed)
    ⟨fun ⟨h1, h2⟩ => ⟨h1, h2⟩, fun h => ⟨h.nonempty, h.headers⟩⟩

end Part

/-- The encoding of RFC 2046: a delimiter, the header lines, a blank line and the data for each
part, and the closing delimiter. -/
def encodeParts (boundary : Bytes) : List Part → Bytes
  | [] => dashDash.bytes ++ (boundary ++ dashDash.bytes)
  | p :: parts =>
    dashDash.bytes ++ (boundary ++ (crlf.bytes ++ (p.block ++ (crlf.bytes ++
      (p.data ++ (crlf.bytes ++ encodeParts boundary parts))))))

/-- The calls, each with the structure of the last, return these parts, with their data and their
Content-Type values, and then `end_of_data`. -/
def Yields (lib : CommonLib) (out : MpPart) : MpIterator → List Part → Prop
  | it, [] => (mpIteratorNext lib it out).1 = .endOfData
  | it, p :: parts =>
    ∃ it' out', mpIteratorNext lib it out = (.ok, it', out') ∧ out'.data.bytes = p.data ∧
      out'.contentType.bytes = p.contentType ∧ Yields lib out' it' parts

/-! ## Header lines -/

section

variable (lib : CommonLib)

/-- A header line is read as its name and its value. -/
theorem parseHeaderLine_line {h : PartHeader} (hwf : h.WellFormed) {cursor : Span} {rest : Bytes}
    (hcursor : cursor.bytes = h.line ++ (crlf.bytes ++ rest)) (hsize : cursor.size < 2 ^ 31) :
    ∃ name value cursor' : Span, parseHeaderLine lib cursor = (some (name, value), cursor') ∧
      name.bytes = h.name ∧ value.bytes = h.value ∧ cursor'.bytes = rest := by
  have hline := hwf.line_no_crlf
  have hfind : find? crlf.bytes cursor.bytes = some h.line.length := by
    rw [hcursor]
    exact find?_append_sep crlf_unbordered hline rest
  have hlength := congrArg List.length hcursor
  simp only [List.length_append, crlf_length] at hlength
  have hstart : ¬ crlf.bytes <+: cursor.bytes := by
    rw [hcursor, ← occursAt_zero]
    exact crlf_unbordered.not_occursAt hline (List.length_pos_iff.mpr h.line_ne_nil)
  have hslice : (cursor.sub 0 h.line.length).bytes = h.line := by
    rw [Span.bytes_sub, List.drop_zero, hcursor, List.take_left]
  have hcut : cut? headerNameTerminator.bytes (cursor.sub 0 h.line.length).bytes =
      some (h.name, h.blanks ++ h.value) := by
    rw [hslice, PartHeader.line]
    exact cut?_append_sep (unbordered_singleton 58)
      (fun hin => hwf.colon (hin.subset (List.mem_singleton_self _))) _
  have hvalue : ((cursor.sub 0 h.line.length).tail (h.name.length + 1)).bytes =
      h.blanks ++ h.value := by
    rw [Span.bytes_tail, hslice, PartHeader.line, ← List.drop_drop, List.drop_left]
    rfl
  have htrim : (h.blanks ++ h.value).dropWhile isBlank = h.value := by
    rw [List.dropWhile_append_of_pos hwf.blanks]
    cases hv : h.value with
    | nil => rfl
    | cons b rest =>
      exact List.dropWhile_cons_of_neg (by simp [hwf.lead b (by rw [hv]; rfl)])
  have hnonempty : ¬ cursor.isEmpty = true := by
    rw [Span.isEmpty_iff, ← List.length_eq_zero_iff]
    omega
  have hrun : parseHeaderLine lib cursor =
      (some ((cursor.sub 0 h.line.length).sub 0 h.name.length,
        let value := (cursor.sub 0 h.line.length).tail (h.name.length + 1)
        skipLeading lib isBlank value.size value), cursor.tail (h.line.length + 2)) := by
    rw [parseHeaderLine, if_neg hnonempty, if_neg hstart,
      lib.spanFindInt_of_lt _ crlf_ne_nil hfind (by rw [Span.size] at hsize; omega)]
    dsimp only
    rw [lib.spanSlice_eq _ _ _ (by rw [Span.size]; omega),
      CommonLib.spanSplit_some (by decide) hcut]
    rfl
  refine ⟨_, _, _, hrun, ?_, ?_, ?_⟩
  · rw [Span.bytes_sub, List.drop_zero, hslice, PartHeader.line, List.take_left]
  · dsimp only
    rw [bytes_skipLeading lib _ (Nat.le_refl _), hvalue, htrim]
  · rw [Span.bytes_tail, hcursor, ← List.drop_drop, List.drop_left, List.drop_left' crlf_length]

/-- Well-formed header lines are read one after the other, each as its name and its value. -/
theorem parseHeaderLines_eq {headers : List PartHeader} (hwf : ∀ h ∈ headers, h.WellFormed)
    {fuel : Nat} {hcursor : Span} (out : MpPart)
    (hbytes : hcursor.bytes = headers.flatMap fun h => h.line ++ crlf.bytes)
    (hsize : hcursor.size < 2 ^ 31) (hfuel : hcursor.size < fuel) :
    ∃ read : List (Span × Span),
      read.map (fun r => (r.1.bytes, r.2.bytes)) = headers.map (fun h => (h.name, h.value)) ∧
      parseHeaderLines lib fuel hcursor out =
        read.foldl (fun out r => out.addHeader lib r.1 r.2) out := by
  induction headers generalizing fuel hcursor out with
  | nil =>
    obtain ⟨fuel, rfl⟩ : ∃ n, fuel = n + 1 := ⟨fuel - 1, by omega⟩
    have hnone : parseHeaderLine lib hcursor = (none, hcursor) :=
      if_pos (Span.isEmpty_iff.mpr hbytes)
    refine ⟨[], rfl, ?_⟩
    rw [parseHeaderLines, hnone]
    rfl
  | cons h headers ih =>
    obtain ⟨fuel, rfl⟩ : ∃ n, fuel = n + 1 := ⟨fuel - 1, by omega⟩
    rw [List.flatMap_cons, List.append_assoc] at hbytes
    obtain ⟨name, value, cursor, hline, hname, hvalue, hrest⟩ :=
      parseHeaderLine_line lib (hwf h List.mem_cons_self) hbytes hsize
    have hlength := congrArg List.length hbytes
    simp only [List.length_append, crlf_length] at hlength
    rw [Span.size] at hfuel hsize
    obtain ⟨read, hread, hloop⟩ := ih (fun h' hh' => hwf h' (List.mem_cons_of_mem _ hh'))
      (out.addHeader lib name value) hrest (by rw [Span.size, hrest]; omega)
      (show cursor.size < fuel by
        rw [Span.size, hrest]
        omega)
    refine ⟨(name, value) :: read, ?_, ?_⟩
    · rw [List.map_cons, List.map_cons, hread, hname, hvalue]
    · rw [parseHeaderLines, hline]
      exact hloop

/-- What the header lines of a part say about its Content-Type; its data is not touched. -/
theorem parseHeaderLines_block {headers : List PartHeader} (hwf : ∀ h ∈ headers, h.WellFormed)
    {fuel : Nat} {hcursor : Span} (out : MpPart)
    (hbytes : hcursor.bytes = headers.flatMap fun h => h.line ++ crlf.bytes)
    (hsize : hcursor.size < 2 ^ 31) (hfuel : hcursor.size < fuel) :
    (parseHeaderLines lib fuel hcursor out).data = out.data ∧
      (parseHeaderLines lib fuel hcursor out).contentType.bytes =
        headers.foldl (fun value h =>
          if lower h.name = lower CONTENT_TYPE.bytes then h.value else value)
          out.contentType.bytes := by
  obtain ⟨read, hread, hloop⟩ := parseHeaderLines_eq lib hwf out hbytes hsize hfuel
  rw [hloop]
  clear hloop hbytes hwf hsize
  induction read generalizing headers out with
  | nil =>
    obtain rfl := List.map_eq_nil_iff.mp hread.symm
    exact ⟨rfl, rfl⟩
  | cons r read ih =>
    obtain ⟨h, headers, rfl, hh, hread⟩ := List.map_eq_cons_iff.mp hread.symm
    obtain ⟨hname, hvalue⟩ := Prod.mk.inj hh
    obtain ⟨hdata, htype⟩ := ih (out.addHeader lib r.1 r.2) hread.symm
    have hadd : (out.addHeader lib r.1 r.2).data = out.data ∧
        (out.addHeader lib r.1 r.2).contentType.bytes =
          if lower h.name = lower CONTENT_TYPE.bytes then h.value
          else out.contentType.bytes := by
      have hdiffer : lower CONTENT_DISPOSITION.bytes ≠ lower CONTENT_TYPE.bytes := by decide
      rw [MpPart.addHeader]
      simp only [lib.spanICompare_eq, ← hname]
      split_ifs with hdisposition htype
      · exact absurd (hdisposition.symm.trans htype) hdiffer
      · exact ⟨rfl, rfl⟩
      · exact ⟨rfl, hvalue.symm⟩
      · exact ⟨rfl, rfl⟩
    rw [List.foldl_cons, List.foldl_cons, hdata, htype, hadd.1, hadd.2]
    exact ⟨rfl, rfl⟩

/-! ## One call -/

theorem dashScan_delimiter (boundary r : Bytes) :
    dashScan boundary (dashDash.bytes ++ (boundary ++ r)) = some 0 := by
  simp [dashDash_bytes, dashScan]

/-- Every encoding starts with a delimiter. -/
theorem encodeParts_eq (boundary : Bytes) (parts : List Part) :
    ∃ r, encodeParts boundary parts = dashDash.bytes ++ (boundary ++ r) := by
  cases parts with
  | nil => exact ⟨_, rfl⟩
  | cons p parts => exact ⟨_, rfl⟩

/-- The header lines of a part end at the first blank line. -/
theorem Part.WellFormed.find?_blank {p : Part} (hwf : p.WellFormed) (rest : Bytes) :
    ∃ hend, p.block.length = hend + 2 ∧
      find? headersTerminator.bytes (p.block ++ (crlf.bytes ++ rest)) = some hend := by
  obtain ⟨h, headers, hheaders⟩ := List.exists_cons_of_ne_nil hwf.nonempty
  have hall := hwf.headers
  rw [hheaders] at hall
  have hblock : p.block = h.line ++ (crlf.bytes ++
      (headers.map PartHeader.line).flatMap (· ++ crlf.bytes)) := by
    rw [Part.block, hheaders, List.flatMap_cons, List.flatMap_map, List.append_assoc]
  refine ⟨h.line.length + ((headers.map PartHeader.line).flatMap (· ++ crlf.bytes)).length, ?_, ?_⟩
  · rw [hblock, List.length_append, List.length_append, crlf_length]
    omega
  · rw [hblock, headersTerminator_bytes]
    simp only [List.append_assoc]
    refine find?_double_lines crlf_unbordered (hall h List.mem_cons_self).line_no_crlf ?_ rest
    intro l hl
    obtain ⟨h', hh', rfl⟩ := List.mem_map.mp hl
    exact ⟨h'.line_ne_nil, (hall h' (List.mem_cons_of_mem _ hh')).line_no_crlf⟩

/-- A CRLF in front of the next boundary is no data. -/
theorem dataEnd_eq {bytes behind : Bytes} {start : Nat} (h : bytes.drop start = behind) (j : Nat) :
    (if start + 2 ≤ start + j ∧ (bytes.drop (start + j - 2)).take 2 = crlf.bytes then start + j - 2
      else start + j) =
      start + if 2 ≤ j ∧ (behind.drop (j - 2)).take 2 = crlf.bytes then j - 2 else j := by
  by_cases htwo : 2 ≤ j
  · have hdrop : bytes.drop (start + j - 2) = behind.drop (j - 2) := by
      rw [show start + j - 2 = start + (j - 2) by omega, ← List.drop_drop, h]
    have hroom : start + 2 ≤ start + j := by omega
    simp only [hdrop, hroom, htwo, true_and]
    split_ifs <;> omega
  · rw [if_neg (by omega), if_neg (by omega)]

/-- The places that a call on a part goes through. -/
theorem Part.WellFormed.places {p : Part} {cursor boundary : Span} {behind : Bytes} {i : Nat}
    (hwf : p.WellFormed) (hi : i ≤ cursor.size)
    (h : cursor.bytes.drop i = dashDash.bytes ++ (boundary.bytes ++ (crlf.bytes ++
      (p.block ++ (crlf.bytes ++ behind))))) :
    ∃ hend, p.block.length = hend + 2 ∧
      i + p.start boundary.bytes = i + 2 + boundary.size + 2 + hend + 4 ∧
      find? headersTerminator.bytes (p.block ++ (crlf.bytes ++ behind)) = some hend ∧
      cursor.bytes.drop (i + 2 + boundary.size) =
        crlf.bytes ++ (p.block ++ (crlf.bytes ++ behind)) ∧
      cursor.bytes.drop (i + 2 + boundary.size + 2) = p.block ++ (crlf.bytes ++ behind) ∧
      cursor.bytes.drop (i + 2 + boundary.size + 2 + hend + 4) = behind ∧
      cursor.size = i + 2 + boundary.size + 2 + hend + 4 + behind.length := by
  obtain ⟨hend, hlength, hblank⟩ := hwf.find?_blank behind
  have hsize := congrArg List.length h
  simp only [List.length_drop, List.length_append, crlf_length, dashDash_length] at hsize
  rw [← Span.size, ← Span.size] at hsize
  have htail : cursor.bytes.drop (i + 2 + boundary.size) =
      crlf.bytes ++ (p.block ++ (crlf.bytes ++ behind)) := by
    rw [← List.drop_drop, ← List.drop_drop, h, List.drop_left' dashDash_length, Span.size,
      List.drop_left]
  have harea : cursor.bytes.drop (i + 2 + boundary.size + 2) =
      p.block ++ (crlf.bytes ++ behind) := by
    rw [← List.drop_drop, htail, List.drop_left' crlf_length]
  have hstart : i + p.start boundary.bytes = i + 2 + boundary.size + 2 + hend + 4 := by
    rw [start, ← Span.size]
    omega
  refine ⟨hend, hlength, hstart, hblank, htail, harea, ?_, by omega⟩
  rw [show i + 2 + boundary.size + 2 + hend + 4 = i + 2 + boundary.size + 2 + (hend + 2) + 2 by
    omega, ← List.drop_drop, ← List.drop_drop, harea, List.drop_left' hlength,
    List.drop_left' crlf_length]

/-- The boundary in front of a part is no closing one. -/
theorem not_close (p : Part) (behind : Bytes) :
    ¬ dashDash.bytes <+: crlf.bytes ++ (p.block ++ (crlf.bytes ++ behind)) := by
  rw [dashDash_bytes, crlf_bytes]
  simp

section Call

variable {it : MpIterator} (out : MpPart) {p : Part} {behind : Bytes} {i j : Nat}
  (hdone : it.done = false) (hwf : p.WellFormed)
  (hi : dashScan it.boundary.bytes it.cursor.bytes = some i)
  (hcursor : it.cursor.bytes.drop i = dashDash.bytes ++ (it.boundary.bytes ++ (crlf.bytes ++
    (p.block ++ (crlf.bytes ++ behind)))))
  (hj : dashScan it.boundary.bytes behind = some j)

include hdone hwf hi hcursor hj

/-- A call with the delimiter before a part `i` bytes behind the cursor, and the next boundary `j`
bytes behind the start of its data: it reads the header lines, takes the data and goes to that
boundary. -/
theorem mpIteratorNext_run (hint : i + p.start it.boundary.bytes + j < 2 ^ 31) :
    ∃ cursor block data : Span, mpIteratorNext lib it out = (.ok, { it with cursor },
        parseHeaderLines lib (block.size + 1) block ⟨.empty, .empty, .empty, data⟩) ∧
      cursor.bytes = behind.drop j ∧ block.bytes = p.block ∧
      data.bytes = behind.take
        (if 2 ≤ j ∧ (behind.drop (j - 2)).take 2 = crlf.bytes then j - 2 else j) := by
  have hilt := dashScan_lt hi
  have hjlt := dashScan_lt hj
  obtain ⟨hend, hlength, hstart, hblank, htail, harea, hbehind, hsize⟩ :=
    hwf.places (Nat.le_trans (by omega) hilt) hcursor
  rw [hstart] at hint
  set after := i + 2 + it.boundary.size with hafter
  set start := after + 2 + hend + 4
  have hfirst : boundaryPosition lib it.cursor 0 it.boundary = some i := by
    rw [boundaryPosition_eq lib (Nat.zero_le _) hi (by omega), Nat.zero_add]
  have hnext : boundaryPosition lib it.cursor start it.boundary = some (start + j) :=
    boundaryPosition_eq lib (by omega) (by rw [hbehind, hj]) hint
  have hslice : lib.spanSlice (it.cursor.tail (after + 2)) 0 (hend + 2) =
      (it.cursor.tail (after + 2)).sub 0 (hend + 2) :=
    lib.spanSlice_eq _ _ _ (by rw [Span.size, Span.bytes_tail, harea]; simp; omega)
  have hblock : ((it.cursor.tail (after + 2)).sub 0 (hend + 2)).bytes = p.block := by
    rw [Span.bytes_sub, Span.bytes_tail, harea, List.drop_zero, List.take_left' hlength]
  set dataEnd := if start + 2 ≤ start + j ∧
    (it.cursor.bytes.drop (start + j - 2)).take 2 = crlf.bytes then start + j - 2 else start + j
    with hdataEnd
  have hdata : dataEnd - start =
      if 2 ≤ j ∧ (behind.drop (j - 2)).take 2 = crlf.bytes then j - 2 else j := by
    rw [hdataEnd, dataEnd_eq hbehind, Nat.add_sub_cancel_left]
  have hdata_le : dataEnd - start ≤ j := by
    rw [hdata]
    split_ifs <;> omega
  have hcall : mpIteratorNext lib it out = (.ok, { it with cursor := it.cursor.tail (start + j) },
      parseHeaderLines lib (((it.cursor.tail (after + 2)).sub 0 (hend + 2)).size + 1)
        ((it.cursor.tail (after + 2)).sub 0 (hend + 2))
        ⟨.empty, .empty, .empty, it.cursor.sub start (dataEnd - start)⟩) := by
    rw [mpIteratorNext, hdone, if_neg (by decide)]
    dsimp only
    rw [hfirst]
    dsimp only
    rw [lib.spanSliceToEnd_eq _ after (by omega), Span.bytes_tail, htail,
      if_neg (not_close p behind), if_pos (List.prefix_append _ _),
      lib.spanSliceToEnd_eq _ (after + 2) (by omega),
      lib.spanFindInt_of_lt _ headersTerminator_ne_nil
        (by rw [Span.bytes_tail, harea, hblank]) (by omega)]
    dsimp only
    rw [hslice, hnext]
    dsimp only
    rw [lib.spanSliceToEnd_eq _ (start + j) (by omega), ← hdataEnd,
      lib.spanSlice_eq _ _ _ (by omega)]
  refine ⟨_, _, _, hcall, ?_, hblock, ?_⟩
  · rw [Span.bytes_tail, ← List.drop_drop, hbehind]
  · rw [Span.bytes_sub, hbehind, hdata]

/-- A boundary behind the data that is no position as an `int` ends the iteration. -/
theorem mpIteratorNext_beyond (hcsize : it.cursor.size < 2 ^ 32)
    (hint : 2 ^ 31 ≤ i + p.start it.boundary.bytes + j) :
    (mpIteratorNext lib it out).1 = .endOfData := by
  have hilt := dashScan_lt hi
  obtain ⟨hend, hlength, hstart, hblank, htail, harea, hbehind, hsize⟩ :=
    hwf.places (Nat.le_trans (by omega) hilt) hcursor
  rw [hstart] at hint
  rw [mpIteratorNext, hdone, if_neg (by decide)]
  dsimp only
  cases hfirst : boundaryPosition lib it.cursor 0 it.boundary with
  | none => rfl
  | some bpos =>
    obtain ⟨k, hk, rfl⟩ :=
      findBoundary_scan lib (Nat.zero_le _) (Option.mem_filter_iff.mp hfirst).1
    obtain rfl := Option.some.inj (hk.symm.trans hi)
    dsimp only
    rw [Nat.zero_add, lib.spanSliceToEnd_eq _ (k + 2 + it.boundary.size) (by omega),
      Span.bytes_tail, htail, if_neg (not_close p behind), if_pos (List.prefix_append _ _),
      lib.spanSliceToEnd_eq _ (k + 2 + it.boundary.size + 2) (by omega),
      lib.spanFindInt_eq _ headersTerminator_ne_nil, Span.bytes_tail, harea, hblank]
    by_cases hfits : fitsInt hend = true
    · rw [Option.filter_some, if_pos hfits, Option.map_some]
      dsimp only
      rw [boundaryPosition_eq_none lib hcsize (by omega)
        (by rw [hbehind, hj]) hint]
    · rw [Option.filter_some, if_neg hfits]
      rfl

end Call

section Part

variable {it : MpIterator} (out : MpPart) {p : Part}

/-- What such a call returns. -/
theorem mpIteratorNext_eq {behind : Bytes} {j : Nat} (hdone : it.done = false)
    (hwf : p.WellFormed)
    (hcursor : it.cursor.bytes = dashDash.bytes ++ (it.boundary.bytes ++ (crlf.bytes ++ (p.block ++
      (crlf.bytes ++ behind)))))
    (hj : dashScan it.boundary.bytes behind = some j)
    (hint : p.start it.boundary.bytes + j < 2 ^ 31) :
    ∃ it' out', mpIteratorNext lib it out = (.ok, it', out') ∧
      it'.boundary = it.boundary ∧ it'.done = false ∧ it'.cursor.bytes = behind.drop j ∧
      out'.contentType.bytes = p.contentType ∧
      out'.data.bytes = behind.take
        (if 2 ≤ j ∧ (behind.drop (j - 2)).take 2 = crlf.bytes then j - 2 else j) := by
  have hfirst : dashScan it.boundary.bytes it.cursor.bytes = some 0 := by
    rw [hcursor, dashScan_delimiter]
  obtain ⟨cursor, block, data, hcall, hrest, hblock, hdata⟩ :=
    mpIteratorNext_run lib out hdone hwf hfirst hcursor hj (by rwa [Nat.zero_add])
  have hsize : block.size < 2 ^ 31 := by
    rw [Span.size, hblock]
    rw [Part.start] at hint
    omega
  obtain ⟨hkept, htype⟩ := parseHeaderLines_block lib hwf.headers
    ⟨.empty, .empty, .empty, data⟩ hblock hsize (Nat.lt_succ_self _)
  exact ⟨_, _, hcall, rfl, hdone, hrest, htype, by rw [hkept, hdata]⟩

variable {parts : List Part} (hdone : it.done = false) (hwf : p.WellFormed)
  (hcursor : it.cursor.bytes = encodeParts it.boundary.bytes (p :: parts))

include hdone hwf hcursor

/-- A part whose data the search goes through is returned, and the cursor is at the delimiter behind
it. -/
theorem mpIteratorNext_part (hcr : 13 ∉ it.boundary.bytes)
    (hnone : dashScan it.boundary.bytes p.data = none)
    (hint : p.start it.boundary.bytes + p.data.length + 2 < 2 ^ 31) :
    ∃ it' out', mpIteratorNext lib it out = (.ok, it', out') ∧
      it'.boundary = it.boundary ∧ it'.done = false ∧
      it'.cursor.bytes = encodeParts it.boundary.bytes parts ∧
      out'.contentType.bytes = p.contentType ∧ out'.data.bytes = p.data := by
  obtain ⟨r, hr⟩ := encodeParts_eq it.boundary.bytes parts
  have hj := dashScan_append_delimiter hcr hnone r
  rw [← hr] at hj
  obtain ⟨it', out', hcall, hboundary, hdone', hcursor', htype, hdata⟩ :=
    mpIteratorNext_eq lib out hdone hwf hcursor hj hint
  refine ⟨it', out', hcall, hboundary, hdone', ?_, htype, ?_⟩
  · rw [hcursor', ← List.drop_drop, List.drop_left, List.drop_left' crlf_length]
  · -- what stands before the delimiter is its CRLF
    have hcrlf : ((p.data ++ (crlf.bytes ++ encodeParts it.boundary.bytes parts)).drop
        (p.data.length + 2 - 2)).take 2 = crlf.bytes := by
      rw [Nat.add_sub_cancel, List.drop_left, List.take_left' crlf_length]
    rw [hdata, if_pos ⟨by omega, hcrlf⟩, Nat.add_sub_cancel, List.take_left]

/-- A part in whose data the boundary is found is cut short there. -/
theorem mpIteratorNext_cut {i : Nat} (hsome : dashScan it.boundary.bytes p.data = some i)
    (hint : p.start it.boundary.bytes + i < 2 ^ 31) :
    ∃ it' out', mpIteratorNext lib it out = (.ok, it', out') ∧
      out'.data.bytes.length < p.data.length := by
  have hj := dashScan_append_some hsome (crlf.bytes ++ encodeParts it.boundary.bytes parts)
  have hlt := dashScan_lt hsome
  obtain ⟨it', out', hcall, -, -, -, -, hdata⟩ :=
    mpIteratorNext_eq lib out hdone hwf hcursor hj hint
  refine ⟨it', out', hcall, ?_⟩
  rw [hdata, List.length_take]
  split_ifs <;> omega

/-- No other part is returned. -/
theorem mpIteratorNext_lost (hcr : 13 ∉ it.boundary.bytes) (hsize : it.cursor.size < 2 ^ 32)
    (hlost : ¬ (dashScan it.boundary.bytes p.data = none ∧
      p.start it.boundary.bytes + p.data.length + 2 < 2 ^ 31)) {it' : MpIterator} {out' : MpPart}
    (hcall : mpIteratorNext lib it out = (.ok, it', out')) : out'.data.bytes ≠ p.data := by
  have hfirst : dashScan it.boundary.bytes it.cursor.bytes = some 0 := by
    rw [hcursor, encodeParts, dashScan_delimiter]
  have hbeyond : ∀ j, dashScan it.boundary.bytes
      (p.data ++ (crlf.bytes ++ encodeParts it.boundary.bytes parts)) = some j →
      p.start it.boundary.bytes + j < 2 ^ 31 := by
    intro j hj
    by_contra hge
    have hend := mpIteratorNext_beyond lib out hdone hwf hfirst hcursor hj hsize (by omega)
    rw [hcall] at hend
    cases hend
  cases hscan : dashScan it.boundary.bytes p.data with
  | none =>
    obtain ⟨r, hr⟩ := encodeParts_eq it.boundary.bytes parts
    have hj := dashScan_append_delimiter hcr hscan r
    rw [← hr] at hj
    exact absurd ⟨hscan, hbeyond _ hj⟩ hlost
  | some i =>
    have hj := dashScan_append_some hscan (crlf.bytes ++ encodeParts it.boundary.bytes parts)
    obtain ⟨it'', out'', hcut, hshort⟩ :=
      mpIteratorNext_cut lib out hdone hwf hcursor hscan (hbeyond _ hj)
    obtain ⟨rfl, rfl⟩ : it' = it'' ∧ out' = out'' := by simpa using hcall.symm.trans hcut
    exact fun hdata => absurd (congrArg List.length hdata) hshort.ne

end Part

/-- The closing delimiter ends the iteration. -/
theorem mpIteratorNext_close {it : MpIterator} (out : MpPart)
    (hcursor : it.cursor.bytes = encodeParts it.boundary.bytes []) :
    (mpIteratorNext lib it out).1 = .endOfData := by
  have hscan : dashScan it.boundary.bytes (it.cursor.bytes.drop 0) = some 0 := by
    rw [List.drop_zero, hcursor, encodeParts, dashScan_delimiter]
  have hfirst : boundaryPosition lib it.cursor 0 it.boundary = some 0 :=
    boundaryPosition_eq lib (Nat.zero_le _) hscan (by decide)
  have hsize := congrArg List.length hcursor
  simp only [encodeParts, List.length_append, dashDash_length] at hsize
  have htail : it.cursor.bytes.drop (2 + it.boundary.size) = dashDash.bytes := by
    rw [hcursor, encodeParts, ← List.drop_drop, List.drop_left' dashDash_length, Span.size,
      List.drop_left]
  rw [mpIteratorNext]
  split_ifs
  · rfl
  · dsimp only
    rw [hfirst]
    dsimp only
    rw [Nat.zero_add, lib.spanSliceToEnd_eq _ _ (by simp only [Span.size]; omega), Span.bytes_tail,
      htail, if_pos (List.prefix_refl _)]

/-- A run of the calls over the encoding of parts. -/
theorem yields_iff {it : MpIterator} (out : MpPart) {parts : List Part}
    (hcr : 13 ∉ it.boundary.bytes) (hdone : it.done = false) (hwf : ∀ p ∈ parts, p.WellFormed)
    (hcursor : it.cursor.bytes = encodeParts it.boundary.bytes parts)
    (hsize : it.cursor.size < 2 ^ 32) :
    Yields lib out it parts ↔ ∀ p ∈ parts, dashScan it.boundary.bytes p.data = none ∧
      p.start it.boundary.bytes + p.data.length + 2 < 2 ^ 31 := by
  induction parts generalizing it out with
  | nil => exact iff_of_true (mpIteratorNext_close lib out hcursor) (by simp)
  | cons p parts ih =>
    have hp := hwf p List.mem_cons_self
    rw [List.forall_mem_cons, Yields]
    by_cases hpart : dashScan it.boundary.bytes p.data = none ∧
        p.start it.boundary.bytes + p.data.length + 2 < 2 ^ 31
    · obtain ⟨it', out', hcall, hboundary, hdone', hcursor', htype, hdata⟩ :=
        mpIteratorNext_part lib out hdone hp hcursor hcr hpart.1 hpart.2
      have hsize' : it'.cursor.size < 2 ^ 32 := by
        rw [Span.size, hcursor, encodeParts] at hsize
        simp only [List.length_append] at hsize
        rw [Span.size, hcursor']
        omega
      rw [← hboundary] at hcr hcursor'
      have hrest := ih out' hcr hdone' (fun q hq => hwf q (List.mem_cons_of_mem _ hq)) hcursor'
        hsize'
      rw [hboundary] at hrest
      rw [← hrest, hcall]
      constructor
      · rintro ⟨it'', out'', hsame, -, -, hyields⟩
        obtain ⟨rfl, rfl⟩ : it' = it'' ∧ out' = out'' := by simpa using hsame
        exact ⟨hpart, hyields⟩
      · exact fun h => ⟨it', out', rfl, hdata, htype, h.2⟩
    · refine iff_of_false ?_ fun h => hpart h.1
      rintro ⟨it', out', hcall, hdata, -⟩
      exact mpIteratorNext_lost lib out hdone hp hcursor hcr hsize hpart hcall hdata

/-- An encoding as long as half the range at most has its delimiters where an `int` goes. -/
theorem start_lt_of_mem {boundary : Bytes} {parts : List Part} {p : Part} (hp : p ∈ parts) :
    p.start boundary + p.data.length + 2 < (encodeParts boundary parts).length := by
  induction parts with
  | nil => simp at hp
  | cons q parts ih =>
    rw [encodeParts]
    simp only [List.length_append, crlf_length, dashDash_length]
    rcases List.mem_cons.mp hp with rfl | hp
    · obtain ⟨r, hr⟩ := encodeParts_eq boundary parts
      rw [hr, Part.start]
      simp only [List.length_append, dashDash_length]
      omega
    · have hlt := ih hp
      omega

end

/-! ## The round trip -/

/-- A boundary that a header can carry as it is, or in quotes, and that fits a line. -/
structure IsBoundary (boundary : Bytes) : Prop where
  nonempty : boundary ≠ []
  cr : 13 ∉ boundary
  lf : 10 ∉ boundary
  quote : 34 ∉ boundary
  semicolon : 59 ∉ boundary
  lead : boundary.head? ≠ some 32

/-- The iteration over `body` returns the parts, and then `end_of_data`. -/
def Iterates (lib : CommonLib) (out : MpPart) (header body : Span) (parts : List Part) : Prop :=
  ∃ it, mpIteratorInit lib header body = (.ok, it) ∧ Yields lib out it parts

/-- The iteration returns the parts that were encoded exactly when in none of their data a pair of
dashes is found that the boundary follows, and behind none of them the next delimiter stands too far
away for an `int`. -/
theorem multipart_roundtrip_iff (lib : CommonLib) (out : MpPart) {header body : Span}
    {boundary : Bytes} {parts : List Part} (hboundary : IsBoundary boundary)
    (hheader : Announces header.bytes boundary) (hwf : ∀ p ∈ parts, p.WellFormed)
    (hbody : body.bytes = encodeParts boundary parts) (hsize : body.size < 2 ^ 32) :
    Iterates lib out header body parts ↔ ∀ p ∈ parts, dashScan boundary p.data = none ∧
      p.start boundary + p.data.length + 2 < 2 ^ 31 := by
  obtain ⟨b, hb, hinit⟩ := mpIteratorInit_eq lib body hheader hboundary.nonempty hboundary.quote
    hboundary.semicolon
  have hyields := @yields_iff lib ⟨b, body, false⟩ out parts (by rw [hb]; exact hboundary.cr) rfl
    hwf (by rw [hb]; exact hbody) hsize
  rw [hb] at hyields
  rw [← hyields, Iterates, hinit]
  constructor
  · rintro ⟨it, hsame, hyield⟩
    obtain rfl : _ = it := by simpa using hsame
    exact hyield
  · exact fun hyield => ⟨_, rfl, hyield⟩

/-- Near-boundaries do no harm: dashes, line breaks and a boundary behind a single dash. -/
theorem multipart_roundtrip_near :
    let parts : List Part :=
      [⟨[⟨ascii "Content-Disposition", ascii " ", ascii "form-data; name=a"⟩,
          ⟨ascii "content-type", ascii " ", ascii "text/plain"⟩], ascii "\r\n-xy--\r\n-- xy\r\n"⟩,
        ⟨[⟨ascii "Content-Disposition", [], ascii "form-data; name=b"⟩], []⟩]
    let header := Span.lit "multipart/form-data; boundary=\"xy\""
    let body : Span := ⟨1000, encodeParts (ascii "xy") parts⟩
    let out : MpPart := ⟨.empty, .empty, .empty, .empty⟩
    Iterates .reference out header body parts ↔
      ∀ p ∈ parts, dashScan (ascii "xy") p.data = none ∧
        p.start (ascii "xy") + p.data.length + 2 < 2 ^ 31 := by
  intro parts header body out
  have hheader : Announces header.bytes (ascii "xy") :=
    ⟨ascii "multipart/form-data", ascii "\"xy\"", by decide +kernel, by decide +kernel,
      by decide +kernel, .inr (by decide +kernel)⟩
  have hwf : ∀ p ∈ parts, p.WellFormed := by decide +kernel
  exact multipart_roundtrip_iff .reference out ⟨by decide, by decide, by decide, by decide,
    by decide, by decide⟩ hheader hwf rfl (by decide +kernel)

/-- Data in which the boundary follows two dashes is cut there, though the dashes start no line. -/
theorem multipart_roundtrip_cut :
    ¬ ∀ (out : MpPart) (header body : Span) (boundary : Bytes) (parts : List Part),
      IsBoundary boundary → Announces header.bytes boundary → (∀ p ∈ parts, p.WellFormed) →
      (∀ p ∈ parts, ¬ crlf.bytes ++ (dashDash.bytes ++ boundary) <:+: p.data) →
      body.bytes = encodeParts boundary parts → body.size < 2 ^ 32 →
        Iterates .reference out header body parts := by
  intro h
  set part : Part := ⟨[⟨ascii "Content-Disposition", ascii " ", ascii "form-data; name=a"⟩],
    ascii "a--xy"⟩ with hpart
  have hheader : Announces (Span.lit "multipart/form-data; boundary=xy").bytes (ascii "xy") :=
    ⟨ascii "multipart/form-data", ascii "xy", by decide +kernel, by decide +kernel,
      by decide +kernel, .inl rfl⟩
  obtain ⟨it, hinit, it', out', hcall, hdata, -⟩ := h ⟨.empty, .empty, .empty, .empty⟩
    (.lit "multipart/form-data; boundary=xy") ⟨1000, encodeParts (ascii "xy") [part]⟩ (ascii "xy")
    [part] ⟨by decide, by decide, by decide, by decide, by decide, by decide⟩ hheader
    (by decide +kernel) (by decide +kernel) rfl (by decide +kernel)
  have hread : (mpIteratorNext .reference (mpIteratorInit .reference
      (.lit "multipart/form-data; boundary=xy") ⟨1000, encodeParts (ascii "xy") [part]⟩).2
      ⟨.empty, .empty, .empty, .empty⟩).2.2.data.bytes = ascii "a" := by
    decide +kernel
  rw [hinit, hcall, hdata] at hread
  exact absurd hread (by decide)

end HttpC
