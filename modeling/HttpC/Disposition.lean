import HttpC.MultipartParts

/-!
# Form parts and their names

A `Content-Disposition` value is cut at its semicolons before anything is known about quotes, so a
semicolon inside a quoted string ends the string, and what follows it is a segment of its own.

## Main results

* `FormData.parameters_iff` — when the two parameters of a value are read as they were written.
* `mpIteratorNext_disposition_iff` — when a call returns them as name and filename.
-/

namespace HttpC

open ListSearch

/-! ## Values -/

def NAME : Span := .lit "name"
def FILENAME : Span := .lit "filename"

/-- A parameter in double quotes, without the semicolon before it. -/
def quotedParam (spaces : Nat) (key value : Bytes) : Bytes :=
  List.replicate spaces 32 ++ (key ++ 61 :: 34 :: (value ++ [34]))

/-- What the `Content-Disposition` of a form part says, and how it is written: the parameters in
either order, any number of spaces before each. -/
structure FormData where
  name : Bytes
  filename : Option Bytes
  filenameFirst : Bool
  nameSpaces : Nat
  filenameSpaces : Nat
  deriving DecidableEq, Repr

namespace FormData

def encode (d : FormData) : Bytes :=
  let name := quotedParam d.nameSpaces NAME.bytes d.name
  match d.filename with
  | none => ascii "form-data" ++ 59 :: name
  | some filename =>
    let filename := quotedParam d.filenameSpaces FILENAME.bytes filename
    if d.filenameFirst then ascii "form-data" ++ 59 :: (filename ++ 59 :: name)
    else ascii "form-data" ++ 59 :: (name ++ 59 :: filename)

/-- Without double quotes inside the quotes. -/
def Quotable (d : FormData) : Prop := 34 ∉ d.name ∧ ∀ f ∈ d.filename, 34 ∉ f

/-- Without semicolons inside the quotes. -/
def NoSemicolon (d : FormData) : Prop := 59 ∉ d.name ∧ ∀ f ∈ d.filename, 59 ∉ f

instance (d : FormData) : Decidable d.Quotable := inferInstanceAs (Decidable (_ ∧ _))
instance (d : FormData) : Decidable d.NoSemicolon := inferInstanceAs (Decidable (_ ∧ _))

end FormData

/-! ## Quoted parameters -/

/-- A key of the two: it is read as it stands. -/
structure IsKey (key : Bytes) : Prop where
  space : 32 ∉ key
  equals : 61 ∉ key
  semicolon : 59 ∉ key

theorem isKey_name : IsKey NAME.bytes := ⟨by decide, by decide, by decide⟩
theorem isKey_filename : IsKey FILENAME.bytes := ⟨by decide, by decide, by decide⟩

section

variable {k key v rest : Bytes}

theorem semicolon_not_mem_quotedParam (hk : IsKey k) (hv : 59 ∉ v) (n : Nat) :
    59 ∉ quotedParam n k v := by
  simp [quotedParam, hk.semicolon, hv]

theorem segmentValue_quotedParam (hk : IsKey k) (n : Nat) (key v : Bytes) :
    segmentValue key (quotedParam n k v) = if lower k = lower key then some v else none := by
  rw [quotedParam, segmentValue_eq hk.space hk.equals, unquoted_quoted]

/-- A quoted parameter with a semicolon inside ends there. -/
theorem parameter_cut (hk : IsKey k) (hquote : 34 ∉ v) (hsemicolon : 59 ∈ v) (n : Nat)
    (hkey : lower k = lower key) (rest : Bytes) :
    ∃ v', parameter key (quotedParam n k v ++ rest) = some v' ∧ v'.length < v.length := by
  obtain ⟨before, after, rfl, hbefore⟩ := List.eq_append_cons_of_mem hsemicolon
  have htext : quotedParam n k (before ++ 59 :: after) ++ rest =
      (List.replicate n 32 ++ (k ++ 61 :: 34 :: before)) ++ 59 :: (after ++ ([34] ++ rest)) := by
    simp [quotedParam]
  have hsegment : 59 ∉ List.replicate n 32 ++ (k ++ 61 :: 34 :: before) := by
    simp [hk.semicolon, hbefore]
  have hopen : 34 ∉ before := fun hmem => hquote (List.mem_append_left _ hmem)
  refine ⟨before, ?_, by simp⟩
  rw [htext, parameter_cons hsegment, segmentValue_eq hk.space hk.equals, if_pos hkey,
    unquoted_open hopen, Option.some_or]

theorem parameter_first (hk : IsKey k) (hv : 59 ∉ v) (n : Nat) (key rest : Bytes) :
    parameter key (quotedParam n k v ++ 59 :: rest) =
      if lower k = lower key then some v else parameter key rest := by
  rw [parameter_cons (semicolon_not_mem_quotedParam hk hv n), segmentValue_quotedParam hk]
  split_ifs <;> simp

theorem parameter_only (hk : IsKey k) (hv : 59 ∉ v) (n : Nat) (key : Bytes) :
    parameter key (quotedParam n k v) = if lower k = lower key then some v else none := by
  rw [parameter_last (semicolon_not_mem_quotedParam hk hv n), segmentValue_quotedParam hk]

theorem parameter_formData (key rest : Bytes) :
    parameter key (ascii "form-data" ++ 59 :: rest) = parameter key rest := by
  rw [parameter_cons (by decide), segmentValue_none (by decide), Option.none_or]

/-- A value that is cut short is not the one that was written. -/
theorem cut_ne {o : Option Bytes} {v' : Bytes} (hcut : o = some v') (hlt : v'.length < v.length) :
    o.getD [] ≠ v := by
  rw [hcut, Option.getD_some]
  exact ne_of_apply_ne List.length hlt.ne

theorem parameter_only_iff (hk : IsKey k) (hquote : 34 ∉ v) (n : Nat) :
    (parameter k (quotedParam n k v)).getD [] = v ↔ 59 ∉ v := by
  by_cases hsemicolon : 59 ∈ v
  · obtain ⟨v', hcut, hlt⟩ := parameter_cut hk hquote hsemicolon n rfl []
    rw [List.append_nil] at hcut
    exact iff_of_false (cut_ne hcut hlt) (not_not.mpr hsemicolon)
  · rw [parameter_only hk hsemicolon, if_pos rfl]
    exact iff_of_true rfl hsemicolon

/-- The first of two parameters decides, by its semicolons, what becomes of both. -/
theorem parameter_pair_iff {k' v' : Bytes} (hk : IsKey k) (hk' : IsKey k')
    (hkeys : lower k ≠ lower k') (hquote : 34 ∉ v) (hquote' : 34 ∉ v') (n n' : Nat) :
    ((parameter k (quotedParam n k v ++ 59 :: quotedParam n' k' v')).getD [] = v ∧
      (parameter k' (quotedParam n k v ++ 59 :: quotedParam n' k' v')).getD [] = v') ↔
      59 ∉ v ∧ 59 ∉ v' := by
  by_cases hsemicolon : 59 ∈ v
  · obtain ⟨w, hcut, hlt⟩ :=
      parameter_cut hk hquote hsemicolon n rfl (59 :: quotedParam n' k' v')
    exact iff_of_false (fun hread => cut_ne hcut hlt hread.1) fun hno => hno.1 hsemicolon
  · rw [parameter_first hk hsemicolon, parameter_first hk hsemicolon, if_pos rfl, if_neg hkeys,
      parameter_only_iff hk' hquote']
    exact and_congr_left fun _ => iff_of_true rfl hsemicolon

end

/-- Both parameters are read as they were written exactly if no semicolon stands inside their
quotes. -/
theorem FormData.parameters_iff {d : FormData} (h : d.Quotable) :
    ((parameter NAME.bytes d.encode).getD [] = d.name ∧
      (parameter FILENAME.bytes d.encode).getD [] = d.filename.getD []) ↔ d.NoSemicolon := by
  obtain ⟨name, filename, filenameFirst, nameSpaces, filenameSpaces⟩ := d
  obtain ⟨hname, hfilename⟩ := h
  have hkeys : lower NAME.bytes ≠ lower FILENAME.bytes := by decide
  dsimp only at hname hfilename
  cases filename with
  | none =>
    simp only [FormData.encode, FormData.NoSemicolon, parameter_formData,
      parameter_only_iff isKey_name hname]
    by_cases hsemicolon : 59 ∈ name
    · simp [hsemicolon]
    · rw [parameter_only isKey_name hsemicolon, if_neg hkeys]
      simp
  | some filename =>
    have hfilename : 34 ∉ filename := hfilename filename rfl
    cases filenameFirst with
    | true =>
      have hpair := parameter_pair_iff isKey_filename isKey_name hkeys.symm hfilename hname
        filenameSpaces nameSpaces
      simpa [FormData.encode, FormData.NoSemicolon, parameter_formData, and_comm] using hpair
    | false =>
      have hpair := parameter_pair_iff isKey_name isKey_filename hkeys hname hfilename
        nameSpaces filenameSpaces
      simpa [FormData.encode, FormData.NoSemicolon, parameter_formData] using hpair

/-! ## Parts -/

/-- The value of the Content-Disposition line, the last one if there are several. -/
def Part.disposition (p : Part) : Option Bytes :=
  p.headers.foldl (fun value h =>
    if lower h.name = lower CONTENT_DISPOSITION.bytes then some h.value else value) none

section

variable (lib : CommonLib)

/-- The name and the filename that the header lines leave: those of the last
Content-Disposition. -/
theorem foldl_addHeader_names {headers : List PartHeader} {read : List (Span × Span)}
    (hread : read.map (fun r => (r.1.bytes, r.2.bytes)) = headers.map fun h => (h.name, h.value))
    {out : MpPart} {value : Option Bytes}
    (hname : out.name.bytes = (value.bind (parameter NAME.bytes)).getD [])
    (hfilename : out.filename.bytes = (value.bind (parameter FILENAME.bytes)).getD []) :
    let last := headers.foldl (fun value h =>
      if lower h.name = lower CONTENT_DISPOSITION.bytes then some h.value else value) value
    (read.foldl (fun out r => out.addHeader lib r.1 r.2) out).name.bytes =
        (last.bind (parameter NAME.bytes)).getD [] ∧
      (read.foldl (fun out r => out.addHeader lib r.1 r.2) out).filename.bytes =
        (last.bind (parameter FILENAME.bytes)).getD [] := by
  induction read generalizing headers out value with
  | nil =>
    obtain rfl := List.map_eq_nil_iff.mp hread.symm
    exact ⟨hname, hfilename⟩
  | cons r read ih =>
    obtain ⟨h, headers, rfl, hh, hread⟩ := List.map_eq_cons_iff.mp hread.symm
    obtain ⟨hname', hvalue'⟩ := Prod.mk.inj hh
    rw [List.foldl_cons, List.foldl_cons]
    apply ih hread.symm
    · rw [MpPart.addHeader]
      simp only [lib.spanICompare_eq, ← hname']
      split_ifs
      · rw [paramValue_bytes, ← hvalue', Option.bind_some]
        rfl
      · exact hname
      · exact hname
    · rw [MpPart.addHeader]
      simp only [lib.spanICompare_eq, ← hname']
      split_ifs
      · rw [paramValue_bytes, ← hvalue', Option.bind_some]
        rfl
      · exact hfilename
      · exact hfilename

/-- A call on a form part returns its name and its filename exactly if no semicolon stands inside
their quotes, and the next delimiter stands where an `int` goes. -/
theorem mpIteratorNext_disposition_iff {it : MpIterator} (out : MpPart) {p : Part} {d : FormData}
    {behind : Bytes} {i j : Nat} (hdone : it.done = false) (hsize : it.cursor.size < 2 ^ 32)
    (hwf : p.WellFormed) (hdisposition : p.disposition = some d.encode) (hquotable : d.Quotable)
    (hi : dashScan it.boundary.bytes it.cursor.bytes = some i)
    (hcursor : it.cursor.bytes.drop i = dashDash.bytes ++ (it.boundary.bytes ++ (crlf.bytes ++
      (p.block ++ (crlf.bytes ++ behind)))))
    (hj : dashScan it.boundary.bytes behind = some j) :
    (∃ it' out', mpIteratorNext lib it out = (.ok, it', out') ∧
      out'.name.bytes = d.name ∧ out'.filename.bytes = d.filename.getD []) ↔
      d.NoSemicolon ∧ i + p.start it.boundary.bytes + j < 2 ^ 31 := by
  by_cases hint : i + p.start it.boundary.bytes + j < 2 ^ 31
  · obtain ⟨cursor, block, data, hcall, -, hblock, -⟩ :=
      mpIteratorNext_run lib out hdone hwf hi hcursor hj hint
    have hshort : block.size < 2 ^ 31 := by
      rw [Span.size, hblock]
      rw [Part.start] at hint
      omega
    obtain ⟨read, hread, hloop⟩ := parseHeaderLines_eq lib hwf.headers
      ⟨.empty, .empty, .empty, data⟩ hblock hshort (Nat.lt_succ_self _)
    have hstart : ∀ key : Bytes, Span.empty.bytes =
        ((none : Option Bytes).bind (parameter key)).getD [] := fun _ => rfl
    obtain ⟨hname, hfilename⟩ := @foldl_addHeader_names lib _ _ hread
      ⟨.empty, .empty, .empty, data⟩ none (hstart _) (hstart _)
    rw [show p.headers.foldl _ none = some d.encode from hdisposition, Option.bind_some]
      at hname hfilename
    rw [and_iff_left hint, ← FormData.parameters_iff hquotable, hcall, hloop, ← hname, ← hfilename]
    constructor
    · rintro ⟨it', out', hsame, hboth⟩
      obtain ⟨-, rfl⟩ := Prod.mk.inj (Prod.mk.inj hsame).2
      exact hboth
    · exact fun hboth => ⟨_, _, rfl, hboth⟩
  · refine iff_of_false ?_ fun h => hint h.2
    rintro ⟨it', out', hcall, -⟩
    have hend := mpIteratorNext_beyond lib out hdone hwf hi hcursor hj hsize (by omega)
    rw [hcall] at hend
    cases hend

end

/-- An upload, its filename before its name and with an equals sign inside. -/
theorem mpIteratorNext_disposition_upload :
    let d : FormData := ⟨ascii "file", some (ascii "a=b, c.txt"), true, 1, 1⟩
    let part : Part := ⟨[⟨CONTENT_TYPE.bytes, ascii " ", ascii "text/plain"⟩,
      ⟨ascii "content-disposition", ascii " ", d.encode⟩], ascii "data"⟩
    let it : MpIterator := ⟨.lit "xy", ⟨1000, ascii "preamble" ++ encodeParts (ascii "xy") [part]⟩,
      false⟩
    (∃ it' out', mpIteratorNext .reference it ⟨.empty, .empty, .empty, .empty⟩ = (.ok, it', out') ∧
      out'.name.bytes = d.name ∧ out'.filename.bytes = d.filename.getD []) ↔
      d.NoSemicolon ∧ 8 + part.start it.boundary.bytes + 6 < 2 ^ 31 := by
  intro d part it
  have hwf : part.WellFormed := by decide +kernel
  have hi : dashScan it.boundary.bytes it.cursor.bytes = some 8 := by decide +kernel
  have hj : dashScan it.boundary.bytes (ascii "data\r\n--xy--") = some 6 := by decide +kernel
  exact mpIteratorNext_disposition_iff .reference ⟨.empty, .empty, .empty, .empty⟩ rfl
    (by decide +kernel) hwf (by decide +kernel) (by decide +kernel) hi (by decide +kernel) hj

/-- A filename with a semicolon comes back without what follows it. -/
theorem mpIteratorNext_disposition_cut :
    ¬ ∀ (it : MpIterator) (out : MpPart) (p : Part) (d : FormData) (behind : Bytes) (i j : Nat),
      it.done = false → it.cursor.size < 2 ^ 32 → p.WellFormed →
      p.disposition = some d.encode → d.Quotable →
      dashScan it.boundary.bytes it.cursor.bytes = some i →
      it.cursor.bytes.drop i = dashDash.bytes ++ (it.boundary.bytes ++ (crlf.bytes ++
        (p.block ++ (crlf.bytes ++ behind)))) →
      dashScan it.boundary.bytes behind = some j →
        ∃ it' out', mpIteratorNext .reference it out = (.ok, it', out') ∧
          out'.name.bytes = d.name ∧ out'.filename.bytes = d.filename.getD [] := by
  intro h
  set d : FormData := ⟨ascii "file", some (ascii "a;b.txt"), false, 1, 1⟩ with hd
  set part : Part := ⟨[⟨CONTENT_DISPOSITION.bytes, ascii " ", d.encode⟩], []⟩ with hpart
  set it : MpIterator := ⟨.lit "xy", ⟨1000, encodeParts (ascii "xy") [part]⟩, false⟩ with hit
  have hi : dashScan it.boundary.bytes it.cursor.bytes = some 0 := by decide +kernel
  obtain ⟨it', out', hcall, -, hfilename⟩ := h it ⟨.empty, .empty, .empty, .empty⟩ part d
    (ascii "\r\n--xy--") 0 2 rfl (by decide +kernel) (by decide +kernel) (by decide +kernel)
    (by decide +kernel) hi (by decide +kernel) (by decide +kernel)
  have hread : (mpIteratorNext .reference it ⟨.empty, .empty, .empty, .empty⟩).2.2.filename.bytes =
      ascii "a" := by decide +kernel
  rw [hcall, hfilename] at hread
  exact absurd hread (by decide)

end HttpC
