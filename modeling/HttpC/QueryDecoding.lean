import HttpC.Query

/-!
# Decoding a query value

What the decoding loop of `http_query.c` makes of any value in a destination of any size, whether
the value was encoded or not.

## Main results

* `decodeLoop_exact` — when the loop succeeds, and what it stores.
* `httpQueryFindDecoded_exact` — the same of the call, with its output parameter.
-/

namespace HttpC

/-! ## The model -/

/-- `http_query_find_decoded` with its output parameter, `none` for the null pointer. -/
def httpQueryFindDecodedTo (lib : CommonLib) (path name dest : Span) (outDecoded : Option Span) :
    Result × Span × Option Span :=
  match outDecoded with
  | none => (.invalidArgument, dest, none)
  | some before =>
    match httpQueryFindDecoded lib path name dest with
    | (.ok decoded, dest) => (.ok, dest, some decoded)
    | (.error r, dest) => (r, dest, some before)

def httpQueryValueNeedsDecoding (value : Span) : Bool :=
  value.bytes.any fun b => b == 37 || b == 43

/-! ## The loop -/

section

variable {size written : Nat} {text dst : Bytes}

/-- Nothing is stored behind the end of the destination. -/
theorem length_decodeLoop (h : dst.length = size) :
    (decodeLoop size text dst written).2.length = size := by
  fun_induction decodeLoop size text dst written <;> grind [Block.length_overwrite]

theorem decodeLoop_error {r : Result} (h : (decodeLoop size text dst written).1 = .error r) :
    r = .insufficientSize ∨ r = .unexpectedChar := by
  fun_induction decodeLoop size text dst written <;> grind

/-- The loop does not pass an escape that is not complete. -/
theorem decodeLoop_ok {n : Nat} (h : (decodeLoop size text dst written).1 = .ok n) :
    (Percent.decode? formByte text).isSome := by
  fun_induction decodeLoop size text dst written <;>
    grind [Percent.decode?, Percent.decode?_literal, Percent.decode?_escape, hexValue_eq]

/-- The loop succeeds exactly on the values whose decoding fits, and then stores the decoding at the
front of the destination. -/
theorem decodeLoop_exact (n : Nat) :
    (decodeLoop dst.length text dst 0).1 = .ok n ↔
      ∃ decoded, Percent.decode? formByte text = some decoded ∧ decoded.length = n ∧
        n ≤ dst.length := by
  constructor
  · intro hok
    obtain ⟨decoded, hdecoded⟩ := Option.isSome_iff_exists.mp (decodeLoop_ok hok)
    obtain ⟨hfits, hfull⟩ :=
      decodeLoop_encodes (Percent.decode?_eq_some_iff.mp hdecoded) (Nat.zero_le dst.length)
    rw [Nat.zero_add] at hfits hfull
    by_cases hle : decoded.length ≤ dst.length
    · rw [hfits hle] at hok
      obtain rfl := Except.ok.inj hok
      exact ⟨decoded, hdecoded, rfl, hle⟩
    · rw [hfull (Nat.not_le.mp hle)] at hok
      cases hok
  · rintro ⟨decoded, hdecoded, rfl, hle⟩
    have hfits :=
      (decodeLoop_encodes (Percent.decode?_eq_some_iff.mp hdecoded) (Nat.zero_le dst.length)).1
    rw [Nat.zero_add] at hfits
    rw [hfits hle]

/-- Without a percent sign and without a plus a value stands for itself. -/
theorem decode?_of_needsDecoding {value : Span} (h : httpQueryValueNeedsDecoding value = false) :
    Percent.decode? formByte value.bytes = some value.bytes := by
  rw [httpQueryValueNeedsDecoding, List.any_eq_false] at h
  rw [Percent.decode?_eq_some_iff]
  generalize value.bytes = text at h ⊢
  induction text with
  | nil => exact .nil
  | cons c text ih =>
    have hc := h c List.mem_cons_self
    simp only [Bool.or_eq_true, beq_iff_eq, not_or] at hc
    exact .plain ⟨hc.1, (if_neg hc.2).symm⟩ (ih fun b hb => h b (List.mem_cons_of_mem _ hb))

end

/-! ## The call -/

/-- How a call ends for a value that was found: the decoding fits and is returned, or there is none
that fits and the output parameter is left alone. -/
theorem httpQueryFindDecodedTo_cases {lib : CommonLib} {path name raw : Span}
    (hfind : httpQueryFind lib path name = .ok raw) (dest before : Span) :
    ∃ dst : Bytes, dst.length = dest.size ∧
      ((∃ decoded, Percent.decode? formByte raw.bytes = some decoded ∧
          decoded.length ≤ dest.size ∧ httpQueryFindDecodedTo lib path name dest (some before) =
            (.ok, ⟨dest.ptr, dst⟩, some ⟨dest.ptr, decoded⟩)) ∨
        ∃ r ≠ Result.ok, (∀ decoded, Percent.decode? formByte raw.bytes = some decoded →
          dest.size < decoded.length) ∧ httpQueryFindDecodedTo lib path name dest (some before) =
            (r, ⟨dest.ptr, dst⟩, some before)) := by
  refine ⟨(decodeLoop dest.size raw.bytes dest.bytes 0).2, length_decodeLoop rfl, ?_⟩
  cases hloop : (decodeLoop dest.size raw.bytes dest.bytes 0).1 with
  | ok n =>
    left
    obtain ⟨decoded, hdecoded, rfl, hle⟩ := (decodeLoop_exact n).mp hloop
    have hencodes := Percent.decode?_eq_some_iff.mp hdecoded
    have hfits := (decodeLoop_encodes hencodes (Nat.zero_le dest.bytes.length)).1
    have hstored := Block.window_overwrite_self (d := decoded) (Nat.zero_le dest.bytes.length)
    have hlen := Block.length_overwrite (l := dest.bytes) (d := decoded) (i := 0)
      (by rwa [Nat.zero_add])
    rw [Nat.zero_add] at hfits
    refine ⟨decoded, hdecoded, hle, ?_⟩
    simp only [httpQueryFindDecodedTo, httpQueryFindDecoded, hfind, Span.size, hfits hle]
    rw [lib.spanSlice_eq _ _ _ (by rw [Span.size, hlen, Nat.zero_add]; exact hle)]
    exact congrArg (fun bytes => (Result.ok, _, some (Span.mk dest.ptr bytes))) hstored
  | error r =>
    right
    have hr := decodeLoop_error hloop
    refine ⟨r, by rcases hr with rfl | rfl <;> decide, fun decoded hdecoded => ?_, ?_⟩
    · by_contra hle
      have hok := (decodeLoop_exact decoded.length).mpr ⟨decoded, hdecoded, rfl, Nat.not_lt.mp hle⟩
      rw [← Span.size, hloop] at hok
      cases hok
    · simp only [httpQueryFindDecodedTo, httpQueryFindDecoded, hfind]
      rw [← Prod.mk.eta (p := decodeLoop dest.size raw.bytes dest.bytes 0), hloop]

/-- A failed call leaves the output parameter alone and no call stores outside the destination.
Decoding a value that was found succeeds exactly if its escapes are complete and the decoded value
fits, and returns the decoded value. -/
theorem httpQueryFindDecoded_exact (lib : CommonLib) (path name dest before : Span) :
    let call := httpQueryFindDecodedTo lib path name dest (some before)
    (call.1 ≠ .ok → call.2.2 = some before) ∧
    (call.2.1.ptr = dest.ptr ∧ call.2.1.size = dest.size) ∧
    ∀ raw, httpQueryFind lib path name = .ok raw →
      (call.1 = .ok ↔ Percent.EscapesComplete raw.bytes ∧ ∀ decoded,
        Percent.decode? formByte raw.bytes = some decoded → decoded.length ≤ dest.size) ∧
      (call.1 = .ok → ∃ decoded, Percent.decode? formByte raw.bytes = some decoded ∧
        call.2.2 = some ⟨dest.ptr, decoded⟩) ∧
      (httpQueryValueNeedsDecoding raw = false → raw.size ≤ dest.size →
        call.1 = .ok ∧ call.2.2 = some ⟨dest.ptr, raw.bytes⟩) := by
  intro call
  cases hfind : httpQueryFind lib path name with
  | error r =>
    have hcall : call = (r, dest, some before) := by
      simp only [call, httpQueryFindDecodedTo, httpQueryFindDecoded, hfind]
    rw [hcall]
    exact ⟨fun _ => rfl, ⟨rfl, rfl⟩, fun raw hraw => by cases hraw⟩
  | ok raw =>
    have hcomplete : (Percent.decode? formByte raw.bytes).isSome ↔ _ := Percent.isSome_decode?
    obtain ⟨dst, hdst, ⟨decoded, hdecoded, hle, hcall⟩ | ⟨r, hr, hlt, hcall⟩⟩ :=
      httpQueryFindDecodedTo_cases hfind dest before
    · rw [show call = _ from hcall]
      refine ⟨fun h => absurd rfl h, ⟨rfl, hdst⟩, ?_⟩
      rintro _ ⟨⟩
      refine ⟨⟨fun _ => ⟨hcomplete.mp ?_, fun other hother => ?_⟩, fun _ => rfl⟩,
        fun _ => ⟨decoded, hdecoded, rfl⟩, fun hplain _ => ?_⟩
      · rw [hdecoded, Option.isSome_some]
      · obtain rfl := Option.some.inj (hdecoded.symm.trans hother)
        exact hle
      · rw [decode?_of_needsDecoding hplain, Option.some.injEq] at hdecoded
        rw [hdecoded]
        exact ⟨rfl, rfl⟩
    · rw [show call = _ from hcall]
      refine ⟨fun _ => rfl, ⟨rfl, hdst⟩, ?_⟩
      rintro _ ⟨⟩
      refine ⟨⟨fun h => absurd h hr, fun h => ?_⟩, fun h => absurd h hr, fun hplain hfits => ?_⟩
      · obtain ⟨decoded, hdecoded⟩ := Option.isSome_iff_exists.mp (hcomplete.mpr h.1)
        exact absurd (h.2 decoded hdecoded) (Nat.not_le.mpr (hlt decoded hdecoded))
      · exact absurd hfits (Nat.not_le.mpr (hlt _ (decode?_of_needsDecoding hplain)))

/-- An escaped value in a destination that it fills. -/
theorem httpQueryFindDecoded_exact_search :
    let path : Span := ⟨1000, ascii "/search?q=x+y%26z"⟩
    let dest : Span := ⟨2000, List.replicate 5 0⟩
    (httpQueryFindDecodedTo .reference path (.lit "q") dest (some .empty)).1 = .ok ↔
      Percent.EscapesComplete (ascii "x+y%26z") ∧ ∀ decoded,
        Percent.decode? formByte (ascii "x+y%26z") = some decoded → decoded.length ≤ dest.size := by
  intro path dest
  have hfind : httpQueryFind .reference path (.lit "q") = .ok ⟨1010, ascii "x+y%26z"⟩ := by
    decide +kernel
  exact ((httpQueryFindDecoded_exact .reference path (.lit "q") dest .empty).2.2 _ hfind).1

end HttpC
