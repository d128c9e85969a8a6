import HttpC.Connection.ResponseDechunking
import HttpC.Connection.Truncation

/-!
# Malformed chunk streams

`response_body_reader_chunked` refuses a size line without digits, with other characters behind
them or with a size of more than 32 bits, and data that no empty line follows. `read_chunked_body`
has none of these checks: it skips what it does not read.

## Main results

* `Reading.refusesAsMalformed_iff` — the streams that the response decoder refuses as malformed.
* `malformed_refused_iff` — when the request decoder refuses them, too.
-/

namespace HttpC

open Block

/-! ## Streams that leave the grammar -/

/-- Behind chunks of the grammar there is a line that is no size line, or there is something else
than an empty line behind the data of a chunk. -/
inductive Malformed : Bytes → Prop
  | sizeLine {line : Line} {rest : Bytes} (hline : line.WellFormed)
    (hsize : parseChunkSize line.content = none) : Malformed (line.encode ++ rest)
  | dataEnd {size : SizeLine} {data rest : Bytes} {line : Line} (hsize : size.WellFormed)
    (hdata : data ≠ []) (hlength : size.size = data.length) (hline : line.WellFormed)
    (hcontent : line.content ≠ []) :
    Malformed (size.line.encode ++ (data ++ (line.encode ++ rest)))
  | chunk {c : DataChunk} {rest : Bytes} (hc : c.WellFormed) (h : Malformed rest) :
    Malformed (c.encode ++ rest)

section

variable (lib : CommonLib) (bodyHandler : Option BodyHandler) (buffer capacity : Nat)

/-- `response_body_reader_chunked` comes to one of its two checks of what a line says, and the line
fails it. -/
inductive FindsMalformed : BodyReader → Prop
  | sizeLine {r s : BodyReader} {line : Bytes}
    (hread : responseBodyReaderReadLine lib buffer capacity r = some (.ok, line, s))
    (hsize : parseChunkSize line = none) : FindsMalformed r
  | dataEnd {r s t u : BodyReader} {line after : Bytes} {chunkSize : Nat}
    (hread : responseBodyReaderReadLine lib buffer capacity r = some (.ok, line, s))
    (hsize : parseChunkSize line = some chunkSize) (hne : chunkSize ≠ 0)
    (hpass : responseBodyReaderPassThrough lib bodyHandler buffer capacity s chunkSize =
      some (.ok, t))
    (hafter : responseBodyReaderReadLine lib buffer capacity t = some (.ok, after, u))
    (hcontent : after ≠ []) : FindsMalformed r
  | again {r s : BodyReader} (hpass : chunkedPass lib bodyHandler buffer capacity r = some (.again s))
    (h : FindsMalformed s) : FindsMalformed r

/-- The call returns `error` because of what a line says. -/
structure RefusesAsMalformed (r : BodyReader) : Prop where
  error : ∃ s, responseBodyReaderChunked lib bodyHandler buffer capacity r = some (.error, s)
  cause : FindsMalformed lib bodyHandler buffer capacity r

end

section

variable {lib : CommonLib} {bodyHandler : Option BodyHandler} {buffer capacity : Nat}
  {below : Bytes} {orderly : Bool} {input : Bytes} {r : BodyReader}

/-- The line that is read is the first one of the input. -/
theorem Reading.readLine_eq (h : Reading buffer capacity below orderly input r) {content : Bytes}
    {s : BodyReader}
    (hread : responseBodyReaderReadLine lib buffer capacity r = some (.ok, content, s)) :
    ∃ (l : Line) (rest : Bytes), l.WellFormed ∧ l.content = content ∧ input = l.encode ++ rest ∧
      Reading buffer capacity below orderly rest s ∧ Kept buffer r s := by
  rcases h.readLine_sound lib with
    ⟨l, rest, s', hl, hinput, -, hread', hs, hkept⟩ | ⟨result, line, s', hread', herror⟩
  · rw [hread] at hread'
    obtain ⟨rfl, rfl⟩ : _ ∧ _ := by simpa using hread'
    exact ⟨l, rest, hl, rfl, hinput, hs, hkept⟩
  · rw [hread] at hread'
    obtain ⟨rfl, -, -⟩ : _ ∧ _ ∧ _ := by simpa using hread'
    simp at herror

/-- An accepted size is the size of a line of the grammar. -/
theorem exists_sizeLine {l : Line} (hl : l.WellFormed) {size : Nat}
    (hsize : parseChunkSize l.content = some size) :
    ∃ sl : SizeLine, sl.WellFormed ∧ sl.line = l ∧ sl.size = size := by
  obtain ⟨digits, extension, hcontent, hdigits, hne, hnumber, hlt, hext⟩ :=
    sizeLine_of_parseChunkSize hsize
  have hline : (⟨digits, extension, l.cr⟩ : SizeLine).line = l := by
    rw [SizeLine.line, ← hcontent]
  exact ⟨⟨digits, extension, l.cr⟩, ⟨hline ▸ hl, hdigits, hne, hnumber.trans_lt hlt, hext⟩, hline,
    hnumber⟩

variable (hok : ∀ handler ∈ bodyHandler, ∀ pieces, lib.isError (handler pieces) = false)

include hok

/-- What is found malformed is. -/
theorem Reading.malformed (h : Reading buffer capacity below orderly input r)
    (hfinds : FindsMalformed lib bodyHandler buffer capacity r) : Malformed input := by
  induction hfinds generalizing input with
  | sizeLine hread hsize =>
    obtain ⟨l, rest, hl, rfl, rfl, -⟩ := h.readLine_eq hread
    exact .sizeLine hl hsize
  | dataEnd hread hsize hne hpass hafter hcontent =>
    obtain ⟨l, rest, hl, rfl, rfl, hs, -⟩ := h.readLine_eq hread
    obtain ⟨size, hsl, rfl, rfl⟩ := exists_sizeLine hl hsize
    obtain ⟨result, t', hpass', ⟨hle, -, ht, -⟩ | ⟨hshort, -⟩⟩ :=
      hs.passThrough_cases lib hok size.size
    · rw [hpass] at hpass'
      obtain ⟨-, rfl⟩ : _ ∧ _ := by simpa using hpass'
      obtain ⟨l', rest', hl', rfl, hrest, -⟩ := ht.readLine_eq hafter
      rw [← List.take_append_drop size.size rest, hrest]
      refine .dataEnd hsl ?_ ?_ hl' hcontent
      · rw [← List.length_pos_iff, List.length_take]
        omega
      · rw [List.length_take, Nat.min_eq_left hle]
    · rw [hpass] at hpass'
      obtain ⟨rfl, -⟩ : _ ∧ _ := by simpa using hpass'
      exact absurd (hshort ▸ isError_shortage lib _ _) (by simp)
  | again hpass _ ih =>
    rcases h.chunkedPass_cases lib hok with ⟨c, rest, s, hc, rfl, -, hpass', hs, -⟩ |
      ⟨_, _, _, _, _, -, -, -, -, -, hpass', -⟩ | ⟨_, _, hpass', -⟩
    · rw [hpass] at hpass'
      obtain rfl : _ = s := by simpa using hpass'
      exact .chunk hc (ih hs)
    · rw [hpass] at hpass'
      simp at hpass'
    · rw [hpass] at hpass'
      simp at hpass'

/-- What is malformed is found so, in a window that holds everything. -/
theorem Reading.findsMalformed (h : Reading buffer capacity below orderly input r)
    (hinput : Malformed input) (hroom : r.storedLength + input.length ≤ capacity) {fuel : Nat}
    (hfuel : input.length < fuel) :
    (∃ s, Loop.run (chunkedPass lib bodyHandler buffer capacity) fuel r = some (.error, s)) ∧
      FindsMalformed lib bodyHandler buffer capacity r := by
  induction hinput generalizing r fuel with
  | @sizeLine line rest hline hsize =>
    obtain ⟨fuel, rfl⟩ : ∃ n, fuel = n + 1 := ⟨fuel - 1, by omega⟩
    rw [List.length_append] at hroom
    obtain ⟨s, hread, -, -⟩ := h.readLine_encode lib hline (by omega)
    have hpass : chunkedPass lib bodyHandler buffer capacity r = some (.done (.error, s)) := by
      simp [chunkedPass, hread, hsize]
    exact ⟨⟨s, Loop.run_done hpass _⟩, .sizeLine hread hsize⟩
  | @dataEnd size data rest line hsize hdata hlength hline hcontent =>
    obtain ⟨fuel, rfl⟩ : ∃ n, fuel = n + 1 := ⟨fuel - 1, by omega⟩
    simp only [List.length_append] at hroom
    have hlen := size.line.length_encode
    have hpos := List.length_pos_iff.mpr hdata
    have hstored : storedBy bodyHandler data.length ≤ data.length := by
      cases bodyHandler <;> simp [storedBy]
    obtain ⟨s, hread, hs, hkept⟩ := h.readLine_encode lib hsize.line (by omega)
    have hparse : parseChunkSize size.line.content = some data.length := by
      rw [← hlength]
      exact parseChunkSize_sizeLine hsize.digits hsize.nonempty hsize.size hsize.extension
    have hkept' := hkept.storedLength
    obtain ⟨result, t, hpass, ⟨-, rfl, ht, hpassed⟩ | ⟨-, hstuck⟩⟩ :=
      hs.passThrough_cases lib hok data.length
    swap
    · rw [List.length_append] at hstuck
      omega
    rw [List.drop_left' rfl] at ht
    have hpassed' := hpassed.storedLength
    rw [List.take_left' rfl] at hpassed'
    obtain ⟨u, hafter, -, -⟩ := ht.readLine_encode lib hline (by omega)
    have hne : data.length ≠ 0 := by omega
    have hdone : chunkedPass lib bodyHandler buffer capacity r = some (.done (.error, u)) := by
      simp [chunkedPass, hread, hparse, hne, hpass, hafter, hcontent]
    exact ⟨⟨u, Loop.run_done hdone _⟩, .dataEnd hread hparse hne hpass hafter hcontent⟩
  | @chunk c rest hc _ ih =>
    obtain ⟨fuel, rfl⟩ : ∃ n, fuel = n + 1 := ⟨fuel - 1, by omega⟩
    have hlen : c.encode.length =
        c.size.line.encode.length + (c.data.length + (Line.empty c.cr).encode.length) := by
      simp [DataChunk.encode]
    have hline := c.size.line.length_encode
    have hstored : storedBy bodyHandler c.data.length ≤ c.data.length := by
      cases bodyHandler <;> simp [storedBy]
    rw [List.length_append] at hroom hfuel
    obtain ⟨s, hpass, hs, hpassed⟩ := h.chunk lib hok hc (by
      simp only [List.mem_cons, List.not_mem_nil, or_false, forall_eq_or_imp, forall_eq]
      omega)
    have hpassed' := hpassed.storedLength
    obtain ⟨⟨u, hrun⟩, hfinds⟩ := @ih s hs (by omega) fuel (by omega)
    exact ⟨⟨u, by rw [Loop.run_again hpass, hrun]⟩, .again hpass hfinds⟩

/-- In a window that holds the whole stream, exactly the malformed streams are refused as
malformed. -/
theorem Reading.refusesAsMalformed_iff (h : Reading buffer capacity below orderly input r)
    (hroom : r.storedLength + input.length ≤ capacity) :
    RefusesAsMalformed lib bodyHandler buffer capacity r ↔ Malformed input := by
  refine ⟨fun hrefuses => h.malformed hok hrefuses.cause, fun hinput => ?_⟩
  obtain ⟨herror, hfinds⟩ := h.findsMalformed hok hinput hroom h.length_lt
  exact ⟨herror, hfinds⟩

end

/-! ## The two decoders -/

/-- A malformed stream is refused by the request decoder exactly when none of the lines that it
comes to counts as zero-size. -/
theorem malformed_refused_iff (lib : CommonLib) {bodyHandler : Option BodyHandler}
    (hok : ∀ handler ∈ bodyHandler, ∀ pieces, lib.isError (handler pieces) = false)
    {buffer capacity prefetched : Nat} {mem : Bytes} {wire : Wire} {k : DechunkCall} {input : Bytes}
    (hresponse : window mem buffer prefetched ++ arriving wire = input)
    (hrequest : k.prefetched ++ arriving k.wire = input)
    (hprefetched : prefetched ≤ capacity) (hfit : buffer + capacity ≤ mem.length)
    (hbefore : k.rptr + k.rlen ≤ k.raw) (hfits : k.raw + k.cap ≤ k.mem.length)
    (hcapacity : input.length ≤ capacity) (hcap : input.length ≤ k.cap) :
    (RefusesAsMalformed lib bodyHandler buffer capacity (.opened mem wire prefetched) →
        ∀ s, k.run lib ≠ some (.ok, s)) ↔
      (Malformed input → ¬ ClosesAt (stopAt k.boundaries k.cap) input 0 k.rlen) := by
  have hreading := @Reading.opened _ _ _ wire _ hfit hprefetched
  rw [hresponse] at hreading
  have hrefuses := @Reading.refusesAsMalformed_iff lib _ _ _ _ _ _ _ hok hreading
    (by simpa [BodyReader.opened] using hcapacity)
  obtain ⟨result, s, hrun, hcloses, -⟩ := k.run_ok_iff lib hbefore hfits
  have hrlen : min k.rlen k.cap = k.rlen := by
    have hlength := congrArg List.length hrequest
    rw [List.length_append, DechunkCall.prefetched, length_window (by omega)] at hlength
    omega
  rw [hrequest, List.take_of_length_le hcap, hrlen] at hcloses
  rw [hrefuses, hrun]
  refine imp_congr_right fun _ => ?_
  rw [DechunkCall.boundaries, ← hcloses]
  simp

/-- A stream whose second size line is malformed. -/
def unclosedStream : Bytes := ascii "1\r\na\r\n3x\r\nb\r\n"

theorem malformed_unclosedStream : Malformed unclosedStream :=
  @Malformed.chunk ⟨⟨ascii "1", [], true⟩, ascii "a", true⟩ (ascii "3x\r\nb\r\n")
    ⟨⟨⟨by decide, by decide⟩, by decide +kernel, by decide, by decide +kernel, by decide⟩,
      by decide, by decide +kernel⟩
    (@Malformed.sizeLine ⟨ascii "3x", true⟩ (ascii "b\r\n") ⟨by decide, by decide⟩
      (by decide +kernel))

/-- It comes to no line that counts as zero-size, and the request decoder refuses it as well. -/
theorem malformed_refused_unclosed :
    let k : DechunkCall := ⟨List.replicate 20 0, [.data unclosedStream], 0, 0, 0, 20⟩
    let r := BodyReader.opened (List.replicate 20 0) [.data unclosedStream] 0
    RefusesAsMalformed .reference none 0 20 r ∧
      (k.run .reference).map Prod.fst = some .error ∧
      ¬ ClosesAt (stopAt k.boundaries k.cap) unclosedStream 0 k.rlen := by
  intro k r
  have hreading := @Reading.opened 0 20 (List.replicate 20 0) [.data unclosedStream] 0 (by decide)
    (by decide)
  have hrefuses : RefusesAsMalformed .reference none 0 20 r :=
    (hreading.refusesAsMalformed_iff (by simp) (by decide +kernel)).mpr malformed_unclosedStream
  have hresult : (k.run .reference).map Prod.fst = some .error := by decide +kernel
  have hiff : (RefusesAsMalformed .reference none 0 20 r → ∀ s, k.run .reference ≠ some (.ok, s)) ↔
      (Malformed unclosedStream → ¬ ClosesAt (stopAt k.boundaries k.cap) unclosedStream 0 k.rlen) :=
    malformed_refused_iff .reference (by simp) (by decide +kernel) (by decide +kernel) (by decide)
      (by decide) (by decide) (by decide) (by decide +kernel) (by decide +kernel)
  refine ⟨hrefuses, hresult, hiff.mp (fun _ s hok => ?_) malformed_unclosedStream⟩
  rw [hok] at hresult
  cases hresult

/-- The request decoder takes a line without digits for the zero-size line. -/
theorem malformed_accepted :
    ¬ ∀ (bodyHandler : Option BodyHandler) (buffer capacity prefetched : Nat) (mem : Bytes)
      (wire : Wire) (k : DechunkCall) (input : Bytes),
      (∀ handler ∈ bodyHandler, ∀ pieces, CommonLib.reference.isError (handler pieces) = false) →
      window mem buffer prefetched ++ arriving wire = input →
      k.prefetched ++ arriving k.wire = input → prefetched ≤ capacity →
      buffer + capacity ≤ mem.length → k.rptr + k.rlen ≤ k.raw → k.raw + k.cap ≤ k.mem.length →
      input.length ≤ capacity → input.length ≤ k.cap →
      RefusesAsMalformed .reference bodyHandler buffer capacity (.opened mem wire prefetched) →
        ∀ s, k.run .reference ≠ some (.ok, s) := by
  intro h
  set input := ascii "zz\r\nhello\r\n0\r\n\r\n" with hinput
  have hreading := @Reading.opened 0 20 (List.replicate 20 0) [.data input] 0 (by decide)
    (by decide)
  have hmalformed : Malformed input :=
    @Malformed.sizeLine ⟨ascii "zz", true⟩ (ascii "hello\r\n0\r\n\r\n")
      ⟨by decide +kernel, by decide⟩ (by decide +kernel)
  have hrefuses : RefusesAsMalformed .reference none 0 20
      (.opened (List.replicate 20 0) [.data input] 0) :=
    (hreading.refusesAsMalformed_iff (by simp) (by decide +kernel)).mpr hmalformed
  have hrun : ((⟨List.replicate 20 0, [.data input], 0, 0, 0, 20⟩ : DechunkCall).run
      .reference).map Prod.fst = some .ok := by
    decide +kernel
  obtain ⟨⟨result, s⟩, hs, hresult⟩ := Option.map_eq_some_iff.mp hrun
  obtain rfl : result = .ok := hresult
  exact h none 0 20 0 (List.replicate 20 0) [.data input] _ input (by simp) (by decide +kernel)
    (by decide +kernel) (by decide) (by decide) (by decide) (by decide) (by decide +kernel)
    (by decide +kernel) hrefuses s hs

end HttpC
