import HttpC.Connection.ChunkStream
import HttpC.Connection.ReaderSteps

/-!
# Decoding a chunked response

`response_body_reader_chunked` reads a size line, passes that many bytes on and reads an empty
line, until a size is zero. A line has to fit the window behind the body stored so far; the
window slides, so a body that is handed on has no such bound.

## Main results

* `Reading.chunked` — a stream of the grammar is decoded, if its lines fit.
* `Reading.chunked_cases` — nothing else is.
* `chunked_streaming` — what the decoder makes of any stream, and of a handler that fails.
-/

namespace HttpC

open Block

section

variable (lib : CommonLib) {buffer capacity : Nat} {below : Bytes} {orderly : Bool}
  {input rest : Bytes} {r : BodyReader}

/-- A line of the grammar is read, if it fits. -/
theorem Reading.readLine_encode {l : Line}
    (h : Reading buffer capacity below orderly (l.encode ++ rest) r) (hl : l.WellFormed)
    (hroom : r.storedLength + l.encode.length ≤ capacity) :
    ∃ r', responseBodyReaderReadLine lib buffer capacity r = some (.ok, l.content, r') ∧
      Reading buffer capacity below orderly rest r' ∧ Kept buffer r r' := by
  rw [l.length_encode] at hroom
  have hread := h.readLine lib (l.encode_append rest) hl.feed_text (by omega)
  rwa [hl.stripCr_text] at hread

/-- Only lines of the grammar are read. -/
theorem Reading.readLine_sound (h : Reading buffer capacity below orderly input r) :
    (∃ (l : Line) (rest : Bytes) (r' : BodyReader), l.WellFormed ∧ input = l.encode ++ rest ∧
      r.storedLength + l.encode.length ≤ capacity ∧
      responseBodyReaderReadLine lib buffer capacity r = some (.ok, l.content, r') ∧
        Reading buffer capacity below orderly rest r' ∧ Kept buffer r r') ∨
    ∃ result line r', responseBodyReaderReadLine lib buffer capacity r = some (result, line, r') ∧
      lib.isError result = true := by
  rcases h.readLine_cases lib with ⟨text, rest, r', rfl, htext, hlt, hrun, hr', hkept⟩ |
    ⟨-, line, r', hrun⟩
  · obtain ⟨l, hl, rfl, hcontent⟩ := Line.exists_of_text htext
    refine .inl ⟨l, rest, r', hl, (l.encode_append rest).symm, ?_, hcontent ▸ hrun, hr', hkept⟩
    rw [l.length_encode]
    omega
  · exact .inr ⟨_, line, r', hrun, isError_shortage lib _ _⟩

/-- The fuel of the loops is more than the bytes that are left. -/
theorem Reading.length_lt (h : Reading buffer capacity below orderly input r) :
    input.length < capacity + weight r.wire + 1 := by
  have hpending := h.length_pending
  have hstop := h.stop_le
  have harriving := length_arriving_le r.wire
  rw [← h.ahead, List.length_append]
  omega

/-! ## Trailers -/

/-- Trailer lines are discarded up to the empty line. -/
theorem Reading.trailers {trailers : List Line} {cr : Bool}
    (h : Reading buffer capacity below orderly (encodeTrailers trailers cr ++ rest) r)
    (hwf : ∀ l ∈ trailers, l.WellFormed ∧ l.content ≠ [])
    (hroom : ∀ l ∈ trailers ++ [.empty cr], r.storedLength + l.encode.length ≤ capacity)
    {fuel : Nat} (hfuel : trailers.length < fuel) :
    ∃ r', Loop.run (trailerPass lib buffer capacity) fuel r = some (.ok, r') ∧
      Reading buffer capacity below orderly rest r' ∧ Kept buffer r r' := by
  induction trailers generalizing r fuel with
  | nil =>
    obtain ⟨fuel, rfl⟩ : ∃ n, fuel = n + 1 := ⟨fuel - 1, by simp at hfuel; omega⟩
    obtain ⟨r', hread, hr', hkept⟩ := Reading.readLine_encode lib (l := .empty cr)
      (by simpa [encodeTrailers] using h) (Line.wellFormed_empty cr) (hroom _ (by simp))
    refine ⟨r', Loop.run_done ?_ _, hr', hkept⟩
    simp [trailerPass, hread, Line.empty]
  | cons l trailers ih =>
    obtain ⟨fuel, rfl⟩ : ∃ n, fuel = n + 1 := ⟨fuel - 1, by simp at hfuel; omega⟩
    obtain ⟨hl, hne⟩ := hwf l List.mem_cons_self
    obtain ⟨s, hread, hs, hkept⟩ := @Reading.readLine_encode lib buffer capacity below orderly
      (encodeTrailers trailers cr ++ rest) r l (by simpa [encodeTrailers] using h) hl
      (hroom l (by simp))
    have hpass : trailerPass lib buffer capacity r = some (.again s) := by
      simp [trailerPass, hread, hne]
    rw [Loop.run_again hpass]
    obtain ⟨r', hrun, hr', hkept'⟩ := ih hs (fun l hl => hwf l (List.mem_cons_of_mem _ hl))
      (fun l hl => by rw [hkept.storedLength]; exact hroom l (List.mem_cons_of_mem _ hl))
      (show trailers.length < fuel by simp at hfuel; omega)
    exact ⟨r', hrun, hr', hkept.trans hkept'⟩

theorem Reading.trailers_cases (h : Reading buffer capacity below orderly input r) {fuel : Nat}
    (hfuel : input.length < fuel) :
    ∃ result r', Loop.run (trailerPass lib buffer capacity) fuel r = some (result, r') ∧
      (lib.isError result = true ∨ result = .ok ∧ ∃ trailers cr rest,
        (∀ l ∈ trailers, l.WellFormed ∧ l.content ≠ []) ∧
        (∀ l ∈ trailers ++ [.empty cr], l.encode.length ≤ capacity) ∧
        input = encodeTrailers trailers cr ++ rest ∧
        Reading buffer capacity below orderly rest r' ∧ Kept buffer r r') := by
  induction fuel generalizing input r with
  | zero => omega
  | succ fuel ih =>
    rcases h.readLine_sound lib with
      ⟨l, rest, s, hl, rfl, hle, hread, hs, hkept⟩ | ⟨result, line, s, hread, herror⟩
    · by_cases hempty : l.content = []
      · have hpass : trailerPass lib buffer capacity r = some (.done (.ok, s)) := by
          simp [trailerPass, hread, hempty]
        obtain ⟨content, cr⟩ := l
        dsimp only at hempty
        subst hempty
        refine ⟨.ok, s, Loop.run_done hpass _,
          .inr ⟨rfl, [], cr, rest, by simp, ?_, rfl, hs, hkept⟩⟩
        simpa [Line.empty] using (Nat.le_add_left _ _).trans hle
      · have hpass : trailerPass lib buffer capacity r = some (.again s) := by
          simp [trailerPass, hread, hempty]
        rw [List.length_append, l.length_encode] at hfuel
        obtain ⟨result, r', hrun, hcases⟩ := ih hs (by omega)
        refine ⟨result, r', by rw [Loop.run_again hpass, hrun], hcases.imp id ?_⟩
        rintro ⟨hok, trailers, cr, rest, hwf, hfits, rfl, hr', hkept'⟩
        refine ⟨hok, l :: trailers, cr, rest, ?_, ?_, ?_, hr', hkept.trans hkept'⟩
        · exact fun l' hl' => (List.mem_cons.mp hl').elim (fun heq => heq ▸ ⟨hl, hempty⟩) (hwf l')
        · exact fun l' hl' => (List.mem_cons.mp hl').elim
            (fun heq => heq ▸ (Nat.le_add_left _ _).trans hle) (hfits l')
        · simp [encodeTrailers]
    · have hpass : trailerPass lib buffer capacity r = some (.done (result, s)) := by
        simp [trailerPass, hread, herror]
      exact ⟨result, s, Loop.run_done hpass _, .inl herror⟩

end

/-! ## Chunks -/

theorem length_flatMap_le {α : Type} {f : α → Bytes} (l : List α) (h : ∀ a ∈ l, 0 < (f a).length) :
    l.length ≤ (l.flatMap f).length := by
  induction l with
  | nil => exact Nat.le_refl _
  | cons a l ih =>
    have ha := h a List.mem_cons_self
    have hl := ih fun b hb => h b (List.mem_cons_of_mem _ hb)
    rw [List.flatMap_cons, List.length_append, List.length_cons]
    omega

theorem length_trailers_le (trailers : List Line) (cr : Bool) (rest : Bytes) :
    trailers.length ≤ (encodeTrailers trailers cr ++ rest).length := by
  have hle := length_flatMap_le (f := Line.encode) trailers fun l _ => by
    rw [l.length_encode]
    omega
  rw [encodeTrailers, List.append_assoc, List.length_append]
  omega

section

variable (lib : CommonLib) {bodyHandler : Option BodyHandler} {buffer capacity : Nat}
  {below : Bytes} {orderly : Bool} {input rest : Bytes} {r : BodyReader}

/-- The zero-size line and the trailers. -/
theorem Reading.lastChunk {last : SizeLine} {trailers : List Line} {cr : Bool}
    (h : Reading buffer capacity below orderly
      (last.line.encode ++ (encodeTrailers trailers cr ++ rest)) r)
    (hlast : last.WellFormed) (hsize : last.size = 0)
    (hwf : ∀ l ∈ trailers, l.WellFormed ∧ l.content ≠ [])
    (hroom : ∀ l ∈ last.line :: (trailers ++ [.empty cr]),
      r.storedLength + l.encode.length ≤ capacity) :
    ∃ r', chunkedPass lib bodyHandler buffer capacity r = some (.done (.ok, r')) ∧
      Reading buffer capacity below orderly rest r' ∧ Kept buffer r r' := by
  obtain ⟨s, hread, hs, hkept⟩ := h.readLine_encode lib hlast.line (hroom _ List.mem_cons_self)
  have hparse : parseChunkSize last.line.content = some 0 := by
    rw [← hsize]
    exact parseChunkSize_sizeLine hlast.digits hlast.nonempty hlast.size hlast.extension
  obtain ⟨r', hrun, hr', hkept'⟩ := hs.trailers lib hwf
    (fun l hl => hkept.storedLength ▸ hroom l (List.mem_cons_of_mem _ hl))
    (lt_of_le_of_lt (length_trailers_le trailers cr rest) hs.length_lt)
  refine ⟨r', ?_, hr', hkept.trans hkept'⟩
  simp [chunkedPass, hread, hparse, hrun]

variable (hok : ∀ handler ∈ bodyHandler, ∀ pieces, lib.isError (handler pieces) = false)

include hok

/-- A chunk: its size line, its data and the empty line behind them. -/
theorem Reading.chunk {c : DataChunk}
    (h : Reading buffer capacity below orderly (c.encode ++ rest) r) (hc : c.WellFormed)
    (hroom : ∀ l ∈ [c.size.line, .empty c.cr],
      r.storedLength + storedBy bodyHandler c.data.length + l.encode.length ≤ capacity) :
    ∃ r', chunkedPass lib bodyHandler buffer capacity r = some (.again r') ∧
      Reading buffer capacity below orderly rest r' ∧
      Passed bodyHandler buffer capacity c.data r r' := by
  rw [DataChunk.encode, List.append_assoc, List.append_assoc] at h
  have hline := hroom c.size.line (by simp)
  have hempty := hroom (.empty c.cr) (by simp)
  obtain ⟨s, hread, hs, hkept⟩ := h.readLine_encode lib hc.size.line (by omega)
  have hparse : parseChunkSize c.size.line.content = some c.data.length := by
    rw [← hc.length]
    exact parseChunkSize_sizeLine hc.size.digits hc.size.nonempty hc.size.size hc.size.extension
  have hdata := List.length_pos_iff.mpr hc.data
  have hstored := hkept.storedLength
  rw [(Line.empty c.cr).length_encode] at hempty
  obtain ⟨result, t, hpass, ⟨-, rfl, ht, hpassed⟩ | ⟨-, hstuck⟩⟩ :=
    hs.passThrough_cases lib hok c.data.length
  swap
  · rw [List.length_append] at hstuck
    omega
  rw [List.take_left' rfl] at hpassed
  rw [List.drop_left' rfl] at ht
  have hstored' := hpassed.storedLength
  obtain ⟨r', hread', hr', hkept'⟩ := ht.readLine_encode lib (Line.wellFormed_empty c.cr)
    (by rw [(Line.empty c.cr).length_encode]; omega)
  refine ⟨r', ?_, hr', ?_⟩
  · have hne : c.data.length ≠ 0 := by omega
    simp [chunkedPass, hread, hparse, hne, hpass, hread', Line.empty]
  · simpa using (hkept.passed.trans hpassed).trans hkept'.passed

/-- A stream of the grammar is decoded, if its lines fit behind the stored body. -/
theorem Reading.chunked {stream : ChunkStream}
    (h : Reading buffer capacity below orderly (stream.encode ++ rest) r) (hwf : stream.WellFormed)
    (hroom : ∀ l ∈ stream.lines, r.storedLength +
      storedBy bodyHandler stream.payload.length + l.encode.length ≤ capacity) :
    ∃ r', responseBodyReaderChunked lib bodyHandler buffer capacity r = some (.ok, r') ∧
      Reading buffer capacity below orderly rest r' ∧
      Passed bodyHandler buffer capacity stream.payload r r' := by
  have hloop : ∀ {chunks : List DataChunk} {r : BodyReader} {fuel : Nat},
      Reading buffer capacity below orderly (chunks.flatMap DataChunk.encode ++
        (stream.last.line.encode ++ (encodeTrailers stream.trailers stream.cr ++ rest))) r →
      (∀ c ∈ chunks, c.WellFormed) → chunks.length < fuel →
      (∀ l ∈ chunks.flatMap (fun c => [c.size.line, .empty c.cr]) ++
          stream.last.line :: (stream.trailers ++ [.empty stream.cr]), r.storedLength +
        storedBy bodyHandler (chunks.flatMap DataChunk.data).length + l.encode.length ≤ capacity) →
      ∃ r', Loop.run (chunkedPass lib bodyHandler buffer capacity) fuel r = some (.ok, r') ∧
        Reading buffer capacity below orderly rest r' ∧
        Passed bodyHandler buffer capacity (chunks.flatMap DataChunk.data) r r' := by
    intro chunks
    induction chunks with
    | nil =>
      intro r fuel h _ hfuel hroom
      obtain ⟨fuel, rfl⟩ : ∃ n, fuel = n + 1 := ⟨fuel - 1, by simp at hfuel; omega⟩
      obtain ⟨r', hpass, hr', hkept⟩ := @Reading.lastChunk lib bodyHandler _ _ _ _ _ _ _ _ _ h
        hwf.last hwf.size hwf.trailers fun l hl => le_trans (by omega) (hroom l hl)
      exact ⟨r', Loop.run_done hpass _, hr', hkept.passed⟩
    | cons c chunks ih =>
      intro r fuel h hchunks hfuel hroom
      obtain ⟨fuel, rfl⟩ : ∃ n, fuel = n + 1 := ⟨fuel - 1, by simp at hfuel; omega⟩
      rw [List.flatMap_cons, List.append_assoc] at h
      rw [List.flatMap_cons, List.flatMap_cons, List.length_append, storedBy_add] at hroom
      obtain ⟨s, hpass, hs, hpassed⟩ := h.chunk lib hok (hchunks c List.mem_cons_self) fun l hl =>
        le_trans (by omega)
          (hroom l (by simp only [List.append_assoc]; exact List.mem_append_left _ hl))
      have hstored := hpassed.storedLength
      obtain ⟨r', hrun, hr', hpassed'⟩ := ih hs
        (fun c' hc' => hchunks c' (List.mem_cons_of_mem _ hc'))
        (show chunks.length < fuel by simp at hfuel; omega)
        (fun l hl => le_trans (by omega)
          (hroom l (by rw [List.append_assoc]; exact List.mem_append_right _ hl)))
      exact ⟨r', by rw [Loop.run_again hpass, hrun], hr', by
        rw [List.flatMap_cons]; exact hpassed.trans hpassed'⟩
  rw [ChunkStream.encode, List.append_assoc, List.append_assoc] at h
  refine hloop h hwf.chunks ?_ hroom
  have hlen := h.length_lt
  have hle := length_flatMap_le (f := DataChunk.encode) stream.chunks fun c _ => by
    rw [DataChunk.encode, List.length_append, c.size.line.length_encode]
    omega
  rw [List.length_append] at hlen
  omega

end

/-! ## Nothing else is accepted -/

section

variable (lib : CommonLib) {bodyHandler : Option BodyHandler} {buffer capacity : Nat}
  {below : Bytes} {orderly : Bool} {input : Bytes} {r : BodyReader}
  (hok : ∀ handler ∈ bodyHandler, ∀ pieces, lib.isError (handler pieces) = false)

include hok

/-- One pass takes a chunk, or the end of the stream, or fails. -/
theorem Reading.chunkedPass_cases (h : Reading buffer capacity below orderly input r) :
    (∃ (c : DataChunk) (rest : Bytes) (r' : BodyReader), c.WellFormed ∧ input = c.encode ++ rest ∧
      (∀ l ∈ [c.size.line, .empty c.cr], l.encode.length ≤ capacity) ∧
      chunkedPass lib bodyHandler buffer capacity r = some (.again r') ∧
      Reading buffer capacity below orderly rest r' ∧
      Passed bodyHandler buffer capacity c.data r r') ∨
    (∃ (last : SizeLine) (trailers : List Line) (cr : Bool) (rest : Bytes) (r' : BodyReader),
      last.WellFormed ∧ last.size = 0 ∧ (∀ l ∈ trailers, l.WellFormed ∧ l.content ≠ []) ∧
      input = last.line.encode ++ (encodeTrailers trailers cr ++ rest) ∧
      (∀ l ∈ last.line :: (trailers ++ [.empty cr]), l.encode.length ≤ capacity) ∧
      chunkedPass lib bodyHandler buffer capacity r = some (.done (.ok, r')) ∧
      Reading buffer capacity below orderly rest r' ∧ Kept buffer r r') ∨
    ∃ result r', chunkedPass lib bodyHandler buffer capacity r = some (.done (result, r')) ∧
      lib.isError result = true := by
  rcases h.readLine_sound lib with
    ⟨l, tail, s, hl, rfl, hle, hread, hs, hkept⟩ | ⟨result, line, s, hread, herror⟩
  swap
  · exact .inr (.inr ⟨result, s, by simp [chunkedPass, hread, herror], herror⟩)
  have hfits : l.encode.length ≤ capacity := (Nat.le_add_left _ _).trans hle
  cases hparse : parseChunkSize l.content with
  | none => exact .inr (.inr ⟨.error, s, by simp [chunkedPass, hread, hparse], by simp⟩)
  | some size =>
    obtain ⟨digits, extension, hcontent, hdigits, hne, hnumber, hlt, hext⟩ :=
      sizeLine_of_parseChunkSize hparse
    have hline : (⟨digits, extension, l.cr⟩ : SizeLine).line = l := by
      rw [SizeLine.line, ← hcontent]
    have hsizeLine : (⟨digits, extension, l.cr⟩ : SizeLine).WellFormed :=
      ⟨hline ▸ hl, hdigits, hne, (show hexNumber digits < 2 ^ 32 by omega), hext⟩
    rcases Nat.eq_zero_or_pos size with rfl | hpos
    · obtain ⟨result, r', hrun, herror | ⟨rfl, trailers, cr, rest, hwf, hall, rfl, hr', hkept'⟩⟩ :=
        hs.trailers_cases lib hs.length_lt
      · exact .inr (.inr ⟨result, r', by simp [chunkedPass, hread, hparse, hrun], herror⟩)
      · refine .inr (.inl ⟨_, trailers, cr, rest, r', hsizeLine, hnumber, hwf, by rw [hline], ?_,
          by simp [chunkedPass, hread, hparse, hrun], hr', hkept.trans hkept'⟩)
        rw [hline]
        exact List.forall_mem_cons.mpr ⟨hfits, hall⟩
    have hzero : size ≠ 0 := by omega
    obtain ⟨result, t, hpass, ⟨hle, rfl, ht, hpassed⟩ | ⟨rfl, -⟩⟩ :=
      hs.passThrough_cases lib hok size
    swap
    · refine .inr (.inr ⟨shortage capacity (s.storedLength + storedBy bodyHandler tail.length), t,
        ?_, isError_shortage lib _ _⟩)
      simp [chunkedPass, hread, hparse, hzero, hpass, unlessError]
    rcases ht.readLine_sound lib with
      ⟨l', rest, r', hl', hrest, hle', hread', hr', hkept'⟩ | ⟨result, line, r', hread', herror⟩
    swap
    · exact .inr (.inr ⟨result, r', by simp [chunkedPass, hread, hparse, hzero, hpass, hread',
        herror], herror⟩)
    by_cases hempty : l'.content = []
    · obtain ⟨content, cr⟩ := l'
      dsimp only at hempty
      subst hempty
      refine .inl ⟨⟨⟨digits, extension, l.cr⟩, tail.take size, cr⟩, rest, r',
        ⟨hsizeLine, ?_, ?_⟩, ?_, ?_,
        by simp [chunkedPass, hread, hparse, hzero, hpass, hread'], hr', ?_⟩
      · rw [ne_eq, ← List.length_eq_zero_iff, List.length_take, Nat.min_eq_left hle]
        omega
      · rw [List.length_take, Nat.min_eq_left hle]
        exact hnumber
      · rw [DataChunk.encode, hline, List.append_assoc, List.append_assoc]
        congr 1
        exact (List.take_append_drop size tail).symm.trans (congrArg _ hrest)
      · rw [hline]
        simpa [Line.empty] using And.intro hfits ((Nat.le_add_left _ _).trans hle')
      · simpa using (hkept.passed.trans hpassed).trans hkept'.passed
    · exact .inr (.inr ⟨.error, r', by simp [chunkedPass, hread, hparse, hzero, hpass, hread',
        hempty], by simp⟩)

/-- The decoder comes to an end, and what it accepts is a stream of the grammar. -/
theorem Reading.chunked_cases (h : Reading buffer capacity below orderly input r) :
    ∃ result r', responseBodyReaderChunked lib bodyHandler buffer capacity r = some (result, r') ∧
      (lib.isError result = true ∨ result = .ok ∧ ∃ (stream : ChunkStream) (rest : Bytes),
        stream.WellFormed ∧ input = stream.encode ++ rest ∧
        (∀ l ∈ stream.lines, l.encode.length ≤ capacity) ∧
        Reading buffer capacity below orderly rest r' ∧
        Passed bodyHandler buffer capacity stream.payload r r') := by
  have hloop : ∀ {fuel : Nat} {input : Bytes} {r : BodyReader}, input.length < fuel →
      Reading buffer capacity below orderly input r →
      ∃ result r', Loop.run (chunkedPass lib bodyHandler buffer capacity) fuel r =
          some (result, r') ∧
        (lib.isError result = true ∨ result = .ok ∧ ∃ (stream : ChunkStream) (rest : Bytes),
          stream.WellFormed ∧ input = stream.encode ++ rest ∧
          (∀ l ∈ stream.lines, l.encode.length ≤ capacity) ∧
          Reading buffer capacity below orderly rest r' ∧
          Passed bodyHandler buffer capacity stream.payload r r') := by
    intro fuel
    induction fuel with
    | zero => intro _ _ hfuel; omega
    | succ fuel ih =>
      intro input r hfuel h
      rcases h.chunkedPass_cases lib hok with ⟨c, rest, s, hc, rfl, hfits, hpass, hs, hpassed⟩ |
        ⟨last, trailers, cr, rest, s, hlast, hsize, hwf, rfl, hfits, hpass, hs, hkept⟩ |
        ⟨result, s, hpass, herror⟩
      · have hlen := c.size.line.length_encode
        simp only [DataChunk.encode, List.length_append] at hfuel
        obtain ⟨result, r', hrun, hcases⟩ := ih (by omega) hs
        refine ⟨result, r', by rw [Loop.run_again hpass, hrun], hcases.imp id ?_⟩
        rintro ⟨hok, ⟨chunks, last, trailers, cr⟩, rest, hwf, rfl, hall, hr', hpassed'⟩
        refine ⟨hok, ⟨c :: chunks, last, trailers, cr⟩, rest,
          ⟨?_, hwf.last, hwf.size, hwf.trailers⟩,
          by simp [ChunkStream.encode], ?_, hr',
          by simpa [ChunkStream.payload] using hpassed.trans hpassed'⟩
        · exact fun c' hc' => (List.mem_cons.mp hc').elim (fun heq => heq ▸ hc) (hwf.chunks c')
        · rw [ChunkStream.lines, List.flatMap_cons, List.append_assoc]
          exact List.forall_mem_append.mpr ⟨hfits, hall⟩
      · exact ⟨.ok, s, Loop.run_done hpass _, .inr ⟨rfl, ⟨[], last, trailers, cr⟩, rest,
          ⟨by simp, hlast, hsize, hwf⟩, by simp [ChunkStream.encode], hfits, hs, hkept.passed⟩⟩
      · exact ⟨result, s, Loop.run_done hpass _, .inl herror⟩
  exact hloop h.length_lt h

end

/-! ## Handlers that fail -/

/-- The handler that takes everything. -/
def takesAll : BodyHandler := fun _ => .ok

/-- The handler fails on its `k`-th piece, and not before. -/
def FailsAt (lib : CommonLib) (handler : BodyHandler) (pieces : List Bytes) (k : Nat) : Prop :=
  0 < k ∧ k ≤ pieces.length ∧ lib.isError (handler (pieces.take k)) = true ∧
    ∀ j, 0 < j → j < k → lib.isError (handler (pieces.take j)) = false

section

variable (lib : CommonLib) (handler : BodyHandler)

/-- There is only one such piece, however many more there are. -/
theorem FailsAt.unique {lib : CommonLib} {handler : BodyHandler} {pieces pieces' : List Bytes}
    {j k : Nat} (h : FailsAt lib handler pieces j) (h' : FailsAt lib handler pieces' k)
    (hstarts : pieces <+: pieces') : k = j := by
  obtain ⟨hj, hjle, hjfails, hjfirst⟩ := h
  obtain ⟨hk, -, hkfails, hkfirst⟩ := h'
  obtain ⟨more, rfl⟩ := hstarts
  rcases Nat.lt_trichotomy k j with hlt | heq | hlt
  · rw [List.take_append_of_le_length (by omega), hjfirst k hk hlt] at hkfails
    cases hkfails
  · exact heq
  · have hj' := hkfirst j hj hlt
    rw [List.take_append_of_le_length hjle, hjfails] at hj'
    cases hj'

/-- The handler has not failed so far. -/
def Unfailed (r : BodyReader) : Prop := ∀ k, ¬ FailsAt lib handler r.pieces k

/-- A computation beside the same one with a handler that takes everything: the same outcome,
or the failure of the handler on a piece that the other handler is given, too. -/
def Follows {τ : Type} (view : τ → BodyReader) (leave : Result × BodyReader → τ)
    (x y : Option τ) : Prop :=
  (x = y ∧ ∀ t ∈ y, Unfailed lib handler (view t)) ∨
  ∃ r, x = some (leave (handler r.pieces, r)) ∧ FailsAt lib handler r.pieces r.pieces.length ∧
    ∀ t ∈ y, r.pieces <+: (view t).pieces

/-- The reader when a pass has ended. -/
def passView {σ : Type} (view : σ → BodyReader) : Loop.Pass σ (Result × BodyReader) → BodyReader
  | .done out => out.2
  | .again s => view s

theorem passView_eq {σ : Type} (view : σ → BodyReader)
    (p : Loop.Pass σ (Result × BodyReader)) : passView view p = p.view view Prod.snd := by
  cases p <;> rfl

variable {lib handler} {buffer capacity : Nat} {r : BodyReader}

/-- A loop follows if its body does, and the other loop never takes a piece back. -/
theorem Follows.run {σ : Type} (view : σ → BodyReader)
    {body body' : σ → Option (Loop.Pass σ (Result × BodyReader))}
    (hbody : ∀ s, Unfailed lib handler (view s) →
      Follows lib handler (passView view) .done (body s) (body' s))
    (hextends : ∀ s, ∀ t ∈ body' s, (view s).pieces <+: (passView view t).pieces)
    (fuel : Nat) {s : σ} (hs : Unfailed lib handler (view s)) :
    Follows lib handler Prod.snd id (Loop.run body fuel s) (Loop.run body' fuel s) := by
  have hstarts : ∀ {fuel : Nat} {s : σ}, ∀ out ∈ Loop.run body' fuel s,
      (view s).pieces <+: out.2.pieces := by
    intro fuel s out hout
    refine Loop.run_post (fun t => (view s).pieces <+: (view t).pieces)
      (fun out => (view s).pieces <+: out.2.pieces) ?_ ?_ (List.prefix_refl _) hout
    · exact fun t out ht hpass => ht.trans (hextends t _ hpass)
    · exact fun t u ht hpass => ht.trans (hextends t _ hpass)
  induction fuel generalizing s with
  | zero => exact .inl ⟨rfl, by simp⟩
  | succ fuel ih =>
    rcases hbody s hs with ⟨hsame, hview⟩ | ⟨r, hx, hfails, hview⟩
    · rw [Loop.run, Loop.run, hsame]
      cases hpass : body' s with
      | none => exact .inl ⟨rfl, by simp⟩
      | some p =>
        have hp := hview p hpass
        cases p with
        | done out => exact .inl ⟨rfl, by simpa [passView] using hp⟩
        | again t => exact ih hp
    · refine .inr ⟨r, Loop.run_done hx _, hfails, fun out hout => ?_⟩
      rw [Loop.run] at hout
      cases hpass : body' s with
      | none => simp [hpass] at hout
      | some p =>
        have hp := hview p hpass
        rw [hpass] at hout
        cases p with
        | done out' =>
          obtain rfl : out' = out := by simpa using hout
          exact hp
        | again t => exact hp.trans (hstarts out hout)

/-- One piece. -/
theorem Unfailed.deliver (h : Unfailed lib handler r) (length : Nat) :
    Follows lib handler Prod.snd id
      (some (responseBodyReaderDeliver lib (some handler) buffer r length))
      (some (responseBodyReaderDeliver lib (some takesAll) buffer r length)) := by
  set piece := window r.mem (buffer + r.start) length with hpiece
  have hbefore : ∀ k, 0 < k → k ≤ r.pieces.length →
      lib.isError (handler ((r.pieces ++ [piece]).take k)) = false := by
    intro k
    induction k using Nat.strong_induction_on with
    | _ k ih =>
      intro hpos hle
      by_contra herror
      rw [Bool.not_eq_false, List.take_append_of_le_length hle] at herror
      refine h k ⟨hpos, hle, herror, fun j hj hlt => ?_⟩
      rw [← List.take_append_of_le_length (by omega : j ≤ r.pieces.length)]
      exact ih j hlt hj (by omega)
  have hlen : (r.pieces ++ [piece]).length = r.pieces.length + 1 := by simp
  simp only [responseBodyReaderDeliver, takesAll, ← hpiece, CommonLib.isError_ok]
  cases herror : lib.isError (handler (r.pieces ++ [piece])) with
  | false =>
    refine .inl ⟨rfl, ?_⟩
    rintro t ⟨⟩ k ⟨hpos, hle, hfail, -⟩
    dsimp only at hle hfail
    rcases Nat.lt_or_eq_of_le hle with hlt | rfl
    · rw [hbefore k hpos (by omega)] at hfail
      cases hfail
    · rw [List.take_length, herror] at hfail
      cases hfail
  | true =>
    refine .inr ⟨{ r with start := r.start + length, pieces := r.pieces ++ [piece] }, rfl,
      ⟨by simp, Nat.le_refl _, by rw [List.take_length]; exact herror, fun j hj hlt => ?_⟩, ?_⟩
    · exact hbefore j hj (by dsimp only at hlt; omega)
    · rintro t ⟨⟩
      exact List.prefix_refl _

theorem Unfailed.congr {r' : BodyReader} (h : Unfailed lib handler r)
    (hpieces : r'.pieces = r.pieces) :
    Unfailed lib handler r' := by
  rwa [Unfailed, hpieces]

/-- `if (is_error(r)) return r;` -/
theorem Follows.unlessError {σ : Type} {view : σ → BodyReader} {x y : Option (Result × BodyReader)}
    {next next' : BodyReader → Option (Loop.Pass σ (Result × BodyReader))}
    (h : Follows lib handler Prod.snd id x y)
    (hnext : ∀ r, Unfailed lib handler r →
      Follows lib handler (passView view) .done (next r) (next' r))
    (hextends : ∀ r, ∀ t ∈ next' r, r.pieces <+: (passView view t).pieces) :
    Follows lib handler (passView view) .done (unlessError lib x next)
      (unlessError lib y next') := by
  rcases h with ⟨rfl, hview⟩ | ⟨r, rfl, hfails, hview⟩
  · cases x with
    | none => exact .inl ⟨rfl, by simp [HttpC.unlessError]⟩
    | some out =>
      have hout := hview out rfl
      rw [HttpC.unlessError, HttpC.unlessError]
      split_ifs
      · exact .inl ⟨rfl, by rintro t ⟨⟩; exact hout⟩
      · exact hnext _ hout
  · refine .inr ⟨r, ?_, hfails, fun t ht => ?_⟩
    · have herror := hfails.2.2.1
      rw [List.take_length] at herror
      rw [id, HttpC.unlessError, if_pos herror]
    · cases y with
      | none => simp [HttpC.unlessError] at ht
      | some out =>
        have hout := hview out rfl
        rw [HttpC.unlessError] at ht
        split_ifs at ht
        · obtain rfl : Loop.Pass.done out = t := by simpa using ht
          exact hout
        · exact hout.trans (hextends _ t ht)

/-! Receiving hands no piece on, and no piece is taken back. -/

theorem respects_pieces : Respects buffer capacity fun r s => s.pieces = r.pieces where
  refl _ := rfl
  trans h h' := h'.trans h
  fill := by
    intro r s result hfill
    have hroom : (r.makeRoom buffer capacity).pieces = r.pieces := by
      unfold BodyReader.makeRoom
      dsimp only
      split_ifs <;> rfl
    rw [responseBodyReaderFill] at hfill
    dsimp only at hfill
    split_ifs at hfill
    · rw [← (Prod.mk.inj (Option.some.inj hfill)).2, hroom]
    · obtain ⟨⟨_, w⟩, -, heq⟩ := Option.map_eq_some_iff.mp hfill
      rw [← (Prod.mk.inj heq).2]
      exact hroom
  takeLine _ := rfl

theorem respects_handed : Respects buffer capacity fun r s => r.pieces <+: s.pieces where
  refl _ := List.prefix_refl _
  trans := List.IsPrefix.trans
  fill hfill := respects_pieces.fill hfill ▸ List.prefix_refl _
  takeLine _ := List.prefix_refl _

theorem deliver_handed (bodyHandler : Option BodyHandler) {r : BodyReader} {length : Nat} :
    r.pieces <+: (responseBodyReaderDeliver lib bodyHandler buffer r length).2.pieces := by
  cases bodyHandler with
  | none => exact List.prefix_refl _
  | some handler => exact List.prefix_append _ _

/-- The data of a chunk. -/
theorem Unfailed.passThrough (h : Unfailed lib handler r) (n : Nat) :
    Follows lib handler Prod.snd id
      (responseBodyReaderPassThrough lib (some handler) buffer capacity r n)
      (responseBodyReaderPassThrough lib (some takesAll) buffer capacity r n) := by
  refine Follows.run Prod.snd ?_ (fun s t ht => ?_) (n + 1) h
  swap
  · rw [passView_eq]
    exact respects_handed.passThroughPass (fun _ => deliver_handed _) s.1 t ht
  rintro ⟨n, r⟩ hr
  rw [passThroughPass, passThroughPass]
  by_cases hzero : n = 0
  · rw [if_pos hzero, if_pos hzero]
    refine .inl ⟨rfl, ?_⟩
    rintro t ⟨⟩
    exact hr
  rw [if_neg hzero, if_neg hzero]
  refine Follows.unlessError (.inl ⟨rfl, fun out hout => ?_⟩) (fun r hr => ?_)
    fun s t ht => ?_
  · split_ifs at hout
    · exact hr.congr (respects_pieces.fillUnlessClosed out hout)
    · cases hout
      exact hr
  · refine Follows.unlessError (hr.deliver _) (fun r hr => .inl ⟨rfl, ?_⟩) fun r t ht => ?_
    · rintro t ⟨⟩
      exact hr
    · cases ht
      exact List.prefix_refl _
  · rw [passView_eq]
    exact (@respects_handed buffer capacity).passOn (fun _ => deliver_handed _) n t ht

/-- The whole decoder. -/
theorem Unfailed.chunked (h : Unfailed lib handler r) :
    Follows lib handler Prod.snd id
      (responseBodyReaderChunked lib (some handler) buffer capacity r)
      (responseBodyReaderChunked lib (some takesAll) buffer capacity r) := by
  refine Follows.run id (fun r hr => ?_) (fun s t ht => ?_) _ h
  swap
  · rw [passView_eq]
    exact respects_handed.chunkedPass (fun _ => deliver_handed _) t ht
  rw [chunkedPass, chunkedPass]
  cases hread : responseBodyReaderReadLine lib buffer capacity r with
  | none => exact .inl ⟨rfl, by simp⟩
  | some out =>
    obtain ⟨result, line, s⟩ := out
    have hs : Unfailed lib handler s := hr.congr (respects_pieces.readLine _ hread)
    dsimp only
    by_cases herror : lib.isError result = true
    · rw [if_pos herror, if_pos herror]
      refine .inl ⟨rfl, ?_⟩
      rintro t ⟨⟩
      exact hs
    rw [if_neg herror, if_neg herror]
    cases hparse : parseChunkSize line with
    | none =>
      refine .inl ⟨rfl, ?_⟩
      rintro t ⟨⟩
      exact hs
    | some size =>
      dsimp only
      by_cases hzero : size = 0
      · rw [if_pos hzero, if_pos hzero]
        refine .inl ⟨rfl, fun t ht => ?_⟩
        obtain ⟨out, hout, rfl⟩ := Option.map_eq_some_iff.mp ht
        exact hs.congr (respects_pieces.trailers out hout)
      · rw [if_neg hzero, if_neg hzero]
        refine Follows.unlessError (hs.passThrough size) (fun r hr => .inl ⟨rfl, fun t ht => ?_⟩)
          fun r t ht => ?_
        all_goals rw [passView_eq]
        · exact hr.congr (respects_pieces.closeChunk t ht)
        · exact respects_handed.closeChunk t ht

end

/-! ## Any stream and any handler -/

/-- In streaming mode the decoder accepts exactly the chunked grammar, from a window that is as
large as the longest framing line. It hands on the payload in pieces that are neither empty nor
larger than the window, and leaves with the failure of a handler on the piece it failed on. -/
theorem chunked_streaming (lib : CommonLib) {buffer capacity prefetched : Nat} {mem : Bytes}
    {wire : Wire} (hfit : buffer + capacity ≤ mem.length) (hprefetched : prefetched ≤ capacity)
    (hlines : ∀ stream : ChunkStream, stream.WellFormed →
      stream.encode <+: window mem buffer prefetched ++ arriving wire →
        ∀ l ∈ stream.lines, l.encode.length ≤ capacity) :
    ∃ result r, responseBodyReaderChunked lib (some takesAll) buffer capacity
        (.opened mem wire prefetched) = some (result, r) ∧
      (result = .ok ↔ ∃ stream : ChunkStream, stream.WellFormed ∧
        stream.encode <+: window mem buffer prefetched ++ arriving wire) ∧
      (∀ stream : ChunkStream, stream.WellFormed →
        stream.encode <+: window mem buffer prefetched ++ arriving wire →
          r.pieces.flatten = stream.payload) ∧
      (result = .ok → ∀ p ∈ r.pieces, p ≠ [] ∧ p.length ≤ capacity) ∧
      ∀ handler k, FailsAt lib handler r.pieces k →
        ∃ r', responseBodyReaderChunked lib (some handler) buffer capacity
            (.opened mem wire prefetched) = some (handler (r.pieces.take k), r') ∧
          r'.pieces = r.pieces.take k := by
  have hopened := @Reading.opened buffer capacity mem wire _ hfit hprefetched
  have htakes : ∀ handler ∈ some takesAll, ∀ pieces, lib.isError (handler pieces) = false := by
    rintro _ ⟨⟩ pieces
    exact lib.isError_ok
  obtain ⟨result, r, hrun, hcases⟩ := hopened.chunked_cases lib htakes
  have hdecoded : ∀ stream : ChunkStream, stream.WellFormed →
      stream.encode <+: window mem buffer prefetched ++ arriving wire →
        result = .ok ∧ r.pieces.flatten = stream.payload := by
    rintro stream hwf ⟨rest, hinput⟩
    rw [← hinput] at hopened
    obtain ⟨r', hrun', -, hpassed⟩ := hopened.chunked lib htakes hwf fun l hl => by
        simpa [BodyReader.opened, storedBy] using hlines stream hwf ⟨rest, hinput⟩ l hl
    obtain ⟨rfl, rfl⟩ := Prod.mk.inj (Option.some.inj (hrun.symm.trans hrun'))
    exact ⟨rfl, by simpa [BodyReader.body, BodyReader.opened] using hpassed.body⟩
  refine ⟨result, r, hrun, ⟨fun hok => ?_, fun hstream => ?_⟩,
    fun stream hwf hstarts => (hdecoded stream hwf hstarts).2, fun hok => ?_,
    fun handler k hfails => ?_⟩
  · obtain herror | ⟨-, stream, rest, hwf, hinput, -⟩ := hcases
    · simp [hok] at herror
    · exact ⟨stream, hwf, rest, hinput.symm⟩
  · obtain ⟨stream, hwf, hstarts⟩ := hstream
    exact (hdecoded stream hwf hstarts).1
  · obtain herror | ⟨-, stream, rest, -, -, -, -, hpassed⟩ := hcases
    · simp [hok] at herror
    · obtain ⟨more, hmore, hgood⟩ := hpassed.pieces
      rw [hmore]
      simpa [BodyReader.opened] using hgood
  · have hstart : Unfailed lib handler (.opened mem wire prefetched) := by
      rintro j ⟨hpos, hle, -⟩
      simp [BodyReader.opened] at hle
      omega
    rcases @Unfailed.chunked lib handler buffer capacity _ hstart with
      ⟨-, hunfailed⟩ | ⟨r', hx, hfails', hstarts⟩
    · exact absurd hfails (hunfailed _ hrun k)
    · have hstarts := hstarts _ hrun
      dsimp only at hstarts
      -- both have failed on the first piece that fails
      obtain rfl : k = r'.pieces.length := hfails'.unique hfails hstarts
      rw [← List.prefix_iff_eq_take.mp hstarts]
      exact ⟨r', hx, rfl⟩

/-- A chunked body whose first size line arrives in two reads. -/
def splitStream : ChunkStream :=
  ⟨[⟨⟨ascii "3", [], true⟩, ascii "abc", true⟩], ⟨ascii "0", [], true⟩, [], true⟩

def splitMemory : Bytes := ascii "3\r" ++ List.replicate 11 0

def splitWire : Wire :=
  [.data (ascii "\nab"), .tryAgain false, .data (ascii "c\r\n0\r\n\r\n")]

theorem splitStream_wellFormed : splitStream.WellFormed where
  chunks := by
    rintro c hc
    obtain rfl := List.mem_singleton.mp hc
    exact ⟨⟨⟨by decide, by decide⟩, by decide +kernel, by decide, by decide +kernel, by decide⟩,
      by decide, by decide +kernel⟩
  last := ⟨⟨by decide, by decide⟩, by decide +kernel, by decide, by decide +kernel, by decide⟩
  size := by decide
  trailers := by simp [splitStream]

theorem chunked_streaming_split : ∃ r,
    responseBodyReaderChunked .reference (some takesAll) 0 13 (.opened splitMemory splitWire 2) =
      some (.ok, r) ∧ r.pieces.flatten = ascii "abc" := by
  have hinput : splitStream.encode = window splitMemory 0 2 ++ arriving splitWire := by decide
  have hlines : ∀ stream : ChunkStream, stream.WellFormed →
      stream.encode <+: window splitMemory 0 2 ++ arriving splitWire →
        ∀ l ∈ stream.lines, l.encode.length ≤ 13 := by
    intro stream _ hstarts l hl
    have hlen := hstarts.length_le
    have hle := ChunkStream.length_line_le hl
    rw [← hinput, show splitStream.encode.length = 13 by decide] at hlen
    omega
  obtain ⟨result, r, hrun, hok, hpayload, -⟩ :=
    @chunked_streaming .reference 0 13 2 splitMemory splitWire (by decide) (by decide) hlines
  have hstarts := hinput ▸ List.prefix_refl splitStream.encode
  obtain rfl := hok.mpr ⟨splitStream, splitStream_wellFormed, hstarts⟩
  exact ⟨r, hrun, hpayload splitStream splitStream_wellFormed hstarts⟩

end HttpC
