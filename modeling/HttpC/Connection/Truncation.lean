import HttpC.Connection.RequestReceiver

/-!
# Truncated requests

A stream may end before the blank line, inside a declared body, or before the zero-size line
of a chunked body. `ensure_buffered` makes an error of the end, and the chunk loop leaves with
`ok` at a line that it takes for the zero-size line. The other two loops hand the end on as it
is, and `http_connection_receive_request` takes what is not an error for a success.

## Main results

* `Holding.loop_ok_iff` — on any bytes, the chunk loop returns `ok` exactly when it comes to a
  line that counts as zero-size.
* `truncated_refused_iff` — a truncated request is refused exactly when the buffer is full
  first, the declared length is not a number of 32 bits, or no line of a chunked body counts
  as zero-size.
-/

namespace HttpC

open Block ListSearch

/-! ## Where reads stop -/

/-- Where reading stops that needs `n` bytes of a buffer of `cap`. -/
def stopAt (bs : List Nat) (cap n : Nat) : Nat := (bs.filter (n ≤ ·)).foldr min cap

section

variable {bs bs' : List Nat} {cap n b : Nat}

theorem stopAt_le_cap (bs : List Nat) (cap n : Nat) : stopAt bs cap n ≤ cap := by
  rw [stopAt]
  induction bs.filter (n ≤ ·) with
  | nil => exact Nat.le_refl _
  | cons b l ih => exact (Nat.min_le_right _ _).trans ih

theorem stopAt_le (hb : b ∈ bs) (hn : n ≤ b) : stopAt bs cap n ≤ b := by
  have hle : ∀ l : List Nat, b ∈ l → l.foldr min cap ≤ b := by
    intro l hmem
    induction l with
    | nil => simp at hmem
    | cons c l ih =>
      rcases List.mem_cons.mp hmem with rfl | hmem
      · exact Nat.min_le_left _ _
      · exact (Nat.min_le_right _ _).trans (ih hmem)
  exact hle _ (by simp [hb, hn])

theorem stopAt_mem (bs : List Nat) (cap n : Nat) :
    stopAt bs cap n = cap ∨ stopAt bs cap n ∈ bs ∧ n ≤ stopAt bs cap n := by
  have hmem : ∀ l : List Nat, l.foldr min cap = cap ∨ l.foldr min cap ∈ l := by
    intro l
    induction l with
    | nil => exact .inl rfl
    | cons b l ih =>
      rw [List.foldr_cons]
      rcases Nat.le_total b (l.foldr min cap) with hle | hle
      · rw [Nat.min_eq_left hle]
        exact .inr List.mem_cons_self
      · rw [Nat.min_eq_right hle]
        exact ih.imp id (List.mem_cons_of_mem _)
  simpa [stopAt] using hmem (bs.filter (n ≤ ·))

theorem le_stopAt (h : n ≤ cap) : n ≤ stopAt bs cap n := by
  rcases stopAt_mem bs cap n with heq | ⟨-, hle⟩
  · omega
  · exact hle

theorem stopAt_of_lt (h : cap < n) : stopAt bs cap n = cap := by
  rcases stopAt_mem bs cap n with heq | ⟨-, hle⟩
  · exact heq
  · exact absurd (hle.trans (stopAt_le_cap _ _ _)) (by omega)

/-- The first boundary with enough, or the end of the buffer. -/
theorem stopAt_eq (hcap : b ≤ cap) (hn : n ≤ b) (hb : b ∈ bs ∨ b = cap)
    (hfirst : ∀ c ∈ bs, n ≤ c → b ≤ c) : stopAt bs cap n = b := by
  apply Nat.le_antisymm
  · rcases hb with hb | rfl
    · exact stopAt_le hb hn
    · exact stopAt_le_cap _ _ _
  · rcases stopAt_mem bs cap n with heq | ⟨hmem, hle⟩
    · omega
    · exact hfirst _ hmem hle

/-- What has been read already is not read again. -/
theorem stopAt_max {k : Nat} (hk : k ≤ stopAt bs cap n) :
    stopAt bs cap (max n k) = stopAt bs cap n := by
  by_cases hn : n ≤ cap
  · have hle : n ≤ stopAt bs cap n := le_stopAt hn
    refine stopAt_eq (stopAt_le_cap _ _ _) (Nat.max_le.mpr ⟨hle, hk⟩)
      ((stopAt_mem bs cap n).symm.imp And.left id) fun c hc hmax => ?_
    exact stopAt_le hc ((Nat.le_max_left _ _).trans hmax)
  · rw [stopAt_of_lt (by omega), stopAt_of_lt (by omega)]

/-- Boundaries behind the end of the buffer do not count. -/
theorem stopAt_congr (h : ∀ b < cap, n ≤ b → (b ∈ bs ↔ b ∈ bs')) :
    stopAt bs cap n = stopAt bs' cap n := by
  by_cases hn : n ≤ cap
  swap
  · rw [stopAt_of_lt (by omega), stopAt_of_lt (by omega)]
  rcases Nat.lt_or_eq_of_le (stopAt_le_cap bs' cap n) with hlt | heq
  · obtain ⟨hmem, hle⟩ := (stopAt_mem bs' cap n).resolve_left (by omega)
    refine stopAt_eq (by omega) hle (.inl ((h _ hlt hle).mpr hmem)) fun c hc hnc => ?_
    by_cases hcap : c < cap
    · exact stopAt_le ((h c hcap hnc).mp hc) hnc
    · omega
  · rw [heq]
    refine stopAt_eq (Nat.le_refl _) hn (.inr rfl) fun c hc hnc => ?_
    by_contra hlt
    have hle : stopAt bs' cap n ≤ c := stopAt_le ((h c (by omega) hnc).mp hc) hnc
    omega

end

theorem drop_eq_of_drop_take {l rest : Bytes} {i k : Nat} (h : (l.take k).drop i = rest)
    (hle : i ≤ (l.take k).length) : l.drop i = rest ++ l.drop k := by
  conv_lhs => rw [← List.take_append_drop k l]
  rw [List.drop_append_of_le_length hle, h]

/-! ## The size lines of any bytes -/

/-- The size of the line at `pos`, from the digits that are buffered by the time that `m` bytes
have been needed. -/
def sizeAt (stop : Nat → Nat) (input : Bytes) (pos m : Nat) : Nat :=
  hexNumber (hexRun (window input pos (stop (max m (pos + 1)) - pos))) % 2 ^ 32

/-- Behind the line feed of the line at `pos`; behind the input, if there is none. -/
def lineEnd (input : Bytes) (pos : Nat) : Nat :=
  pos + ((input.drop pos).takeWhile (· ≠ 10)).length + 1

/-- A carriage return and a line feed, each of which may be missing. -/
def lineBreakLength : Bytes → Nat
  | 13 :: 10 :: _ => 2
  | 13 :: _ => 1
  | 10 :: _ => 1
  | _ => 0

/-- From the line at `pos` on, each line stands for the data behind it, until one counts as
zero-size. `m` bytes have been needed so far. -/
inductive ClosesAt (stop : Nat → Nat) (input : Bytes) : Nat → Nat → Prop where
  | last {pos m : Nat} (hline : lineEnd input pos ≤ input.length)
    (hsize : sizeAt stop input pos m = 0) : ClosesAt stop input pos m
  | chunk {pos m dataEnd : Nat} (hsize : sizeAt stop input pos m ≠ 0)
    (hend : lineEnd input pos + sizeAt stop input pos m = dataEnd)
    (hdata : dataEnd + 2 ≤ input.length)
    (h : ClosesAt stop input (dataEnd + lineBreakLength (input.drop dataEnd))
      (max m (dataEnd + 2))) : ClosesAt stop input pos m

theorem lineBreakLength_le (s : Bytes) : lineBreakLength s ≤ 2 := by
  unfold lineBreakLength
  split <;> omega

/-- What the digit loop makes of the buffered bytes. -/
theorem scanHexDigits_eq (s : Bytes) :
    scanHexDigits s 0 = (hexNumber (hexRun s) % 2 ^ 32, (hexRun s).length) := by
  have hscan := scanHexDigits_numeral (isHex_hexRun s) (stopsHex_dropWhile s) 0
  rwa [hexRun_append_dropWhile] at hscan

/-- Only the stops from `m` on count. -/
theorem ClosesAt.congr {stop stop' : Nat → Nat} {input : Bytes} {k pos m : Nat}
    (hstop : ∀ n, k ≤ n → stop n = stop' n) (h : ClosesAt stop input pos m) (hk : k ≤ m) :
    ClosesAt stop' input pos m := by
  have hsame : ∀ {pos m}, k ≤ m → sizeAt stop input pos m = sizeAt stop' input pos m := by
    intro pos m hk
    rw [sizeAt, sizeAt, hstop _ (hk.trans (Nat.le_max_left _ _))]
  induction h with
  | last hline hsize => exact .last hline (hsame hk ▸ hsize)
  | chunk hsize hend hdata _ ih =>
    rw [hsame hk] at hsize hend
    exact .chunk hsize hend hdata (ih (hk.trans (Nat.le_max_left _ _)))

/-! ## The chunk loop on any bytes -/

section

variable (lib : CommonLib) {raw cap need m : Nat} {input : Bytes} {bs : List Nat} {s : Dechunker}

/-- Filling the buffer up to `need` bytes behind the cursor works if they arrive and fit. -/
theorem Holding.ensure_cases (h : Holding raw cap input bs s) (hneed : 0 < need) :
    (s.pos + need ≤ (input.take cap).length ∧
      ∃ s', ensureBuffered raw cap need s = some (.ok, s') ∧ Holding raw cap input bs s' ∧
        Refilled raw need bs s s' ∧ s.rawLen ≤ s'.rawLen) ∨
    ((input.take cap).length < s.pos + need ∧
      ∃ result s', ensureBuffered raw cap need s = some (result, s') ∧
        lib.isError result = true) := by
  have hfit := h.fit
  have hpos := h.pos_le
  have hraw := h.rawLen_le
  have hcap : (input.take cap).length = min cap input.length := List.length_take
  set w : Receiver := ⟨s.mem, raw + s.rawLen, s.wire⟩ with hw
  obtain ⟨result, w', w₁, hrun, hflow, hstop⟩ := @receive_spec (raw + cap)
    (fun received => need ≤ received.length - (raw + s.pos)) w hfit (by simp only [hw]; omega)
  have hfilled : w'.filled = w₁.filled := by cases hstop <;> rfl
  have hge := hflow.le
  have hle := hflow.le_limit
  simp only [hw] at hge
  by_cases hroom : s.pos + need ≤ (input.take cap).length
  · obtain ⟨s', hensure, hs', hfill⟩ := @Holding.ensure raw cap need input bs s h (by omega)
      (by omega)
    refine .inl ⟨hroom, s', hensure, hs', hfill, ?_⟩
    rw [ensureBuffered, hrun] at hensure
    simp only [Option.map_some, Option.some.injEq, Prod.mk.injEq] at hensure
    rw [← hensure.2]
    dsimp only
    omega
  · refine .inr ⟨by omega, _, _, by rw [ensureBuffered, hrun]; rfl, ?_⟩
    have hbuffered := congrArg List.length h.ahead
    rw [List.length_append, List.length_drop, h.length_buffered] at hbuffered
    have himage := congrArg List.length hflow.image
    have hreceived₁ : w₁.received.length = w₁.filled :=
      Receiver.length_received (by rw [hflow.length_mem]; exact hle.trans hfit)
    have hreceived : w.received.length = raw + s.rawLen :=
      Receiver.length_received (by simp only [hw]; omega)
    rw [Receiver.image, Receiver.image, List.length_append, List.length_append, hreceived₁,
      hreceived] at himage
    simp only [hw] at himage
    cases hstop with
    | enough hdone =>
      rw [decide_eq_true_iff, hreceived₁] at hdone
      omega
    | full => simp
    | ended _ _ _ hend => rcases hend with ⟨rfl, -⟩ | ⟨rfl | rfl, -⟩ <;> simp

/-- Nothing is buffered that is not input. -/
theorem Holding.rawLen_le_length (h : Holding raw cap input bs s)
    (hpos : s.pos ≤ (input.take cap).length) : s.rawLen ≤ (input.take cap).length := by
  have hraw := h.rawLen_le
  have hbuffered := congrArg List.length h.ahead
  rw [List.length_append, List.length_drop, h.length_buffered] at hbuffered
  rw [List.length_take] at hpos ⊢
  omega

/-- How much is buffered after filling up. -/
theorem Refilled.rawLen_eq {s' : Dechunker} (hfill : Refilled raw need bs s s')
    (hs' : Holding raw cap input bs s') (hlevel : s.rawLen = stopAt bs cap m)
    (hmono : s.rawLen ≤ s'.rawLen) : s'.rawLen = stopAt bs cap (max m (s.pos + need)) := by
  have henough := hfill.enough
  have hcuts := hs'.cuts _ (mem_cutsFrom _ _)
  have hle := hs'.rawLen_le
  by_cases hm : m ≤ cap
  · have hlow : m ≤ stopAt bs cap m := le_stopAt hm
    refine (stopAt_eq hle (by omega) hcuts fun b hb hmax => ?_).symm
    exact hfill.first b hb (by omega) (hlevel ▸ stopAt_le hb (by omega))
  · rw [stopAt_of_lt (by omega)] at hlevel ⊢
    omega

/-- One byte of a size line, or none. -/
theorem Holding.skipByte_cases (h : Holding raw cap input bs s)
    (hlevel : s.rawLen = stopAt bs cap m) :
    (∃ c rest, (input.take cap).drop s.pos = c :: rest ∧ ∃ s',
      skipPass lib raw cap s = some (if c = 10 then .done (.ok, s') else .again s') ∧
        Holding raw cap input bs s' ∧ s'.pos = s.pos + 1 ∧ s'.olen = s.olen ∧
        s'.rawLen = stopAt bs cap (max m (s.pos + 1))) ∨
    ((input.take cap).drop s.pos = [] ∧
      ∃ result s', skipPass lib raw cap s = some (.done (result, s')) ∧
        lib.isError result = true) := by
  rcases h.ensure_cases lib Nat.one_pos with
    ⟨hroom, s₁, hrun, hs₁, hfill, hmono⟩ | ⟨hlt, result, s₁, hrun, herror⟩
  · have hlt : s₁.pos < s₁.rawLen := by rw [hfill.pos]; exact hfill.enough
    obtain ⟨c, rest, hc⟩ := List.exists_cons_of_length_pos
      (show 0 < ((input.take cap).drop s.pos).length by rw [List.length_drop]; omega)
    refine .inl ⟨c, rest, hc, { s₁ with pos := s₁.pos + 1 }, ?_, hs₁.advance hlt,
      congrArg (· + 1) hfill.pos, hfill.olen, hfill.rawLen_eq hs₁ hlevel hmono⟩
    have hbyte : input.drop s₁.pos = c :: (rest ++ input.drop cap) := by
      rw [hfill.pos]
      exact drop_eq_of_drop_take hc (by omega)
    rw [skipPass, hrun, unlessError_ok, hs₁.byte_eq hlt hbyte]
    split_ifs <;> rfl
  · refine .inr ⟨List.drop_eq_nil_of_le (by omega), result, s₁, ?_, herror⟩
    rw [skipPass, hrun, unlessError, herror]
    rfl

theorem lineEnd_cons {pos : Nat} {c : UInt8} {rest : Bytes} (h : input.drop pos = c :: rest) :
    lineEnd input pos = if c = 10 then pos + 1 else lineEnd input (pos + 1) := by
  have hrest : input.drop (pos + 1) = rest := by rw [← List.drop_drop, h]; rfl
  rw [lineEnd, lineEnd, h, hrest, List.takeWhile_cons]
  split_ifs with hc <;> simp_all
  omega

/-- The rest of a size line is skipped, if its line feed arrives and fits. -/
theorem Holding.skipLine_cases (h : Holding raw cap input bs s)
    (hlevel : s.rawLen = stopAt bs cap m) {fuel : Nat}
    (hfuel : ((input.take cap).drop s.pos).length < fuel) :
    (lineEnd (input.take cap) s.pos ≤ (input.take cap).length ∧ ∃ s',
      Loop.run (skipPass lib raw cap) fuel s = some (.ok, s') ∧ Holding raw cap input bs s' ∧
        s'.pos = lineEnd (input.take cap) s.pos ∧ s'.olen = s.olen ∧
        s'.rawLen = stopAt bs cap (max m s'.pos)) ∨
    ((input.take cap).length < lineEnd (input.take cap) s.pos ∧ ∃ result s',
      Loop.run (skipPass lib raw cap) fuel s = some (result, s') ∧ lib.isError result = true) := by
  induction hdata : (input.take cap).drop s.pos generalizing s m fuel with
  | nil =>
    obtain ⟨fuel, rfl⟩ : ∃ n, fuel = n + 1 := ⟨fuel - 1, by omega⟩
    rcases h.skipByte_cases lib hlevel with ⟨c, rest, hc, -⟩ | ⟨-, result, s', hpass, herror⟩
    · rw [hdata] at hc
      cases hc
    · have hle := List.drop_eq_nil_iff.mp hdata
      exact .inr ⟨by rw [lineEnd]; omega, result, s', Loop.run_done hpass _, herror⟩
  | cons c rest ih =>
    obtain ⟨fuel, rfl⟩ : ∃ n, fuel = n + 1 := ⟨fuel - 1, by omega⟩
    rcases h.skipByte_cases lib hlevel with
      ⟨c', rest', hc, s₁, hpass, hs₁, hpos₁, holen₁, hlevel₁⟩ | ⟨hnil, -⟩
    swap
    · rw [hdata] at hnil
      cases hnil
    obtain ⟨rfl, rfl⟩ := List.cons.inj (hdata.symm.trans hc)
    have hlen := congrArg List.length hdata
    rw [List.length_drop, List.length_cons] at hlen
    rw [hdata, List.length_cons] at hfuel
    rw [lineEnd_cons hdata]
    by_cases hlf : c = 10
    · rw [if_pos hlf] at hpass ⊢
      exact .inl ⟨by omega, s₁, Loop.run_done hpass _, hs₁, hpos₁, holen₁, by rw [hlevel₁, hpos₁]⟩
    · rw [if_neg hlf] at hpass ⊢
      have hrest : (input.take cap).drop s₁.pos = rest := by
        rw [hpos₁, ← List.drop_drop, hdata]
        rfl
      rw [Loop.run_again hpass, ← hpos₁]
      rcases ih hs₁ hlevel₁ (show _ < fuel by rw [hrest]; omega) hrest with
        ⟨hle, s', hrun, hs', hpos', holen', hlevel'⟩ | hlost
      · refine .inl ⟨hle, s', hrun, hs', hpos', holen'.trans holen₁, ?_⟩
        have hpast : s₁.pos < s'.pos := by rw [hpos', lineEnd]; omega
        rw [hlevel', Nat.max_assoc, Nat.max_eq_right (show s.pos + 1 ≤ s'.pos by omega)]
      · exact .inr hlost

/-- Chunk data is moved, if it arrives and fits. -/
theorem Holding.copy_cases (h : Holding raw cap input bs s)
    (hlevel : s.rawLen = stopAt bs cap m) {n fuel : Nat} (hfuel : n < fuel)
    (hpos : s.pos ≤ (input.take cap).length) :
    (s.pos + n ≤ (input.take cap).length ∧ ∃ s',
      Loop.run (copyPass lib raw cap raw cap) fuel (n, s) = some (.ok, s') ∧
        Holding raw cap input bs s' ∧ s'.pos = s.pos + n ∧ s'.olen = s.olen + n ∧
        s'.rawLen = stopAt bs cap (max m s'.pos)) ∨
    ((input.take cap).length < s.pos + n ∧ ∃ result s',
      Loop.run (copyPass lib raw cap raw cap) fuel (n, s) = some (result, s') ∧
        lib.isError result = true) := by
  induction fuel generalizing s m n with
  | zero => omega
  | succ fuel ih =>
    by_cases hzero : n = 0
    · subst hzero
      have hraised := @stopAt_max bs _ _ _ (hlevel ▸ h.pos_le)
      exact .inl ⟨hpos, s, Loop.run_done rfl _, h, rfl, rfl, hlevel.trans hraised.symm⟩
    rcases h.ensure_cases lib Nat.one_pos with
      ⟨hroom, s₁, hrun, hs₁, hfill, hmono⟩ | ⟨hlt, result, s₁, hrun, herror⟩
    · have henough := hfill.enough
      have holen := hs₁.olen_le
      have hraw := hs₁.rawLen_le
      have hpos₁ := hfill.pos
      obtain ⟨take, htake⟩ : ∃ take, (if s₁.rawLen - s₁.pos < n then s₁.rawLen - s₁.pos
        else n) = take := ⟨_, rfl⟩
      have htakes : 0 < take ∧ take ≤ n ∧ s₁.pos + take ≤ s₁.rawLen := by
        split_ifs at htake <;> omega
      obtain ⟨hs₂, -⟩ := hs₁.moveDown htakes.2.2
      have hpass : copyPass lib raw cap raw cap (n, s) =
          some (.again (n - take, s₁.moveDown raw raw take)) := by
        rw [copyPass, if_neg hzero, hrun, unlessError_ok]
        dsimp only
        rw [htake, if_neg (show ¬ cap < s₁.olen + take by omega), if_neg (show ¬ take = 0 by omega)]
      have hpos₂ : (s₁.moveDown raw raw take).pos = s.pos + take := by
        rw [← hpos₁]
        rfl
      have holen₂ : (s₁.moveDown raw raw take).olen = s.olen + take := by
        rw [← hfill.olen]
        rfl
      have hlevel₂ : (s₁.moveDown raw raw take).rawLen = stopAt bs cap (max m (s.pos + 1)) :=
        hfill.rawLen_eq hs₁ hlevel hmono
      have hinside := hs₁.rawLen_le_length (by omega)
      rw [Loop.run_again hpass]
      rcases ih hs₂ hlevel₂ (n := n - take) (by omega) (by omega) with
        ⟨hle, s', hloop, hs', hpos', holen', hlevel'⟩ | ⟨hlt, hlost⟩
      · refine .inl ⟨by omega, s', hloop, hs', by omega, by omega, ?_⟩
        rw [hlevel', Nat.max_assoc, Nat.max_eq_right (show s.pos + 1 ≤ s'.pos by omega)]
      · exact .inr ⟨by omega, hlost⟩
    · have hpass : copyPass lib raw cap raw cap (n, s) = some (.done (result, s₁)) := by
        rw [copyPass, if_neg hzero, hrun, unlessError, herror]
        rfl
      exact .inr ⟨by omega, result, s₁, Loop.run_done hpass _, herror⟩

/-- Digits belong to their line. -/
theorem lineEnd_digits {digits rest : Bytes} (hd : IsHex digits) {pos : Nat}
    (h : input.drop pos = digits ++ rest) :
    lineEnd input (pos + digits.length) = lineEnd input pos := by
  induction digits generalizing pos with
  | nil => rfl
  | cons c digits ih =>
    have hne : c ≠ 10 := by
      rintro rfl
      exact hd.not_mem List.mem_cons_self
    have hrest : input.drop (pos + 1) = digits ++ rest := by rw [← List.drop_drop, h]; rfl
    have htail := ih (fun d hmem => hd d (List.mem_cons_of_mem _ hmem)) hrest
    rw [lineEnd_cons h, if_neg hne, ← htail, List.length_cons]
    congr 1
    omega

/-- The line break behind the data of a chunk, with both of its bytes buffered. -/
theorem Holding.skipBreak (h : Holding raw cap input bs s) (henough : s.pos + 2 ≤ s.rawLen)
    (hlen : s.pos + 2 ≤ (input.take cap).length) :
    ∃ s', (let s := if s.byte raw = 13 then { s with pos := s.pos + 1 } else s
        if s.byte raw = 10 then { s with pos := s.pos + 1 } else s) = s' ∧
      Holding raw cap input bs s' ∧ s'.rawLen = s.rawLen ∧ s'.olen = s.olen ∧
      s'.pos = s.pos + lineBreakLength ((input.take cap).drop s.pos) := by
  obtain ⟨c, d, rest, hdata⟩ : ∃ c d rest, (input.take cap).drop s.pos = c :: d :: rest := by
    have hdrop : 2 ≤ ((input.take cap).drop s.pos).length := by rw [List.length_drop]; omega
    match hmatch : (input.take cap).drop s.pos with
    | [] | [_] => simp [hmatch] at hdrop
    | c :: d :: rest => exact ⟨c, d, rest, rfl⟩
  have hfirst := drop_eq_of_drop_take hdata (by omega)
  have hsecond : input.drop (s.pos + 1) = d :: (rest ++ input.drop cap) := by
    rw [← List.drop_drop, hfirst]
    rfl
  have hbyte := h.byte_eq (by omega) hfirst
  have hs₁ := h.advance (k := 1) (by omega)
  have hbyte₁ := hs₁.byte_eq (by dsimp only; omega) hsecond
  have hs₂ := hs₁.advance (k := 1) (by dsimp only; omega)
  refine ⟨_, rfl, ?_⟩
  rw [hdata, hbyte]
  by_cases hcr : c = 13
  · rw [if_pos hcr]
    dsimp only
    rw [hbyte₁, hcr]
    by_cases hlf : d = 10
    · rw [if_pos hlf, hlf]
      exact ⟨hs₂, rfl, rfl, rfl⟩
    · rw [if_neg hlf]
      exact ⟨hs₁, rfl, rfl, by simp [lineBreakLength, hlf]⟩
  · rw [if_neg hcr]
    dsimp only
    rw [hbyte]
    by_cases hlf : c = 10
    · rw [if_pos hlf, hlf]
      exact ⟨hs₁, rfl, rfl, by simp [lineBreakLength]⟩
    · rw [if_neg hlf]
      exact ⟨h, rfl, rfl, by simp [lineBreakLength, hcr, hlf]⟩

/-- A pass reads a size line and goes on behind it, or fails. -/
theorem Holding.sizeLine_cases (h : Holding raw cap input bs s)
    (hlevel : s.rawLen = stopAt bs cap m) (hpos : s.pos ≤ (input.take cap).length)
    {line size : Nat} (hline : lineEnd (input.take cap) s.pos = line)
    (hsize : sizeAt (stopAt bs cap) (input.take cap) s.pos m = size) :
    (line ≤ (input.take cap).length ∧ ∃ s',
      chunkPass lib raw cap raw cap s = chunkDataPass lib raw cap raw cap size s' ∧
        Holding raw cap input bs s' ∧ s'.pos = line ∧ s'.olen = s.olen ∧
        s'.rawLen = stopAt bs cap (max m line)) ∨
    ((input.take cap).length < line ∧ ∃ result s',
      chunkPass lib raw cap raw cap s = some (.done (result, s')) ∧ lib.isError result = true) := by
  have hcap : (input.take cap).length = min cap input.length := List.length_take
  have hpast : s.pos < line := by rw [← hline, lineEnd]; omega
  rcases h.ensure_cases lib Nat.one_pos with
    ⟨hroom, s₁, hrun, hs₁, hfill, hmono⟩ | ⟨hlt, result, s₁, hrun, herror⟩
  swap
  · refine .inr ⟨by omega, result, s₁, ?_, herror⟩
    rw [chunkPass, hrun, unlessError, herror]
    rfl
  have henough := hfill.enough
  have hraw := hs₁.rawLen_le
  have hlevel₁ := hfill.rawLen_eq hs₁ hlevel hmono
  -- the digits are those that are buffered
  set digits := hexRun (window (input.take cap) s.pos (s₁.rawLen - s.pos)) with hdigits
  have hbuffered : window s₁.mem (raw + s₁.pos) (s₁.rawLen - s₁.pos) =
      window (input.take cap) s.pos (s₁.rawLen - s.pos) := by
    refine hs₁.buffered_eq.trans ?_
    rw [window, hfill.pos, List.drop_take, List.take_take, Nat.min_eq_left (by omega)]
  have hscan : scanHexDigits (window s₁.mem (raw + s₁.pos) (s₁.rawLen - s₁.pos)) 0 =
      (size, digits.length) := by
    rw [hbuffered, scanHexDigits_eq, ← hdigits, ← hsize, sizeAt, ← hlevel₁]
  have hstarts : digits <+: (input.take cap).drop s.pos :=
    (List.takeWhile_prefix _).trans (List.take_prefix _ _)
  obtain ⟨after, hafter⟩ := hstarts
  have hcount : digits.length ≤ s₁.rawLen - s.pos := by
    rw [hdigits, hexRun]
    exact (List.takeWhile_sublist _).length_le.trans (List.length_take_le _ _)
  have hline₁ := lineEnd_digits (hdigits ▸ isHex_hexRun _) hafter.symm
  have hs₂ := hs₁.advance (k := digits.length) (by rw [hfill.pos]; omega)
  have hpass : chunkPass lib raw cap raw cap s = unlessError lib
      (skipExtensions lib raw cap { s₁ with pos := s₁.pos + digits.length })
      (chunkDataPass lib raw cap raw cap size) := by
    rw [chunkPass, hrun, unlessError_ok]
    dsimp only
    rw [hscan]
  have hfuel :
      ((input.take cap).drop ({ s₁ with pos := s₁.pos + digits.length } : Dechunker).pos).length <
      cap + 1 := by
    rw [List.length_drop, List.length_take]
    omega
  rcases hs₂.skipLine_cases lib hlevel₁ hfuel with
    ⟨hin, s₃, hskip, hs₃, hpos₃, holen₃, hlevel₃⟩ | ⟨hout, result, s₃, hskip, herror⟩
  · rw [hfill.pos, hline₁, hline] at hin hpos₃
    rw [skipExtensions, hskip, unlessError_ok] at hpass
    refine .inl ⟨hin, s₃, hpass, hs₃, hpos₃, holen₃.trans hfill.olen, ?_⟩
    rw [hlevel₃]
    congr 1
    omega
  · rw [hfill.pos, hline₁, hline] at hout
    refine .inr ⟨hout, result, s₃, ?_, herror⟩
    rw [hpass, skipExtensions, hskip, unlessError, herror]
    rfl

/-- The data of a chunk and the line break behind it, if they arrive and fit. -/
theorem Holding.chunkDataPass_cases (h : Holding raw cap input bs s)
    (hlevel : s.rawLen = stopAt bs cap m) (hpos : s.pos ≤ (input.take cap).length) {size : Nat}
    (hsize : size ≠ 0) :
    (s.pos + size + 2 ≤ (input.take cap).length ∧ ∃ s',
      chunkDataPass lib raw cap raw cap size s = some (.again s') ∧ Holding raw cap input bs s' ∧
        s'.pos = s.pos + size + lineBreakLength ((input.take cap).drop (s.pos + size)) ∧
        s'.olen = s.olen + size ∧ s'.rawLen = stopAt bs cap (max m (s.pos + size + 2))) ∨
    ((input.take cap).length < s.pos + size + 2 ∧ ∃ result s',
      chunkDataPass lib raw cap raw cap size s = some (.done (result, s')) ∧
        lib.isError result = true) := by
  have hcap : (input.take cap).length = min cap input.length := List.length_take
  rw [chunkDataPass, if_neg hsize, copyChunk]
  rcases h.copy_cases lib hlevel (Nat.lt_succ_self size) hpos with
    ⟨hdata, s₁, hcopy, hs₁, hpos₁, holen₁, hlevel₁⟩ | ⟨hlost, result, s₁, hcopy, herror⟩
  swap
  · refine .inr ⟨by omega, result, s₁, ?_, herror⟩
    rw [hcopy, unlessError, herror]
    rfl
  rcases hs₁.ensure_cases lib Nat.two_pos with
    ⟨hbreak, s₂, hensure, hs₂, hfill, hmono⟩ | ⟨hlost, result, s₂, hensure, herror⟩
  swap
  · refine .inr ⟨by omega, result, s₂, ?_, herror⟩
    rw [hcopy, unlessError_ok, hensure, unlessError, herror]
    rfl
  have hlevel₂ := hfill.rawLen_eq hs₂ hlevel₁ hmono
  have hpos₂ := hfill.pos
  obtain ⟨s₃, hskip, hs₃, hraw₃, holen₃, hpos₃⟩ := hs₂.skipBreak (by rw [hpos₂]; exact hfill.enough)
    (by omega)
  refine .inl ⟨by omega, s₃, ?_, hs₃, ?_, ?_, ?_⟩
  · rw [hcopy, unlessError_ok, hensure, unlessError_ok]
    dsimp only
    rw [← hskip]
  · rw [hpos₃, hpos₂, hpos₁]
  · rw [holen₃, hfill.olen, holen₁]
  · rw [hraw₃, hlevel₂]
    congr 1
    omega

/-- A size line and the data it announces. -/
theorem Holding.chunkPass_cases (h : Holding raw cap input bs s)
    (hlevel : s.rawLen = stopAt bs cap m) (hpos : s.pos ≤ (input.take cap).length)
    {line size : Nat} (hline : lineEnd (input.take cap) s.pos = line)
    (hsize : sizeAt (stopAt bs cap) (input.take cap) s.pos m = size) :
    (line ≤ (input.take cap).length ∧ size = 0 ∧ ∃ s',
      chunkPass lib raw cap raw cap s = some (.done (.ok, s')) ∧ Holding raw cap input bs s' ∧
        s'.olen = s.olen) ∨
    (size ≠ 0 ∧ line + size + 2 ≤ (input.take cap).length ∧ ∃ s',
      chunkPass lib raw cap raw cap s = some (.again s') ∧ Holding raw cap input bs s' ∧
        s'.pos = line + size + lineBreakLength ((input.take cap).drop (line + size)) ∧
        s'.olen = s.olen + size ∧ s'.rawLen = stopAt bs cap (max m (line + size + 2))) ∨
    (((input.take cap).length < line ∨ size ≠ 0 ∧ (input.take cap).length < line + size + 2) ∧
      ∃ result s', chunkPass lib raw cap raw cap s = some (.done (result, s')) ∧
        lib.isError result = true) := by
  rcases h.sizeLine_cases lib hlevel hpos hline hsize with
    ⟨hin, s₁, hpass, hs₁, rfl, holen₁, hlevel₁⟩ | ⟨hout, herror⟩
  swap
  · exact .inr (.inr ⟨.inl hout, herror⟩)
  rw [hpass]
  by_cases hzero : size = 0
  · exact .inl ⟨hin, hzero, s₁, by rw [hzero]; rfl, hs₁, holen₁⟩
  rcases hs₁.chunkDataPass_cases lib hlevel₁ hin hzero with
    ⟨hdata, s₂, hagain, hs₂, hpos₂, holen₂, hlevel₂⟩ | ⟨hlost, herror⟩
  · refine .inr (.inl ⟨hzero, hdata, s₂, hagain, hs₂, hpos₂, by rw [holen₂, holen₁], ?_⟩)
    rw [hlevel₂]
    congr 1
    omega
  · exact .inr (.inr ⟨.inr ⟨hzero, hlost⟩, herror⟩)

/-- On any bytes, the chunk loop returns `ok` exactly when it comes to a line that counts as
zero-size, and else an error. It puts something out unless that is the first line. -/
theorem Holding.loop_ok_iff (h : Holding raw cap input bs s) (hlevel : s.rawLen = stopAt bs cap m)
    (hpos : s.pos ≤ (input.take cap).length) {fuel : Nat}
    (hfuel : (input.take cap).length < s.pos + fuel) :
    ∃ result s', Loop.run (chunkPass lib raw cap raw cap) fuel s = some (result, s') ∧
      (result = .ok ↔ ClosesAt (stopAt bs cap) (input.take cap) s.pos m) ∧
      (result = .ok ∨ lib.isError result = true) ∧
      (result = .ok → Holding raw cap input bs s' ∧ s.olen ≤ s'.olen ∧
        (s'.olen = s.olen ↔ sizeAt (stopAt bs cap) (input.take cap) s.pos m = 0)) := by
  induction fuel generalizing s m with
  | zero => omega
  | succ fuel ih =>
    rcases h.chunkPass_cases lib hlevel hpos rfl rfl with
      ⟨hline, hzero, s', hpass, hs', holen'⟩ |
      ⟨hsize, hdata, s', hpass, hs', hpos', holen', hlevel'⟩ | ⟨hlost, result, s', hpass, herror⟩
    · exact ⟨.ok, s', Loop.run_done hpass _, iff_of_true rfl (.last hline hzero), .inl rfl,
        fun _ => ⟨hs', holen'.ge, iff_of_true holen' hzero⟩⟩
    · have hbreak := lineBreakLength_le ((input.take cap).drop (lineEnd (input.take cap) s.pos +
        sizeAt (stopAt bs cap) (input.take cap) s.pos m))
      have hpast : s.pos < lineEnd (input.take cap) s.pos := by rw [lineEnd]; omega
      obtain ⟨result, s'', hrun, hcloses, herror, hok⟩ := ih hs' hlevel' (by omega) (by omega)
      refine ⟨result, s'', by rw [Loop.run_again hpass, hrun], hcloses.trans ?_, herror,
        fun hresult => ?_⟩
      · rw [hpos']
        constructor
        · exact .chunk hsize rfl hdata
        · rintro (⟨-, hzero⟩ | ⟨-, rfl, -, hrest⟩)
          · exact absurd hzero hsize
          · exact hrest
      · obtain ⟨hs'', hgrows, -⟩ := hok hresult
        exact ⟨hs'', by omega, iff_of_false (by omega) hsize⟩
    · have hfails : result ≠ .ok := by
        rintro rfl
        simp at herror
      refine ⟨result, s', Loop.run_done hpass _, iff_of_false hfails ?_, .inr herror,
        fun hok => absurd hok hfails⟩
      rintro (⟨hline, hzero⟩ | ⟨hsize, rfl, hdata, -⟩) <;> omega

end

/-- A call in one region returns `ok` exactly when its bytes come to a line that counts as
zero-size. -/
theorem DechunkCall.run_ok_iff (lib : CommonLib) {k : DechunkCall}
    (hbefore : k.rptr + k.rlen ≤ k.raw)
    (hfits : k.raw + k.cap ≤ k.mem.length) :
    ∃ result s, k.run lib = some (result, s) ∧
      (result = .ok ↔ ClosesAt (stopAt (cutsFrom (min k.rlen k.cap) k.wire) k.cap)
        ((k.prefetched ++ arriving k.wire).take k.cap) 0 k.rlen) ∧
      (result = .ok ∨ lib.isError result = true) ∧
      (result = .ok → k.raw + k.cap ≤ s.mem.length ∧ s.olen ≤ k.cap ∧
        (s.olen = 0 ↔ sizeAt (stopAt (cutsFrom (min k.rlen k.cap) k.wire) k.cap)
          ((k.prefetched ++ arriving k.wire).take k.cap) 0 k.rlen = 0)) := by
  obtain ⟨s, hrun, hhold, hpos, holen, hraw, -⟩ := k.start lib hbefore hfits
  have hlevel : s.rawLen = stopAt (cutsFrom (min k.rlen k.cap) k.wire) k.cap k.rlen := by
    rw [hraw]
    by_cases hfit : k.rlen ≤ k.cap
    · rw [Nat.min_eq_left hfit]
      exact (stopAt_eq hfit (Nat.le_refl _) (.inl (mem_cutsFrom _ _))
        fun b hb _ => le_of_mem_cutsFrom hb).symm
    · rw [Nat.min_eq_right (by omega), stopAt_of_lt (by omega)]
  have htake : (k.prefetched.take k.cap ++ arriving k.wire).take k.cap =
      (k.prefetched ++ arriving k.wire).take k.cap := by
    rw [List.take_append, List.take_append, List.take_take, Nat.min_self, List.length_take]
    congr 2
    omega
  obtain ⟨result, s', hloop, hcloses, herror, hok⟩ := @Holding.loop_ok_iff lib _ _ _ _ _ _ hhold
    hlevel (by omega) (k.cap + 1) (by rw [List.length_take]; omega)
  rw [htake, hpos] at hcloses
  rw [htake, hpos, holen] at hok
  refine ⟨result, s', hrun.trans hloop, hcloses, herror, fun hresult => ?_⟩
  obtain ⟨hs', -, hzero⟩ := hok hresult
  exact ⟨hs'.fit, hs'.olen_le.trans (hs'.pos_le.trans hs'.rawLen_le), hzero⟩

/-! ## Truncated streams -/

/-- What a stream can lack of a request. -/
inductive Truncation (lib : CommonLib) (s : Bytes) where
  /-- The blank line. -/
  | head (blank : ¬ headersTerminator.bytes <:+: s)
  /-- Part of the declared body. -/
  | length (head : MessageHead) (rest : Bytes) (wellFormed : head.WellFormed)
    (stream : s = head.encode ++ rest)
    (missing : ∀ n, declaredLength lib head.fields = some n → rest.length < n)
  /-- The zero-size line of a chunked body. -/
  | chunks (head : MessageHead) (rest : Bytes) (wellFormed : head.WellFormed)
    (stream : s = head.encode ++ rest)
    (nolength : lookup head.fields HTTP_HEADER_CONTENT_LENGTH.bytes = none) (coding : Bytes)
    (transfer : lookup head.fields HTTP_HEADER_TRANSFER_ENCODING.bytes = some coding)
    (chunked : transferEncodingIsChunked coding = true)
    (missing : ∀ body : ChunkedBody, body.WellFormed → ¬ body.encode <+: rest)

/-- The reads of `wire` into a buffer of `size` bytes bring what has to be noticed: the buffer
is full before the end, the declared length is not a number of 32 bits, or no line of the
chunked body counts as zero-size. -/
def Truncation.Noticed {lib : CommonLib} {s : Bytes} (t : Truncation lib s) (size : Nat)
    (wire : Wire) : Prop :=
  match t with
  | .head _ => size ≤ s.length
  | .length h _ _ _ _ => size ≤ s.length ∨ declaredLength lib h.fields = none
  | .chunks h rest _ _ _ _ _ _ _ =>
    let filled := stopAt (cutsFrom 0 wire) size h.encode.length
    let bodyCuts := (cutsFrom 0 wire).map (· - h.encode.length)
    ¬ ClosesAt (stopAt bodyCuts (size - filled)) (rest.take (size - filled)) 0
      (filled - h.encode.length)

/-- The call returns, and not `ok`: nothing has been parsed that was not received. -/
def Refused (outcome : Option (ReceiveOutcome HttpRequest)) : Prop :=
  ∃ result request, outcome = some (.returned result request none) ∧ result ≠ .ok

section

variable {lib : CommonLib} {ptr : Nat} {mem : Bytes} {wire : Wire} {head : MessageHead}
  {request : HttpRequest} {w : Receiver}

theorem refused_of_head_error {result : Result}
    (hrun : readUntilHeadersComplete lib ptr mem wire = some (result, w))
    (herror : lib.isError result = true) : Refused (receiveRequest lib ptr mem wire request) := by
  refine ⟨result, request, ?_, ?_⟩
  · rw [receiveRequest, hrun]
    simp only [herror, if_true]
  · rintro rfl
    simp at herror

/-- Behind the head it is the body stage that refuses. -/
theorem refused_iff_isError {parsed : HttpRequest} {w' : Receiver} {result : Result} {body : Span}
    (hrun : readUntilHeadersComplete lib ptr mem wire = some (.ok, w))
    (hparse : httpRequestParse lib request ⟨ptr, w.received⟩ = (.ok, parsed))
    (hbody : maybeReadBody lib ptr parsed.headers parsed.body w = some (result, body, w')) :
    Refused (receiveRequest lib ptr mem wire request) ↔ lib.isError result = true := by
  obtain ⟨remainder, hcall⟩ := receiveRequest_eq lib ptr hrun hparse hbody
  rw [Refused, hcall]
  cases herror : lib.isError result with
  | true =>
    refine iff_of_true ⟨result, _, rfl, ?_⟩ rfl
    rintro rfl
    simp at herror
  | false => simp

/-- Without a blank line the call refuses the stream exactly when the buffer is full before
the end. -/
theorem refused_headless_iff (hend : endsOrderly wire = true)
    (hblank : ¬ headersTerminator.bytes <:+: arriving wire) :
    Refused (receiveRequest lib ptr mem wire request) ↔ mem.length ≤ (arriving wire).length := by
  obtain ⟨result, w', w, hrun, hflow, hstop⟩ := @receive_spec mem.length
    (fun received => (lib.spanFindReverse ⟨ptr, received⟩ headersTerminator).isSome)
    ⟨mem, 0, wire⟩ (Nat.le_refl _) (Nat.zero_le _)
  have himage : w.image = arriving wire := by
    rw [hflow.image, Receiver.image, Receiver.received]
    rfl
  have hfilled : w.received.length = w.filled :=
    Receiver.length_received (by rw [hflow.length_mem]; exact hflow.le_limit)
  have hlength := congrArg List.length himage
  rw [Receiver.image, List.length_append, hfilled] at hlength
  cases hstop with
  | enough hfound =>
    rw [lib.spanFindReverse_eq _ _ headersTerminator_ne_nil, rfind?_isSome_iff,
      ← infix_iff_occursAt] at hfound
    exact absurd (hfound.trans (himage ▸ (List.prefix_append _ _).isInfix)) hblank
  | full _ hfull =>
    exact iff_of_true (refused_of_head_error hrun (lib.isError_insufficientSize)) (by omega)
  | ended _ hroom hover hended =>
    rw [hover, List.length_nil] at hlength
    rcases hended with ⟨-, hfails⟩ | ⟨hresult, -⟩
    · rw [hflow.orderly] at hfails
      exact absurd (hend.symm.trans hfails) (by decide)
    · refine iff_of_false ?_ (by omega)
      rintro ⟨_, _, hcall, -⟩
      rw [receiveRequest, readUntilHeadersComplete, hrun] at hcall
      rcases hresult with rfl | rfl <;> simp at hcall

/-- The read that brings the end of the head stops at the first boundary there. -/
theorem HeadRead.filled_eq (h : HeadRead mem wire head w) :
    w.filled = stopAt (cutsFrom 0 wire) mem.length head.encode.length := by
  refine (stopAt_eq h.le_mem h.le (h.cuts _ (mem_cutsFrom _ _)) fun b hb hle => ?_).symm
  by_contra hlt
  exact absurd (h.first b hb (by omega)) (by omega)

/-- The boundaries of the body, counted from the end of the head. -/
theorem HeadRead.mem_bodyCuts (h : HeadRead mem wire head w) {b : Nat}
    (hb : b < mem.length - w.filled) (hge : w.filled - head.encode.length ≤ b) :
    b ∈ cutsFrom (w.filled - head.encode.length) w.wire ↔
      b ∈ (cutsFrom 0 wire).map (· - head.encode.length) := by
  have hle := h.le
  have hshift : b ∈ cutsFrom (w.filled - head.encode.length) w.wire ↔
      head.encode.length + b ∈ cutsFrom w.filled w.wire := by
    rw [← add_mem_cutsFrom (k := head.encode.length), Nat.add_sub_cancel' hle]
  rw [hshift, List.mem_map]
  constructor
  · intro hmem
    refine ⟨_, (h.cuts _ hmem).resolve_right (by omega), by omega⟩
  · rintro ⟨c, hc, rfl⟩
    by_cases hpast : w.filled ≤ c
    · rw [Nat.add_sub_cancel' (by omega)]
      exact h.later c hc hpast
    · have hexact : head.encode.length + (c - head.encode.length) = w.filled := by omega
      rw [hexact]
      exact mem_cutsFrom _ _

/-- With part of the declared body missing. -/
theorem HeadRead.refused_iff_length (h : HeadRead mem wire head w) {rest : Bytes}
    (hrun : readUntilHeadersComplete lib ptr mem wire = some (.ok, w))
    (hend : endsOrderly wire = true) (hwf : head.WellFormed)
    (hstream : arriving wire = head.encode ++ rest)
    (hmissing : ∀ n, declaredLength lib head.fields = some n → rest.length < n) :
    Refused (receiveRequest lib ptr mem wire request) ↔
      mem.length ≤ (arriving wire).length ∨ declaredLength lib head.fields = none := by
  have hlookup : lookup head.fields HTTP_HEADER_CONTENT_LENGTH.bytes ≠ none := by
    intro hnone
    have hzero := hmissing 0 (by rw [declaredLength, hnone])
    omega
  have hfields : head.fields ≠ [] := by
    intro hnil
    rw [hnil] at hlookup
    exact hlookup rfl
  have hlen := congrArg List.length hstream
  rw [List.length_append] at hlen
  have hreceived := h.received_eq
  rw [hstream, List.take_append, List.take_of_length_le h.le] at hreceived
  obtain ⟨parsed, hparse, hbody, hfind⟩ := @httpRequestParse_received lib _ _ hwf hfields
    request ⟨ptr, w.received⟩ hreceived
  cases hdeclared : declaredLength lib head.fields with
  | none =>
    have hmaybe := @maybeReadBody_declared lib ptr w _ _ parsed.body hfind (absurd · hlookup)
    rw [hdeclared] at hmaybe
    rw [refused_iff_isError hrun hparse hmaybe]
    simp
  | some n =>
    have hlt := hmissing n hdeclared
    obtain ⟨result, body, w', hmaybe, -, hread⟩ :=
      @HeadRead.bodyStage lib ptr _ _ _ _ h _ n hfind (absurd · hlookup) hdeclared
    rw [← hbody] at hmaybe
    rw [refused_iff_isError hrun hparse hmaybe]
    simp only [reduceCtorEq, or_false]
    cases hread with
    | complete hle _ _ hle_length _ => omega
    | full _ hle => exact iff_of_true (by simp) hle
    | ended _ hroom _ hended =>
      rw [hend] at hended
      rcases hended with ⟨-, hfails⟩ | ⟨rfl | rfl, -⟩
      · cases hfails
      · exact iff_of_false (by simp) (by omega)
      · exact iff_of_false (by simp) (by omega)

/-- With the zero-size line of a chunked body missing, or not. -/
theorem HeadRead.refused_iff_chunks (h : HeadRead mem wire head w) {rest coding : Bytes}
    (hrun : readUntilHeadersComplete lib ptr mem wire = some (.ok, w)) (hwf : head.WellFormed)
    (hstream : arriving wire = head.encode ++ rest)
    (hcl : lookup head.fields HTTP_HEADER_CONTENT_LENGTH.bytes = none)
    (hte : lookup head.fields HTTP_HEADER_TRANSFER_ENCODING.bytes = some coding)
    (hchunked : transferEncodingIsChunked coding = true) :
    Refused (receiveRequest lib ptr mem wire request) ↔
      ¬ ClosesAt (stopAt ((cutsFrom 0 wire).map (· - head.encode.length)) (mem.length - w.filled))
        (rest.take (mem.length - w.filled)) 0 (w.filled - head.encode.length) := by
  have hmem := h.length_mem
  have hle := h.le
  have hle_mem := h.le_mem
  have hfields : head.fields ≠ [] := by
    intro hnil
    rw [hnil] at hte
    cases hte
  have hreceived := h.received_eq
  rw [hstream, List.take_append, List.take_of_length_le h.le] at hreceived
  obtain ⟨parsed, hparse, hbody, hfind⟩ := @httpRequestParse_received lib _ _ hwf hfields
    request ⟨ptr, w.received⟩ hreceived
  have hlength := except_map_elim_none (hfind HTTP_HEADER_CONTENT_LENGTH (by decide)) hcl
  obtain ⟨value, htransfer, rfl⟩ :=
    except_map_elim_some (hfind HTTP_HEADER_TRANSFER_ENCODING (by decide)) hte
  -- the chunk loop starts on what has been read behind the head
  set k := chunkedCall ptr parsed.body w with hk
  have hsize : parsed.body.size = w.filled - head.encode.length := by
    rw [hbody, Span.size, Span.bytes_tail, List.length_drop, Receiver.length_received (by omega)]
  have hptr : parsed.body.ptr - ptr = head.encode.length := by
    rw [hbody, Span.ptr_tail, Nat.add_sub_cancel_left]
  have hprefetched : k.prefetched ++ arriving k.wire = rest := by
    have hdrop := congrArg (List.drop head.encode.length) (h.image.trans hstream)
    rw [List.drop_left, Receiver.image, List.drop_append_of_le_length (by
      rw [Receiver.length_received (by omega)]; exact hle)] at hdrop
    rw [← hdrop, DechunkCall.prefetched, hk, chunkedCall]
    dsimp only
    rw [hptr, hsize, window, Receiver.received, List.drop_take]
  obtain ⟨result, s, hcall, hcloses, herror, -⟩ := k.run_ok_iff lib
    (by simp only [hk, chunkedCall]; omega) (by simp only [hk, chunkedCall]; omega)
  have hmaybe : maybeReadBody lib ptr parsed.headers parsed.body w =
      some (if lib.isError result then (result, parsed.body, ⟨s.mem, w.filled + s.rawLen, s.wire⟩)
        else (.ok, spanAt ptr s.mem w.filled s.olen, ⟨s.mem, w.filled + s.rawLen, s.wire⟩)) := by
    rw [DechunkCall.run, hk, chunkedCall] at hcall
    rw [maybeReadBody, hlength, htransfer]
    dsimp only at hcall ⊢
    rw [if_pos hchunked, hcall]
    dsimp only
    split_ifs <;> rfl
  have hrefused : Refused (receiveRequest lib ptr mem wire request) ↔ ¬ result = .ok := by
    cases hresult : lib.isError result with
    | true =>
      rw [hresult, if_pos rfl] at hmaybe
      rw [refused_iff_isError hrun hparse hmaybe, hresult]
      refine iff_of_true rfl ?_
      rintro rfl
      simp at hresult
    | false =>
      rw [hresult, if_neg (by decide)] at hmaybe
      rw [refused_iff_isError hrun hparse hmaybe]
      rw [hresult] at herror
      exact iff_of_false (by simp) (by simpa using herror)
  have hcap : k.cap = mem.length - w.filled := by simp only [hk, chunkedCall, hmem]
  have hrlen : k.rlen = w.filled - head.encode.length := hsize
  have hstop : ∀ n, w.filled - head.encode.length ≤ n →
      stopAt (cutsFrom (min k.rlen k.cap) k.wire) k.cap n =
        stopAt ((cutsFrom 0 wire).map (· - head.encode.length)) (mem.length - w.filled) n := by
    intro n hn
    rw [hcap]
    refine stopAt_congr fun b hb hle => ?_
    rw [Nat.min_eq_left (by omega), hrlen]
    exact h.mem_bodyCuts hb (hn.trans hle)
  rw [hrefused, hcloses, hprefetched, hcap, hrlen]
  rw [hcap, hrlen] at hstop
  exact not_congr ⟨fun hc => hc.congr hstop (Nat.le_refl _),
    fun hc => hc.congr (fun n hn => (hstop n hn).symm) (Nat.le_refl _)⟩

end

/-- A truncated request is refused exactly when the buffer is full first, the declared length
is not a number of 32 bits, or no line of a chunked body counts as zero-size. -/
theorem truncated_refused_iff (lib : CommonLib) (ptr : Nat) (mem : Bytes) (wire : Wire)
    (request : HttpRequest) (hend : endsOrderly wire = true) (t : Truncation lib (arriving wire)) :
    Refused (receiveRequest lib ptr mem wire request) ↔ t.Noticed mem.length wire := by
  cases t with
  | head hblank => exact refused_headless_iff hend hblank
  | length head rest hwf hstream hmissing =>
    rcases readUntilHeadersComplete_spec lib ptr mem hwf hstream with
      ⟨hsmall, w, hrun⟩ | ⟨w, hrun, hread⟩
    · refine iff_of_true (refused_of_head_error hrun lib.isError_insufficientSize) (.inl ?_)
      rw [hstream, List.length_append]
      omega
    · exact hread.refused_iff_length hrun hend hwf hstream hmissing
  | chunks head rest hwf hstream hcl coding hte hchunked _ =>
    rcases readUntilHeadersComplete_spec lib ptr mem hwf hstream with
      ⟨hsmall, w, hrun⟩ | ⟨w, hrun, hread⟩
    · refine iff_of_true (refused_of_head_error hrun lib.isError_insufficientSize) ?_
      rw [Truncation.Noticed, stopAt_of_lt hsmall, Nat.sub_self, List.take_zero]
      rintro (⟨hline, -⟩ | ⟨-, -, hdata, -⟩) <;> simp [lineEnd] at *
    · rw [Truncation.Noticed, ← hread.filled_eq]
      exact hread.refused_iff_chunks hrun hwf hstream hcl hte hchunked

/-! ## A body that does not arrive -/

/-- The head that declares one byte, and nothing behind it. -/
def oneByteMissing : Truncation .reference (arriving [.data oneByteHead.encode]) :=
  .length oneByteHead [] oneByteHead_wellFormed rfl fun n hn => by
    have hone : declaredLength .reference oneByteHead.fields = some 1 := by decide +kernel
    obtain rfl : 1 = n := Option.some.inj (hone.symm.trans hn)
    decide

/-- The buffer is full with the head. -/
theorem truncated_refused_full :
    Refused (receiveRequest .reference 1000 (List.replicate oneByteHead.encode.length 0)
      [.data oneByteHead.encode] .zero) :=
  (truncated_refused_iff .reference 1000 _ _ .zero rfl oneByteMissing).mpr
    (.inl (by decide +kernel))

/-- With room for more, the request without its body is accepted. -/
theorem truncated_accepted :
    ¬ ∀ (lib : CommonLib) (ptr : Nat) (mem : Bytes) (wire : Wire) (request : HttpRequest),
      endsOrderly wire = true → Truncation lib (arriving wire) →
      Refused (receiveRequest lib ptr mem wire request) := by
  intro h
  obtain ⟨result, request, hcall, hresult⟩ := h .reference 1000 (List.replicate 64 0)
    [.data oneByteHead.encode] .zero rfl oneByteMissing
  have hanswer : ((receiveRequest .reference 1000 (List.replicate 64 0)
      [.data oneByteHead.encode] .zero).bind ReceiveOutcome.answer).map Prod.fst = some .ok := by
    decide +kernel
  rw [hcall] at hanswer
  exact hresult (Option.some.inj hanswer)

end HttpC
