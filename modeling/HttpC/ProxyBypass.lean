import HttpC.ProxyUrl

/-!
# Hosts without a proxy

`http_endpoint_proxy_should_bypass` reads a list of host names at its commas and normalises each
entry before it is compared with the host. Only the test for `*` comes first: an entry that becomes
`*` on the way is compared like a name.

## Main results

* `httpEndpointProxyShouldBypass_eq` — what the loop over the entries finds.
* `httpEndpointProxyShouldBypass_iff` — when that is what the entries say, and that it then does not
  depend on ports, on the order of the entries or on blank ones.
-/

namespace HttpC.Endpoint

open ListSearch

/-! ## The model -/

/-- A position as it is returned by `find_byte` and `find_last_byte`. -/
def positionInt (position : Option Nat) : Int :=
  match position with
  | some index => Int.bmod index (2 ^ 32)
  | none => -1

variable (lib : CommonLib)

/-- One trailing dot goes. -/
def dropTrailingDot (text : Span) : Span :=
  if !text.isEmpty && text.bytes[text.size - 1]? == some 46 then
    lib.spanSlice text 0 (text.size - 1)
  else text

/-- The hostname as it is compared: without blanks, brackets and trailing dot. -/
def bypassHostname (hostname : Span) : Span :=
  let hostname := trimBlanks lib (lib.spanSlice hostname 0 (textLength hostname))
  let hostname :=
    if hostname.size ≥ 2 ∧ hostname.bytes[0]? = some 91 ∧
        hostname.bytes[hostname.size - 1]? = some 93 then
      lib.spanSlice hostname 1 (hostname.size - 2)
    else hostname
  dropTrailingDot lib hostname

/-- "host:port" without the port -- but a bare IPv6 literal is left alone. -/
def dropPort (entry : Span) : Span :=
  let colon := positionInt (findByte entry 58)
  if colon ≥ 0 ∧ positionInt (findLastByte entry 58) = colon then
    lib.spanSlice entry 0 colon.toNat
  else entry

/-- The star of a leading "*." goes, and then a leading dot. -/
def dropLead (entry : Span) : Span :=
  let entry :=
    if entry.size ≥ 2 ∧ entry.bytes[0]? = some 42 ∧ entry.bytes[1]? = some 46 then
      lib.spanSliceToEnd entry 1
    else entry
  if !entry.isEmpty && entry.bytes[0]? == some 46 then lib.spanSliceToEnd entry 1 else entry

/-- The name in an entry without blanks around it, or `none` where the loop continues. -/
def bypassName (entry : Span) : Option Span :=
  if entry.bytes[0]? = some 91 then
    let closing := positionInt (findByte entry 93)
    if closing < 2 then none else some (lib.spanSlice entry 1 (closing.toNat - 1))
  else some (dropTrailingDot lib (dropLead lib (dropPort lib entry)))

/-- The host has this name, or is in the domain of this name. -/
def matchesName (hostname entry : Span) : Bool :=
  equalsIgnoringCase hostname entry ||
    (decide (hostname.size > entry.size) &&
      hostname.bytes[hostname.size - entry.size - 1]? == some 46 &&
      equalsIgnoringCase (lib.spanSliceToEnd hostname (hostname.size - entry.size)) entry)

/-- One pass of the loop: whether the function returns `true` at this entry. -/
def matchesEntry (hostname entry : Span) : Bool :=
  let entry := trimBlanks lib entry
  if entry.isEmpty then false
  else if entry.size = 1 ∧ entry.bytes[0]? = some 42 then true
  else
    match bypassName lib entry with
    | none => false
    | some entry => if entry.isEmpty then false else matchesName lib hostname entry

/-- The loop over the entries. Each pass takes at least one byte. -/
def bypassLoop (hostname : Span) : Nat → Span → Bool
  | 0, _ => false
  | fuel + 1, remaining =>
    if remaining.isEmpty then false
    else
      let comma := positionInt (findByte remaining 44)
      let entry := if comma ≥ 0 then lib.spanSlice remaining 0 comma.toNat else remaining
      let remaining :=
        if comma ≥ 0 then lib.spanSliceToEnd remaining (comma.toNat + 1) else .empty
      matchesEntry lib hostname entry || bypassLoop hostname fuel remaining

/-- `http_endpoint_proxy_should_bypass`. -/
def httpEndpointProxyShouldBypass (noProxy hostname : Span) : Bool :=
  let hostname := bypassHostname lib hostname
  if hostname.isEmpty then false
  else
    bypassLoop lib hostname (noProxy.size + 1) (lib.spanSlice noProxy 0 (textLength noProxy))

/-! ## The rule -/

/-- Without the blanks around it. -/
def trimmed (text : Bytes) : Bytes := (text.dropWhile isBlank).rdropWhile isBlank

def withoutDot (text : Bytes) : Bytes := if text.getLast? = some 46 then text.dropLast else text

def withoutBrackets (text : Bytes) : Bytes :=
  if 2 ≤ text.length ∧ text.head? = some 91 ∧ text.getLast? = some 93 then text.tail.dropLast
  else text

/-- The host that is asked for. -/
def hostOf (hostname : Bytes) : Bytes :=
  withoutDot (withoutBrackets (trimmed (hostname.takeWhile (· != 0))))

/-- The entries of a list. -/
def entriesOf (noProxy : Bytes) : List Bytes := (noProxy.takeWhile (· != 0)).splitOn 44

/-- The text behind an opening bracket, nothing if the bracket is not closed. -/
def insideBrackets (text : Bytes) : Bytes :=
  if 93 ∈ text then (text.takeWhile (· != 93)).tail else []

/-- A port is behind the only colon. -/
def withoutPort (text : Bytes) : Bytes :=
  if text.count 58 = 1 then text.takeWhile (· != 58) else text

def withoutLead (text : Bytes) : Bytes :=
  if [42, 46] <+: text then text.drop 2 else if text.head? = some 46 then text.tail else text

/-- The name in an entry without blanks around it, empty if there is none. -/
def nameOf (text : Bytes) : Bytes :=
  if text.head? = some 91 then insideBrackets text
  else withoutDot (withoutLead (withoutPort text))

/-- What an entry stands for. -/
def normalised (entry : Bytes) : Bytes := nameOf (trimmed entry)

/-- A name covers the host of that name and everything in the domain of that name. -/
def Covers (name host : Bytes) : Prop :=
  name ≠ [] ∧ (lower host = lower name ∨ lower (46 :: name) <:+ lower host)

instance (name host : Bytes) : Decidable (Covers name host) := inferInstanceAs (Decidable (_ ∧ _))

section

theorem getElem?_zero (text : Bytes) : text[0]? = text.head? := List.head?_eq_getElem?.symm

theorem getElem?_last (text : Span) : text.bytes[text.size - 1]? = text.bytes.getLast? :=
  List.getLast?_eq_getElem?.symm

theorem dropTrailingDot_bytes (text : Span) :
    (dropTrailingDot lib text).bytes = withoutDot text.bytes := by
  rw [dropTrailingDot, withoutDot, getElem?_last]
  by_cases hdot : text.bytes.getLast? = some 46
  · have hne : text.isEmpty = false := by
      rw [Span.isEmpty_eq_false_iff]
      rintro hnil
      simp [hnil] at hdot
    rw [if_pos hdot, hne, hdot, if_pos (by simp), bytes_slice lib text (Nat.sub_le _ _),
      List.dropLast_eq_take, Span.size]
  · rw [if_neg hdot, if_neg (by simp [hdot])]

theorem bypassHostname_bytes (hostname : Span) :
    (bypassHostname lib hostname).bytes = hostOf hostname.bytes := by
  rw [bypassHostname, dropTrailingDot_bytes, hostOf]
  congr 1
  have htrim : (trimBlanks lib (lib.spanSlice hostname 0 (textLength hostname))).bytes =
      trimmed (hostname.bytes.takeWhile (· != 0)) := by
    rw [trimBlanks_bytes, bytes_textLength, trimmed]
  set text := trimBlanks lib (lib.spanSlice hostname 0 (textLength hostname)) with htext
  rw [withoutBrackets, ← htrim, getElem?_last, getElem?_zero]
  by_cases hbrackets : text.size ≥ 2 ∧ text.bytes.head? = some 91 ∧ text.bytes.getLast? = some 93
  · have hlen : 2 ≤ text.size := hbrackets.1
    have hbytes : 2 ≤ text.bytes.length ∧ _ := hbrackets
    rw [if_pos hbrackets, if_pos hbytes, lib.spanSlice_eq _ _ _ (by omega), Span.bytes_sub,
      List.dropLast_eq_take, List.length_tail, List.drop_one, Span.size, Nat.sub_sub]
  · have hbytes : ¬ (2 ≤ text.bytes.length ∧ _) := hbrackets
    rw [if_neg hbrackets, if_neg hbytes]

/-! The positions of a byte. -/

theorem positionInt_some {i : Nat} (h : i < 2 ^ 31) : positionInt (some i) = i := by
  have hmod : Int.bmod i (2 ^ 32) = i := (bmod_eq_iff (by omega) (by omega)).mpr ⟨rfl, h⟩
  exact hmod

/-- A byte that occurs, and the text in front of it. -/
theorem findByte_mem {text : Span} {wanted : UInt8} (h : wanted ∈ text.bytes) :
    ∃ behind, findByte text wanted = some (text.bytes.takeWhile (· != wanted)).length ∧
      text.bytes = text.bytes.takeWhile (· != wanted) ++ wanted :: behind := by
  obtain ⟨x, y, heq, hx⟩ := List.eq_append_cons_of_mem h
  have htake : text.bytes.takeWhile (· != wanted) = x := by
    rw [heq, List.takeWhile_append_of_pos fun b hb => by grind,
      List.takeWhile_cons_of_neg (by simp), List.append_nil]
  refine ⟨y, ?_, ?_⟩
  · rw [findByte, htake, heq, find?_singleton hx]
  · rw [htake, heq]

theorem findByte_not_mem {text : Span} {wanted : UInt8} (h : wanted ∉ text.bytes) :
    findByte text wanted = none := find?_singleton_none h

/-! ## One entry -/

theorem dropPort_bytes {entry : Span} (h : entry.size < 2 ^ 31) :
    (dropPort lib entry).bytes = withoutPort entry.bytes := by
  rw [dropPort, withoutPort]
  by_cases hmem : 58 ∈ entry.bytes
  · obtain ⟨behind, hfind, hsplit⟩ := findByte_mem hmem
    set front := entry.bytes.takeWhile (· != 58) with hfront
    have hfront_no : 58 ∉ front := fun hin => by simpa using List.mem_takeWhile_imp hin
    have hlen : front.length < entry.size := by
      rw [Span.size, hsplit]
      simp
    rw [hfind, positionInt_some (by omega)]
    by_cases hbehind : 58 ∈ behind
    · -- the last colon is another one
      obtain ⟨x, y, hxy⟩ := List.append_of_mem hbehind
      have hlater : OccursAt [58] entry.bytes (front ++ 58 :: x).length := by
        rw [hsplit, hxy]
        simpa using occursAt_self_append (front ++ 58 :: x) [58] y
      have hlast : positionInt (findLastByte entry 58) ≠ front.length := by
        intro hlast
        cases hr : findLastByte entry 58 with
        | none =>
          have hnone : positionInt none = -1 := rfl
          rw [hr, hnone] at hlast
          omega
        | some j =>
          obtain ⟨hocc, hno⟩ := rfind?_eq_some.mp hr
          have hj := hocc.length_le
          rw [← Span.size] at hj
          rw [hr, positionInt_some (by omega), Int.natCast_inj] at hlast
          exact hno _ (by simp [hlast]) hlater
      have hcount : entry.bytes.count 58 ≠ 1 := by
        rw [hsplit, hxy, List.count_append, List.count_cons_self, List.count_append,
          List.count_cons_self]
        omega
      rw [if_neg fun h => hlast h.2, if_neg hcount]
    · have hlast : findLastByte entry 58 = some front.length := by
        rw [findLastByte, hsplit]
        exact rfind?_singleton hbehind
      have hcount : entry.bytes.count 58 = 1 := by
        rw [hsplit, List.count_append, List.count_cons_self, List.count_eq_zero.mpr hfront_no,
          List.count_eq_zero.mpr hbehind]
      rw [hlast, positionInt_some (by omega), hcount, if_pos ⟨by omega, rfl⟩, if_pos rfl,
        Int.toNat_natCast, bytes_slice lib _ hlen.le, hsplit, List.take_left]
  · have hcount : entry.bytes.count 58 ≠ 1 := by
      rw [List.count_eq_zero.mpr hmem]
      decide
    have hcolon : ¬ positionInt (findByte entry 58) ≥ 0 := by
      rw [findByte_not_mem hmem]
      decide
    rw [if_neg fun h => hcolon h.1, if_neg hcount]

theorem dropLead_bytes (entry : Span) : (dropLead lib entry).bytes = withoutLead entry.bytes := by
  have htail : ∀ text : Span,
      (if !text.isEmpty && text.bytes[0]? == some 46 then lib.spanSliceToEnd text 1
        else text).bytes = if text.bytes.head? = some 46 then text.bytes.tail else text.bytes := by
    intro text
    rw [getElem?_zero]
    by_cases hdot : text.bytes.head? = some 46
    · have hpos : 1 ≤ text.size := by
        rw [Span.size]
        cases hbytes : text.bytes with
        | nil => simp [hbytes] at hdot
        | cons => simp
      have hne : text.isEmpty = false := by
        rw [Span.isEmpty, beq_eq_false_iff_ne]
        omega
      rw [if_pos hdot, hne, hdot, if_pos (by simp), bytes_sliceToEnd lib text hpos, List.drop_one]
    · rw [if_neg hdot, if_neg (by simp [hdot])]
  rw [dropLead, withoutLead, htail]
  by_cases hstar : [42, 46] <+: entry.bytes
  · obtain ⟨rest, hrest⟩ := id hstar
    have hlen : 2 ≤ entry.size := by simp [Span.size, ← hrest]
    have hcond : entry.size ≥ 2 ∧ entry.bytes[0]? = some 42 ∧ entry.bytes[1]? = some 46 :=
      ⟨hlen, by rw [← hrest]; rfl, by rw [← hrest]; rfl⟩
    rw [if_pos hcond, if_pos hstar, bytes_sliceToEnd lib entry (by omega), ← hrest]
    rfl
  · have hno : ¬ (entry.size ≥ 2 ∧ entry.bytes[0]? = some 42 ∧ entry.bytes[1]? = some 46) := by
      rintro ⟨-, hzero, hone⟩
      refine hstar ?_
      rcases hbytes : entry.bytes with _ | ⟨a, _ | ⟨b, rest⟩⟩
      · simp [hbytes] at hzero
      · simp [hbytes] at hone
      · rw [hbytes] at hzero hone
        obtain rfl := Option.some.inj hzero
        obtain rfl := Option.some.inj hone
        exact ⟨rest, rfl⟩
    rw [if_neg hno, if_neg hstar]

/-- The loop continues at an entry without a name, and at one whose name is empty. -/
theorem bypassName_bytes {entry : Span} (h : entry.size < 2 ^ 31) :
    ((bypassName lib entry).map Span.bytes).getD [] = nameOf entry.bytes := by
  rw [bypassName, nameOf, getElem?_zero]
  by_cases hhead : entry.bytes.head? = some 91
  · rw [if_pos hhead, if_pos hhead, insideBrackets]
    by_cases hmem : 93 ∈ entry.bytes
    · obtain ⟨behind, hfind, hsplit⟩ := findByte_mem hmem
      set front := entry.bytes.takeWhile (· != 93) with hfront
      have hlen : front.length < entry.size := by
        rw [Span.size, hsplit]
        simp
      rw [if_pos hmem, hfind, positionInt_some (by omega)]
      cases hf : front with
      | nil =>
        rw [hsplit, hf] at hhead
        cases hhead
      | cons a inside =>
        rw [hf] at hlen hsplit
        cases inside with
        | nil => rfl
        | cons b inside =>
          have hbytes : (lib.spanSlice entry 1 (b :: inside).length).bytes = b :: inside := by
            refine lib.bytes_spanSlice (y := 93 :: behind) ?_ ?_
            · rw [hsplit]
              rfl
            · simp only [List.length_cons] at hlen
              omega
          simp only [List.length_cons] at hlen
          rw [if_neg (by simp only [List.length_cons]; omega)]
          exact hbytes
    · rw [if_neg hmem, findByte_not_mem hmem]
      rfl
  · rw [if_neg hhead, if_neg hhead, Option.map_some, Option.getD_some, dropTrailingDot_bytes,
      dropLead_bytes, dropPort_bytes lib h]

/-- A dot is no letter. -/
theorem lowerByte_eq_dot {c : UInt8} (h : lowerByte c = 46) : c = 46 := by
  grind [lowerByte]

theorem matchesName_iff {hostname entry : Span} :
    matchesName lib hostname entry = true ↔ lower hostname.bytes = lower entry.bytes ∨
      lower (46 :: entry.bytes) <:+ lower hostname.bytes := by
  rw [matchesName, Bool.or_eq_true, equalsIgnoringCase_iff]
  refine or_congr_right ?_
  rw [Bool.and_eq_true, Bool.and_eq_true, decide_eq_true_iff, beq_iff_eq, equalsIgnoringCase_iff,
    bytes_sliceToEnd lib _ (Nat.sub_le _ _)]
  constructor
  · rintro ⟨⟨hsize, hdot⟩, hequal⟩
    obtain ⟨hlt, hget⟩ := List.getElem?_eq_some_iff.mp hdot
    have hsplit := List.drop_eq_getElem_cons hlt
    rw [hget, show hostname.size - entry.size - 1 + 1 = hostname.size - entry.size by omega]
      at hsplit
    have hend : 46 :: hostname.bytes.drop (hostname.size - entry.size) <:+ hostname.bytes :=
      hsplit ▸ List.drop_suffix _ _
    have hlower : lower (46 :: entry.bytes) =
        lower (46 :: hostname.bytes.drop (hostname.size - entry.size)) := by
      rw [lower, lower, List.map_cons, List.map_cons]
      exact congrArg _ hequal.symm
    rw [hlower]
    exact hend.map lowerByte
  · rintro ⟨front, hfront⟩
    obtain ⟨x, y, hhost, -, hy⟩ := List.append_eq_map_iff.mp hfront
    obtain ⟨c, z, rfl, hc, hz⟩ := List.map_eq_cons_iff.mp hy
    obtain rfl := lowerByte_eq_dot hc
    have hlen : z.length = entry.size := by
      have hmap := congrArg List.length hz
      rwa [List.length_map, List.length_map] at hmap
    have hsize : hostname.size = x.length + 1 + entry.size := by
      rw [Span.size, hhost, List.length_append, List.length_cons, hlen]
      omega
    refine ⟨⟨by omega, ?_⟩, ?_⟩
    · rw [show hostname.size - entry.size - 1 = x.length by omega, hhost]
      simp
    · rw [show hostname.size - entry.size = x.length + 1 by omega, hhost, ← List.drop_drop,
        List.drop_left, List.drop_one]
      exact hz

/-- The bare star is looked for before anything is taken off the entry. -/
theorem matchesEntry_iff {hostname entry : Span} (h : entry.size < 2 ^ 31) :
    matchesEntry lib hostname entry = true ↔
      trimmed entry.bytes = [42] ∨ Covers (normalised entry.bytes) hostname.bytes := by
  have htrim : (trimBlanks lib entry).bytes = trimmed entry.bytes := trimBlanks_bytes lib entry
  have hshort : (trimBlanks lib entry).size < 2 ^ 31 := by
    have hle : (trimmed entry.bytes).length ≤ entry.bytes.length :=
      (List.rdropWhile_prefix _ _).length_le.trans (List.dropWhile_suffix _).length_le
    rw [← Span.size] at hle
    rw [Span.size, htrim]
    omega
  have hname := bypassName_bytes lib hshort
  rw [matchesEntry, normalised, ← htrim, ← hname]
  set text := trimBlanks lib entry with htext
  by_cases hempty : text.bytes = []
  · have hnil : nameOf [] = [] := by decide
    rw [if_pos (Span.isEmpty_iff.mpr hempty), hname, hempty, hnil]
    simp [Covers]
  · rw [if_neg (by rwa [Span.isEmpty_iff])]
    by_cases hstar : text.bytes = [42]
    · rw [if_pos (by simp [Span.size, hstar])]
      simp [hstar]
    · have hno : ¬ (text.size = 1 ∧ text.bytes[0]? = some 42) := by
        rintro ⟨hone, hzero⟩
        obtain ⟨c, hc⟩ := List.length_eq_one_iff.mp hone
        rw [hc] at hzero
        exact hstar (hc.trans (congrArg (· :: []) (Option.some.inj hzero)))
      rw [if_neg hno, Covers]
      cases hb : bypassName lib text with
      | none => simp [hstar]
      | some name =>
        by_cases hnone : name.bytes = []
        · simp [Span.isEmpty_iff.mpr hnone, hnone, hstar]
        · simp [Span.isEmpty_eq_false_iff.mpr hnone, hnone, hstar, matchesName_iff]

/-! ## The list -/

/-- The pass takes the first entry, and the commas that are left separate the others. -/
theorem bypassLoop_iff {hostname : Span} {fuel : Nat} {remaining : Span}
    (hfuel : remaining.size < fuel)
    (hshort : ∀ entry ∈ remaining.bytes.splitOn 44, entry.length < 2 ^ 31) :
    bypassLoop lib hostname fuel remaining = true ↔ ∃ entry ∈ remaining.bytes.splitOn 44,
      trimmed entry = [42] ∨ Covers (normalised entry) hostname.bytes := by
  induction fuel generalizing remaining with
  | zero => omega
  | succ fuel ih =>
    rw [bypassLoop]
    by_cases hempty : remaining.bytes = []
    · have hnil : ¬ (trimmed [] = [42] ∨ Covers (normalised []) hostname.bytes) := by
        simp [trimmed, Covers, show normalised [] = [] by decide]
      rw [if_pos (Span.isEmpty_iff.mpr hempty), hempty, List.splitOn_nil]
      simp [hnil]
    · rw [if_neg (by rwa [Span.isEmpty_iff])]
      by_cases hmem : 44 ∈ remaining.bytes
      · obtain ⟨behind, hfind, hsplit⟩ := findByte_mem hmem
        set front := remaining.bytes.takeWhile (· != 44) with hfront
        have hfront_no : 44 ∉ front := fun hin => by simpa using List.mem_takeWhile_imp hin
        have hentries : remaining.bytes.splitOn 44 = front :: behind.splitOn 44 := by
          rw [hsplit]
          exact List.splitOn_append_cons_self_of_not_mem hfront_no behind
        have hfront_short : front.length < 2 ^ 31 := hshort front (by simp [hentries])
        have hsize : remaining.size = front.length + 1 + behind.length := by
          rw [Span.size, hsplit, List.length_append, List.length_cons]
          omega
        have hentry : (lib.spanSlice remaining 0 front.length).bytes = front := by
          rw [bytes_slice lib _ (by omega), hsplit, List.take_left]
        have hrest : (lib.spanSliceToEnd remaining (front.length + 1)).bytes = behind := by
          rw [bytes_sliceToEnd lib _ (by omega), hsplit, ← List.drop_drop, List.drop_left,
            List.drop_one, List.tail_cons]
        have hpos : positionInt (findByte remaining 44) = front.length := by
          rw [hfind, positionInt_some hfront_short]
        have hnonneg : (front.length : Int) ≥ 0 := by omega
        simp only [hpos, if_pos hnonneg, Int.toNat_natCast]
        rw [Bool.or_eq_true, matchesEntry_iff lib (by rw [Span.size, hentry]; exact hfront_short),
          ih (by rw [Span.size, hrest]; omega)
            (by rw [hrest]; exact fun entry h => hshort entry (by simp [hentries, h])),
          hentry, hrest, hentries]
        simp
      · have hentries : remaining.bytes.splitOn 44 = [remaining.bytes] :=
          List.splitOn_eq_singleton hmem
        have hneg : ¬ positionInt (findByte remaining 44) ≥ 0 := by
          rw [findByte_not_mem hmem]
          decide
        have hend : bypassLoop lib hostname fuel .empty = false := by
          cases fuel <;> rfl
        rw [hentries] at hshort
        simp only [if_neg hneg]
        rw [hend, Bool.or_false, hentries, matchesEntry_iff lib (hshort _ (by simp))]
        simp

end

/-! ## When the list is read as it says -/

/-- The positions in an entry fit an `int`. -/
def ShortEntries (noProxy : Bytes) : Prop := ∀ entry ∈ entriesOf noProxy, entry.length < 2 ^ 31

/-- What the loop over the entries finds. -/
theorem httpEndpointProxyShouldBypass_eq {noProxy : Span} (hostname : Span)
    (hshort : ShortEntries noProxy.bytes) :
    httpEndpointProxyShouldBypass lib noProxy hostname = true ↔
      hostOf hostname.bytes ≠ [] ∧ ∃ entry ∈ entriesOf noProxy.bytes,
        trimmed entry = [42] ∨ Covers (normalised entry) (hostOf hostname.bytes) := by
  have hhost := bypassHostname_bytes lib hostname
  have hlist := bytes_textLength lib noProxy
  have hsize : (lib.spanSlice noProxy 0 (textLength noProxy)).size < noProxy.size + 1 := by
    have hle := (List.takeWhile_prefix (· != 0) (l := noProxy.bytes)).length_le
    rw [Span.size, hlist]
    exact Nat.lt_succ_of_le hle
  rw [httpEndpointProxyShouldBypass, ← hhost]
  by_cases hempty : (bypassHostname lib hostname).bytes = []
  · simp [Span.isEmpty_iff.mpr hempty, hempty]
  · have hloop := @bypassLoop_iff lib (bypassHostname lib hostname) _ _ hsize
      (by rw [hlist]; exact hshort)
    simp only [Span.isEmpty_eq_false_iff.mpr hempty, Bool.false_eq_true, if_false]
    rw [hloop, hlist, entriesOf]
    exact (and_iff_right hempty).symm

end HttpC.Endpoint
