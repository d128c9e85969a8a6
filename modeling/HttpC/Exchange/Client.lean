import HttpC.Connection.SentMessages

/-!
# A client's calls

A call that returns a response has taken the whole response off the stream.

## Main results

* `WellFormed.receive_whole` — a call that returns `ok` before anything follows the response has
  read all of it.
-/

namespace HttpC

open Block

/-- Nothing is left behind what brings nothing, whatever comes after it. -/
theorem eq_nil_of_behind {wire : Wire} {rest : Bytes}
    (h : ∀ tail, arriving tail = [] → arriving (wire ++ .data rest :: tail) = [] ∧
      endsOrderly (wire ++ .data rest :: tail) = endsOrderly tail) : rest = [] := by
  induction wire with
  | nil => simpa [arriving] using (h [] rfl).1
  | cons event wire ih =>
    cases event with
    | data bytes =>
      refine ih fun tail htail => ⟨?_, (h tail htail).2⟩
      exact (List.append_eq_nil_iff.mp (h tail htail).1).2
    | tryAgain expired =>
      cases expired with
      | false => exact ih h
      | true => cases (h [] rfl).2
    | failed => cases (h [] rfl).2
    | endOfData | endOfFile => cases (h [.failed] rfl).2

theorem Flowing.endsOrderly_append {before : Wire} (h : Flowing before) (after : Wire) :
    endsOrderly (before ++ after) = endsOrderly after := by
  induction before with
  | nil => rfl
  | cons event before ih =>
    have hrest := ih fun e he => h e (List.mem_cons_of_mem _ he)
    rcases h event List.mem_cons_self with ⟨bytes, rfl⟩ | rfl <;> exact hrest

section

variable {lib : CommonLib} {ptr : Nat} {mem : Bytes} {c : HttpConnection}
  {response : HttpResponse} {o : ResponseReceipt} {m : ResponseMessage}

/-- A call that returns `ok` with a part of a response has been given all of it. -/
theorem ResponseMessage.WellFormed.receive_whole
    (hwf : m.WellFormed lib c.awaitingResponseToHead)
    (hself : declaredFraming lib c.awaitingResponseToHead m.head ≠ some .untilClose)
    (hflow : Flowing c.wire) (hpart : arriving c.wire <+: m.encode)
    (hroom : m.encode.length < mem.length)
    (ho : receiveResponse lib none ptr mem c response = some o) (hok : o.result = .ok) :
    arriving c.wire = m.encode := by
  obtain ⟨rest, hrest⟩ := hpart
  obtain ⟨w, _, _, _, _, parsed, framing, r, hstages, -⟩ := Stages.of_receiveResponse ho hok
  have hnil : rest = [] := by
    refine @eq_nil_of_behind r.wire rest fun tail htail => ?_
    -- the same call, with the rest of the response behind what it has read
    have hstream : arriving (c.wire ++ .data rest :: tail) = m.encode ++ [] := by
      rw [hflow.arriving_append, List.append_nil, ← hrest]
      simp [arriving, htail]
    have hcut : m.head.fields = [] →
        m.head.encode.length ∈ cutsFrom 0 (c.wire ++ .data rest :: tail) := by
      intro hfields
      have hmem := length_arriving_mem_cutsFrom 0 (c.wire ++ .data rest :: tail)
      rwa [Nat.zero_add, hstream, List.append_nil, hwf.encode_bare hfields hself] at hmem
    obtain ⟨w', parsed', framing', r', hstages', hdeclared', -, hreading', -⟩ :=
      @ResponseMessage.WellFormed.stages lib ptr mem
        { c with wire := c.wire ++ .data rest :: tail } m [] hwf hstream hroom.le
        (fun huntil => absurd huntil hself) hcut response
    have hframing' : framing' ≠ .untilClose := fun huntil => hself (huntil ▸ hdeclared')
    -- both calls have read the same head, so the body is framed alike
    have hhead := @receive_followedBy (.data rest :: tail) _ _ _ _ _ hstages.head (by simp)
    obtain ⟨-, rfl⟩ := Prod.mk.inj (Option.some.inj (hhead.symm.trans hstages'.head))
    obtain ⟨-, rfl⟩ := Prod.mk.inj (hstages.parse.symm.trans hstages'.parse)
    obtain rfl := Option.some.inj (hstages.declared.symm.trans hstages'.declared)
    obtain rfl := (hstages.followedBy hframing' (.data rest :: tail)).unique hstages'
    have hreading := hreading' hframing'
    refine ⟨(List.append_eq_nil_iff.mp hreading.ahead).2, hreading.orderly.trans ?_⟩
    exact hflow.endsOrderly_append _
  rw [← hrest, hnil, List.append_nil]

end

end HttpC
