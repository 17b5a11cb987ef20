/-
  Connect.Metrics.Framing — the Lambda's side of the protocol (queue-metric/lambda/index.py):
  what a server that counts bytes reads of a request, and what is read of a reply.

  `_resp_bulk` takes the length of a part in characters and sends its bytes. Where a part
  is not ASCII it has more bytes than its length says, and the server cuts it short: a
  request is read as its parts exactly when all of them are ASCII (`framing_iff`). A reply
  of one line is read whole however it is cut.
-/

import Connect.Metrics.QueueDepth

namespace Connect.Metrics

open Redis

/-- A request is read as the bytes of its parts, with nothing left over, and a reply whose
    only CRLF is at its end is returned whole after its last piece. -/
structure Framed (parts : List String) : Prop where
  request : takeCommand (respBulk parts) = some (parts.map octets, [])
  reply : ∀ reply, OneCrlf reply → ∀ (net : Pieces 64 reply) (later : List Octets),
    readLine [] (net.pieces ++ later) = .ok (reply, later)

theorem length_le_flatMap (cs : List Char) : cs.length ≤ (cs.flatMap String.utf8EncodeChar).length := by
  induction cs with
  | nil => exact Nat.le_refl _
  | cons c cs ih =>
    have hc := Char.utf8Size_pos c
    rw [List.flatMap_cons, List.length_append, String.length_utf8EncodeChar, List.length_cons]
    omega

/-- A text of as many bytes as characters is ASCII. -/
theorem ascii_of_length {s : String} (h : (octets s).length = s.length) : ∀ c ∈ s.toList, c.toNat < 128 := by
  rw [octets, ← String.length_toList] at h
  generalize s.toList = cs at h
  induction cs with
  | nil => simp
  | cons c cs ih =>
    rw [List.flatMap_cons, List.length_append, String.length_utf8EncodeChar, List.length_cons] at h
    have hc := Char.utf8Size_pos c
    have hcs := length_le_flatMap cs
    have hsize : c.utf8Size = 1 := by omega
    rw [Char.utf8Size_eq_one_iff, UInt32.le_iff_toNat_le] at hsize
    intro d hd
    rcases List.mem_cons.mp hd with rfl | hd
    · exact Nat.lt_succ_of_le hsize
    · exact ih (by omega) d hd

/-- A part that is read as it is was ASCII, and the server goes on behind it. -/
theorem takeBulk_counted {part : String} {rest left : Octets}
    (h : takeBulk (counted part ++ rest) = some (octets part, left)) :
    (∀ c ∈ part.toList, c.toNat < 128) ∧ left = rest := by
  have hbytes : counted part ++ rest =
      octets "$" ++ octets (toString part.length) ++ crlf ++ (octets part ++ (crlf ++ rest)) := by
    simp only [counted, List.append_assoc]
  rw [hbytes, takeBulk_append] at h
  split at h
  case isFalse => cases h
  obtain ⟨hdata, hleft⟩ := Prod.mk.inj (Option.some.inj h)
  have hle : part.length ≤ (octets part).length := by
    rw [octets, ← String.length_toList]
    exact length_le_flatMap _
  -- what is taken is as long as the length says, and it is all of the part's bytes
  have hlen : (octets part).length = part.length := by
    have htake := congrArg List.length hdata
    rw [List.length_take, List.length_append] at htake
    omega
  refine ⟨ascii_of_length hlen, ?_⟩
  rw [← hleft, ← hlen, ← List.drop_drop, List.drop_left]
  rfl

theorem takeBulks_counted {parts : List String} {rest left : Octets}
    (h : takeBulks parts.length (parts.flatMap counted ++ rest) = some (parts.map octets, left)) :
    ∀ p ∈ parts, ∀ c ∈ p.toList, c.toNat < 128 := by
  induction parts with
  | nil => simp
  | cons part parts ih =>
    rw [List.flatMap_cons, List.append_assoc, List.length_cons, takeBulks, Option.bind_eq_bind,
      Option.bind_eq_some_iff] at h
    obtain ⟨⟨first, behind⟩, hfirst, h⟩ := h
    obtain ⟨⟨others, left'⟩, hothers, h⟩ := Option.bind_eq_some_iff.mp h
    obtain ⟨hparts, hleft⟩ := Prod.mk.inj (Option.some.inj h)
    obtain ⟨rfl, rfl⟩ := List.cons.inj hparts
    obtain ⟨hascii, rfl⟩ := takeBulk_counted hfirst
    intro p hp
    rcases List.mem_cons.mp hp with rfl | hp
    · exact hascii
    · exact ih (hleft ▸ hothers) p hp

/-- A request that is read as its parts is ASCII. -/
theorem ascii_of_takeCommand {parts : List String} (h : takeCommand (respBulk parts) = some (parts.map octets, [])) :
    ∀ p ∈ parts, ∀ c ∈ p.toList, c.toNat < 128 := by
  rw [takeCommand, respBulk_eq, takeHeader_append] at h
  rw [← List.append_nil (parts.flatMap counted)] at h
  exact takeBulks_counted h

theorem framing_iff (parts : List String) : Framed parts ↔ ∀ p ∈ parts, ∀ c ∈ p.toList, c.toNat < 128 := by
  refine ⟨fun h => ascii_of_takeCommand h.request,
    fun h => ⟨?_, fun reply hr net later => readLine_reply hr net later⟩⟩
  rw [respBulk_eq_command h]
  exact takeCommand_command parts

/-- A password with one letter that is not ASCII. -/
theorem framing_lost : ¬ Framed ["AUTH", "default", "é"] := by
  intro h
  exact absurd (ascii_of_takeCommand h.request "é" (by decide) 'é' (by decide)) (by decide)

end Connect.Metrics
