import Turnpike.Proofs.Wire.Incremental

/-!
Heads of requests in a stream.  What is decoded, or refused, from the octets at hand is decoded, or
refused, with more octets behind them; the limit on the size of a head may refuse it earlier or
later, never let it pass.
-/

namespace Turnpike.RequestHead

open Wire

theorem length_lines_lt {bytes rest : Bytes} {parts : Lines}
    (h : lines bytes = .done parts rest) : rest.length < bytes.length := by
  obtain ⟨_, afterEmpty, hempty, h⟩ := Reading.andThen_eq_done h
  obtain ⟨_, afterMethod, hmethod, h⟩ := Reading.andThen_eq_done h
  obtain ⟨_, afterTarget, htarget, h⟩ := Reading.andThen_eq_done h
  obtain ⟨_, afterVersion, hversion, h⟩ := Reading.andThen_eq_done h
  have hbefore : afterTarget.length ≤ bytes.length :=
    ((incremental_requestTarget.suffix htarget).trans ((incremental_methodToken.suffix hmethod).trans
      (incremental_emptyLines.suffix hempty))).length_le
  have hafter : rest.length ≤ afterVersion.length :=
    (((incremental_lineEnd .newLine).andThen fun _ =>
      (incremental_fieldSection maxFields).map _).suffix h).length_le
  obtain ⟨digit, rfl, -⟩ := protocolVersion_eq_done_iff.mp hversion
  simp only [List.length_append, List.length_cons] at hbefore
  omega

/-! What is decoded, by what has become of the lines. -/

theorem decode_of_more {bytes : Bytes} (hlines : lines bytes = .more) :
    decode bytes =
      if bytes.length ≤ maxSize then (.ok none, bytes)
      else (.error (.headTooLarge bytes.length maxSize), bytes) := by
  simp only [decode, hlines]

theorem decode_of_bad {bytes : Bytes} {flaw : Flaw} (hlines : lines bytes = .bad flaw) :
    ∃ fault, decode bytes = (.error fault, bytes) := by
  cases flaw <;> simp [decode, hlines]

theorem decode_of_done {bytes rest : Bytes} {parts : Lines} (hlines : lines bytes = .done parts rest) :
    decode bytes =
      if bytes.length - rest.length > maxSize then
        (.error (.headTooLarge (bytes.length - rest.length) maxSize), bytes)
      else match ofLines? parts with
        | none => (.error .invalidUri, bytes)
        | some head => ((Framing.ofFields head.fields).map fun size => some (head, size), rest) := by
  cases hparts : ofLines? parts with
  | none => simp only [decode, hlines, hparts]
  | some head => simp only [decode, hlines, hparts]

theorem lines_of_decode_some {bytes rest : Bytes} {found : RequestHead × PayloadSize}
    (h : decode bytes = (.ok (some found), rest)) : ∃ parts, lines bytes = .done parts rest := by
  cases hlines : lines bytes with
  | more =>
      rw [decode_of_more hlines] at h
      split at h <;> simp at h
  | bad flaw =>
      obtain ⟨fault, hfault⟩ := decode_of_bad hlines
      rw [hfault] at h
      simp at h
  | done parts after =>
      rw [decode_of_done hlines] at h
      split at h
      · simp at h
      · split at h
        · simp at h
        · obtain ⟨-, rfl⟩ := Prod.mk.inj h
          exact ⟨parts, rfl⟩

/-- More is asked for only while what is there is within the limit. -/
theorem decode_eq_none {bytes rest : Bytes} (h : decode bytes = (.ok none, rest)) :
    rest = bytes ∧ bytes.length ≤ maxSize := by
  cases hlines : lines bytes with
  | more =>
      rw [decode_of_more hlines] at h
      split at h
      · next hlength => exact ⟨(Prod.mk.inj h).2.symm, hlength⟩
      · simp at h
  | bad flaw =>
      obtain ⟨fault, hfault⟩ := decode_of_bad hlines
      rw [hfault] at h
      simp at h
  | done parts after =>
      rw [decode_of_done hlines] at h
      split at h
      · simp at h
      · split at h
        · simp at h
        · next head _ =>
          cases hframing : Framing.ofFields head.fields <;> simp [hframing, Except.map] at h

theorem rest_of_decode_none {bytes rest : Bytes} (h : decode bytes = (.ok none, rest)) :
    rest = bytes :=
  (decode_eq_none h).1

theorem decode_some_length_lt {bytes rest : Bytes} {found : RequestHead × PayloadSize}
    (h : decode bytes = (.ok (some found), rest)) : rest.length < bytes.length := by
  obtain ⟨parts, hlines⟩ := lines_of_decode_some h
  exact length_lines_lt hlines

/-! More octets behind those at hand. -/

theorem decode_append_of_done {bytes rest : Bytes} {parts : Lines}
    (hlines : lines bytes = .done parts rest) (later : Bytes) :
    (decode (bytes ++ later)).1 = (decode bytes).1 := by
  have hsize : (bytes ++ later).length - (rest ++ later).length = bytes.length - rest.length := by
    simp only [List.length_append]
    omega
  rw [decode_of_done hlines, decode_of_done (incremental_lines.done_append hlines later), hsize]
  split
  · rfl
  · cases ofLines? parts <;> rfl

theorem decode_append_of_some {bytes rest : Bytes} {found : RequestHead × PayloadSize}
    (h : decode bytes = (.ok (some found), rest)) (later : Bytes) :
    decode (bytes ++ later) = (.ok (some found), rest ++ later) := by
  obtain ⟨parts, hlines⟩ := lines_of_decode_some h
  have hsame := decode_append_of_done hlines later
  rw [h] at hsame
  have hsome : decode (bytes ++ later) = (.ok (some found), (decode (bytes ++ later)).2) :=
    Prod.ext hsame rfl
  obtain ⟨other, hother⟩ := lines_of_decode_some hsome
  rw [incremental_lines.done_append hlines later] at hother
  obtain ⟨-, hrest⟩ := Reading.done.inj hother
  exact Prod.ext hsame hrest.symm

/-- A refused head is refused with whatever comes behind it, if perhaps for another reason. -/
theorem decode_append_of_error {bytes : Bytes} {fault : RequestFault}
    (h : (decode bytes).1 = .error fault) (later : Bytes) :
    ∃ other, (decode (bytes ++ later)).1 = .error other := by
  cases hlines : lines bytes with
  | done parts rest => exact ⟨fault, (decode_append_of_done hlines later).trans h⟩
  | bad flaw =>
      obtain ⟨other, hother⟩ := decode_of_bad (incremental_lines.bad_append hlines later)
      exact ⟨other, by rw [hother]⟩
  | more =>
      have hlong : maxSize < bytes.length := by
        rw [decode_of_more hlines] at h
        split at h
        · contradiction
        · omega
      have hlonger : bytes.length ≤ (bytes ++ later).length := by simp
      cases hlater : lines (bytes ++ later) with
      | more =>
          rw [decode_of_more hlater, if_neg (by omega)]
          exact ⟨_, rfl⟩
      | bad flaw =>
          obtain ⟨other, hother⟩ := decode_of_bad hlater
          exact ⟨other, by rw [hother]⟩
      | done parts rest =>
          -- the head ends among the later octets, so all of the first ones belong to it
          have hrest : rest.length ≤ later.length := (incremental_lines.late hlines hlater).length_le
          have hsize : (bytes ++ later).length - rest.length > maxSize := by
            rw [List.length_append]
            omega
          rw [decode_of_done hlater, if_pos hsize]
          exact ⟨_, rfl⟩

end Turnpike.RequestHead
