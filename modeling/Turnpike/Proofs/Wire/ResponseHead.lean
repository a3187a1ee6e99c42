import Turnpike.Proofs.Wire.Fields
import Turnpike.Proofs.Wire.Incremental
import Turnpike.Wire.ResponseReader

/-!
Heads of responses, written and read back: the status line, then the fields as they were framed.
-/

namespace Turnpike

namespace Number

theorem decimal_of_lt {n : Nat} (h : n < 10) : decimal n = [digitByte n] := by
  rw [decimal, digits_of_lt h]
  rfl

theorem decimal_of_le {n : Nat} (h : 10 ≤ n) :
    decimal n = decimal (n / 10) ++ [digitByte (n % 10)] := by
  rw [decimal, digits_of_le (by decide) h, List.map_append]
  rfl

theorem decimal_of_three {n : Nat} (hleast : 100 ≤ n) (hmost : n ≤ 999) :
    decimal n = [digitByte (n / 100), digitByte (n / 10 % 10), digitByte (n % 10)] := by
  have htens : 10 ≤ n / 10 := by omega
  have hhundreds : n / 10 / 10 = n / 100 := by omega
  rw [decimal_of_le (by omega : 10 ≤ n), decimal_of_le htens, hhundreds,
    decimal_of_lt (by omega : n / 100 < 10)]
  rfl

end Number

namespace Wire

open Number

theorem digits_step {d : Nat} (hd : d < 10) (count value : Nat) (rest : Bytes) :
    Wire.digits (count + 1) value (digitByte d :: rest) = Wire.digits count (10 * value + d) rest := by
  rw [Wire.digits, if_pos (isDigit_digitByte hd), toNat_digitByte hd, Nat.add_sub_cancel_left]

theorem digits_decimal {n : Nat} (hleast : 100 ≤ n) (hmost : n ≤ 999) (rest : Bytes) :
    Wire.digits 3 0 (decimal n ++ rest) = .done n rest := by
  have hvalue : 10 * (10 * (10 * 0 + n / 100) + n / 10 % 10) + n % 10 = n := by omega
  rw [decimal_of_three hleast hmost]
  simp only [List.cons_append, List.nil_append]
  rw [digits_step (by omega), digits_step (by omega), digits_step (by omega), hvalue]
  rfl

theorem protocolVersion_text {version : Version} (h : version = .http10 ∨ version = .http11)
    (rest : Bytes) :
    protocolVersion (Bytes.ofText version.text ++ rest) = .done version rest := by
  rcases h with rfl | rfl
  · exact protocolVersion_eq_done_iff.mpr ⟨48, rfl, .inl ⟨rfl, rfl⟩⟩
  · exact protocolVersion_eq_done_iff.mpr ⟨49, rfl, .inr ⟨rfl, rfl⟩⟩

theorem isFieldContent_reason (status : Status) :
    ∀ b ∈ Bytes.ofText status.reason, b.isFieldContent = true := by
  rw [← List.all_eq_true]
  unfold Status.reason
  split <;> decide +kernel

theorem reasonEnd_reason (status : Status) (rest : Bytes) :
    reasonEnd (Byte.space :: (Bytes.ofText status.reason ++ (PayloadEncoder.lineEnd ++ rest))) =
      .done () rest := by
  have hdrop : (Bytes.ofText status.reason ++ (PayloadEncoder.lineEnd ++ rest)).dropWhile
      Byte.isFieldContent = PayloadEncoder.lineEnd ++ rest := by
    rw [List.dropWhile_append_of_pos (isFieldContent_reason status)]
    rfl
  rw [reasonEnd, if_pos rfl, hdrop]
  rfl

/-! Its readers, as octets still arrive. -/

theorem incremental_versionEnd : Incremental versionEnd :=
  .octet (fun b => .ite (b = Byte.space) (.done ()) (.bad .version)) rfl fun _ _ => rfl

theorem incremental_digits (count value : Nat) : Incremental (Wire.digits count value) := by
  induction count generalizing value with
  | zero => exact .done value
  | succ count ih =>
      exact .octet (fun b => .ite (b.isDigit = true) (ih _) (.bad .status)) rfl fun _ _ => rfl

theorem incremental_reasonEnd : Incremental reasonEnd := by
  have hphrase : Incremental fun rest : Bytes =>
      lineEnd .status (rest.dropWhile Byte.isFieldContent) := by
    have hrun : Incremental (afterRun Byte.isFieldContent fun _ b rest =>
        lineEnd .status (b :: rest)) :=
      .afterRun Byte.isFieldContent _ fun _ => incremental_lineEnd_cons .status
    convert hrun using 1
    funext rest
    have hdrop : (rest.takeWhile Byte.isFieldContent ++ rest.dropWhile Byte.isFieldContent).drop
        (rest.takeWhile Byte.isFieldContent).length = rest.dropWhile Byte.isFieldContent :=
      List.drop_left ..
    rw [List.takeWhile_append_dropWhile] at hdrop
    rw [← hdrop]
    unfold afterRun
    cases rest.drop (rest.takeWhile Byte.isFieldContent).length with
    | nil => rfl
    | cons b after => rfl
  exact .octet (fun b => .ite (b = Byte.space) hphrase (incremental_lineEnd_cons .status b)) rfl
    fun _ _ => rfl

theorem incremental_read : Incremental ResponseHead.read :=
  incremental_emptyLines.andThen fun _ =>
  incremental_protocolVersion.andThen fun _ =>
  incremental_versionEnd.andThen fun _ =>
  (incremental_digits 3 0).andThen fun _ =>
  incremental_reasonEnd.andThen fun _ =>
  (incremental_fieldSection _).map _

end Wire

namespace ResponseHead

open Wire

theorem statusLine_append (head : ResponseHead) (rest : Bytes) :
    head.statusLine ++ rest =
      Bytes.ofText head.version.text ++ (Byte.space :: (Number.decimal head.status.code ++
        (Byte.space :: (Bytes.ofText head.status.reason ++ (PayloadEncoder.lineEnd ++ rest))))) := by
  simp [statusLine]

theorem emptyLines_version {version : Version} (h : version = .http10 ∨ version = .http11)
    (rest : Bytes) :
    emptyLines (Bytes.ofText version.text ++ rest) =
      .done () (Bytes.ofText version.text ++ rest) := by
  obtain ⟨later, htext⟩ : ∃ later, Bytes.ofText version.text = 72 :: later := by
    rcases h with rfl | rfl
    · exact ⟨_, rfl⟩
    · exact ⟨_, rfl⟩
  rw [htext]
  exact emptyLines_of_ne (by decide) (by decide) _

theorem encode?_cases (head : ResponseHead) (size : PayloadSize) :
    (head.version = .http10 ∨ head.version = .http11) ∧
        head.encode? size = some (head.statusLine ++ (head.fields.framed size).block) ∨
      head.encode? size = none := by
  unfold encode?
  split
  · next hversion => exact .inl ⟨.inl hversion, rfl⟩
  · next hversion => exact .inl ⟨.inr hversion, rfl⟩
  · exact .inr rfl

/-- Behind the status line the fields are all that is still to be read. -/
theorem read_statusLine {head : ResponseHead} (hversion : head.version = .http10 ∨ head.version = .http11)
    (hleast : 100 ≤ head.status.code) (hmost : head.status.code ≤ 999) (bytes : Bytes) :
    read (head.statusLine ++ bytes) =
      (fieldSection maxFields bytes).map fun fields => { head with fields := .ofList fields } := by
  rw [statusLine_append, read, emptyLines_version hversion, Reading.andThen_done,
    protocolVersion_text hversion, Reading.andThen_done, versionEnd, if_pos rfl,
    Reading.andThen_done, digits_decimal hleast hmost, Reading.andThen_done, reasonEnd_reason,
    Reading.andThen_done]

theorem read_encoded {head : ResponseHead} (hversion : head.version = .http10 ∨ head.version = .http11)
    (hleast : 100 ≤ head.status.code) (hmost : head.status.code ≤ 999)
    (hfields : head.fields.Writable) {size : PayloadSize}
    (hcount : (head.fields.framed size).count ≤ maxFields) :
    ∃ bytes, head.encode? size = some bytes ∧ ∀ rest,
      read (bytes ++ rest) = .done { head with fields := head.fields.framed size } rest := by
  have hwritable := hfields.framed size
  refine ⟨head.statusLine ++ (head.fields.framed size).block, ?_, fun rest => ?_⟩
  · rcases hversion with h | h <;> simp only [encode?, h]
  · rw [List.append_assoc, read_statusLine hversion hleast hmost, fieldSection_block hwritable hcount]
    simp only [Reading.map, Reading.andThen_done, hwritable.ofList_toList]

/-- A head that is written is read again, without the blanks around its values, or it has too many
fields. -/
theorem read_of_encode? {head : ResponseHead} (hleast : 100 ≤ head.status.code)
    (hmost : head.status.code ≤ 999) (hfields : head.fields.Encodable) {size : PayloadSize}
    {bytes : Bytes} (h : head.encode? size = some bytes) (rest : Bytes) :
    read (bytes ++ rest) = .done { head with fields := (head.fields.framed size).trimmed } rest ∨
      read (bytes ++ rest) = .bad .tooManyFields := by
  obtain ⟨hversion, hencoded⟩ :=
    (head.encode?_cases size).resolve_right (h ▸ Option.some_ne_none bytes)
  obtain rfl := Option.some.inj (h.symm.trans hencoded)
  rw [List.append_assoc, read_statusLine hversion hleast hmost,
    fieldSection_encodable (hfields.framed size)]
  split
  · exact .inl rfl
  · exact .inr rfl

end ResponseHead

end Turnpike
