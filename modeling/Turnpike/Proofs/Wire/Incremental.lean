import Mathlib.Data.List.TakeWhile
import Turnpike.Wire.RequestReader

/-!
Readers of octets of which more may still arrive.  An answer other than "more" is final: octets that
arrive behind it change nothing but what is left over.
-/

namespace Turnpike

namespace Wire

theorem Reading.andThen_eq_done {reading : Reading α} {next : α → Bytes → Reading β}
    {value : β} {rest : Bytes} (h : reading.andThen next = .done value rest) :
    ∃ first middle, reading = .done first middle ∧ next first middle = .done value rest := by
  cases reading with
  | done first middle => exact ⟨first, middle, rfl, h⟩
  | more => contradiction
  | bad flaw => contradiction

structure Incremental (read : Bytes → Reading α) : Prop where
  done_append : ∀ {bytes value rest}, read bytes = .done value rest →
    ∀ later, read (bytes ++ later) = .done value (rest ++ later)
  bad_append : ∀ {bytes flaw}, read bytes = .bad flaw → ∀ later, read (bytes ++ later) = .bad flaw
  suffix : ∀ {bytes value rest}, read bytes = .done value rest → rest <:+ bytes
  /-- What had to wait for octets ends among them. -/
  late : ∀ {bytes later value rest}, read bytes = .more →
    read (bytes ++ later) = .done value rest → rest <:+ later

namespace Incremental

theorem done (value : α) : Incremental fun bytes => .done value bytes where
  done_append h later := by
    obtain ⟨rfl, rfl⟩ := Reading.done.inj h
    rfl
  bad_append h := by contradiction
  suffix h := by
    obtain ⟨-, rfl⟩ := Reading.done.inj h
    exact List.suffix_rfl
  late h := by contradiction

theorem bad (flaw : Flaw) : Incremental fun _ => (.bad flaw : Reading α) where
  done_append h := by contradiction
  bad_append h _ := h
  suffix h := by contradiction
  late h := by contradiction

theorem ite {left right : Bytes → Reading α} (condition : Prop) [Decidable condition]
    (hleft : Incremental left) (hright : Incremental right) :
    Incremental fun bytes => if condition then left bytes else right bytes := by
  by_cases h : condition
  · simpa only [if_pos h] using hleft
  · simpa only [if_neg h] using hright

theorem andThen {read : Bytes → Reading α} {next : α → Bytes → Reading β}
    (hread : Incremental read) (hnext : ∀ value, Incremental (next value)) :
    Incremental fun bytes => (read bytes).andThen next where
  done_append {bytes value rest} h later := by
    obtain ⟨first, middle, hfirst, hsecond⟩ := Reading.andThen_eq_done h
    simp only [hread.done_append hfirst later, Reading.andThen_done]
    exact (hnext first).done_append hsecond later
  bad_append {bytes flaw} h later := by
    cases hfirst : read bytes with
    | done first middle =>
        rw [hfirst] at h
        simp only [hread.done_append hfirst later, Reading.andThen_done]
        exact (hnext first).bad_append h later
    | more =>
        rw [hfirst] at h
        contradiction
    | bad flaw =>
        rw [hfirst] at h
        simp only [hread.bad_append hfirst later]
        exact h
  suffix {bytes value rest} h := by
    obtain ⟨first, middle, hfirst, hsecond⟩ := Reading.andThen_eq_done h
    exact ((hnext first).suffix hsecond).trans (hread.suffix hfirst)
  late {bytes later value rest} hmore h := by
    cases hfirst : read bytes with
    | done first middle =>
        rw [hfirst] at hmore
        simp only [hread.done_append hfirst later, Reading.andThen_done] at h
        exact (hnext first).late hmore h
    | more =>
        obtain ⟨first, middle, hlater, hsecond⟩ := Reading.andThen_eq_done h
        exact ((hnext first).suffix hsecond).trans (hread.late hfirst hlater)
    | bad flaw =>
        rw [hfirst] at hmore
        contradiction

theorem map {read : Bytes → Reading α} (f : α → β) (hread : Incremental read) :
    Incremental fun bytes => (read bytes).map f :=
  hread.andThen fun value => done (f value)

/-- A reader that is chosen by the first octet, and reads it again. -/
theorem byFirst (next : Byte → Bytes → Reading α) (hnext : ∀ b, Incremental (next b)) :
    Incremental fun bytes => match bytes with
      | [] => .more
      | b :: _ => next b bytes where
  done_append {bytes value rest} h later := by
    cases bytes with
    | nil => contradiction
    | cons b bytes => exact (hnext b).done_append h later
  bad_append {bytes flaw} h later := by
    cases bytes with
    | nil => contradiction
    | cons b bytes => exact (hnext b).bad_append h later
  suffix {bytes value rest} h := by
    cases bytes with
    | nil => contradiction
    | cons b bytes => exact (hnext b).suffix h
  late {bytes later value rest} hmore h := by
    cases bytes with
    | nil =>
        cases later with
        | nil => contradiction
        | cons b later => exact (hnext b).suffix h
    | cons b bytes => exact (hnext b).late hmore h

end Incremental

/-- Reads a run of letters and goes on with the octet that ends it. -/
def afterRun (isLetter : Byte → Bool) (next : Bytes → Byte → Bytes → Reading α) (bytes : Bytes) :
    Reading α :=
  match bytes.drop (bytes.takeWhile isLetter).length with
  | [] => .more
  | b :: rest => next (bytes.takeWhile isLetter) b rest

theorem exists_run (isLetter : Byte → Bool) (bytes : Bytes) :
    (∀ b ∈ bytes, isLetter b = true) ∨
      ∃ name b rest, bytes = name ++ b :: rest ∧ (∀ c ∈ name, isLetter c = true) ∧
        isLetter b = false := by
  induction bytes with
  | nil => exact .inl (by simp)
  | cons b bytes ih =>
      cases hb : isLetter b with
      | false => exact .inr ⟨[], b, bytes, rfl, by simp, hb⟩
      | true =>
          rcases ih with hall | ⟨name, c, rest, rfl, hname, hc⟩
          · exact .inl (by simpa [hb] using hall)
          · exact .inr ⟨b :: name, c, rest, rfl, by simpa [hb] using hname, hc⟩

theorem afterRun_of_all {isLetter : Byte → Bool} (next : Bytes → Byte → Bytes → Reading α)
    {bytes : Bytes} (hall : ∀ b ∈ bytes, isLetter b = true) :
    afterRun isLetter next bytes = .more := by
  rw [afterRun, List.takeWhile_eq_self_iff.mpr hall, List.drop_length]

theorem afterRun_append_cons {isLetter : Byte → Bool} (next : Bytes → Byte → Bytes → Reading α)
    {name : Bytes} {b : Byte} (hname : ∀ c ∈ name, isLetter c = true) (hb : isLetter b = false)
    (rest : Bytes) : afterRun isLetter next (name ++ b :: rest) = next name b rest := by
  have htaken : (name ++ b :: rest).takeWhile isLetter = name := by
    rw [List.takeWhile_append_of_pos hname, List.takeWhile_cons_of_neg (by simp [hb]),
      List.append_nil]
  rw [afterRun, htaken, List.drop_left]

namespace Incremental

theorem afterRun (isLetter : Byte → Bool) (next : Bytes → Byte → Bytes → Reading α)
    (hnext : ∀ name b, Incremental (next name b)) : Incremental (Wire.afterRun isLetter next) where
  done_append {bytes value rest} h later := by
    rcases exists_run isLetter bytes with hall | ⟨name, b, after, rfl, hname, hb⟩
    · rw [afterRun_of_all next hall] at h
      contradiction
    · rw [afterRun_append_cons next hname hb] at h
      rw [List.append_assoc, List.cons_append, afterRun_append_cons next hname hb]
      exact (hnext name b).done_append h later
  bad_append {bytes flaw} h later := by
    rcases exists_run isLetter bytes with hall | ⟨name, b, after, rfl, hname, hb⟩
    · rw [afterRun_of_all next hall] at h
      contradiction
    · rw [afterRun_append_cons next hname hb] at h
      rw [List.append_assoc, List.cons_append, afterRun_append_cons next hname hb]
      exact (hnext name b).bad_append h later
  suffix {bytes value rest} h := by
    rcases exists_run isLetter bytes with hall | ⟨name, b, after, rfl, hname, hb⟩
    · rw [afterRun_of_all next hall] at h
      contradiction
    · rw [afterRun_append_cons next hname hb] at h
      exact ((hnext name b).suffix h).trans ((List.suffix_cons b after).trans
        (List.suffix_append name (b :: after)))
  late {bytes later value rest} hmore h := by
    rcases exists_run isLetter bytes with hall | ⟨name, b, after, rfl, hname, hb⟩
    · -- the run goes on into the later octets, and ends there
      rcases exists_run isLetter later with hlater | ⟨name, b, after, rfl, hname, hb⟩
      · rw [afterRun_of_all next (by simpa [or_imp, forall_and] using ⟨hall, hlater⟩)] at h
        contradiction
      · have hrun : ∀ c ∈ bytes ++ name, isLetter c = true := by
          simpa [or_imp, forall_and] using ⟨hall, hname⟩
        rw [← List.append_assoc, afterRun_append_cons next hrun hb] at h
        exact ((hnext (bytes ++ name) b).suffix h).trans ((List.suffix_cons b after).trans
          (List.suffix_append name (b :: after)))
    · rw [afterRun_append_cons next hname hb] at hmore
      rw [List.append_assoc, List.cons_append, afterRun_append_cons next hname hb] at h
      exact (hnext name b).late hmore h

/-- A reader that takes one octet, whatever that is, and goes on by it. -/
theorem octet {read : Bytes → Reading α} {next : Byte → Bytes → Reading α}
    (hnext : ∀ b, Incremental (next b)) (hnil : read [] = .more)
    (hcons : ∀ b rest, read (b :: rest) = next b rest) : Incremental read := by
  have hread : read = Wire.afterRun (fun _ => false) (fun _ => next) := by
    funext bytes
    cases bytes with
    | nil => exact hnil
    | cons b rest => exact hcons b rest
  rw [hread]
  exact afterRun (fun _ => false) (fun _ => next) fun _ => hnext

end Incremental

/-! The readers of a request head. -/

theorem incremental_lineEnd_cons (flaw : Flaw) (b : Byte) :
    Incremental fun rest => lineEnd flaw (b :: rest) := by
  have hlineFeed : Incremental fun bytes => match bytes with
      | [] => .more
      | c :: rest => if c = Byte.lf then .done () rest else .bad flaw :=
    .octet (fun c => .ite (c = Byte.lf) (.done ()) (.bad flaw)) rfl fun _ _ => rfl
  exact .ite (b = Byte.lf) (.done ()) (.ite (b = Byte.cr) hlineFeed (.bad flaw))

theorem incremental_lineEnd (flaw : Flaw) : Incremental (lineEnd flaw) :=
  .octet (incremental_lineEnd_cons flaw) rfl fun _ _ => rfl

theorem emptyLines_lf (rest : Bytes) : emptyLines (Byte.lf :: rest) = emptyLines rest := by
  cases rest <;> exact if_pos rfl

theorem emptyLines_cr_cons (b : Byte) (rest : Bytes) :
    emptyLines (Byte.cr :: b :: rest) =
      if b = Byte.lf then emptyLines rest else .bad .newLine :=
  (if_neg (by decide)).trans (if_pos rfl)

theorem emptyLines_of_ne {b : Byte} (hlf : b ≠ Byte.lf) (hcr : b ≠ Byte.cr) (rest : Bytes) :
    emptyLines (b :: rest) = .done () (b :: rest) := by
  cases rest <;> exact (if_neg hlf).trans (if_neg hcr)

theorem emptyLines_suffix {bytes rest : Bytes} {value : Unit}
    (h : emptyLines bytes = .done value rest) : rest <:+ bytes := by
  fun_induction emptyLines bytes with
  | case1 => contradiction
  | case2 later ih => exact (ih h).trans (List.suffix_cons _ later)
  | case3 => contradiction
  | case4 later _ ih => exact (ih h).trans ((List.suffix_cons _ later).trans (List.suffix_cons _ _))
  | case5 => contradiction
  | case6 b later =>
      obtain ⟨-, rfl⟩ := Reading.done.inj h
      exact List.suffix_rfl

theorem incremental_emptyLines : Incremental emptyLines where
  suffix := emptyLines_suffix
  done_append {bytes value rest} h later := by
    fun_induction emptyLines bytes with
    | case1 => contradiction
    | case2 bytes ih =>
        rw [List.cons_append, emptyLines_lf]
        exact ih h
    | case3 => contradiction
    | case4 bytes _ ih =>
        rw [List.cons_append, List.cons_append, emptyLines_cr_cons, if_pos rfl]
        exact ih h
    | case5 => contradiction
    | case6 b bytes hlf hcr =>
        obtain ⟨-, rfl⟩ := Reading.done.inj h
        exact emptyLines_of_ne hlf hcr (bytes ++ later)
  bad_append {bytes flaw} h later := by
    fun_induction emptyLines bytes with
    | case1 => contradiction
    | case2 bytes ih =>
        rw [List.cons_append, emptyLines_lf]
        exact ih h
    | case3 => contradiction
    | case4 bytes _ ih =>
        rw [List.cons_append, List.cons_append, emptyLines_cr_cons, if_pos rfl]
        exact ih h
    | case5 b bytes hlf =>
        rw [List.cons_append, List.cons_append, emptyLines_cr_cons, if_neg hlf]
        exact h
    | case6 => contradiction
  late {bytes later value rest} hmore h := by
    fun_induction emptyLines bytes with
    | case1 => exact emptyLines_suffix h
    | case2 bytes ih =>
        rw [List.cons_append, emptyLines_lf] at h
        exact ih hmore h
    | case3 =>
        cases later with
        | nil => contradiction
        | cons b later =>
            rw [List.cons_append, List.nil_append, emptyLines_cr_cons] at h
            split at h
            · exact (emptyLines_suffix h).trans (List.suffix_cons b later)
            · contradiction
    | case4 bytes _ ih =>
        rw [List.cons_append, List.cons_append, emptyLines_cr_cons, if_pos rfl] at h
        exact ih hmore h
    | case5 => contradiction
    | case6 => contradiction

theorem incremental_methodToken : Incremental methodToken :=
  .afterRun Byte.isToken (fun name b rest =>
      if b = Byte.space && !name.isEmpty then .done name rest else .bad .token)
    fun name _ => .ite _ (.done name) (.bad .token)

theorem incremental_requestTarget : Incremental requestTarget :=
  .afterRun isTargetByte (fun name b rest =>
      if b = Byte.space && !name.isEmpty && Utf8.isValid name then .done name rest else .bad .token)
    fun name _ => .ite _ (.done name) (.bad .token)

theorem incremental_fieldValue (name : Bytes) :
    Incremental fun rest =>
      (lineEnd .fieldValue (rest.drop (rest.takeWhile Byte.isFieldContent).length)).andThen
        fun _ after => .done (name, Bytes.trim (rest.takeWhile Byte.isFieldContent)) after := by
  have hrun : Incremental (afterRun Byte.isFieldContent fun content b rest =>
      (lineEnd .fieldValue (b :: rest)).andThen fun _ after =>
        .done (name, Bytes.trim content) after) := by
    refine .afterRun Byte.isFieldContent _ fun content b => ?_
    exact (incremental_lineEnd_cons .fieldValue b).andThen fun _ => .done (name, Bytes.trim content)
  convert hrun using 1
  funext rest
  unfold afterRun
  cases rest.drop (rest.takeWhile Byte.isFieldContent).length with
  | nil => rfl
  | cons b after => rfl

theorem incremental_fieldLine : Incremental fieldLine :=
  .afterRun Byte.isToken (fun name b rest =>
      if b = Byte.colon && !name.isEmpty then
        (lineEnd .fieldValue (rest.drop (rest.takeWhile Byte.isFieldContent).length)).andThen
          fun _ after => .done (name, Bytes.trim (rest.takeWhile Byte.isFieldContent)) after
      else .bad .fieldName)
    fun name _ => .ite _ (incremental_fieldValue name) (.bad .fieldName)

theorem incremental_fieldSection (limit : Nat) : Incremental (fieldSection limit) := by
  have hsection : ∀ {after : Bytes × Bytes → Bytes → Reading (List (Bytes × Bytes))},
      (∀ field, Incremental (after field)) → Incremental fun bytes => match bytes with
        | [] => .more
        | b :: _ =>
          if b = Byte.lf || b = Byte.cr then (lineEnd .newLine bytes).map fun _ => []
          else (fieldLine bytes).andThen after := by
    intro after hafter
    refine .byFirst (fun b bytes =>
      if b = Byte.lf || b = Byte.cr then (lineEnd .newLine bytes).map fun _ => []
      else (fieldLine bytes).andThen after) fun b => ?_
    exact .ite _ ((incremental_lineEnd .newLine).map _) (incremental_fieldLine.andThen hafter)
  induction limit with
  | zero =>
      convert hsection fun _ => .bad .tooManyFields using 1
      funext bytes
      cases bytes <;> rfl
  | succ limit ih =>
      convert hsection fun field => ih.map (field :: ·) using 1
      funext bytes
      cases bytes <;> rfl

theorem length_http1 : http1.length = 7 := rfl

theorem protocolVersion_eq_done_iff {bytes rest : Bytes} {version : Version} :
    protocolVersion bytes = .done version rest ↔
      ∃ digit, bytes = http1 ++ digit :: rest ∧
        (digit = 48 ∧ version = .http10 ∨ digit = 49 ∧ version = .http11) := by
  constructor
  · intro h
    unfold protocolVersion at h
    split at h
    · split at h <;> contradiction
    · have hsplit : bytes = bytes.take 8 ++ bytes.drop 8 := (List.take_append_drop 8 bytes).symm
      split at h
      · next hdigit =>
        obtain ⟨rfl, rfl⟩ := Reading.done.inj h
        rw [hdigit, List.append_assoc] at hsplit
        exact ⟨48, hsplit, .inl ⟨rfl, rfl⟩⟩
      · split at h
        · next hdigit =>
          obtain ⟨rfl, rfl⟩ := Reading.done.inj h
          rw [hdigit, List.append_assoc] at hsplit
          exact ⟨49, hsplit, .inr ⟨rfl, rfl⟩⟩
        · contradiction
  · rintro ⟨digit, rfl, hdigit⟩
    have hlong : ¬ (http1 ++ digit :: rest).length < 8 := by
      rw [List.length_append, length_http1, List.length_cons]
      omega
    have htake : (http1 ++ digit :: rest).take 8 = http1 ++ [digit] := rfl
    have hdrop : (http1 ++ digit :: rest).drop 8 = rest := rfl
    rw [protocolVersion, if_neg hlong, htake, hdrop]
    rcases hdigit with ⟨rfl, rfl⟩ | ⟨rfl, rfl⟩ <;> rfl

theorem protocolVersion_eq_more_iff {bytes : Bytes} :
    protocolVersion bytes = .more ↔ bytes <+: http1 := by
  constructor
  · intro h
    unfold protocolVersion at h
    split at h
    · next hshort =>
      split at h
      · next hstart =>
        rwa [List.isPrefixOf_iff_prefix, List.take_of_length_le (by omega)] at hstart
      · contradiction
    · split at h
      · contradiction
      · split at h <;> contradiction
  · intro hstart
    have hshort : bytes.length < 8 := by
      have := hstart.length_le
      rw [length_http1] at this
      omega
    rw [protocolVersion, if_pos hshort, List.take_of_length_le (by omega),
      if_pos (List.isPrefixOf_iff_prefix.mpr hstart)]

theorem protocolVersion_flaw {bytes : Bytes} {flaw : Flaw}
    (h : protocolVersion bytes = .bad flaw) : flaw = .version := by
  unfold protocolVersion at h
  split at h
  · split at h <;> simp_all
  · split at h
    · contradiction
    · split at h <;> simp_all

theorem incremental_protocolVersion : Incremental protocolVersion where
  done_append {bytes value rest} h later := by
    obtain ⟨digit, rfl, hdigit⟩ := protocolVersion_eq_done_iff.mp h
    exact protocolVersion_eq_done_iff.mpr ⟨digit, by simp, hdigit⟩
  bad_append {bytes flaw} h later := by
    cases hlater : protocolVersion (bytes ++ later) with
    | done version rest =>
        obtain ⟨digit, hbytes, hdigit⟩ := protocolVersion_eq_done_iff.mp hlater
        rcases List.append_eq_append_iff.mp hbytes with ⟨taken, hstart, -⟩ | ⟨taken, rfl, hafter⟩
        · rw [protocolVersion_eq_more_iff.mpr ⟨taken, hstart.symm⟩] at h
          contradiction
        · cases taken with
          | nil =>
              rw [List.append_nil, protocolVersion_eq_more_iff.mpr List.prefix_rfl] at h
              contradiction
          | cons first taken =>
              obtain ⟨rfl, -⟩ := List.cons.inj hafter
              rw [protocolVersion_eq_done_iff.mpr ⟨digit, rfl, hdigit⟩] at h
              contradiction
    | more =>
        have hstart := protocolVersion_eq_more_iff.mp hlater
        rw [protocolVersion_eq_more_iff.mpr ((List.prefix_append bytes later).trans hstart)] at h
        contradiction
    | bad other => rw [protocolVersion_flaw h, protocolVersion_flaw hlater]
  suffix {bytes value rest} h := by
    obtain ⟨digit, rfl, -⟩ := protocolVersion_eq_done_iff.mp h
    exact (List.suffix_cons digit rest).trans (List.suffix_append http1 (digit :: rest))
  late {bytes later value rest} hmore h := by
    obtain ⟨digit, hbytes, -⟩ := protocolVersion_eq_done_iff.mp h
    have hrest : rest <:+ bytes ++ later := by
      rw [hbytes]
      exact (List.suffix_cons digit rest).trans (List.suffix_append http1 (digit :: rest))
    refine List.suffix_of_suffix_length_le hrest (List.suffix_append bytes later) ?_
    have hstart := (protocolVersion_eq_more_iff.mp hmore).length_le
    have hlength := congrArg List.length hbytes
    simp only [List.length_append, List.length_cons, length_http1] at hstart hlength
    omega

theorem incremental_lines : Incremental RequestHead.lines :=
  .andThen incremental_emptyLines fun _ =>
  .andThen incremental_methodToken fun _ =>
  .andThen incremental_requestTarget fun _ =>
  .andThen incremental_protocolVersion fun _ =>
  .andThen (incremental_lineEnd .newLine) fun _ =>
  .map _ (incremental_fieldSection _)

end Wire

end Turnpike
