import Turnpike.Proofs.Wire.RequestHead

/-!
Where the head of a request ends.  Its last line is read to its end and no further, so that the
octets of a head are the same head by themselves.
-/

namespace Turnpike

namespace Wire

/-- A reader that takes octets and never looks at one that it does not take. -/
structure Closed (read : Bytes → Reading α) : Prop where
  shorter : ∀ {bytes value rest}, read bytes = .done value rest → rest.length < bytes.length
  /-- What had to wait for octets takes some of them. -/
  late : ∀ {bytes later value rest}, read bytes = .more →
    read (bytes ++ later) = .done value rest → rest.length < later.length

namespace Closed

theorem bad (flaw : Flaw) : Closed fun _ => (.bad flaw : Reading α) where
  shorter h := by contradiction
  late h := by contradiction

theorem map {read : Bytes → Reading α} (f : α → β) (hread : Closed read) :
    Closed fun bytes => (read bytes).map f where
  shorter h := by
    obtain ⟨_, _, hdone, hmapped⟩ := Reading.andThen_eq_done h
    obtain ⟨-, rfl⟩ := Reading.done.inj hmapped
    exact hread.shorter hdone
  late {bytes later value rest} hmore h := by
    obtain ⟨_, _, hdone, hmapped⟩ := Reading.andThen_eq_done h
    obtain ⟨-, rfl⟩ := Reading.done.inj hmapped
    cases hfirst : read bytes with
    | done => simp [hfirst, Reading.map] at hmore
    | more => exact hread.late hfirst hdone
    | bad => simp [hfirst, Reading.map] at hmore

/-- It is the last reader that counts. -/
theorem andThen {read : Bytes → Reading α} {next : α → Bytes → Reading β}
    (hread : Incremental read) (hnext : ∀ value, Closed (next value)) :
    Closed fun bytes => (read bytes).andThen next where
  shorter h := by
    obtain ⟨first, middle, hfirst, hsecond⟩ := Reading.andThen_eq_done h
    exact Nat.lt_of_lt_of_le ((hnext first).shorter hsecond) (hread.suffix hfirst).length_le
  late {bytes later value rest} hmore h := by
    cases hfirst : read bytes with
    | done first middle =>
        rw [hfirst] at hmore
        simp only [hread.done_append hfirst later, Reading.andThen_done] at h
        exact (hnext first).late hmore h
    | more =>
        obtain ⟨first, middle, hlater, hsecond⟩ := Reading.andThen_eq_done h
        have hmiddle := (hread.late hfirst hlater).length_le
        exact Nat.lt_of_lt_of_le ((hnext first).shorter hsecond) hmiddle
    | bad flaw =>
        rw [hfirst] at hmore
        contradiction

theorem ite {left right : Bytes → Reading α} (condition : Prop) [Decidable condition]
    (hleft : Closed left) (hright : Closed right) :
    Closed fun bytes => if condition then left bytes else right bytes := by
  by_cases h : condition
  · simpa only [if_pos h] using hleft
  · simpa only [if_neg h] using hright

/-- A reader that is chosen by the first octet, and reads it again. -/
theorem byFirst (next : Byte → Bytes → Reading α) (hnext : ∀ b, Closed (next b)) :
    Closed fun bytes => match bytes with
      | [] => .more
      | b :: _ => next b bytes where
  shorter {bytes value rest} h := by
    cases bytes with
    | nil => contradiction
    | cons b bytes => exact (hnext b).shorter h
  late {bytes later value rest} hmore h := by
    cases bytes with
    | nil =>
        cases later with
        | nil => contradiction
        | cons b later => exact (hnext b).shorter h
    | cons b bytes => exact (hnext b).late hmore h

end Closed

theorem length_of_lineEnd {flaw : Flaw} {bytes rest : Bytes}
    (h : lineEnd flaw bytes = .done () rest) : rest.length < bytes.length := by
  unfold lineEnd at h
  split at h
  · contradiction
  · split at h
    · obtain ⟨-, rfl⟩ := Reading.done.inj h
      exact Nat.lt_succ_self _
    · split at h
      · split at h
        · contradiction
        · split at h
          · obtain ⟨-, rfl⟩ := Reading.done.inj h
            simp only [List.length_cons]
            omega
          · contradiction
      · contradiction

theorem closed_lineEnd (flaw : Flaw) : Closed (lineEnd flaw) where
  shorter := length_of_lineEnd
  late {bytes later value rest} hmore h := by
    match bytes with
    | [] => exact length_of_lineEnd h
    | [b] =>
        match later with
        | [] => simp [hmore] at h
        | c :: later =>
            simp only [List.cons_append, List.nil_append, lineEnd] at h hmore
            split at h
            · simp_all
            · split at h
              · split at h
                · obtain ⟨-, rfl⟩ := Reading.done.inj h
                  exact Nat.lt_succ_self _
                · contradiction
              · contradiction
    | b :: c :: bytes =>
        simp only [lineEnd] at hmore
        repeat' split at hmore
        all_goals contradiction

theorem closed_fieldSection (limit : Nat) : Closed (fieldSection limit) := by
  have hsection : ∀ {after : Bytes × Bytes → Bytes → Reading (List (Bytes × Bytes))},
      (∀ field, Closed (after field)) → Closed fun bytes => match bytes with
        | [] => .more
        | b :: _ =>
          if b = Byte.lf || b = Byte.cr then (lineEnd .newLine bytes).map fun _ => []
          else (fieldLine bytes).andThen after := by
    intro after hafter
    refine .byFirst (fun b bytes =>
      if b = Byte.lf || b = Byte.cr then (lineEnd .newLine bytes).map fun _ => []
      else (fieldLine bytes).andThen after) fun b => ?_
    exact .ite _ ((closed_lineEnd .newLine).map _) (.andThen incremental_fieldLine hafter)
  induction limit with
  | zero =>
      convert hsection fun _ => .bad .tooManyFields using 1
      funext bytes
      exact fieldSection.eq_def 0 bytes
  | succ limit ih =>
      convert hsection fun field => ih.map (field :: ·) using 1
      funext bytes
      exact fieldSection.eq_def (limit + 1) bytes

theorem closed_lines : Closed RequestHead.lines :=
  .andThen incremental_emptyLines fun _ =>
  .andThen incremental_methodToken fun _ =>
  .andThen incremental_requestTarget fun _ =>
  .andThen incremental_protocolVersion fun _ =>
  .andThen (incremental_lineEnd .newLine) fun _ =>
  (closed_fieldSection _).map _

end Wire

namespace RequestHead

open Wire

/-- The octets that a head takes are read as this head with nothing behind them. -/
theorem exists_opening_of_decode {bytes rest : Bytes} {found : RequestHead × PayloadSize}
    (h : decode bytes = (.ok (some found), rest)) :
    ∃ opening, bytes = opening ++ rest ∧ decode opening = (.ok (some found), []) := by
  obtain ⟨parts, hlines⟩ := lines_of_decode_some h
  obtain ⟨opening, rfl⟩ := incremental_lines.suffix hlines
  refine ⟨opening, rfl, ?_⟩
  cases hopening : lines opening with
  | more => exact absurd (closed_lines.late hopening hlines) (Nat.lt_irrefl _)
  | bad flaw =>
      rw [incremental_lines.bad_append hopening rest] at hlines
      contradiction
  | done other left =>
      have hsame := decode_append_of_done hopening rest
      rw [incremental_lines.done_append hopening rest] at hlines
      obtain ⟨rfl, hleft⟩ := Reading.done.inj hlines
      obtain rfl := List.append_left_eq_self.mp hleft
      rw [h] at hsame
      have hfound : decode opening = (.ok (some found), (decode opening).2) :=
        Prod.ext hsame.symm rfl
      obtain ⟨_, hread⟩ := lines_of_decode_some hfound
      rw [hopening] at hread
      obtain ⟨-, hrest⟩ := Reading.done.inj hread
      rw [hfound, ← hrest]

end RequestHead

end Turnpike
