import Turnpike.Proofs.Wire.Incremental

/-!
Request targets in origin form.  ASCII is UTF-8, so that a target of visible ASCII is read as it
stands; the URI that it is parsed to holds its path and its query, and nothing else.
-/

namespace Turnpike

/-! ASCII. -/

namespace Utf8

theorem readWithin_of_ascii {bytes : Bytes} (hascii : ∀ b ∈ bytes, b < 128) {fuel : Nat}
    (hfuel : bytes.length ≤ fuel) (start : Nat) (seen : List Char) :
    ∃ chars, readWithin fuel start seen bytes = .ok chars := by
  induction bytes generalizing fuel start seen with
  | nil => exact ⟨seen.reverse, by cases fuel <;> rfl⟩
  | cons b bytes ih =>
      cases fuel with
      | zero => contradiction
      | succ fuel =>
          obtain ⟨hb, hlater⟩ := List.forall_mem_cons.mp hascii
          have hfront : front (b :: bytes) = .char (Char.ofNat b.toNat) 1 := by
            rw [front.eq_def]
            exact if_pos hb
          obtain ⟨chars, hchars⟩ := ih hlater (Nat.le_of_succ_le_succ hfuel) (start + 1)
            (Char.ofNat b.toNat :: seen)
          refine ⟨chars, ?_⟩
          simp only [readWithin, hfront]
          exact hchars

theorem isValid_of_ascii {bytes : Bytes} (hascii : ∀ b ∈ bytes, b < 128) : isValid bytes = true := by
  obtain ⟨chars, hchars⟩ := readWithin_of_ascii hascii (Nat.le_refl _) 0 []
  rw [isValid, read?, read, hchars]
  rfl

end Utf8

/-! The target in a request line. -/

def Byte.IsGraphic (b : Byte) : Prop := 33 ≤ b ∧ b ≤ 126

instance (b : Byte) : Decidable b.IsGraphic := inferInstanceAs (Decidable (_ ∧ _))

theorem Byte.IsGraphic.ascii {b : Byte} (h : b.IsGraphic) : b < 128 :=
  UInt8.lt_of_le_of_lt h.2 (by decide)

namespace Wire

theorem isTargetByte_of_isGraphic {b : Byte} (h : b.IsGraphic) : isTargetByte b = true := by
  rw [isTargetByte, Bool.and_eq_true]
  refine ⟨decide_eq_true h.1, ?_⟩
  rw [bne_iff_ne]
  rintro rfl
  exact absurd h.2 (by decide)

theorem emptyLines_token {token : Bytes} (hne : token ≠ []) (htoken : ∀ b ∈ token, b.isToken = true)
    (rest : Bytes) : emptyLines (token ++ rest) = .done () (token ++ rest) := by
  cases token with
  | nil => contradiction
  | cons b token =>
      have hb := htoken b (List.mem_cons_self ..)
      refine emptyLines_of_ne ?_ ?_ _
      · rintro rfl
        contradiction
      · rintro rfl
        contradiction

theorem methodToken_append {token : Bytes} (hne : token ≠ [])
    (htoken : ∀ b ∈ token, b.isToken = true) (rest : Bytes) :
    methodToken (token ++ Byte.space :: rest) = .done token rest := by
  refine (afterRun_append_cons (fun name b rest =>
    if b = Byte.space && !name.isEmpty then .done name rest else .bad .token) htoken rfl rest).trans ?_
  have hnonempty : token.isEmpty = false := by simpa using hne
  simp [hnonempty]

theorem requestTarget_append {target : Bytes} (hne : target ≠ [])
    (htarget : ∀ b ∈ target, b.IsGraphic) (rest : Bytes) :
    requestTarget (target ++ Byte.space :: rest) = .done target rest := by
  refine (afterRun_append_cons (fun name b rest =>
    if b = Byte.space && !name.isEmpty && Utf8.isValid name then .done name rest else .bad .token)
    (fun b hb => isTargetByte_of_isGraphic (htarget b hb)) rfl rest).trans ?_
  have hnonempty : target.isEmpty = false := by simpa using hne
  have hvalid := Utf8.isValid_of_ascii fun b hb => (htarget b hb).ascii
  simp [hnonempty, hvalid]

end Wire

/-! The URI of a target. -/

namespace Uri

def questionMark : Byte := 63

def numberSign : Byte := 35

/-- The path and the query, as a request line has them. -/
def originForm (path : Bytes) (query : Option Bytes) : Bytes :=
  path ++ query.elim [] (questionMark :: ·)

theorem ofUtf8?_eq_some {path : Bytes} {query : Option Bytes} {parts : PathAndQuery}
    (h : ofUtf8? path query = some parts) : parts = ⟨path, query⟩ := by
  unfold ofUtf8? at h
  split at h
  · exact (Option.some.inj h).symm
  · contradiction

/-- Without a fragment nothing is dropped. -/
theorem pathAndQuery?_eq_some {bytes : Bytes} {parts : PathAndQuery} (hmark : numberSign ∉ bytes)
    (h : pathAndQuery? bytes = some parts) :
    parts.path = bytes.takeWhile isPathByte ∧ bytes = originForm parts.path parts.query := by
  have hsplit := List.prefix_iff_eq_append.mp (bytes.takeWhile_prefix isPathByte)
  unfold pathAndQuery? at h
  simp only at h
  split at h
  · next hnil =>
    obtain rfl := ofUtf8?_eq_some h
    rw [hnil] at hsplit
    exact ⟨rfl, hsplit.symm⟩
  · next b rest hcons =>
    rw [hcons] at hsplit
    have hlater : ∀ c ∈ b :: rest, ¬ (c == 35) = true := by
      intro c hc hfragment
      obtain rfl := eq_of_beq hfragment
      exact hmark (hsplit ▸ List.mem_append_right _ hc)
    rw [if_neg (hlater b (List.mem_cons_self ..))] at h
    split at h
    · next hquestion =>
      obtain rfl := eq_of_beq hquestion
      have hquery := List.prefix_iff_eq_append.mp (rest.takeWhile_prefix isQueryByte)
      split at h
      · next hnil =>
        obtain rfl := ofUtf8?_eq_some h
        rw [hnil, List.append_nil] at hquery
        refine ⟨rfl, ?_⟩
        rw [originForm, Option.elim_some, hquery]
        exact hsplit.symm
      · next c after hafter =>
        have hc : c ∈ rest := by
          rw [← hquery, hafter]
          exact List.mem_append_right _ (List.mem_cons_self ..)
        rw [if_neg (hlater c (List.mem_cons_of_mem _ hc))] at h
        contradiction
    · contradiction

theorem ofBytes?_slash {rest : Bytes} {uri : Uri} (hmark : numberSign ∉ Byte.slash :: rest)
    (h : ofBytes? (Byte.slash :: rest) = some uri) :
    uri.scheme = none ∧ uri.authority = none ∧
      originForm uri.path uri.query = Byte.slash :: rest := by
  unfold ofBytes? at h
  split at h
  · contradiction
  · obtain ⟨parts, hparts, huri⟩ := Option.bind_eq_some_iff.mp h
    obtain ⟨hpath, hwhole⟩ := pathAndQuery?_eq_some hmark hparts
    have hnonempty : parts.path.isEmpty = false := by
      rw [hpath, List.takeWhile_cons_of_pos (by decide)]
      rfl
    obtain rfl := Option.some.inj huri
    refine ⟨rfl, rfl, ?_⟩
    simp only [hnonempty, Bool.false_eq_true, if_false]
    exact hwhole.symm

end Uri

end Turnpike
