import Turnpike.Proofs.Text.Digits
import Turnpike.Wire.Lines
import Turnpike.Wire.ResponseWriter

/-!
Fields written as the lines of a head and read back.  Nothing is lost as long as names and values are
such as a head can hold; framing the fields keeps them so, and touches no other name.
-/

namespace Turnpike

namespace Fields

structure IsName (name : FieldName) : Prop where
  nonempty : name ≠ []
  token : ∀ b ∈ name, b.isToken = true
  lower : name.lower = name

structure IsValue (value : Bytes) : Prop where
  content : ∀ b ∈ value, b.isFieldContent = true
  tight : value.IsTight

structure Writable (fields : Fields) : Prop where
  wellFormed : fields.WellFormed
  names : ∀ group ∈ fields.groups, IsName group.1
  values : ∀ group ∈ fields.groups, ∀ value ∈ group.2, IsValue value

/-! Of given fields all this can be decided. -/

instance (name : FieldName) : Decidable (IsName name) :=
  decidable_of_iff (name ≠ [] ∧ name.all Byte.isToken = true ∧ name.lower = name)
    ⟨fun h => ⟨h.1, List.all_eq_true.mp h.2.1, h.2.2⟩,
      fun h => ⟨h.nonempty, List.all_eq_true.mpr h.token, h.lower⟩⟩

instance (value : Bytes) : Decidable value.IsTight := inferInstanceAs (Decidable (_ ∧ _))

instance (value : Bytes) : Decidable (IsValue value) :=
  decidable_of_iff (value.all Byte.isFieldContent = true ∧ value.IsTight)
    ⟨fun h => ⟨List.all_eq_true.mp h.1, h.2⟩, fun h => ⟨List.all_eq_true.mpr h.content, h.tight⟩⟩

instance (fields : Fields) : Decidable fields.WellFormed :=
  decidable_of_iff (fields.names.Nodup ∧ ∀ group ∈ fields.groups, group.2 ≠ [])
    ⟨fun h => ⟨h.1, h.2⟩, fun h => ⟨h.nodup, h.nonempty⟩⟩

instance (fields : Fields) : Decidable fields.Writable :=
  decidable_of_iff (fields.WellFormed ∧ (∀ group ∈ fields.groups, IsName group.1) ∧
      ∀ group ∈ fields.groups, ∀ value ∈ group.2, IsValue value)
    ⟨fun h => ⟨h.1, h.2.1, h.2.2⟩, fun h => ⟨h.wellFormed, h.names, h.values⟩⟩

/-- What every map of fields satisfies; blanks around a value do not come back from its line. -/
structure Encodable (fields : Fields) : Prop where
  wellFormed : fields.WellFormed
  names : ∀ group ∈ fields.groups, IsName group.1
  values : ∀ group ∈ fields.groups, ∀ value ∈ group.2, ∀ b ∈ value, b.isFieldContent = true

theorem Writable.encodable {fields : Fields} (h : fields.Writable) : fields.Encodable where
  wellFormed := h.wellFormed
  names := h.names
  values group hgroup value hvalue := (h.values group hgroup value hvalue).content

/-- The fields as they are read from their lines. -/
def trimmed (fields : Fields) : Fields :=
  .ofList (fields.toList.map fun pair => (pair.1, pair.2.trim))

/-! From the lines back to the groups. -/

theorem append_of_fresh {fields : Fields} {name : FieldName} (hfresh : name ∉ fields.names)
    (value : Bytes) : fields.append name value = ⟨fields.groups ++ [(name, [value])]⟩ :=
  if_neg (mt contains_iff.mp hfresh)

theorem append_to_last {groups : List (FieldName × List Bytes)} {name : FieldName}
    (hfresh : name ∉ groups.map Prod.fst) (values : List Bytes) (value : Bytes) :
    (Fields.mk (groups ++ [(name, values)])).append name value =
      ⟨groups ++ [(name, values ++ [value])]⟩ := by
  have hkept : groups.map (fun group => if group.1 == name then (name, group.2 ++ [value])
      else group) = groups := by
    refine (List.map_congr_left fun group hgroup => ?_).trans (List.map_id groups)
    have hother : group.1 ≠ name := fun heq => hfresh (List.mem_map.mpr ⟨group, hgroup, heq⟩)
    simp [hother]
  have hpresent : (Fields.mk (groups ++ [(name, values)])).contains name = true := by
    simp [contains]
  rw [append, if_pos hpresent, List.map_append, hkept]
  simp

theorem foldl_append_group {groups : List (FieldName × List Bytes)} {name : FieldName}
    (hfresh : name ∉ groups.map Prod.fst) {values : List Bytes} (hvalues : values ≠ []) :
    values.foldl (fun fields value => fields.append name value) (Fields.mk groups) =
      ⟨groups ++ [(name, values)]⟩ := by
  induction values using List.reverseRecOn with
  | nil => contradiction
  | append_singleton values value ih =>
      rw [List.foldl_append, List.foldl_cons, List.foldl_nil]
      by_cases hnil : values = []
      · subst hnil
        exact append_of_fresh hfresh value
      · rw [ih hnil]
        exact append_to_last hfresh values value

theorem foldl_append_groups (groups : List (FieldName × List Bytes))
    {later : List (FieldName × List Bytes)}
    (hnodup : ((groups ++ later).map Prod.fst).Nodup) (hnonempty : ∀ group ∈ later, group.2 ≠ [])
    (hlower : ∀ group ∈ later, group.1.lower = group.1) :
    (toList ⟨later⟩).foldl (fun fields pair => fields.append pair.1.lower pair.2)
        (Fields.mk groups) =
      ⟨groups ++ later⟩ := by
  induction later generalizing groups with
  | nil => simp [toList]
  | cons group later ih =>
      have hshape : groups ++ group :: later = groups ++ [group] ++ later := by simp
      have hfresh : group.1 ∉ groups.map Prod.fst := by
        intro hmem
        rw [List.map_append, List.nodup_append] at hnodup
        exact hnodup.2.2 _ hmem _ (List.mem_map_of_mem (List.mem_cons_self ..)) rfl
      have hgroup : (group.2.map fun value => (group.1, value)).foldl
          (fun fields pair => fields.append pair.1.lower pair.2) (Fields.mk groups) =
            ⟨groups ++ [group]⟩ := by
        simp only [List.foldl_map, hlower group (List.mem_cons_self ..)]
        exact foldl_append_group hfresh (hnonempty group (List.mem_cons_self ..))
      have hlater := ih (groups ++ [group]) (hshape ▸ hnodup)
        (fun other hother => hnonempty other (List.mem_cons_of_mem _ hother))
        fun other hother => hlower other (List.mem_cons_of_mem _ hother)
      rw [toList, List.flatMap_cons, List.foldl_append, hgroup, hshape]
      exact hlater

theorem Writable.ofList_toList {fields : Fields} (h : fields.Writable) :
    ofList fields.toList = fields :=
  foldl_append_groups [] h.wellFormed.nodup h.wellFormed.nonempty
    fun group hgroup => (h.names group hgroup).lower

theorem mem_toList {fields : Fields} {pair : FieldName × Bytes} (h : pair ∈ fields.toList) :
    ∃ group ∈ fields.groups, group.1 = pair.1 ∧ pair.2 ∈ group.2 := by
  obtain ⟨group, hgroup, hlined⟩ := List.mem_flatMap.mp h
  obtain ⟨value, hvalue, rfl⟩ := List.mem_map.mp hlined
  exact ⟨group, hgroup, rfl, hvalue⟩

theorem map_filter_toList (fields : Fields) (name : FieldName) :
    (fields.toList.filter fun pair => pair.1 == name).map Prod.snd = fields.all name := by
  unfold toList all
  induction fields.groups with
  | nil => rfl
  | cons group groups ih =>
      rw [List.flatMap_cons, List.filter_append, List.map_append, ih]
      by_cases hname : group.1 = name
      · simp [hname, List.filter_map, Function.comp_def]
      · simp [hname]

theorem Encodable.all_trimmed {fields : Fields} (h : fields.Encodable) (name : FieldName) :
    fields.trimmed.all name = (fields.all name).map Bytes.trim := by
  have hlower : ∀ pair ∈ fields.toList, pair.1.lower = pair.1 := by
    intro pair hpair
    obtain ⟨group, hgroup, hname, -⟩ := mem_toList hpair
    rw [← hname]
    exact (h.names group hgroup).lower
  have hsame : (fields.toList.filter fun pair => pair.1.lower == name) =
      fields.toList.filter fun pair => pair.1 == name :=
    List.filter_congr fun pair hpair => by rw [hlower pair hpair]
  rw [trimmed, all_ofList, List.filter_map, List.map_map, ← map_filter_toList, List.map_map,
    ← hsame]
  rfl

/-! The framing fields. -/

theorem mem_of_mem_eraseGroup {name : FieldName} {groups : List (FieldName × List Bytes)}
    {group : FieldName × List Bytes} (h : group ∈ eraseGroup name groups) : group ∈ groups := by
  induction groups with
  | nil => exact h
  | cons first groups ih =>
      unfold eraseGroup at h
      split at h
      · cases hlast : groups.getLast? with
        | none =>
            rw [hlast] at h
            contradiction
        | some last =>
            obtain ⟨initial, rfl⟩ := List.getLast?_eq_some_iff.mp hlast
            rw [hlast] at h
            simp only [List.dropLast_concat] at h
            have hkept : group ∈ initial ++ [last] := by
              rw [List.mem_append, List.mem_singleton, or_comm]
              exact List.mem_cons.mp h
            exact List.mem_cons_of_mem _ hkept
      · exact (List.mem_cons.mp h).elim (fun heq => heq ▸ List.mem_cons_self ..)
          fun hlater => List.mem_cons_of_mem _ (ih hlater)

theorem isName_contentLength : IsName FieldName.contentLength :=
  ⟨by decide, List.all_eq_true.mp (by decide), by decide⟩

theorem isName_transferEncoding : IsName FieldName.transferEncoding :=
  ⟨by decide, List.all_eq_true.mp (by decide), by decide⟩

theorem isFieldContent_of_isDigit {b : Byte} (h : b.isDigit = true) : b.isFieldContent = true := by
  simp only [Byte.isDigit, Byte.isFieldContent, Byte.tab, Bool.and_eq_true, decide_eq_true_eq,
    Bool.or_eq_true, bne_iff_ne] at h ⊢
  refine .inr ⟨UInt8.le_trans (by decide) h.1, ?_⟩
  rintro rfl
  exact absurd h.2 (by decide)

theorem isValue_decimal (n : Nat) : IsValue (Number.decimal n) where
  content b hb := isFieldContent_of_isDigit ((Number.numeral_decimal n).isDigit b hb)
  tight := (Number.numeral_decimal n).isTight

theorem isValue_chunked : IsValue (Bytes.ofText "chunked") :=
  ⟨List.all_eq_true.mp (by decide), by unfold Bytes.IsTight; decide +kernel⟩

/-- The field that tells a reader of the size. -/
def framingField : PayloadSize → FieldName × Bytes
  | .length octets => (FieldName.contentLength, Number.decimal octets)
  | .chunked => (FieldName.transferEncoding, Bytes.ofText "chunked")
  | .empty => (FieldName.contentLength, Bytes.ofText "0")

def framingNames : List FieldName := [FieldName.contentLength, FieldName.transferEncoding]

/-- The name that must not stand beside the framing field. -/
def rivalName : PayloadSize → FieldName
  | .length _ | .empty => FieldName.transferEncoding
  | .chunked => FieldName.contentLength

theorem framed_eq (fields : Fields) (size : PayloadSize) :
    fields.framed size =
      (fields.erase (rivalName size)).insert (framingField size).1 (framingField size).2 := by
  cases size with
  | length octets | chunked => rfl
  | empty =>
      have hzero : Number.decimal 0 = Bytes.ofText "0" := by decide
      rw [framed, hzero]
      rfl

theorem rivalName_ne (size : PayloadSize) : rivalName size ≠ (framingField size).1 := by
  have hne : FieldName.transferEncoding ≠ FieldName.contentLength := by decide
  cases size with
  | length octets | empty => exact hne
  | chunked => exact hne.symm

theorem mem_framingNames_iff (size : PayloadSize) {name : FieldName} :
    name ∈ framingNames ↔ name = (framingField size).1 ∨ name = rivalName size := by
  rw [framingNames, List.mem_cons, List.mem_singleton]
  cases size with
  | length octets | empty => rfl
  | chunked => exact or_comm

theorem isName_framingField (size : PayloadSize) : IsName (framingField size).1 := by
  cases size with
  | length octets | empty => exact isName_contentLength
  | chunked => exact isName_transferEncoding

theorem isValue_framingField (size : PayloadSize) : IsValue (framingField size).2 := by
  cases size with
  | length octets => exact isValue_decimal octets
  | chunked => exact isValue_chunked
  | empty => exact isValue_decimal 0

/-- Framing adds one field and keeps no other that was not there. -/
theorem mem_groups_framed {fields : Fields} {size : PayloadSize} {group : FieldName × List Bytes}
    (h : group ∈ (fields.framed size).groups) :
    group ∈ fields.groups ∨ ∃ value, group.2 = [value] ∧ IsName group.1 ∧ IsValue value := by
  rw [framed_eq] at h
  rcases mem_groups_insert.mp h with rfl | ⟨hold, -⟩
  · exact .inr ⟨_, rfl, isName_framingField size, isValue_framingField size⟩
  · exact .inl (mem_of_mem_eraseGroup hold)

theorem WellFormed.framed {fields : Fields} (h : fields.WellFormed) (size : PayloadSize) :
    (fields.framed size).WellFormed := by
  rw [framed_eq]
  exact (h.erase (rivalName size)).insert _ _

theorem Writable.framed {fields : Fields} (h : fields.Writable) (size : PayloadSize) :
    (fields.framed size).Writable where
  wellFormed := h.wellFormed.framed size
  names group hgroup := by
    rcases mem_groups_framed hgroup with hold | ⟨-, -, hname, -⟩
    · exact h.names group hold
    · exact hname
  values group hgroup value hvalue := by
    rcases mem_groups_framed hgroup with hold | ⟨only, honly, -, hframing⟩
    · exact h.values group hold value hvalue
    · rw [honly, List.mem_singleton] at hvalue
      rwa [hvalue]

theorem Encodable.framed {fields : Fields} (h : fields.Encodable) (size : PayloadSize) :
    (fields.framed size).Encodable where
  wellFormed := h.wellFormed.framed size
  names group hgroup := by
    rcases mem_groups_framed hgroup with hold | ⟨-, -, hname, -⟩
    · exact h.names group hold
    · exact hname
  values group hgroup value hvalue := by
    rcases mem_groups_framed hgroup with hold | ⟨only, honly, -, hframing⟩
    · exact h.values group hold value hvalue
    · rw [honly, List.mem_singleton] at hvalue
      rw [hvalue]
      exact hframing.content

theorem encodable_empty : empty.Encodable :=
  ⟨wellFormed_empty, by simp [empty], by simp [empty]⟩

theorem Encodable.insert {fields : Fields} (h : fields.Encodable) {name : FieldName}
    (hname : IsName name) {value : Bytes} (hvalue : ∀ b ∈ value, b.isFieldContent = true) :
    (fields.insert name value).Encodable where
  wellFormed := h.wellFormed.insert name value
  names group hgroup := by
    rcases mem_groups_insert.mp hgroup with rfl | ⟨hold, -⟩
    · exact hname
    · exact h.names group hold
  values group hgroup found hfound := by
    rcases mem_groups_insert.mp hgroup with rfl | ⟨hold, -⟩
    · exact List.mem_singleton.mp hfound ▸ hvalue
    · exact h.values group hold found hfound

/-! The values of a name are those of its one group. -/

theorem WellFormed.all_eq {fields : Fields} (h : fields.WellFormed) {name : FieldName}
    {values : List Bytes} (hgroup : (name, values) ∈ fields.groups) : fields.all name = values := by
  obtain ⟨before, after, hgroups⟩ := List.append_of_mem hgroup
  have hnodup := h.nodup
  rw [names, hgroups, List.map_append, List.map_cons, List.nodup_append] at hnodup
  obtain ⟨-, hlater, hearlier⟩ := hnodup
  have hbefore : name ∉ before.map Prod.fst := fun hmem =>
    hearlier _ hmem _ (List.mem_cons_self ..) rfl
  have hafter : name ∉ after.map Prod.fst := (List.nodup_cons.mp hlater).1
  simp [all, hgroups, filter_eq_nil_of_not_mem hbefore, filter_eq_nil_of_not_mem hafter]

theorem all_eq_nil {fields : Fields} {name : FieldName} (h : name ∉ fields.names) :
    fields.all name = [] := by
  rw [all, filter_eq_nil_of_not_mem h, List.flatMap_nil]

theorem all_of_not_contains {fields : Fields} {name : FieldName}
    (h : ¬ fields.contains name = true) : fields.all name = [] :=
  all_eq_nil (mt contains_iff.mpr h)

theorem WellFormed.all_congr {fields others : Fields} (h : fields.WellFormed)
    (hothers : others.WellFormed) {name : FieldName}
    (hsame : ∀ values, (name, values) ∈ fields.groups ↔ (name, values) ∈ others.groups) :
    fields.all name = others.all name := by
  by_cases hname : name ∈ fields.names
  · obtain ⟨⟨_, values⟩, hgroup, rfl⟩ := List.mem_map.mp hname
    rw [h.all_eq hgroup, hothers.all_eq ((hsame values).mp hgroup)]
  · have hother : name ∉ others.names := by
      intro hmem
      obtain ⟨⟨_, values⟩, hgroup, rfl⟩ := List.mem_map.mp hmem
      exact hname (List.mem_map.mpr ⟨_, (hsame values).mpr hgroup, rfl⟩)
    rw [all_eq_nil hname, all_eq_nil hother]

theorem WellFormed.all_insert {fields : Fields} (h : fields.WellFormed) (name : FieldName)
    (value : Bytes) : (fields.insert name value).all name = [value] :=
  (h.insert name value).all_eq (mem_groups_insert.mpr (.inl rfl))

theorem WellFormed.all_insert_of_ne {fields : Fields} (h : fields.WellFormed)
    {name other : FieldName} (hne : other ≠ name) (value : Bytes) :
    (fields.insert name value).all other = fields.all other := by
  refine (h.insert name value).all_congr h fun values => ?_
  rw [mem_groups_insert]
  constructor
  · intro hgroup
    rcases hgroup with heq | hold
    · exact absurd (Prod.mk.inj heq).1 hne
    · exact hold.1
  · intro hgroup
    exact .inr ⟨hgroup, hne⟩

theorem WellFormed.all_erase_of_ne {fields : Fields} (h : fields.WellFormed)
    {name other : FieldName} (hne : other ≠ name) :
    (fields.erase name).all other = fields.all other :=
  (h.erase name).all_congr h fun _ => mem_eraseGroup hne

theorem WellFormed.all_erase {fields : Fields} (h : fields.WellFormed) (name : FieldName) :
    (fields.erase name).all name = [] := by
  refine all_eq_nil fun hmem => ?_
  rw [← contains_iff, h.contains_erase] at hmem
  contradiction

theorem WellFormed.all_framed_of_not_mem {fields : Fields} (h : fields.WellFormed)
    {name : FieldName} (hname : name ∉ framingNames) (size : PayloadSize) :
    (fields.framed size).all name = fields.all name := by
  rw [mem_framingNames_iff size, not_or] at hname
  rw [framed_eq, (h.erase _).all_insert_of_ne hname.1, h.all_erase_of_ne hname.2]

theorem WellFormed.all_framed {fields : Fields} (h : fields.WellFormed) {name : FieldName}
    (hlength : name ≠ FieldName.contentLength) (hcoding : name ≠ FieldName.transferEncoding)
    (size : PayloadSize) : (fields.framed size).all name = fields.all name := by
  refine h.all_framed_of_not_mem ?_ size
  rw [framingNames, List.mem_cons, List.mem_singleton, not_or]
  exact ⟨hlength, hcoding⟩

theorem WellFormed.all_framed_of_mem {fields : Fields} (h : fields.WellFormed) {size : PayloadSize}
    {name : FieldName} (hname : name ∈ framingNames) :
    (fields.framed size).all name =
      if name = (framingField size).1 then [(framingField size).2] else [] := by
  have herased := h.erase (rivalName size)
  rw [framed_eq]
  rcases (mem_framingNames_iff size).mp hname with rfl | rfl
  · rw [if_pos rfl, herased.all_insert]
  · rw [if_neg (rivalName_ne size), herased.all_insert_of_ne (rivalName_ne size), h.all_erase]

end Fields

/-! The lines. -/

namespace Wire

open PayloadEncoder Fields

theorem takeWhile_run {isLetter : Byte → Bool} {run : Bytes} (hrun : ∀ b ∈ run, isLetter b = true)
    {stop : Byte} (hstop : isLetter stop = false) (rest : Bytes) :
    (run ++ stop :: rest).takeWhile isLetter = run := by
  rw [List.takeWhile_append_of_pos hrun, List.takeWhile_cons_of_neg (by simp [hstop]),
    List.append_nil]

theorem trim_space (value : Bytes) : Bytes.trim (Byte.space :: value) = value.trim := by
  rw [Bytes.trim, Bytes.trimStart, List.dropWhile_cons_of_pos (by decide)]
  rfl

theorem fieldLine_line {name : FieldName} {value : Bytes} (hname : IsName name)
    (hvalue : ∀ b ∈ value, b.isFieldContent = true) (rest : Bytes) :
    fieldLine (Fields.line name value ++ rest) = .done (name, value.trim) rest := by
  have hshape : Fields.line name value ++ rest =
      name ++ Byte.colon :: (Byte.space :: value ++ Byte.cr :: Byte.lf :: rest) := by
    simp [Fields.line, PayloadEncoder.lineEnd, Bytes.ofText]
    rfl
  have hfirst : (Fields.line name value ++ rest).takeWhile Byte.isToken = name := by
    rw [hshape]
    exact takeWhile_run hname.token rfl _
  have hcontent : (Byte.space :: value ++ Byte.cr :: Byte.lf :: rest).takeWhile
      Byte.isFieldContent = Byte.space :: value := by
    refine takeWhile_run ?_ rfl _
    intro b hb
    rcases List.mem_cons.mp hb with rfl | hvalued
    · rfl
    · exact hvalue b hvalued
  have hnonempty : name.isEmpty = false := by simpa using hname.nonempty
  simp only [fieldLine, hfirst]
  rw [hshape, List.drop_left]
  simp only [hnonempty, hcontent, List.drop_left, trim_space]
  rfl

theorem fieldSection_of_fieldLine {bytes rest : Bytes} {field : FieldName × Bytes}
    (h : fieldLine bytes = .done field rest) (limit : Nat) :
    fieldSection limit bytes = match limit with
      | 0 => .bad .tooManyFields
      | limit + 1 => (fieldSection limit rest).map (field :: ·) := by
  cases bytes with
  | nil => contradiction
  | cons b bytes =>
      have hfirst : (b = Byte.lf || b = Byte.cr) = false := by
        rw [Bool.eq_false_iff]
        intro hend
        rcases Bool.or_eq_true_iff.mp hend with hlf | hcr
        · obtain rfl := of_decide_eq_true hlf
          contradiction
        · obtain rfl := of_decide_eq_true hcr
          contradiction
      cases limit with
      | zero =>
          rw [fieldSection, hfirst, h]
          rfl
      | succ limit =>
          rw [fieldSection, hfirst, h]
          rfl

/-- Lines are read as long as there are not too many. -/
theorem fieldSection_lines {pairs : List (FieldName × Bytes)}
    (hpairs : ∀ pair ∈ pairs, IsName pair.1 ∧ ∀ b ∈ pair.2, b.isFieldContent = true)
    (limit : Nat) (rest : Bytes) :
    fieldSection limit ((pairs.flatMap fun pair => Fields.line pair.1 pair.2) ++
      (PayloadEncoder.lineEnd ++ rest)) =
        if pairs.length ≤ limit then .done (pairs.map fun pair => (pair.1, pair.2.trim)) rest
        else .bad .tooManyFields := by
  induction pairs generalizing limit with
  | nil => cases limit <;> rfl
  | cons pair pairs ih =>
      obtain ⟨hname, hvalue⟩ := hpairs pair (List.mem_cons_self ..)
      have hline := fieldLine_line hname hvalue
        ((pairs.flatMap fun pair => Fields.line pair.1 pair.2) ++ (PayloadEncoder.lineEnd ++ rest))
      rw [List.flatMap_cons, List.append_assoc, fieldSection_of_fieldLine hline]
      cases limit with
      | zero => rfl
      | succ limit =>
          simp only [ih (fun other hother => hpairs other (List.mem_cons_of_mem _ hother)) limit,
            List.length_cons, Nat.add_le_add_iff_right]
          split
          · rfl
          · rfl

theorem fieldSection_encodable {fields : Fields} (h : fields.Encodable) (limit : Nat)
    (rest : Bytes) :
    fieldSection limit (fields.block ++ rest) =
      if fields.count ≤ limit then .done (fields.toList.map fun pair => (pair.1, pair.2.trim)) rest
      else .bad .tooManyFields := by
  rw [Fields.block, List.append_assoc]
  refine fieldSection_lines ?_ limit rest
  intro pair hpair
  obtain ⟨group, hgroup, hname, hvalue⟩ := mem_toList hpair
  exact ⟨hname ▸ h.names group hgroup, h.values group hgroup pair.2 hvalue⟩

theorem fieldSection_block {fields : Fields} (h : fields.Writable) {limit : Nat}
    (hlimit : fields.count ≤ limit) (rest : Bytes) :
    fieldSection limit (fields.block ++ rest) = .done fields.toList rest := by
  have htight : (fields.toList.map fun pair => (pair.1, pair.2.trim)) = fields.toList := by
    refine (List.map_congr_left fun pair hpair => ?_).trans (List.map_id _)
    obtain ⟨group, hgroup, -, hvalue⟩ := mem_toList hpair
    rw [(h.values group hgroup pair.2 hvalue).tight.trim_eq]
    rfl
  rw [fieldSection_encodable h.encodable, if_pos hlimit, htight]

end Wire

end Turnpike
