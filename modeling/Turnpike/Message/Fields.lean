import Turnpike.Bytes

/-!
Header fields.  Names are lower case and keep the order in which they first came; the values of one
name stay together, in order.
-/

namespace Turnpike

abbrev FieldName := Bytes

structure Fields where
  groups : List (FieldName × List Bytes)
  deriving DecidableEq, Repr

namespace Fields

def empty : Fields := ⟨[]⟩

def toList (fields : Fields) : List (FieldName × Bytes) :=
  fields.groups.flatMap fun group => group.2.map fun value => (group.1, value)

def names (fields : Fields) : List FieldName := fields.groups.map Prod.fst

def count (fields : Fields) : Nat := fields.toList.length

/-- The values of a name, in order. -/
def all (fields : Fields) (name : FieldName) : List Bytes :=
  (fields.groups.filter fun group => group.1 == name).flatMap Prod.snd

def get? (fields : Fields) (name : FieldName) : Option Bytes := (fields.all name).head?

def contains (fields : Fields) (name : FieldName) : Bool :=
  fields.groups.any fun group => group.1 == name

/-- Adds a value after those the name already has. -/
def append (fields : Fields) (name : FieldName) (value : Bytes) : Fields :=
  if fields.contains name then
    ⟨fields.groups.map fun group => if group.1 == name then (name, group.2 ++ [value]) else group⟩
  else ⟨fields.groups ++ [(name, [value])]⟩

/-- Makes a value the only one of its name, in the place the name already has. -/
def insert (fields : Fields) (name : FieldName) (value : Bytes) : Fields :=
  if fields.contains name then
    ⟨fields.groups.map fun group => if group.1 == name then (name, [value]) else group⟩
  else ⟨fields.groups ++ [(name, [value])]⟩

def eraseGroup (name : FieldName) : List (FieldName × List Bytes) → List (FieldName × List Bytes)
  | [] => []
  | group :: rest =>
    if group.1 == name then
      match rest.getLast? with
      | none => []
      | some last => last :: rest.dropLast
    else group :: eraseGroup name rest

def erase (fields : Fields) (name : FieldName) : Fields := ⟨eraseGroup name fields.groups⟩

/-- Appends pairs in order, names in lower case. -/
def ofList (pairs : List (Bytes × Bytes)) : Fields :=
  pairs.foldl (fun fields pair => fields.append pair.1.lower pair.2) empty

/-- A name occurs in one group, and no group is empty. -/
structure WellFormed (fields : Fields) : Prop where
  nodup : fields.names.Nodup
  nonempty : ∀ group ∈ fields.groups, group.2 ≠ []

@[simp] theorem toList_empty : empty.toList = [] := rfl

@[simp] theorem all_empty (name : FieldName) : empty.all name = [] := rfl

theorem wellFormed_empty : empty.WellFormed := ⟨by simp [names, empty], by simp [empty]⟩

theorem contains_iff {fields : Fields} {name : FieldName} :
    fields.contains name = true ↔ name ∈ fields.names := by
  simp [contains, names, List.any_eq_true]

theorem names_append (fields : Fields) (name : FieldName) (value : Bytes) :
    (fields.append name value).names =
      if fields.contains name then fields.names else fields.names ++ [name] := by
  unfold append
  split
  · simp only [names, List.map_map]
    refine List.map_congr_left fun group _ => ?_
    by_cases h : group.1 = name <;> simp [h]
  · simp [names]

theorem names_insert (fields : Fields) (name : FieldName) (value : Bytes) :
    (fields.insert name value).names = (fields.append name value).names := by
  unfold insert append
  split
  · simp only [names, List.map_map]
    refine List.map_congr_left fun group _ => ?_
    by_cases h : group.1 = name <;> simp [h]
  · rfl

theorem WellFormed.nodup_append {fields : Fields} (hwf : fields.WellFormed) (name : FieldName)
    (value : Bytes) : (fields.append name value).names.Nodup := by
  rw [names_append]
  split
  · exact hwf.nodup
  · next habsent =>
    refine List.nodup_append.mpr ⟨hwf.nodup, by simp, ?_⟩
    intro left hleft right hright heq
    rw [List.mem_singleton.mp hright] at heq
    exact habsent (contains_iff.mpr (heq ▸ hleft))

theorem WellFormed.append {fields : Fields} (hwf : fields.WellFormed) (name : FieldName)
    (value : Bytes) : (fields.append name value).WellFormed := by
  refine ⟨hwf.nodup_append name value, ?_⟩
  intro group hgroup
  unfold Fields.append at hgroup
  split at hgroup
  · obtain ⟨old, hold, rfl⟩ := List.mem_map.mp hgroup
    split
    · simp
    · exact hwf.nonempty old hold
  · rcases List.mem_append.mp hgroup with hold | hnew
    · exact hwf.nonempty group hold
    · simp [List.mem_singleton.mp hnew]

theorem WellFormed.insert {fields : Fields} (hwf : fields.WellFormed) (name : FieldName)
    (value : Bytes) : (fields.insert name value).WellFormed := by
  refine ⟨names_insert fields name value ▸ hwf.nodup_append name value, ?_⟩
  intro group hgroup
  unfold Fields.insert at hgroup
  split at hgroup
  · obtain ⟨old, hold, rfl⟩ := List.mem_map.mp hgroup
    split
    · simp
    · exact hwf.nonempty old hold
  · rcases List.mem_append.mp hgroup with hold | hnew
    · exact hwf.nonempty group hold
    · simp [List.mem_singleton.mp hnew]

theorem wellFormed_ofList (pairs : List (Bytes × Bytes)) : (ofList pairs).WellFormed := by
  suffices h : ∀ fields : Fields, fields.WellFormed →
      (pairs.foldl (fun fields pair => fields.append pair.1.lower pair.2) fields).WellFormed from
    h empty wellFormed_empty
  induction pairs with
  | nil => exact fun _ hwf => hwf
  | cons pair pairs ih => exact fun _ hwf => ih _ (hwf.append _ _)

theorem all_append_of_ne (fields : Fields) {name other : FieldName} (value : Bytes)
    (hne : other ≠ name) : (fields.append name value).all other = fields.all other := by
  have hsame : (name == other) = false := by simpa using Ne.symm hne
  unfold append
  split
  · unfold all
    generalize fields.groups = groups
    induction groups with
    | nil => rfl
    | cons group groups ih =>
      by_cases h : group.1 = name
      · simpa [h, hsame] using ih
      · by_cases ho : group.1 = other <;> simpa [h, ho, hne] using ih
  · simp [all, List.filter_append, hsame]

theorem filter_eq_nil_of_not_mem {groups : List (FieldName × List Bytes)} {name : FieldName}
    (habsent : name ∉ groups.map Prod.fst) : groups.filter (fun group => group.1 == name) = [] := by
  rw [List.filter_eq_nil_iff]
  intro group hgroup heq
  exact habsent (List.mem_map.mpr ⟨group, hgroup, by simpa using heq⟩)

theorem WellFormed.all_append {fields : Fields} (hwf : fields.WellFormed) (name : FieldName)
    (value : Bytes) : (fields.append name value).all name = fields.all name ++ [value] := by
  unfold Fields.append
  split
  · next hpresent =>
    have hmem := contains_iff.mp hpresent
    have hnodup := hwf.nodup
    unfold all
    unfold names at hmem hnodup
    generalize fields.groups = groups at hmem hnodup
    clear hpresent hwf
    induction groups with
    | nil => simp at hmem
    | cons group groups ih =>
      have htail := (List.nodup_cons.mp hnodup).2
      by_cases h : group.1 = name
      · have hfresh : name ∉ groups.map Prod.fst := h ▸ (List.nodup_cons.mp hnodup).1
        have hkept : groups.map (fun group => if group.1 == name then (name, group.2 ++ [value])
            else group) = groups := by
          refine (List.map_congr_left fun other hother => ?_).trans (List.map_id groups)
          have hne : other.1 ≠ name := fun heq => hfresh (List.mem_map.mpr ⟨other, hother, heq⟩)
          simp [hne]
        rw [List.map_cons, hkept]
        simp [h, filter_eq_nil_of_not_mem hfresh]
      · have hin : name ∈ groups.map Prod.fst := by
          rcases List.mem_cons.mp hmem with heq | hin
          · exact absurd heq.symm h
          · exact hin
        simpa [h] using ih hin htail
  · next habsent =>
    have hfresh : name ∉ fields.groups.map Prod.fst := fun h => habsent (contains_iff.mpr h)
    simp [all, List.filter_append, filter_eq_nil_of_not_mem hfresh]

theorem WellFormed.all_append_eq {fields : Fields} (hwf : fields.WellFormed)
    (name other : FieldName) (value : Bytes) :
    (fields.append other value).all name =
      fields.all name ++ if other == name then [value] else [] := by
  by_cases hname : other = name
  · subst hname
    simpa using hwf.all_append other value
  · simpa [hname] using all_append_of_ne fields value (Ne.symm hname)

/-- The values of a name are those of the pairs that carry it, in whatever case, in order. -/
theorem all_ofList (pairs : List (Bytes × Bytes)) (name : FieldName) :
    (ofList pairs).all name =
      (pairs.filter fun pair => pair.1.lower == name).map Prod.snd := by
  suffices hfold : ∀ fields : Fields, fields.WellFormed →
      (pairs.foldl (fun fields pair => fields.append pair.1.lower pair.2) fields).all name =
        fields.all name ++ (pairs.filter fun pair => pair.1.lower == name).map Prod.snd by
    exact hfold empty wellFormed_empty
  induction pairs with
  | nil =>
      intro fields _
      simp
  | cons pair pairs ih =>
      intro fields hwf
      rw [List.foldl_cons, ih _ (hwf.append pair.1.lower pair.2),
        hwf.all_append_eq name pair.1.lower pair.2, List.append_assoc]
      by_cases hname : pair.1.lower = name
      · simp [hname]
      · simp [hname]

theorem mem_all {fields : Fields} {name : FieldName} {value : Bytes} :
    value ∈ fields.all name ↔ ∃ group ∈ fields.groups, group.1 = name ∧ value ∈ group.2 := by
  simp [all, and_assoc]

theorem mem_groups_insert {fields : Fields} {name : FieldName} {value : Bytes}
    {group : FieldName × List Bytes} :
    group ∈ (fields.insert name value).groups ↔
      group = (name, [value]) ∨ group ∈ fields.groups ∧ group.1 ≠ name := by
  unfold insert
  split
  · next hpresent =>
    obtain ⟨held, hheld, hname⟩ := List.any_eq_true.mp hpresent
    constructor
    · intro hgroup
      obtain ⟨old, hold, rfl⟩ := List.mem_map.mp hgroup
      split
      · exact .inl rfl
      · next hother => exact .inr ⟨hold, by simpa using hother⟩
    · rintro (rfl | ⟨hold, hother⟩)
      · exact List.mem_map.mpr ⟨held, hheld, if_pos hname⟩
      · exact List.mem_map.mpr ⟨group, hold, if_neg (by simpa using hother)⟩
  · next habsent =>
    have hfresh : group ∈ fields.groups → group.1 ≠ name := by
      intro hgroup hname
      exact habsent (List.any_eq_true.mpr ⟨group, hgroup, by simpa using hname⟩)
    rw [List.mem_append, List.mem_singleton, or_comm, and_iff_left_of_imp hfresh]

theorem mem_all_insert {fields : Fields} {name : FieldName} {value found : Bytes} :
    found ∈ (fields.insert name value).all name ↔ found = value := by
  rw [mem_all]
  constructor
  · rintro ⟨group, hgroup, hfirst, hfound⟩
    rcases mem_groups_insert.mp hgroup with rfl | ⟨-, hother⟩
    · simpa using hfound
    · contradiction
  · rintro rfl
    exact ⟨(name, [found]), mem_groups_insert.mpr (.inl rfl), rfl, by simp⟩

theorem mem_all_insert_of_ne {fields : Fields} {name other : FieldName} (hne : other ≠ name)
    {value found : Bytes} :
    found ∈ (fields.insert name value).all other ↔ found ∈ fields.all other := by
  rw [mem_all, mem_all]
  constructor
  · rintro ⟨group, hgroup, rfl, hfound⟩
    rcases mem_groups_insert.mp hgroup with rfl | ⟨hold, -⟩
    · contradiction
    · exact ⟨group, hold, rfl, hfound⟩
  · rintro ⟨group, hgroup, rfl, hfound⟩
    exact ⟨group, mem_groups_insert.mpr (.inr ⟨hgroup, hne⟩), rfl, hfound⟩

theorem mem_eraseGroup {groups : List (FieldName × List Bytes)} {name : FieldName}
    {group : FieldName × List Bytes} (hne : group.1 ≠ name) :
    group ∈ eraseGroup name groups ↔ group ∈ groups := by
  induction groups with
  | nil => rfl
  | cons first groups ih =>
    unfold eraseGroup
    split
    · next hname =>
      have hfirst : group ≠ first := by
        rintro rfl
        exact hne (by simpa using hname)
      rw [List.mem_cons, or_iff_right hfirst]
      cases hlast : groups.getLast? with
      | none => rw [List.getLast?_eq_none_iff.mp hlast]
      | some last =>
        obtain ⟨initial, rfl⟩ := List.getLast?_eq_some_iff.mp hlast
        simp [or_comm]
    · rw [List.mem_cons, List.mem_cons, ih]

theorem mem_all_erase_of_ne {fields : Fields} {name other : FieldName} (hne : other ≠ name)
    {found : Bytes} : found ∈ (fields.erase name).all other ↔ found ∈ fields.all other := by
  rw [mem_all, mem_all]
  constructor
  · rintro ⟨group, hgroup, rfl, hfound⟩
    exact ⟨group, (mem_eraseGroup hne).mp hgroup, rfl, hfound⟩
  · rintro ⟨group, hgroup, rfl, hfound⟩
    exact ⟨group, (mem_eraseGroup hne).mpr hgroup, rfl, hfound⟩

theorem eraseGroup_perm {groups : List (FieldName × List Bytes)} (name : FieldName)
    (hnodup : (groups.map Prod.fst).Nodup) :
    (eraseGroup name groups).Perm (groups.filter fun group => group.1 != name) := by
  induction groups with
  | nil => exact .nil
  | cons group groups ih =>
    have htail := (List.nodup_cons.mp hnodup).2
    by_cases h : group.1 = name
    · have hfresh : name ∉ groups.map Prod.fst := h ▸ (List.nodup_cons.mp hnodup).1
      have hkept : groups.filter (fun group => group.1 != name) = groups := by
        rw [List.filter_eq_self]
        intro other hother
        simpa using fun heq => hfresh (List.mem_map.mpr ⟨other, hother, heq⟩)
      have hskip : (group :: groups).filter (fun group => group.1 != name) = groups := by
        rw [List.filter_cons_of_neg (by simp [h]), hkept]
      rw [hskip, eraseGroup, if_pos (by simpa using h)]
      cases hlast : groups.getLast? with
      | none => simp [List.getLast?_eq_none_iff.mp hlast]
      | some last =>
        obtain ⟨initial, rfl⟩ := List.getLast?_eq_some_iff.mp hlast
        simpa using (List.perm_append_singleton last initial).symm
    · rw [eraseGroup, if_neg (by simpa using h), List.filter_cons_of_pos (by simpa using h)]
      exact (ih htail).cons group

theorem WellFormed.erase {fields : Fields} (hwf : fields.WellFormed) (name : FieldName) :
    (fields.erase name).WellFormed := by
  have hperm := eraseGroup_perm name hwf.nodup
  refine ⟨?_, fun group hgroup => ?_⟩
  · refine ((hperm.map Prod.fst).nodup_iff).mpr ?_
    exact (List.filter_sublist.map Prod.fst).nodup hwf.nodup
  · exact hwf.nonempty group (List.mem_filter.mp (hperm.mem_iff.mp hgroup)).1

theorem WellFormed.contains_erase {fields : Fields} (hwf : fields.WellFormed) (name : FieldName) :
    (fields.erase name).contains name = false := by
  rw [Bool.eq_false_iff]
  intro hpresent
  obtain ⟨group, hgroup, heq⟩ := List.any_eq_true.mp hpresent
  have hkept := (List.mem_filter.mp ((eraseGroup_perm name hwf.nodup).mem_iff.mp hgroup)).2
  simp_all

end Fields

/-! Names of the fields the connection itself reads or writes. -/

namespace FieldName

def allow : FieldName := Bytes.ofText "allow"
def connection : FieldName := Bytes.ofText "connection"
def contentLength : FieldName := Bytes.ofText "content-length"
def contentType : FieldName := Bytes.ofText "content-type"
def expect : FieldName := Bytes.ofText "expect"
def host : FieldName := Bytes.ofText "host"
def transferEncoding : FieldName := Bytes.ofText "transfer-encoding"

end FieldName

end Turnpike
