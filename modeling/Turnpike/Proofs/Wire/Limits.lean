import Turnpike.Proofs.Wire.Feeds

/-!
The limits on the head of a request.  A header section within them is read however it arrives.  One
beyond them is refused, at the latest when all of it is there, and so is one that has more octets
than it may have and is still to end.
-/

namespace Turnpike

namespace Wire

theorem fieldSection_eq_done {limit : Nat} {bytes rest : Bytes} {fields : List (Bytes × Bytes)}
    (h : fieldSection limit bytes = .done fields rest) :
    (fields = [] ∧ ∀ other, fieldSection other bytes = .done [] rest) ∨
    ∃ field later middle, fields = field :: later ∧
      (∃ less, limit = less + 1 ∧ fieldSection less middle = .done later rest) ∧
      ∀ other, fieldSection other bytes = match other with
        | 0 => .bad .tooManyFields
        | other + 1 => (fieldSection other middle).map (field :: ·) := by
  cases bytes with
  | nil =>
      rw [fieldSection.eq_def] at h
      contradiction
  | cons b bytes =>
      by_cases hend : (b = Byte.lf || b = Byte.cr) = true
      · have hsame : ∀ other, fieldSection other (b :: bytes) =
            (lineEnd .newLine (b :: bytes)).map fun _ => [] := by
          intro other
          rw [fieldSection.eq_def]
          exact if_pos hend
        have hdone := (hsame limit).symm.trans h
        obtain ⟨_, _, -, hfields⟩ := Reading.andThen_eq_done hdone
        obtain ⟨rfl, -⟩ := Reading.done.inj hfields
        exact .inl ⟨rfl, fun other => (hsame other).trans hdone⟩
      · have hsame : ∀ other, fieldSection other (b :: bytes) =
            (fieldLine (b :: bytes)).andThen fun field rest => match other with
              | 0 => .bad .tooManyFields
              | other + 1 => (fieldSection other rest).map (field :: ·) := by
          intro other
          rw [fieldSection.eq_def]
          exact if_neg hend
        obtain ⟨field, middle, hfield, hlater⟩ :=
          Reading.andThen_eq_done ((hsame limit).symm.trans h)
        cases limit with
        | zero => contradiction
        | succ less =>
            obtain ⟨later, _, hsection, hfields⟩ := Reading.andThen_eq_done hlater
            obtain ⟨rfl, rfl⟩ := Reading.done.inj hfields
            refine .inr ⟨field, later, middle, rfl, ⟨less, rfl, hsection⟩, fun other => ?_⟩
            rw [hsame, hfield, Reading.andThen_done]

/-- The limit decides whether a section is read, not what is read. -/
theorem fieldSection_of_done {limit : Nat} {bytes rest : Bytes} {fields : List (Bytes × Bytes)}
    (h : fieldSection limit bytes = .done fields rest) (other : Nat) :
    fieldSection other bytes =
      if fields.length ≤ other then .done fields rest else .bad .tooManyFields := by
  induction fields generalizing limit bytes other with
  | nil =>
      rcases fieldSection_eq_done h with ⟨-, hsame⟩ | ⟨_, _, _, hfields, -⟩
      · rw [hsame, List.length_nil, if_pos (Nat.zero_le other)]
      · contradiction
  | cons field later ih =>
      rcases fieldSection_eq_done h with ⟨hfields, -⟩ | ⟨_, _, middle, hfields, ⟨less, -, hless⟩, hsame⟩
      · contradiction
      · obtain ⟨rfl, rfl⟩ := List.cons.inj hfields
        rw [hsame]
        cases other with
        | zero => rfl
        | succ other =>
            simp only [ih hless other, List.length_cons, Nat.add_le_add_iff_right]
            split <;> rfl

end Wire

namespace RequestHead

open Wire

/-- The lines of a head with any number of field lines up to a limit. -/
def linesWithin (limit : Nat) (bytes : Bytes) : Reading Lines :=
  (emptyLines bytes).andThen fun _ rest =>
  (methodToken rest).andThen fun method rest =>
  (requestTarget rest).andThen fun target rest =>
  (protocolVersion rest).andThen fun version rest =>
  (lineEnd .newLine rest).andThen fun _ rest =>
  (fieldSection limit rest).map fun fields => ⟨method, target, version, fields⟩

theorem lines_eq_linesWithin (bytes : Bytes) : lines bytes = linesWithin maxFields bytes := rfl

theorem linesWithin_of_done {limit : Nat} {bytes rest : Bytes} {parts : Lines}
    (h : linesWithin limit bytes = .done parts rest) (other : Nat) :
    linesWithin other bytes =
      if parts.fields.length ≤ other then .done parts rest else .bad .tooManyFields := by
  obtain ⟨_, afterEmpty, hempty, h⟩ := Reading.andThen_eq_done h
  obtain ⟨method, afterMethod, hmethod, h⟩ := Reading.andThen_eq_done h
  obtain ⟨target, afterTarget, htarget, h⟩ := Reading.andThen_eq_done h
  obtain ⟨version, afterVersion, hversion, h⟩ := Reading.andThen_eq_done h
  obtain ⟨_, afterLine, hline, h⟩ := Reading.andThen_eq_done h
  obtain ⟨fields, _, hfields, h⟩ := Reading.andThen_eq_done h
  obtain ⟨rfl, rfl⟩ := Reading.done.inj h
  simp only [linesWithin, hempty, hmethod, htarget, hversion, hline, Reading.andThen_done,
    fieldSection_of_done hfields other]
  split <;> rfl

/-- A whole header section with so many field lines: the octets of the head and of the empty lines
in front of it, and nothing else.  It announces a framing that stands. -/
structure IsSection (bytes : Bytes) (count : Nat) (head : RequestHead) (size : PayloadSize) :
    Prop where
  lines : ∃ limit parts, linesWithin limit bytes = .done parts [] ∧ parts.fields.length = count ∧
    ofLines? parts = some head
  framing : Framing.ofFields head.fields = .ok size

theorem exists_isSection_iff {bytes : Bytes} {count : Nat} :
    (∃ head size, IsSection bytes count head size) ↔
      (match linesWithin count bytes with
      | .done parts rest => rest.isEmpty && parts.fields.length == count &&
          (ofLines? parts).any fun head => (Framing.ofFields head.fields).isOk
      | .more | .bad _ => false) = true := by
  constructor
  · rintro ⟨head, size, ⟨limit, parts, hlimit, hcount, hparts⟩, hframing⟩
    have hlines := linesWithin_of_done hlimit count
    rw [if_pos (Nat.le_of_eq hcount)] at hlines
    simp [hlines, hcount, hparts, hframing, Except.isOk, Except.toBool]
  · intro h
    split at h
    · next parts rest hlines =>
      simp only [Bool.and_eq_true, List.isEmpty_iff, beq_iff_eq, Option.any_eq_true] at h
      obtain ⟨⟨rfl, hcount⟩, head, hparts, hframing⟩ := h
      rcases hsize : Framing.ofFields head.fields with fault | size
      · rw [hsize] at hframing
        contradiction
      · exact ⟨head, size, ⟨count, parts, hlines, hcount, hparts⟩, hsize⟩
    · contradiction
    · contradiction

instance (bytes : Bytes) (count : Nat) : Decidable (∃ head size, IsSection bytes count head size) :=
  decidable_of_iff _ exists_isSection_iff.symm

/-- Why a section of so many octets and field lines is refused.  What is too large may be a part of
it that has come. -/
inductive Overrun (length count : Nat) : RequestFault → Prop
  | size {size : Nat} (large : maxSize < size) (within : size ≤ length) :
      Overrun length count (.headTooLarge size maxSize)
  | fields (many : maxFields < count) : Overrun length count (.tooManyFields maxFields)

variable {bytes : Bytes} {count : Nat} {head : RequestHead} {size : PayloadSize}

namespace IsSection

theorem lines_append (h : IsSection bytes count head size) (later : Bytes) :
    ∃ parts, ofLines? parts = some head ∧
      RequestHead.lines (bytes ++ later) =
        if count ≤ maxFields then .done parts later else .bad .tooManyFields := by
  obtain ⟨⟨limit, parts, hlimit, rfl, hparts⟩, -⟩ := h
  refine ⟨parts, hparts, ?_⟩
  have hlines := linesWithin_of_done hlimit maxFields
  rw [← lines_eq_linesWithin] at hlines
  split at hlines
  · next hcount => rw [if_pos hcount, incremental_lines.done_append hlines later, List.nil_append]
  · next hcount => rw [if_neg hcount, incremental_lines.bad_append hlines later]

/-- All of it is read or refused, with whatever stands behind it. -/
theorem lines_ne_more (h : IsSection bytes count head size) {front : Bytes} (hfront : bytes <+: front) :
    RequestHead.lines front ≠ .more := by
  obtain ⟨later, rfl⟩ := hfront
  obtain ⟨parts, -, hlines⟩ := h.lines_append later
  rw [hlines]
  split <;> exact nofun

theorem decode_within (h : IsSection bytes count head size) (hlength : bytes.length ≤ maxSize)
    (hcount : count ≤ maxFields) (later : Bytes) :
    decode (bytes ++ later) = (.ok (some (head, size)), later) := by
  obtain ⟨parts, hparts, hlines⟩ := h.lines_append later
  rw [if_pos hcount] at hlines
  have hsize : ¬ (bytes ++ later).length - later.length > maxSize := by
    rw [List.length_append]
    omega
  rw [decode_of_done hlines, if_neg hsize]
  simp only [hparts, h.framing]
  rfl

/-- Whatever has come of a section beyond the limits, and of what follows it: either that is not all
of the section, and more is asked for, or the section is refused. -/
theorem decode_beyond (h : IsSection bytes count head size)
    (hbeyond : ¬ (bytes.length ≤ maxSize ∧ count ≤ maxFields)) {front later : Bytes}
    (hfront : front <+: bytes ++ later) :
    (front.length < bytes.length ∧ decode front = (.ok none, front)) ∨
      ∃ fault, decode front = (.error fault, front) ∧ Overrun bytes.length count fault := by
  obtain ⟨parts, -, hwhole⟩ := h.lines_append later
  obtain ⟨tail, htail⟩ := hfront
  rw [← htail] at hwhole
  cases hlines : RequestHead.lines front with
  | more =>
      have hshort : front.length < bytes.length := by
        by_contra hlong
        have hstart : bytes <+: front :=
          List.prefix_of_prefix_length_le (List.prefix_append bytes later) ⟨tail, htail⟩ (by omega)
        exact h.lines_ne_more hstart hlines
      rw [decode_of_more hlines]
      split
      · exact .inl ⟨hshort, rfl⟩
      · exact .inr ⟨_, rfl, .size (by omega) (by omega)⟩
  | bad flaw =>
      rw [incremental_lines.bad_append hlines tail] at hwhole
      split at hwhole
      · contradiction
      · next hcount =>
        obtain rfl := Reading.bad.inj hwhole
        refine .inr ⟨.tooManyFields maxFields, ?_, .fields (by omega)⟩
        simp only [decode, hlines]
  | done found rest =>
      rw [incremental_lines.done_append hlines tail] at hwhole
      split at hwhole
      · next hcount =>
        obtain ⟨-, hrest⟩ := Reading.done.inj hwhole
        -- what is left over here is what stands behind the section
        have hsize : front.length - rest.length = bytes.length := by
          have hfrontLength := congrArg List.length htail
          have hrestLength := congrArg List.length hrest
          simp only [List.length_append] at hfrontLength hrestLength
          omega
        have hlarge : bytes.length > maxSize := by omega
        refine .inr ⟨.headTooLarge bytes.length maxSize, ?_, .size hlarge (Nat.le_refl _)⟩
        rw [decode_of_done hlines, hsize, if_pos hlarge]
      · contradiction

end IsSection

end RequestHead

namespace RequestReader

/-- The same but for how data is cut. -/
structure Drained.Alike (left right : Drained) : Prop where
  messages : Message.joined left.messages = Message.joined right.messages
  fault : left.fault = right.fault
  reader : left.reader = right.reader
  rest : left.rest = right.rest

namespace Drained.Alike

variable {left middle right : Drained}

theorem refl (drained : Drained) : drained.Alike drained := ⟨rfl, rfl, rfl, rfl⟩

theorem trans (hleft : left.Alike middle) (hright : middle.Alike right) : left.Alike right where
  messages := hleft.messages.trans hright.messages
  fault := hleft.fault.trans hright.fault
  reader := hleft.reader.trans hright.reader
  rest := hleft.rest.trans hright.rest

theorem after (before : List (Message RequestHead)) (h : left.Alike right) :
    (left.after before).Alike (right.after before) where
  messages := Message.joined_append_congr before h.messages
  fault := h.fault
  reader := h.reader
  rest := h.rest

end Drained.Alike

/-- Where no fault has stopped it, draining goes on as if all had been there from the start. -/
theorem alike_drain_append {reader : RequestReader} (hproper : reader.IsProper) (bytes later : Bytes)
    (hfault : (reader.drain bytes).fault = none) :
    ((reader.drain bytes).resume later).Alike (reader.drain (bytes ++ later)) := by
  revert hfault
  refine drain_induction ?more ?fault ?message hproper bytes
  case more =>
    intro reader bytes next rest hproper hdecode _
    have hnext := isProper_next hproper hdecode
    rw [drain_congr hproper hnext (decode_append_of_more hdecode later), drain_of_more hdecode]
    exact .refl _
  case fault =>
    intro reader bytes fault next rest _ hdecode hfault
    rw [drain_of_fault hdecode] at hfault
    contradiction
  case message =>
    intro reader bytes message next rest hproper hnext hdecode ih hfault
    rw [drain_of_message hproper hdecode] at hfault
    rw [drain_of_message hproper hdecode, Drained.resume_after]
    rcases decode_append_of_message hdecode later with
      hsame | ⟨rfl, data, more, beyond, left, rfl, hlater, hboth⟩
    · rw [drain_of_message hproper hsame]
      exact (ih hfault).after [message]
    · obtain ⟨waiting, hnil, hwaiting, hmore⟩ := drain_nil_of_chunk hnext hlater
      rw [drain_of_message hproper hboth, hnil]
      simp only [Drained.resume, List.nil_append]
      rw [drain_of_message hwaiting hmore]
      exact ⟨Message.joined_chunk_chunk data more _, rfl, rfl, rfl⟩

theorem fault_of_drain_append {reader : RequestReader} (hproper : reader.IsProper)
    {bytes later : Bytes} (h : (reader.drain (bytes ++ later)).fault = none) :
    (reader.drain bytes).fault = none := by
  have hagrees := agrees_drain_append hproper bytes later
  cases hfault : (reader.drain bytes).fault with
  | none => rfl
  | some fault =>
      have hsame := hagrees.fault_eq_none.mpr h
      simp only [Drained.resume, hfault] at hsame
      contradiction

/-- What feeds are read as is what some front of them is read as, and that is all of them unless
there is a fault. -/
theorem exists_front_of_drainFeeds (feeds : List Bytes) {reader : RequestReader}
    (hproper : reader.IsProper) {buffer : Bytes}
    (hrest : reader.decode buffer = ⟨.ok none, reader, buffer⟩) :
    ∃ front, front <+: feeds.flatten ∧
      (reader.drainFeeds buffer feeds).Alike (reader.drain (buffer ++ front)) ∧
      ((reader.drainFeeds buffer feeds).fault = none → front = feeds.flatten) := by
  induction feeds generalizing reader buffer with
  | nil =>
      refine ⟨[], List.prefix_rfl, ?_, fun _ => rfl⟩
      rw [List.append_nil, drain_of_more hrest]
      exact .refl _
  | cons feed feeds ih =>
      obtain ⟨hdrained, hwaiting⟩ := decode_of_drain hproper (buffer ++ feed)
      rw [drainFeeds_cons, List.flatten_cons]
      cases hfault : (reader.drain (buffer ++ feed)).fault with
      | some fault =>
          refine ⟨feed, List.prefix_append feed feeds.flatten, .refl _, fun hnone => ?_⟩
          simp only [hfault] at hnone
          contradiction
      | none =>
          obtain ⟨front, hfront, halike, hall⟩ := ih hdrained (hwaiting hfault)
          refine ⟨feed ++ front, (List.prefix_append_right_inj feed).mpr hfront, ?_, fun hnone => ?_⟩
          · have hwhole := alike_drain_append hproper (buffer ++ feed) front hfault
            rw [Drained.resume, hfault, List.append_assoc] at hwhole
            exact (halike.after _).trans hwhole
          · rw [hall hnone]

theorem decode_nil : start.decode [] = ⟨.ok none, start, []⟩ := rfl

theorem decode_of_drainFeeds (feeds : List Bytes)
    (hfault : (start.drainFeeds [] feeds).fault = none) :
    (start.drainFeeds [] feeds).reader.decode (start.drainFeeds [] feeds).rest =
      ⟨.ok none, (start.drainFeeds [] feeds).reader, (start.drainFeeds [] feeds).rest⟩ := by
  obtain ⟨front, -, halike, -⟩ := exists_front_of_drainFeeds feeds isProper_start decode_nil
  rw [halike.reader, halike.rest]
  exact (decode_of_drain isProper_start _).2 (halike.fault.symm.trans hfault)

/-- Between two bodies, more is asked for only while what is there is within the limit. -/
theorem length_le_of_decode {reader next : RequestReader} (hbody : reader.body = none)
    {octets rest : Bytes} (h : reader.decode octets = ⟨.ok none, next, rest⟩) :
    octets.length ≤ RequestHead.maxSize := by
  rcases decode_eq_more h with ⟨-, -, hhead⟩ | ⟨decoder, -, rfl, -⟩
  · exact (RequestHead.decode_eq_none hhead).2
  · contradiction

variable {bytes : Bytes} {count : Nat} {head : RequestHead} {size : PayloadSize}
  {before later : Bytes} {messages : List (Message RequestHead)} {feeds : List Bytes}

theorem drainFeeds_within (h : RequestHead.IsSection bytes count head size)
    (hlength : bytes.length ≤ RequestHead.maxSize) (hcount : count ≤ RequestHead.maxFields)
    (hbefore : start.drain before = ⟨messages, none, start, []⟩)
    (hfeeds : feeds.flatten = before ++ (bytes ++ later)) :
    ∃ more, Message.joined (start.drainFeeds [] feeds).messages =
      Message.joined messages ++ .head head size :: more := by
  have hread := decode_head (h.decode_within hlength hcount later)
  have hwhole := (agrees_drain_append isProper_start before (bytes ++ later)).messages
  have hfed := (agrees_drainFeeds feeds isProper_start decode_nil).messages
  rw [List.nil_append, hfeeds, ← hwhole, hbefore] at hfed
  simp only [Drained.resume, List.nil_append, drain_of_message isProper_start hread] at hfed
  exact ⟨_, hfed.trans (Message.joined_append_head messages head size _)⟩

/-- What a reader makes of a section beyond the limits, however much of it has come. -/
theorem decode_beyond (h : RequestHead.IsSection bytes count head size)
    (hbeyond : ¬ (bytes.length ≤ RequestHead.maxSize ∧ count ≤ RequestHead.maxFields))
    {front : Bytes} (hfront : front <+: bytes ++ later) :
    (front.length < bytes.length ∧ start.decode front = ⟨.ok none, start, front⟩) ∨
      ∃ fault, start.decode front = ⟨.error fault, start, front⟩ ∧
        RequestHead.Overrun bytes.length count fault := by
  rcases h.decode_beyond hbeyond hfront with ⟨hshort, hmore⟩ | ⟨fault, hrefused, hoverrun⟩
  · exact .inl ⟨hshort, decode_head_more hmore⟩
  · exact .inr ⟨fault, decode_head_fault hrefused, hoverrun⟩

theorem drainFeeds_beyond (h : RequestHead.IsSection bytes count head size)
    (hbeyond : ¬ (bytes.length ≤ RequestHead.maxSize ∧ count ≤ RequestHead.maxFields))
    (hbefore : start.drain before = ⟨messages, none, start, []⟩)
    (hfeeds : feeds.flatten = before ++ (bytes ++ later)) :
    Message.joined (start.drainFeeds [] feeds).messages = Message.joined messages ∧
      ∃ fault, (start.drainFeeds [] feeds).fault = some fault ∧
        RequestHead.Overrun bytes.length count fault := by
  obtain ⟨front, hfront, halike, hall⟩ := exists_front_of_drainFeeds feeds isProper_start decode_nil
  rw [List.nil_append] at halike
  rw [hfeeds] at hfront hall
  obtain ⟨reached, rfl, hreached⟩ :
      ∃ reached, front = before ++ reached ∧ reached <+: bytes ++ later := by
    rcases List.prefix_or_prefix_of_prefix hfront (List.prefix_append before (bytes ++ later)) with
      ⟨missing, rfl⟩ | ⟨reached, rfl⟩
    · have hnone := fault_of_drain_append isProper_start (congrArg Drained.fault hbefore)
      exact ⟨bytes ++ later, hall (halike.fault.trans hnone), List.prefix_rfl⟩
    · exact ⟨reached, rfl, (List.prefix_append_right_inj before).mp hfront⟩
  have hread := alike_drain_append isProper_start before reached (congrArg Drained.fault hbefore)
  rw [hbefore] at hread
  simp only [Drained.resume, List.nil_append] at hread
  rcases decode_beyond h hbeyond hreached with ⟨hshort, hmore⟩ | ⟨fault, hrefused, hoverrun⟩
  · -- no fault, and so all has come; but all of a section is not too little
    rw [drain_of_more hmore] at hread
    have hwhole := List.append_cancel_left (hall (halike.fault.trans hread.fault.symm))
    rw [hwhole, List.length_append] at hshort
    omega
  · rw [drain_of_fault hrefused] at hread
    refine ⟨?_, fault, halike.fault.trans hread.fault.symm, hoverrun⟩
    rw [halike.messages, ← hread.messages]
    exact congrArg Message.joined (List.append_nil messages)

end RequestReader

end Turnpike
