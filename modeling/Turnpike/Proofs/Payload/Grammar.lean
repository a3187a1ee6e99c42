import Turnpike.Payload.Encoder
import Turnpike.Proofs.Payload.Streaming

/-!
The language of chunked bodies, and the decoder as an automaton that reads it.  Every octet of a body
stands in its framing or in its data; the automaton comes from its start to the end exactly over the
bodies of the grammar, and can be brought to the end from everywhere.
-/

namespace Turnpike

/-- An octet of a body with the part it has there. -/
inductive Octet where
  | framing (b : Byte)
  | datum (b : Byte)

namespace Octet

def byte : Octet → Byte
  | .framing b => b
  | .datum b => b

def datum? : Octet → Option Byte
  | .framing _ => none
  | .datum b => some b

/-- As they come over the wire. -/
def wire (octets : List Octet) : Bytes := octets.map byte

/-- The data among them. -/
def content (octets : List Octet) : Bytes := octets.filterMap datum?

def framed (bytes : Bytes) : List Octet := bytes.map framing

def contained (bytes : Bytes) : List Octet := bytes.map datum

@[simp] theorem wire_nil : wire [] = [] := rfl

@[simp] theorem wire_cons (octet : Octet) (octets : List Octet) :
    wire (octet :: octets) = octet.byte :: wire octets := rfl

@[simp] theorem wire_append (left right : List Octet) :
    wire (left ++ right) = wire left ++ wire right := List.map_append

@[simp] theorem wire_framed (bytes : Bytes) : wire (framed bytes) = bytes := by
  simp [wire, framed, Function.comp_def, byte]

@[simp] theorem wire_contained (bytes : Bytes) : wire (contained bytes) = bytes := by
  simp [wire, contained, Function.comp_def, byte]

@[simp] theorem content_nil : content [] = [] := rfl

@[simp] theorem content_framing (b : Byte) (octets : List Octet) :
    content (.framing b :: octets) = content octets := rfl

@[simp] theorem content_datum (b : Byte) (octets : List Octet) :
    content (.datum b :: octets) = b :: content octets := rfl

@[simp] theorem content_append (left right : List Octet) :
    content (left ++ right) = content left ++ content right := List.filterMap_append

@[simp] theorem content_framed (bytes : Bytes) : content (framed bytes) = [] := by
  induction bytes with
  | nil => rfl
  | cons b bytes ih => exact ih

@[simp] theorem content_contained (bytes : Bytes) : content (contained bytes) = bytes := by
  induction bytes with
  | nil => rfl
  | cons b bytes ih => exact congrArg (b :: ·) ih

@[simp] theorem framed_nil : framed [] = [] := rfl

@[simp] theorem framed_cons (b : Byte) (bytes : Bytes) :
    framed (b :: bytes) = .framing b :: framed bytes := rfl

@[simp] theorem framed_append (left right : Bytes) :
    framed (left ++ right) = framed left ++ framed right := List.map_append

@[simp] theorem contained_cons (b : Byte) (bytes : Bytes) :
    contained (b :: bytes) = .datum b :: contained bytes := rfl

theorem append_eq_contained {left right : List Octet} {bytes : Bytes}
    (h : left ++ right = contained bytes) :
    ∃ before after, bytes = before ++ after ∧ left = contained before ∧ right = contained after := by
  obtain ⟨before, after, hbytes, hleft, hright⟩ := List.append_eq_map_iff.mp h
  exact ⟨before, after, hbytes, hleft.symm, hright.symm⟩

end Octet

open Octet PayloadEncoder

/-! The grammar. -/

/-- Hexadecimal digits behind a number, and the number that they make of it. -/
inductive HexDigits : Nat → Bytes → Nat → Prop
  | nil {n : Nat} : HexDigits n [] n
  | cons {n digit value : Nat} {b : Byte} {digits : Bytes} (hdigit : b.hexValue? = some digit)
      (hdigits : HexDigits (16 * n + digit) digits value) : HexDigits n (b :: digits) value

/-- What stands behind the digits of a size line. -/
inductive SizeEnd : Bytes → Prop
  | plain (blanks : Bytes) (hblanks : ∀ b ∈ blanks, b.isBlank = true) : SizeEnd (blanks ++ lineEnd)
  | extended (blanks text : Bytes) (hblanks : ∀ b ∈ blanks, b.isBlank = true)
      (htext : ∀ b ∈ text, b ≠ Byte.cr ∧ b ≠ Byte.lf) :
      SizeEnd (blanks ++ Byte.semicolon :: (text ++ lineEnd))

inductive SizeLine (size : Nat) : Bytes → Prop
  | digits (digits tail : Bytes) (hne : digits ≠ []) (hvalue : HexDigits 0 digits size)
      (hword : size < Number.wordLimit) (htail : SizeEnd tail) : SizeLine size (digits ++ tail)

inductive TrailerLine : Bytes → Prop
  | text (text : Bytes) (hne : text ≠ []) (hcr : Byte.cr ∉ text) : TrailerLine (text ++ lineEnd)

/-- Trailer lines, and the line end that closes the body. -/
inductive TrailerSection : Bytes → Prop
  | lines (trailers : List Bytes) (htrailers : ∀ trailer ∈ trailers, TrailerLine trailer) :
      TrailerSection (trailers.flatten ++ lineEnd)

inductive ChunkedBody : List Octet → Prop
  | last {line trailers : Bytes} (hline : SizeLine 0 line) (htrailers : TrailerSection trailers) :
      ChunkedBody (framed (line ++ trailers))
  | chunk {line data : Bytes} {body : List Octet} (hdata : data ≠ [])
      (hline : SizeLine data.length line) (hbody : ChunkedBody body) :
      ChunkedBody (framed line ++ contained data ++ framed lineEnd ++ body)

theorem TrailerSection.closed : TrailerSection lineEnd := .lines [] nofun

theorem TrailerSection.cons {trailer trailers : Bytes} (htrailer : TrailerLine trailer)
    (h : TrailerSection trailers) : TrailerSection (trailer ++ trailers) := by
  cases h with
  | lines trailers htrailers =>
      rw [← List.append_assoc, ← List.flatten_cons]
      exact .lines _ (List.forall_mem_cons.mpr ⟨htrailer, htrailers⟩)

theorem hexValue?_of_isBlank {b : Byte} (h : b.isBlank = true) : b.hexValue? = none := by
  simp only [Byte.isBlank, Bool.or_eq_true, beq_iff_eq] at h
  rcases h with rfl | rfl <;> rfl

theorem SizeEnd.exists_cons {tail : Bytes} (h : SizeEnd tail) :
    ∃ b rest, tail = b :: rest ∧ b.hexValue? = none := by
  cases h with
  | plain blanks hblanks =>
      cases blanks with
      | nil => exact ⟨_, _, rfl, rfl⟩
      | cons b blanks => exact ⟨b, _, rfl, hexValue?_of_isBlank (hblanks b (List.mem_cons_self ..))⟩
  | extended blanks text hblanks htext =>
      cases blanks with
      | nil => exact ⟨_, _, rfl, rfl⟩
      | cons b blanks => exact ⟨b, _, rfl, hexValue?_of_isBlank (hblanks b (List.mem_cons_self ..))⟩

/-- Digits only make a number greater. -/
theorem HexDigits.le {n value : Nat} {digits : Bytes} (h : HexDigits n digits value) : n ≤ value := by
  induction h with
  | nil => exact Nat.le_refl _
  | cons _ _ ih => omega

theorem hexValue?_lt {b : Byte} {digit : Nat} (h : b.hexValue? = some digit) : digit < 16 := by
  simp only [Byte.hexValue?, Byte.isDigit, Bool.and_eq_true, decide_eq_true_eq,
    UInt8.le_iff_toNat_le] at h
  have hnine : UInt8.toNat 57 = 57 := rfl
  have hsmall : UInt8.toNat 102 = 102 := rfl
  have hcapital : UInt8.toNat 70 = 70 := rfl
  repeat' split at h
  all_goals first | contradiction | (obtain rfl := Option.some.inj h; omega)

/-! The automaton. -/

namespace ChunkedDecoder

/-- The octets on the way from one state to another. -/
inductive Reads : ChunkedDecoder → List Octet → ChunkedDecoder → Prop
  | nil {decoder : ChunkedDecoder} : Reads decoder [] decoder
  | framing {decoder next last : ChunkedDecoder} {b : Byte} {octets : List Octet}
      (hstep : decoder.step b = .ok next) (hnext : Reads next octets last) :
      Reads decoder (.framing b :: octets) last
  | datum {size : Nat} {last : ChunkedDecoder} {b : Byte} {octets : List Octet}
      (hnext : Reads (afterData size 1) octets last) : Reads (.data size) (.datum b :: octets) last

theorem Reads.append {first middle last : ChunkedDecoder} {left right : List Octet}
    (hleft : Reads first left middle) (hright : Reads middle right last) :
    Reads first (left ++ right) last := by
  induction hleft with
  | nil => exact hright
  | framing hstep _ ih => exact .framing hstep (ih hright)
  | datum _ ih => exact .datum (ih hright)

theorem Reads.split {first last : ChunkedDecoder} {left right : List Octet}
    (h : Reads first (left ++ right) last) :
    ∃ middle, Reads first left middle ∧ Reads middle right last := by
  induction left generalizing first with
  | nil => exact ⟨first, .nil, h⟩
  | cons octet left ih =>
      cases h with
      | framing hstep hnext =>
          obtain ⟨middle, hleft, hright⟩ := ih hnext
          exact ⟨middle, .framing hstep hleft, hright⟩
      | datum hnext =>
          obtain ⟨middle, hleft, hright⟩ := ih hnext
          exact ⟨middle, .datum hleft, hright⟩

/-- The octets of the wire decide over the way. -/
theorem Reads.resume {first middle last : ChunkedDecoder} {octets all : List Octet} {rest : Bytes}
    (h : Reads first octets middle) (hall : Reads first all last)
    (hwire : wire all = wire octets ++ rest) :
    ∃ later, all = octets ++ later ∧ wire later = rest ∧ Reads middle later last := by
  induction h generalizing all with
  | nil => exact ⟨all, rfl, hwire, hall⟩
  | @framing decoder next last b octets hstep hnext ih =>
      cases hall with
      | nil => simp at hwire
      | framing hother hlater =>
          obtain ⟨rfl, htail⟩ := List.cons.inj hwire
          obtain rfl := Except.ok.inj (hstep.symm.trans hother)
          obtain ⟨later, rfl, hrest, hreads⟩ := ih hlater htail
          exact ⟨later, rfl, hrest, hreads⟩
      | datum => contradiction
  | @datum size last b octets hnext ih =>
      cases hall with
      | nil => simp at hwire
      | framing hother => contradiction
      | datum hlater =>
          obtain ⟨rfl, htail⟩ := List.cons.inj hwire
          obtain ⟨later, rfl, hrest, hreads⟩ := ih hlater htail
          exact ⟨later, rfl, hrest, hreads⟩

theorem Reads.eq_nil_of_done {octets : List Octet} {last : ChunkedDecoder}
    (h : Reads .done octets last) : octets = [] ∧ last = .done := by
  cases h with
  | nil => exact ⟨rfl, rfl⟩
  | framing hstep => contradiction

theorem reads_contained {size : Nat} {data : Bytes} (hdata : data ≠ [])
    (hlength : data.length ≤ size) :
    Reads (.data size) (contained data) (afterData size data.length) := by
  induction data generalizing size with
  | nil => contradiction
  | cons b data ih =>
      refine .datum ?_
      by_cases hlast : data = []
      · subst hlast
        exact .nil
      · have hpos := List.length_pos_iff.mpr hlast
        rw [List.length_cons] at hlength
        have hopen : afterData size 1 = .data (size - 1) := if_neg (by omega)
        rw [List.length_cons, Nat.add_comm, afterData_add, hopen]
        exact ih hlast (by omega)

/-! From everywhere to the end. -/

def Completes (decoder : ChunkedDecoder) : Prop := ∃ octets, Reads decoder octets .done

theorem Completes.of_step {decoder next : ChunkedDecoder} {b : Byte} (h : next.Completes)
    (hstep : decoder.step b = .ok next) : decoder.Completes := by
  obtain ⟨octets, hreads⟩ := h
  exact ⟨.framing b :: octets, .framing hstep hreads⟩

theorem completes_trailerStart : Completes .trailerStart := by
  have hdone : Completes .done := ⟨[], .nil⟩
  have hend : Completes .endLf := hdone.of_step (b := Byte.lf) rfl
  exact hend.of_step (b := Byte.cr) rfl

theorem completes_sizeStart : Completes .sizeStart := by
  have hline : Completes (.sizeLf 0) := completes_trailerStart.of_step (b := Byte.lf) rfl
  have hsize : Completes (.size 0) := hline.of_step (b := Byte.cr) rfl
  exact hsize.of_step (b := 48) rfl

theorem completes_dataCr : Completes .dataCr := by
  have hend : Completes .dataLf := completes_sizeStart.of_step (b := Byte.lf) rfl
  exact hend.of_step (b := Byte.cr) rfl

theorem completes_data (size : Nat) : Completes (.data size) := by
  induction size with
  | zero =>
      obtain ⟨octets, hreads⟩ := completes_dataCr
      exact ⟨.datum 0 :: octets, .datum hreads⟩
  | succ size ih =>
      have hnext : (afterData (size + 1) 1).Completes := by
        unfold afterData
        split
        · exact completes_dataCr
        · exact ih
      obtain ⟨octets, hreads⟩ := hnext
      exact ⟨.datum 0 :: octets, .datum hreads⟩

theorem completes_sizeLf (size : Nat) : Completes (.sizeLf size) := by
  have hnext : (if size = 0 then trailerStart else data size).Completes := by
    split
    · exact completes_trailerStart
    · exact completes_data size
  exact hnext.of_step (b := Byte.lf) rfl

theorem completes (decoder : ChunkedDecoder) : decoder.Completes := by
  cases decoder with
  | sizeStart => exact completes_sizeStart
  | size size => exact (completes_sizeLf size).of_step (b := Byte.cr) rfl
  | sizeBlank size => exact (completes_sizeLf size).of_step (b := Byte.cr) rfl
  | extension size => exact (completes_sizeLf size).of_step (b := Byte.cr) rfl
  | sizeLf size => exact completes_sizeLf size
  | data size => exact completes_data size
  | dataCr => exact completes_dataCr
  | dataLf => exact completes_sizeStart.of_step (b := Byte.lf) rfl
  | trailerStart => exact completes_trailerStart
  | trailer =>
      have hend : Completes .trailerLf := completes_trailerStart.of_step (b := Byte.lf) rfl
      exact hend.of_step (b := Byte.cr) rfl
  | trailerLf => exact completes_trailerStart.of_step (b := Byte.lf) rfl
  | endLf => exact ⟨_, .framing (b := Byte.lf) rfl .nil⟩
  | done => exact ⟨[], .nil⟩

/-! A body of the grammar is a way to the end. -/

/-- What the octets behind a size line belong to. -/
def behind (size : Nat) : ChunkedDecoder := if size = 0 then .trailerStart else .data size

theorem reads_lineEnd {decoder middle last : ChunkedDecoder}
    (hcr : decoder.step Byte.cr = .ok middle) (hlf : middle.step Byte.lf = .ok last) :
    Reads decoder (framed lineEnd) last := .framing hcr (.framing hlf .nil)

theorem reads_while {decoder : ChunkedDecoder} {bytes : Bytes}
    (h : ∀ b ∈ bytes, decoder.step b = .ok decoder) : Reads decoder (framed bytes) decoder := by
  induction bytes with
  | nil => exact .nil
  | cons b bytes ih =>
      obtain ⟨hb, hbytes⟩ := List.forall_mem_cons.mp h
      exact .framing hb (ih hbytes)

theorem reads_blankEnd {n : Nat} {tail : Bytes} (h : SizeEnd tail) :
    Reads (.sizeBlank n) (framed tail) (behind n) := by
  have hblank : ∀ b, b.isBlank = true → (sizeBlank n).step b = .ok (.sizeBlank n) :=
    fun b hb => if_pos hb
  cases h with
  | plain blanks hblanks =>
      rw [framed_append]
      exact (reads_while fun b hb => hblank b (hblanks b hb)).append (reads_lineEnd rfl rfl)
  | extended blanks text hblanks htext =>
      rw [framed_append, framed_cons, framed_append]
      refine (reads_while fun b hb => hblank b (hblanks b hb)).append (.framing rfl ?_)
      refine (reads_while fun b hb => ?_).append (reads_lineEnd rfl rfl)
      obtain ⟨hcr, hlf⟩ := htext b hb
      simp only [step, if_neg hcr, if_neg hlf]

theorem step_size {n : Nat} {b : Byte} {next : ChunkedDecoder} (hb : b.hexValue? = none) :
    (size n).step b = .ok next ↔ (sizeBlank n).step b = .ok next := by
  simp only [step, hb, afterSize]
  repeat' split
  all_goals simp

theorem reads_sizeEnd {n : Nat} {tail : Bytes} (h : SizeEnd tail) :
    Reads (.size n) (framed tail) (behind n) := by
  have hreads := reads_blankEnd (n := n) h
  obtain ⟨b, rest, rfl, hb⟩ := h.exists_cons
  cases hreads with
  | framing hstep hnext => exact .framing ((step_size hb).mpr hstep) hnext

theorem reads_digits {n value : Nat} {digits : Bytes} (h : HexDigits n digits value)
    (hword : value < Number.wordLimit) : Reads (.size n) (framed digits) (.size value) := by
  induction h with
  | nil => exact .nil
  | @cons n digit value b digits hdigit hdigits ih =>
      have hfits : 16 * n + digit < Number.wordLimit := Nat.lt_of_le_of_lt hdigits.le hword
      refine .framing ?_ (ih hword)
      simp only [step, hdigit, addDigit, if_pos hfits]

theorem reads_sizeLine {n : Nat} {line : Bytes} (h : SizeLine n line) :
    Reads .sizeStart (framed line) (behind n) := by
  obtain ⟨digits, tail, hne, hvalue, hword, htail⟩ := h
  rw [framed_append]
  refine Reads.append ?_ (reads_sizeEnd htail)
  cases hvalue with
  | nil => contradiction
  | @cons _ digit _ b digits hdigit hdigits =>
      rw [Nat.mul_zero, Nat.zero_add] at hdigits
      refine .framing ?_ (reads_digits hdigits hword)
      simp only [step, hdigit]

theorem reads_trailerLine {line : Bytes} (h : TrailerLine line) :
    Reads .trailerStart (framed line) .trailerStart := by
  obtain ⟨text, hne, hcr⟩ := h
  cases text with
  | nil => contradiction
  | cons b text =>
      obtain ⟨hb, htext⟩ := not_or.mp (mt List.mem_cons.mpr hcr)
      rw [framed_append]
      have hstep : trailerStart.step b = .ok .trailer := congrArg Except.ok (if_neg (Ne.symm hb))
      refine .framing hstep ?_
      refine (reads_while fun other hother => ?_).append (reads_lineEnd rfl rfl)
      exact congrArg Except.ok (if_neg (ne_of_mem_of_not_mem hother htext))

theorem reads_trailerSection {trailers : Bytes} (h : TrailerSection trailers) :
    Reads .trailerStart (framed trailers) .done := by
  obtain ⟨lines, hlines⟩ := h
  rw [framed_append]
  have hreads : Reads .trailerStart (framed lines.flatten) .trailerStart := by
    induction lines with
    | nil => exact .nil
    | cons line lines ih =>
        obtain ⟨hline, hlater⟩ := List.forall_mem_cons.mp hlines
        rw [List.flatten_cons, framed_append]
        exact (reads_trailerLine hline).append (ih hlater)
  exact hreads.append (reads_lineEnd rfl rfl)

theorem reads_chunk {line data : Bytes} (hdata : data ≠ []) (hline : SizeLine data.length line) :
    Reads .sizeStart (framed line ++ contained data ++ framed lineEnd) .sizeStart := by
  have hsize : data.length ≠ 0 := by simpa using hdata
  have hbehind : behind data.length = .data data.length := if_neg hsize
  have hafter : afterData data.length data.length = .dataCr := if_pos (Nat.le_refl _)
  have hcontent := reads_contained hdata (Nat.le_refl _)
  rw [hafter] at hcontent
  have hlength := reads_sizeLine hline
  rw [hbehind] at hlength
  exact (hlength.append hcontent).append (reads_lineEnd rfl rfl)

/-- A body of the grammar is a way from the start to the end. -/
theorem reads_of_chunkedBody {body : List Octet} (h : ChunkedBody body) :
    Reads .sizeStart body .done := by
  induction h with
  | last hline htrailers =>
      rw [framed_append]
      exact (reads_sizeLine hline).append (reads_trailerSection htrailers)
  | chunk hdata hline _ ih => exact (reads_chunk hdata hline).append ih

/-! A way to the end is a body of the grammar. -/

theorem only_eq_ok {decoder wanted next : ChunkedDecoder} {octet b : Byte}
    (h : decoder.only octet wanted b = .ok next) : b = octet ∧ wanted = next := by
  unfold only at h
  split at h
  · exact ⟨‹_›, Except.ok.inj h⟩
  · contradiction

/-- The numbers that are carried along: one that fits a word, and octets that are still to come. -/
def Fits : ChunkedDecoder → Prop
  | .size n => n < Number.wordLimit
  | .data n => n ≠ 0
  | _ => True

theorem fits_of_step {decoder next : ChunkedDecoder} {b : Byte} (h : decoder.step b = .ok next) :
    next.Fits := by
  have hproper := isProper_of_step h
  cases next with
  | size n =>
      cases decoder with
      | sizeStart =>
          simp only [step] at h
          split at h
          · next digit hdigit =>
            have hless := hexValue?_lt hdigit
            obtain rfl := ChunkedDecoder.size.inj (Except.ok.inj h)
            exact Nat.lt_trans hless (by decide)
          · contradiction
      | size m =>
          simp only [step, addDigit, afterSize] at h
          repeat' split at h
          all_goals simp at h
          subst h
          assumption
      | _ =>
          simp only [step, afterSize, only] at h
          repeat' split at h
          all_goals simp at h
  | data n => exact fun hzero => hproper (congrArg data hzero)
  | _ => trivial

theorem fits_afterData (octets taken : Nat) : (afterData octets taken).Fits := by
  unfold afterData
  split
  · trivial
  · exact Nat.sub_ne_zero_of_lt (by omega)

/-- What is left of a body where the size line of a number ends. -/
inductive Following : Nat → List Octet → Prop
  | trailers {trailers : Bytes} (htrailers : TrailerSection trailers) : Following 0 (framed trailers)
  | data {data : Bytes} {body : List Octet} (hdata : data ≠ []) (hbody : ChunkedBody body) :
      Following data.length (contained data ++ framed lineEnd ++ body)

/-- What is left of a body of the grammar in each state. -/
inductive Remainder : ChunkedDecoder → List Octet → Prop
  | sizeStart {body : List Octet} (hbody : ChunkedBody body) : Remainder .sizeStart body
  | size {n value : Nat} (digits : Bytes) {tail : Bytes} {body : List Octet}
      (hdigits : HexDigits n digits value) (hword : value < Number.wordLimit) (htail : SizeEnd tail)
      (hbody : Following value body) : Remainder (.size n) (framed (digits ++ tail) ++ body)
  | sizeBlank {n : Nat} {tail : Bytes} {body : List Octet} (htail : SizeEnd tail)
      (hbody : Following n body) : Remainder (.sizeBlank n) (framed tail ++ body)
  | extension {n : Nat} (text : Bytes) {body : List Octet}
      (htext : ∀ b ∈ text, b ≠ Byte.cr ∧ b ≠ Byte.lf) (hbody : Following n body) :
      Remainder (.extension n) (framed (text ++ lineEnd) ++ body)
  | sizeLf {n : Nat} {body : List Octet} (hbody : Following n body) :
      Remainder (.sizeLf n) (.framing Byte.lf :: body)
  | data (data : Bytes) {body : List Octet} (hdata : data ≠ []) (hbody : ChunkedBody body) :
      Remainder (.data data.length) (contained data ++ framed lineEnd ++ body)
  | dataCr {body : List Octet} (hbody : ChunkedBody body) : Remainder .dataCr (framed lineEnd ++ body)
  | dataLf {body : List Octet} (hbody : ChunkedBody body) :
      Remainder .dataLf (.framing Byte.lf :: body)
  | trailerStart {trailers : Bytes} (htrailers : TrailerSection trailers) :
      Remainder .trailerStart (framed trailers)
  | trailer (text : Bytes) {trailers : Bytes} (hcr : Byte.cr ∉ text) (htrailers : TrailerSection trailers) :
      Remainder .trailer (framed (text ++ lineEnd ++ trailers))
  | trailerLf {trailers : Bytes} (htrailers : TrailerSection trailers) :
      Remainder .trailerLf (framed (Byte.lf :: trailers))
  | endLf : Remainder .endLf (framed [Byte.lf])
  | done : Remainder .done []

theorem Following.chunkedBody {n : Nat} {line : Bytes} {body : List Octet} (h : Following n body)
    (hline : SizeLine n line) : ChunkedBody (framed line ++ body) := by
  cases h with
  | trailers htrailers =>
      rw [← framed_append]
      exact .last hline htrailers
  | data hdata hbody =>
      rw [← List.append_assoc, ← List.append_assoc]
      exact .chunk hdata hline hbody

theorem Remainder.following {n : Nat} {octets : List Octet} (h : Remainder (behind n) octets) :
    Following n octets := by
  unfold behind at h
  split at h
  · next hzero =>
    subst hzero
    obtain ⟨⟩ := h
    exact .trailers ‹_›
  · generalize hsize : ChunkedDecoder.data n = decoder at h
    cases h with
    | data _ hdata hbody =>
        obtain rfl := ChunkedDecoder.data.inj hsize
        exact .data hdata hbody
    | _ => contradiction

/-- Behind the digits of a size line. -/
theorem sizeEnd_of_afterSize {decoder next : ChunkedDecoder} {n : Nat} {b : Byte}
    {octets : List Octet} (hstep : decoder.afterSize n b = .ok next) (h : Remainder next octets) :
    ∃ tail body, SizeEnd tail ∧ Following n body ∧
      .framing b :: octets = framed tail ++ body := by
  unfold afterSize at hstep
  split at hstep
  · next hblank =>
    obtain rfl := Except.ok.inj hstep
    cases h with
    | @sizeBlank _ tail body htail hbody =>
        refine ⟨b :: tail, body, ?_, hbody, rfl⟩
        cases htail with
        | plain blanks hblanks =>
            exact .plain (b :: blanks) (List.forall_mem_cons.mpr ⟨hblank, hblanks⟩)
        | extended blanks text hblanks htext =>
            exact .extended (b :: blanks) text (List.forall_mem_cons.mpr ⟨hblank, hblanks⟩) htext
  · split at hstep
    · next hsemicolon =>
      subst hsemicolon
      obtain rfl := Except.ok.inj hstep
      cases h with
      | extension text htext hbody => exact ⟨_, _, .extended [] text nofun htext, hbody, rfl⟩
    · split at hstep
      · next hcr =>
        subst hcr
        obtain rfl := Except.ok.inj hstep
        cases h with
        | sizeLf hbody => exact ⟨_, _, .plain [] nofun, hbody, rfl⟩
      · contradiction

section Framing

variable {n : Nat} {next : ChunkedDecoder} {b : Byte} {octets : List Octet}

theorem Remainder.of_sizeStart (hstep : ChunkedDecoder.sizeStart.step b = .ok next)
    (h : Remainder next octets) : Remainder .sizeStart (.framing b :: octets) := by
  simp only [step] at hstep
  split at hstep
  · next digit hdigit =>
    obtain rfl := Except.ok.inj hstep
    cases h with
    | @size _ value digits tail body hdigits hword htail hbody =>
        have hvalue : HexDigits 0 (b :: digits) value :=
          .cons hdigit (by rwa [Nat.mul_zero, Nat.zero_add])
        have hline : SizeLine value (b :: digits ++ tail) :=
          .digits _ _ (List.cons_ne_nil b digits) hvalue hword htail
        exact .sizeStart (hbody.chunkedBody hline)
  · contradiction

theorem Remainder.of_size (hword : n < Number.wordLimit)
    (hstep : (ChunkedDecoder.size n).step b = .ok next) (h : Remainder next octets) :
    Remainder (.size n) (.framing b :: octets) := by
  cases hdigit : b.hexValue? with
  | some digit =>
      simp only [step, hdigit, addDigit] at hstep
      split at hstep
      · obtain rfl := Except.ok.inj hstep
        cases h with
        | size digits hdigits hvalue htail hbody =>
            exact .size (b :: digits) (.cons hdigit hdigits) hvalue htail hbody
      · contradiction
  | none =>
      simp only [step, hdigit] at hstep
      obtain ⟨tail, body, htail, hbody, heq⟩ := sizeEnd_of_afterSize hstep h
      rw [heq]
      exact .size [] .nil hword htail hbody

theorem Remainder.of_extension (hstep : (ChunkedDecoder.extension n).step b = .ok next)
    (h : Remainder next octets) : Remainder (.extension n) (.framing b :: octets) := by
  simp only [step] at hstep
  split at hstep
  · next hcr =>
    subst hcr
    obtain rfl := Except.ok.inj hstep
    cases h with
    | sizeLf hbody => exact .extension [] (by simp) hbody
  · next hcr =>
    split at hstep
    · contradiction
    · next hlf =>
      obtain rfl := Except.ok.inj hstep
      cases h with
      | extension text htext hbody =>
          exact .extension (b :: text) (List.forall_mem_cons.mpr ⟨⟨hcr, hlf⟩, htext⟩) hbody

theorem Remainder.of_trailerStart (hstep : ChunkedDecoder.trailerStart.step b = .ok next)
    (h : Remainder next octets) : Remainder .trailerStart (.framing b :: octets) := by
  obtain rfl := Except.ok.inj hstep
  by_cases hcr : b = Byte.cr
  · subst hcr
    cases h with
    | endLf => exact .trailerStart .closed
  · rw [if_neg hcr] at h
    cases h with
    | @trailer text trailers htext htrailers =>
        have htrailer : TrailerLine (b :: text ++ lineEnd) :=
          .text _ (List.cons_ne_nil b text) (mt List.mem_cons.mp (not_or.mpr ⟨Ne.symm hcr, htext⟩))
        exact .trailerStart (htrailers.cons htrailer)

theorem Remainder.of_trailer (hstep : ChunkedDecoder.trailer.step b = .ok next)
    (h : Remainder next octets) : Remainder .trailer (.framing b :: octets) := by
  obtain rfl := Except.ok.inj hstep
  by_cases hcr : b = Byte.cr
  · subst hcr
    cases h with
    | trailerLf htrailers => exact .trailer [] nofun htrailers
  · rw [if_neg hcr] at h
    cases h with
    | trailer text htext htrailers =>
        exact .trailer (b :: text) (mt List.mem_cons.mp (not_or.mpr ⟨Ne.symm hcr, htext⟩)) htrailers

end Framing

theorem Remainder.of_framing {decoder next : ChunkedDecoder} {b : Byte} {octets : List Octet}
    (hfits : decoder.Fits) (hstep : decoder.step b = .ok next) (h : Remainder next octets) :
    Remainder decoder (.framing b :: octets) := by
  cases decoder with
  | sizeStart => exact h.of_sizeStart hstep
  | size n => exact h.of_size hfits hstep
  | sizeBlank n =>
      obtain ⟨tail, body, htail, hbody, heq⟩ := sizeEnd_of_afterSize hstep h
      rw [heq]
      exact .sizeBlank htail hbody
  | extension n => exact h.of_extension hstep
  | sizeLf n =>
      obtain ⟨rfl, rfl⟩ := only_eq_ok hstep
      exact .sizeLf h.following
  | data n => contradiction
  | dataCr =>
      obtain ⟨rfl, rfl⟩ := only_eq_ok hstep
      cases h with
      | dataLf hbody => exact .dataCr hbody
  | dataLf =>
      obtain ⟨rfl, rfl⟩ := only_eq_ok hstep
      cases h with
      | sizeStart hbody => exact .dataLf hbody
  | trailerStart => exact h.of_trailerStart hstep
  | trailer => exact h.of_trailer hstep
  | trailerLf =>
      obtain ⟨rfl, rfl⟩ := only_eq_ok hstep
      cases h with
      | trailerStart htrailers => exact .trailerLf htrailers
  | endLf =>
      obtain ⟨rfl, rfl⟩ := only_eq_ok hstep
      cases h with
      | done => exact .endLf
  | done => contradiction

theorem Remainder.of_datum {n : Nat} {b : Byte} {octets : List Octet} (hopen : n ≠ 0)
    (h : Remainder (afterData n 1) octets) : Remainder (.data n) (.datum b :: octets) := by
  by_cases hlast : n ≤ 1
  · obtain rfl : n = 1 := by omega
    rw [afterData, if_pos (Nat.le_refl 1)] at h
    cases h with
    | dataCr hbody => exact .data [b] (List.cons_ne_nil b []) hbody
  · rw [afterData, if_neg hlast] at h
    generalize hleft : n - 1 = left at h
    cases h with
    | @data data body hdata hbody =>
        obtain rfl : n = (b :: data).length := by
          rw [List.length_cons]
          omega
        exact .data (b :: data) (List.cons_ne_nil b data) hbody

theorem remainder_of_reads {decoder last : ChunkedDecoder} {octets : List Octet}
    (hfits : decoder.Fits) (h : Reads decoder octets last) (hlast : last = .done) :
    Remainder decoder octets := by
  induction h with
  | nil =>
      subst hlast
      exact .done
  | framing hstep _ ih => exact .of_framing hfits hstep (ih (fits_of_step hstep) hlast)
  | datum _ ih => exact .of_datum hfits (ih (fits_afterData _ _) hlast)

/-- The ways from the start to the end are the bodies of the grammar. -/
theorem reads_done_iff {octets : List Octet} : Reads .sizeStart octets .done ↔ ChunkedBody octets := by
  constructor
  · intro h
    have hfits : sizeStart.Fits := trivial
    cases remainder_of_reads hfits h rfl with
    | sizeStart hbody => exact hbody
  · exact reads_of_chunkedBody

end ChunkedDecoder

end Turnpike
