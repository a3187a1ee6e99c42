import Turnpike.Proofs.Routing.Selection

/-!
Templates that are put together.  A part that reads by itself reads as the same tokens within a
whole, unless one of its braces makes a pair with a brace beside it.
-/

namespace Turnpike

namespace Template

/-! Braces at a seam. -/

def IsBrace (c : Char) : Prop := c = '{' ∨ c = '}'

instance : DecidablePred IsBrace := fun _ => inferInstanceAs (Decidable (_ ∨ _))

theorem unescape_pair {c : Char} (h : IsBrace c) (rest : List Char) :
    unescape (c :: c :: rest) = ⟨c, true⟩ :: unescape rest := by
  rcases h with rfl | rfl
  · rfl
  · rfl

theorem unescape_cons {c : Char} {rest : List Char} (h : IsBrace c → rest.head? ≠ some c) :
    unescape (c :: rest) = ⟨c, false⟩ :: unescape rest := by
  refine unescape.eq_3 c rest ?_ ?_
  · rintro more rfl rfl
    exact h (.inl rfl) rfl
  · rintro more rfl rfl
    exact h (.inr rfl) rfl

/-- Two characters that make a pair, or one that does not. -/
theorem unescape_induction {motive : List Char → Prop} (nil : motive [])
    (pair : ∀ c rest, IsBrace c → motive rest → motive (c :: c :: rest))
    (cons : ∀ c rest, (IsBrace c → rest.head? ≠ some c) → motive rest → motive (c :: rest))
    (text : List Char) : motive text := by
  induction text using unescape.induct with
  | case1 rest ih => exact pair '{' rest (.inl rfl) ih
  | case2 rest ih => exact pair '}' rest (.inr rfl) ih
  | case3 c rest hopen hclose ih =>
      refine cons c rest ?_ ih
      intro hbrace hhead
      obtain ⟨more, rfl⟩ := List.head?_eq_some_iff.mp hhead
      rcases hbrace with rfl | rfl
      · exact hopen more rfl rfl
      · exact hclose more rfl rfl
  | case4 => exact nil

theorem unescape_append {before behind : List Char}
    (h : ∀ c, IsBrace c → (unescape before).getLast? = some ⟨c, false⟩ → behind.head? ≠ some c) :
    unescape (before ++ behind) = unescape before ++ unescape behind := by
  induction before using unescape_induction with
  | nil => rfl
  | pair c rest hbrace ih =>
      rw [unescape_pair hbrace] at h ⊢
      rw [List.cons_append, List.cons_append, unescape_pair hbrace, ih ?_, List.cons_append]
      intro d hd hlast
      refine h d hd ?_
      rw [List.getLast?_cons, hlast, Option.getD_some]
  | cons c rest hsingle ih =>
      rw [unescape_cons hsingle] at h ⊢
      rw [List.cons_append, unescape_cons ?_, ih ?_, List.cons_append]
      · intro d hd hlast
        refine h d hd ?_
        rw [List.getLast?_cons, hlast, Option.getD_some]
      · intro hbrace
        cases rest with
        | nil => exact h c hbrace rfl
        | cons d rest => exact hsingle hbrace

/-- Text without braces stands for itself. -/
theorem unescape_free {text : List Char} (h : ∀ c ∈ text, ¬ IsBrace c) (behind : List Char) :
    unescape (text ++ behind) = text.map (Glyph.mk · false) ++ unescape behind := by
  induction text with
  | nil => rfl
  | cons c text ih =>
      obtain ⟨hc, htext⟩ := List.forall_mem_cons.mp h
      rw [List.cons_append, unescape_cons (fun hbrace => absurd hbrace hc), ih htext,
        List.map_cons, List.cons_append]

theorem unescape_eq_nil {text : List Char} (h : unescape text = []) : text = [] := by
  revert h
  fun_cases unescape text <;> simp

theorem unescape_join {before behind : List Char} {front : List Glyph} {c : Char} (hbrace : IsBrace c)
    (h : unescape before = front ++ [⟨c, false⟩]) :
    unescape (before ++ c :: behind) = front ++ ⟨c, true⟩ :: unescape behind := by
  induction before using unescape_induction generalizing front with
  | nil => simp [unescape] at h
  | pair d rest hd ih =>
      rw [unescape_pair hd] at h
      cases front with
      | nil => simp at h
      | cons first front =>
          obtain ⟨rfl, hrest⟩ := List.cons.inj h
          rw [List.cons_append, List.cons_append, unescape_pair hd, ih hrest, List.cons_append]
  | cons d rest hsingle ih =>
      rw [unescape_cons hsingle] at h
      cases front with
      | nil =>
          obtain ⟨hglyph, hnil⟩ := List.cons.inj h
          obtain rfl := unescape_eq_nil hnil
          obtain rfl : d = c := (Glyph.mk.inj hglyph).1
          exact unescape_pair hbrace behind
      | cons first front =>
          obtain ⟨rfl, hrest⟩ := List.cons.inj h
          have hseam : IsBrace d → (rest ++ c :: behind).head? ≠ some d := by
            intro hd
            cases rest with
            | nil => simp [unescape] at hrest
            | cons e rest => exact hsingle hd
          rw [List.cons_append, unescape_cons hseam, ih hrest, List.cons_append]

/-- Only braces are written twice. -/
theorem isBrace_of_isEscaped {text : List Char} {glyph : Glyph} (hmem : glyph ∈ unescape text)
    (hescaped : glyph.isEscaped = true) : IsBrace glyph.char := by
  induction text using unescape_induction with
  | nil => contradiction
  | pair c rest hbrace ih =>
      rw [unescape_pair hbrace] at hmem
      rcases List.mem_cons.mp hmem with rfl | hmem
      · exact hbrace
      · exact ih hmem
  | cons c rest hsingle ih =>
      rw [unescape_cons hsingle] at hmem
      rcases List.mem_cons.mp hmem with rfl | hmem
      · contradiction
      · exact ih hmem

theorem isClosing_of_not_isBrace {glyph : Glyph} (h : ¬ IsBrace glyph.char) :
    isClosing glyph = false := by
  rw [isClosing, beq_false_of_ne fun hclosing => h (.inr hclosing), Bool.false_and]

/-! Reading. -/

/-- All that reading one glyph can come to. -/
inductive Step : Nat → Option (List Char) → List Glyph → Template → Prop
  | nil {fuel : Nat} : Step fuel none [] []
  | literal {fuel : Nat} {glyph : Glyph} {rest : List Glyph} {later : Template} :
      isClosing glyph = false → isOpening glyph = false →
      readWithin fuel none rest = some later →
      Step (fuel + 1) none (glyph :: rest) (.literal glyph.char :: later)
  | opening {fuel : Nat} {glyph : Glyph} {rest : List Glyph} {template : Template} :
      isClosing glyph = false → isOpening glyph = true →
      readWithin fuel (some []) rest = some template → Step (fuel + 1) none (glyph :: rest) template
  | name {fuel : Nat} {seen : List Char} {glyph : Glyph} {rest : List Glyph}
      {template : Template} : isClosing glyph = false →
      readWithin fuel (some (glyph.char :: seen)) rest = some template →
      Step (fuel + 1) (some seen) (glyph :: rest) template
  | closing {fuel : Nat} {seen : List Char} {glyph : Glyph} {rest : List Glyph}
      {token : TemplateToken} {later : Template} : isClosing glyph = true →
      wildcard? seen.reverse = some token → readWithin fuel none (slip token rest) = some later →
      Step (fuel + 1) (some seen) (glyph :: rest) (token :: later)

theorem step_of_readWithin {fuel : Nat} {seen? : Option (List Char)} {glyphs : List Glyph}
    {template : Template} (h : readWithin fuel seen? glyphs = some template) :
    Step fuel seen? glyphs template := by
  match fuel, seen?, glyphs with
  | fuel, none, [] =>
      cases fuel <;> cases h <;> exact .nil
  | fuel, some seen, [] =>
      cases fuel <;> cases h
  | 0, none, glyph :: rest => cases h
  | 0, some seen, glyph :: rest => cases h
  | fuel + 1, none, glyph :: rest =>
      rw [readWithin] at h
      split at h
      · contradiction
      · next hclosing =>
        split at h
        · next hopening => exact .opening (by simpa using hclosing) hopening h
        · next hopening =>
          obtain ⟨later, hlater, rfl⟩ := Option.map_eq_some_iff.mp h
          exact .literal (by simpa using hclosing) (by simpa using hopening) hlater
  | fuel + 1, some seen, glyph :: rest =>
      rw [readWithin] at h
      split at h
      · next hclosing =>
        obtain ⟨token, htoken, hrest⟩ := Option.bind_eq_some_iff.mp h
        obtain ⟨later, hlater, rfl⟩ := Option.map_eq_some_iff.mp hrest
        exact .closing hclosing htoken hlater
      · next hclosing =>
        have hclosing : isClosing glyph = false := by simpa using hclosing
        split at h
        · next hfirst =>
          obtain rfl := List.isEmpty_iff.mp hfirst
          split at h
          · contradiction
          · exact .name hclosing h
        · split at h
          · exact .name hclosing h
          · contradiction

theorem wildcard?_of_ne {c : Char} (h : c ≠ '*') (name : List Char) :
    wildcard? (c :: name) = some (.param (String.ofList (c :: name))) := by
  refine wildcard?.eq_4 (c :: name) nofun ?_ ?_
  · rintro ⟨⟩
    exact h rfl
  · rintro more ⟨⟩
    exact h rfl

theorem wildcard?_isLiteral {name : List Char} {token : TemplateToken}
    (h : wildcard? name = some token) : token.isLiteral = false := by
  revert h
  fun_cases wildcard? name
  · simp
  · simp
  · rintro ⟨⟩
    rfl
  · rintro ⟨⟩
    rfl

theorem hasWildcardAhead_of_readWithin {fuel : Nat} {seen : List Char} {glyphs : List Glyph}
    {template : Template} (h : readWithin fuel (some seen) glyphs = some template) :
    hasWildcardAhead template = true := by
  induction fuel generalizing seen glyphs with
  | zero => cases step_of_readWithin h
  | succ fuel ih =>
      cases step_of_readWithin h with
      | name _ hrest => exact ih hrest
      | @closing _ _ _ _ token later _ htoken _ =>
          have hliteral := wildcard?_isLiteral htoken
          cases token with
          | literal c => contradiction
          | param name => rfl
          | rest name => rfl

/-- A mark slips only where the brace behind a parameter would open another one, or close none. -/
theorem slip_eq_self {fuel : Nat} {token : TemplateToken} {glyphs : List Glyph} {later : Template}
    (hbraces : ∀ glyph ∈ glyphs, glyph.isEscaped = true → IsBrace glyph.char)
    (h : readWithin fuel none (slip token glyphs) = some later)
    (hspaced : Spaced (token :: later)) : slip token glyphs = glyphs := by
  revert h
  fun_cases slip token glyphs with
  | case2 => exact fun _ => rfl
  | case1 name c rest =>
      intro h
      cases hsize : name.utf8ByteSize - 1 with
      | zero => rfl
      | succ places =>
          rw [hsize, List.modify_succ_cons] at h
          have hclosed := hspaced.1
          rcases hbraces _ List.mem_cons_self rfl with rfl | rfl
          · cases step_of_readWithin h with
            | literal _ hopening _ => contradiction
            | opening _ _ hrest =>
                rw [hasWildcardAhead_of_readWithin hrest] at hclosed
                contradiction
          · cases step_of_readWithin h with
            | literal hclosing _ _ => contradiction
            | opening hclosing _ _ => contradiction

/-- How glyphs read where no mark slips from its place. -/
inductive Reads : Option (List Char) → List Glyph → Template → Prop
  | nil : Reads none [] []
  | literal {glyph : Glyph} {rest : List Glyph} {later : Template} : isClosing glyph = false →
      isOpening glyph = false → Reads none rest later →
      Reads none (glyph :: rest) (.literal glyph.char :: later)
  | opening {glyph : Glyph} {rest : List Glyph} {template : Template} : isClosing glyph = false →
      isOpening glyph = true → Reads (some []) rest template → Reads none (glyph :: rest) template
  | name {seen : List Char} {glyph : Glyph} {rest : List Glyph} {template : Template} :
      isClosing glyph = false → Reads (some (glyph.char :: seen)) rest template →
      Reads (some seen) (glyph :: rest) template
  | closing {seen : List Char} {glyph : Glyph} {rest : List Glyph} {token : TemplateToken}
      {later : Template} : isClosing glyph = true → wildcard? seen.reverse = some token →
      slip token rest = rest → Reads none rest later →
      Reads (some seen) (glyph :: rest) (token :: later)

theorem spaced_later {token : TemplateToken} {later : Template} (h : Spaced (token :: later)) :
    later.Spaced := by
  cases token with
  | literal c => exact h
  | param name => exact h.2
  | rest name => exact h

theorem reads_of_readWithin {fuel : Nat} {seen? : Option (List Char)} {glyphs : List Glyph}
    {template : Template} (hbraces : ∀ glyph ∈ glyphs, glyph.isEscaped = true → IsBrace glyph.char)
    (h : readWithin fuel seen? glyphs = some template) (hspaced : template.Spaced) :
    Reads seen? glyphs template := by
  induction fuel generalizing seen? glyphs template with
  | zero =>
      cases step_of_readWithin h with
      | nil => exact .nil
  | succ fuel ih =>
      have hlater : ∀ {glyph rest}, glyphs = glyph :: rest →
          ∀ other ∈ rest, other.isEscaped = true → IsBrace other.char := by
        rintro glyph rest rfl other hother
        exact hbraces other (List.mem_cons_of_mem _ hother)
      cases step_of_readWithin h with
      | nil => exact .nil
      | literal hclosing hopening hrest =>
          exact .literal hclosing hopening (ih (hlater rfl) hrest hspaced)
      | opening hclosing hopening hrest =>
          exact .opening hclosing hopening (ih (hlater rfl) hrest hspaced)
      | name hclosing hrest => exact .name hclosing (ih (hlater rfl) hrest hspaced)
      | closing hclosing htoken hrest =>
          have hslip := slip_eq_self (hlater rfl) hrest hspaced
          rw [hslip] at hrest
          exact .closing hclosing htoken hslip (ih (hlater rfl) hrest (spaced_later hspaced))

/-- Only the glyph right behind a parameter decides whether a mark slips. -/
theorem slip_eq_self_iff {token : TemplateToken} {glyphs : List Glyph} :
    slip token glyphs = glyphs ↔ ∀ name c, token = .param name → glyphs.head? = some ⟨c, true⟩ →
      name.utf8ByteSize - 1 = 0 := by
  fun_cases slip token glyphs with
  | case1 name c rest =>
      cases hsize : name.utf8ByteSize - 1 with
      | zero =>
          refine iff_of_true rfl ?_
          rintro _ _ ⟨⟩ _
          exact hsize
      | succ places =>
          refine iff_of_false (by simp) ?_
          intro h
          have hzero := h name c rfl rfl
          rw [hsize] at hzero
          contradiction
  | case2 =>
      rename_i hother
      refine iff_of_true rfl ?_
      rintro name c rfl hhead
      obtain ⟨rest, rfl⟩ := List.head?_eq_some_iff.mp hhead
      exact (hother name c rest rfl rfl).elim

theorem slip_of_append {token : TemplateToken} {front behind : List Glyph}
    (h : slip token (front ++ behind) = front ++ behind) : slip token front = front := by
  rw [slip_eq_self_iff] at h ⊢
  intro name c htoken hhead
  exact h name c htoken (by rw [List.head?_append, hhead, Option.some_or])

theorem slip_of_joined {token : TemplateToken} {front behind : List Glyph} {c : Char}
    (h : slip token (front ++ ⟨c, true⟩ :: behind) = front ++ ⟨c, true⟩ :: behind) :
    slip token (front ++ [⟨c, false⟩]) = front ++ [⟨c, false⟩] := by
  cases front with
  | nil => exact slip_eq_self_iff.mpr (by simp)
  | cons glyph front =>
      rw [slip_eq_self_iff] at h ⊢
      exact h

/-- One glyph in front of two texts reads the same in front of both. -/
theorem Reads.lockstep {seen? : Option (List Char)} {glyph : Glyph} {front rest : List Glyph}
    {template tokens : Template} {fuel : Nat} (h : Reads seen? (glyph :: rest) template)
    (hfront : readWithin (fuel + 1) seen? (glyph :: front) = some tokens)
    (hkept : ∀ token, slip token rest = rest → slip token front = front) :
    ∃ after? head later before, template = head ++ later ∧ tokens = head ++ before ∧
      Reads after? rest later ∧ readWithin fuel after? front = some before := by
  cases step_of_readWithin hfront with
  | literal hclosing hopening hrest =>
      cases h with
      | literal _ _ hreads => exact ⟨none, [_], _, _, rfl, rfl, hreads, hrest⟩
      | opening _ hother _ =>
          rw [hopening] at hother
          contradiction
  | opening hclosing hopening hrest =>
      cases h with
      | literal _ hother _ =>
          rw [hopening] at hother
          contradiction
      | opening _ _ hreads => exact ⟨some [], [], _, _, rfl, rfl, hreads, hrest⟩
  | name hclosing hrest =>
      cases h with
      | name _ hreads => exact ⟨some _, [], _, _, rfl, rfl, hreads, hrest⟩
      | closing hother _ _ _ =>
          rw [hclosing] at hother
          contradiction
  | closing hclosing htoken hrest =>
      cases h with
      | name hother _ =>
          rw [hclosing] at hother
          contradiction
      | closing _ hsame hslip hreads =>
          obtain rfl := Option.some.inj (htoken.symm.trans hsame)
          rw [hkept _ hslip] at hrest
          exact ⟨none, [_], _, _, rfl, rfl, hreads, hrest⟩

/-- A front that reads by itself reads so within a whole. -/
theorem Reads.split {seen? : Option (List Char)} {front behind : List Glyph}
    {template tokens : Template} {fuel : Nat} (h : Reads seen? (front ++ behind) template)
    (hfront : readWithin fuel seen? front = some tokens) :
    ∃ later, template = tokens ++ later ∧ Reads none behind later := by
  induction front generalizing seen? template tokens fuel with
  | nil =>
      cases step_of_readWithin hfront with
      | nil => exact ⟨template, rfl, h⟩
  | cons glyph front ih =>
      cases fuel with
      | zero => cases step_of_readWithin hfront
      | succ fuel =>
          obtain ⟨after?, head, later, before, rfl, rfl, hreads, hrest⟩ :=
            h.lockstep hfront fun _ => slip_of_append
          obtain ⟨last, rfl, hlast⟩ := ih hreads hrest
          exact ⟨last, (List.append_assoc ..).symm, hlast⟩

/-- A front that ends in an opening brace does not read by itself, where the brace makes a pair with
the next one. -/
theorem Reads.not_opening {seen? : Option (List Char)} {front behind : List Glyph}
    {template : Template} {fuel : Nat} (h : Reads seen? (front ++ ⟨'{', true⟩ :: behind) template)
    (tokens : Template) : readWithin fuel seen? (front ++ [⟨'{', false⟩]) ≠ some tokens := by
  intro hfront
  induction front generalizing seen? template tokens fuel with
  | nil =>
      cases step_of_readWithin hfront with
      | literal _ hopening _ => contradiction
      | opening _ _ hrest => cases step_of_readWithin hrest
      | name _ hrest => cases step_of_readWithin hrest
      | closing hclosing _ _ => contradiction
  | cons glyph front ih =>
      cases fuel with
      | zero => cases step_of_readWithin hfront
      | succ fuel =>
          obtain ⟨after?, head, later, before, rfl, rfl, hreads, hrest⟩ :=
            h.lockstep hfront fun _ => slip_of_joined
          exact ih hreads _ hrest

/-- A name goes on up to the brace that closes it. -/
theorem Reads.exists_name {seen : List Char} {glyphs : List Glyph} {template : Template}
    (h : Reads (some seen) glyphs template) :
    ∃ tail token later, template = token :: later ∧
      wildcard? (seen.reverse ++ tail) = some token := by
  generalize hseen : some seen = seen? at h
  induction h generalizing seen with
  | nil => contradiction
  | literal => contradiction
  | opening => contradiction
  | @name _ glyph _ _ _ _ ih =>
      obtain rfl := Option.some.inj hseen
      obtain ⟨tail, token, later, htemplate, htoken⟩ := ih rfl
      refine ⟨glyph.char :: tail, token, later, htemplate, ?_⟩
      rw [← htoken, List.reverse_cons, List.append_assoc]
      rfl
  | @closing _ _ _ token later _ htoken _ _ _ =>
      obtain rfl := Option.some.inj hseen
      exact ⟨[], token, later, rfl, by rw [List.append_nil, htoken]⟩

theorem Reads.behind_name {seen : List Char} {front behind : List Glyph} {template : Template}
    (h : Reads (some seen) (front ++ behind) template)
    (hfront : ∀ glyph ∈ front, isClosing glyph = false) :
    Reads (some ((front.map Glyph.char).reverse ++ seen)) behind template := by
  induction front generalizing seen with
  | nil => exact h
  | cons glyph front ih =>
      obtain ⟨hglyph, hrest⟩ := List.forall_mem_cons.mp hfront
      cases h with
      | name _ hreads =>
          rw [List.map_cons, List.reverse_cons, List.append_assoc]
          exact ih hreads hrest
      | closing hclosing _ _ _ =>
          rw [hglyph] at hclosing
          contradiction

theorem readWithin_name {name seen : List Char} (hseen : seen ≠ [])
    (hname : ∀ c ∈ name, isNameTail c = true ∧ ¬ IsBrace c) (fuel : Nat) (rest : List Glyph) :
    readWithin (fuel + name.length) (some seen) (name.map (Glyph.mk · false) ++ rest) =
      readWithin fuel (some (name.reverse ++ seen)) rest := by
  induction name generalizing seen with
  | nil => rfl
  | cons c name ih =>
      obtain ⟨⟨htail, hbrace⟩, hlater⟩ := List.forall_mem_cons.mp hname
      rw [List.map_cons, List.cons_append, List.length_cons, ← Nat.add_assoc, readWithin,
        isClosing_of_not_isBrace hbrace, if_neg Bool.false_ne_true,
        if_neg (mt List.isEmpty_iff.mp hseen), if_pos htail, ih (List.cons_ne_nil c seen) hlater,
        List.reverse_cons, List.append_assoc]
      rfl

theorem slip_nil (token : TemplateToken) : slip token [] = [] := by
  cases token <;> rfl

/-- A wildcard by itself. -/
theorem read_wildcard {first : Char} {name : List Char} (hfirst : ¬ IsBrace first)
    (hname : ∀ c ∈ name, isNameTail c = true ∧ ¬ IsBrace c) :
    read (⟨'{', false⟩ :: ((first :: name).map (Glyph.mk · false) ++ [⟨'}', false⟩])) =
      (wildcard? (first :: name)).map fun token => [token] := by
  have hclosing : isClosing ⟨first, false⟩ = false := isClosing_of_not_isBrace hfirst
  have hlength : (⟨'{', false⟩ :: ((first :: name).map (Glyph.mk · false) ++
      [⟨'}', false⟩]) : List Glyph).length = 1 + name.length + 1 + 1 := by
    simp only [List.length_cons, List.length_append, List.length_map, List.length_nil]
    omega
  rw [read, hlength]
  calc readWithin (1 + name.length + 1 + 1) none
        (⟨'{', false⟩ :: ((first :: name).map (Glyph.mk · false) ++ [⟨'}', false⟩]))
    _ = readWithin (1 + name.length + 1) (some [])
        ((first :: name).map (Glyph.mk · false) ++ [⟨'}', false⟩]) := rfl
    _ = readWithin (1 + name.length) (some [first])
        (name.map (Glyph.mk · false) ++ [⟨'}', false⟩]) := by
      rw [List.map_cons, List.cons_append, readWithin, hclosing, if_neg Bool.false_ne_true,
        List.isEmpty_nil, if_pos rfl, if_neg fun hbrace => hfirst (.inr hbrace)]
    _ = readWithin 1 (some (name.reverse ++ [first])) [⟨'}', false⟩] :=
      readWithin_name (List.cons_ne_nil first []) hname ..
    _ = (wildcard? (first :: name)).bind fun token =>
        (readWithin 0 none (slip token [])).map (token :: ·) := by
      rw [readWithin, if_pos (by decide), List.reverse_append, List.reverse_reverse]
      rfl
    _ = (wildcard? (first :: name)).map fun token => [token] := by
      simp only [slip_nil, readWithin, Option.map_some]
      exact Option.map_eq_bind.symm

/-! A part in front of others. -/

theorem parse?_eq (text : List Char) :
    parse? (String.ofList text) = readWithin (unescape text).length none (unescape text) := by
  rw [parse?, String.toList_ofList, read]

/-- A part that reads by itself, in front of nothing or of an opening brace. -/
theorem Reads.of_part {part behind : List Char} {template tokens : Template}
    (h : Reads none (unescape (part ++ behind)) template)
    (hpart : parse? (String.ofList part) = some tokens)
    (hbehind : ∀ c ∈ behind.head?, c = '{') :
    ∃ later, template = tokens ++ later ∧ Reads none (unescape behind) later := by
  rw [parse?_eq] at hpart
  have hseam : unescape (part ++ behind) = unescape part ++ unescape behind := by
    refine unescape_append ?_
    intro c hbrace hlast hhead
    obtain rfl := hbehind c hhead
    obtain ⟨behind, rfl⟩ := List.head?_eq_some_iff.mp hhead
    obtain ⟨front, hfront⟩ := List.getLast?_eq_some_iff.mp hlast
    rw [unescape_join hbrace hfront] at h
    rw [hfront] at hpart
    exact h.not_opening tokens hpart
  rw [hseam] at h
  exact h.split hpart

/-! Matching. -/

theorem Matches.split {first second : Template} {path : List Char} {values : List (List Char)}
    (h : Matches (first ++ second) path values) :
    ∃ front back taken left, path = front ++ back ∧ values = taken ++ left ∧
      first.Matches front taken ∧ second.Matches back left := by
  induction first generalizing path values with
  | nil => exact ⟨[], path, [], values, rfl, rfl, .nil, h⟩
  | cons token first ih =>
      rw [List.cons_append] at h
      generalize htail : first ++ second = tail at h
      cases h with
      | @literal c _ path _ hlater =>
          subst htail
          obtain ⟨front, back, taken, left, rfl, rfl, hfirst, hsecond⟩ := ih hlater
          exact ⟨c :: front, back, taken, left, rfl, rfl, .literal hfirst, hsecond⟩
      | @param name _ captured path _ hne hslash hlater =>
          subst htail
          obtain ⟨front, back, taken, left, rfl, rfl, hfirst, hsecond⟩ := ih hlater
          exact ⟨captured ++ front, back, captured :: taken, left,
            (List.append_assoc ..).symm, rfl, .param hne hslash hfirst, hsecond⟩
      | rest hne =>
          obtain ⟨rfl, rfl⟩ := List.append_eq_nil_iff.mp htail
          exact ⟨path, [], [path], [], by simp, rfl, .rest hne, .nil⟩

theorem Matches.length_names {template : Template} {path : List Char} {values : List (List Char)}
    (h : template.Matches path values) : template.names.length = values.length := by
  induction h with
  | nil => rfl
  | literal _ ih => exact ih
  | param _ _ _ ih => exact congrArg Nat.succ ih
  | rest _ => rfl

end Template

end Turnpike
