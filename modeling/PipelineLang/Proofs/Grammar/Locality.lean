import PipelineLang.Proofs.Grammar.Frame

/-!
# Productions with text in front and behind

No production of a configuration, a pipeline, a variable or a route looks beyond a text that ends
its last line, if what stands behind opens afresh: what it finds there agrees with what it finds in
the text alone (`config_within`, `namedPipeline_within`, `typedVariable_within`, `route_within`).

A pipeline may break off with an arrow behind which no step can be read (`Stuck`). A larger text may
complete that step, so a pipeline is only the same where it does not leave its cursor so (`Local`).
-/

namespace PipelineLang

instance : Framed Span := .shifted Span.shift
instance : Framed SyntaxReport := .shifted SyntaxReport.shift
instance : Framed ConfigValue := .fixed ConfigValue
instance : Framed ConfigProperty := .fixed ConfigProperty
instance : Framed Payload := .fixed Payload
instance : Framed Step := .shifted Step.shift
instance : Framed Branch := .shifted Branch.shift
instance : Framed (Spanned Config) := .shifted fun n => Spanned.shift n id

instance : Framed (Spanned NamedPipeline) :=
  .shifted fun n => Spanned.shift n (NamedPipeline.shift n)
instance : Framed (Spanned Variable) := .shifted fun n => Spanned.shift n (Variable.shift n)
instance : Framed (Spanned Route) := .shifted fun n => Spanned.shift n (Route.shift n)
instance : Framed (Spanned TestSuite) := .shifted fun n => Spanned.shift n id
instance : Framed Grammar.ConfigLine := .shifted Grammar.ConfigLine.shift

namespace Grammar

open Cursor Utf8

variable {front back : List Char} {c d : Cursor}

/-! ## Configuration blocks -/

theorem configWord_within (h : Closed back c) :
    Agrees front back (configWord c) (configWord (c.within front back)) := by
  have hrun : (c.within front back).takeWhile
      (fun x => !Blank.isAscii x && x != '#' && x != '\x7d') = _ := h.run_within rfl
  simp only [configWord, hrun, Framed.within, Token.shift, Span.isEmpty_shift]
  split
  · exact Agrees.none
  · exact Agrees.some ⟨trivial, h.run rfl⟩

theorem fallback_within (h : Closed back c) (hread : Sealed back c ∨ fallback c ≠ none) :
    Agrees front back (fallback c) (fallback (c.within front back)) := by
  rw [fallback, fallback, h.blanks_within]
  refine (h.blanks.chars (by decide)).bind fun bars hx hbars => ?_
  have hclosed : Closed back bars.blanks := Closed.blanks hbars
  simp only [Framed.within, Closed.blanks_within hbars, hclosed.peek]
  rw [fallback, hx] at hread
  simp only [bind, Option.bind_some] at hread
  split
  · next hquote =>
    rw [if_pos hquote] at hread
    have hle : c ≤ bars.blanks := (le_blanks c).trans ((chars_le hx).trans (le_blanks bars))
    exact hclosed.quotedText (hread.imp_left fun h => h.of_le hle hclosed)
  · exact configWord_within hclosed

/-- Where a property ends, no default is read. -/
theorem fallback_of_atPropertyEnd (h : atPropertyEnd c = true) : fallback c = none := by
  have hbars : c.blanks.chars ['|', '|'] = none := by
    rw [chars, char_eq_none, Option.bind_none]
    intro hbar
    rw [atPropertyEnd, peek, hbar] at h
    exact absurd h (by decide)
  rw [fallback, hbars]
  rfl

theorem atPropertyEnd_within (h : Closed back c) :
    atPropertyEnd (c.within front back) = atPropertyEnd c := by
  rw [atPropertyEnd, h.blanks_within, h.blanks.peek, atPropertyEnd]

theorem configValue_within (h : Closed back c) (hread : Sealed back c ∨
      ∃ value d, configValue c = some (value, d) ∧ atPropertyEnd d = true) :
    Agrees front back (configValue c) (configValue (c.within front back)) := by
  rw [configValue] at hread
  rw [configValue, configValue, h.peek]
  split
  · next hpeek =>
    refine (h.char (by decide)).bind fun dollar hx hdollar => ?_
    refine (Closed.identifier hdollar).bind ?_
    rintro ⟨name, next⟩ hx' ⟨-, hnext⟩
    have hnext : Closed back next := hnext
    simp only [hpeek, bind, hx, Option.bind_some, hx'] at hread
    by_cases hfallback : Sealed back next ∨ fallback next ≠ none
    · rcases (fallback_within hnext hfallback : Agrees front back _ _).cases with
        ⟨hx, hy⟩ | ⟨⟨value, last⟩, hx, hy, -, hlast⟩
      · simp only [Framed.within, hx, hy]
        exact Agrees.some ⟨trivial, hnext⟩
      · simp only [Framed.within, hx, hy]
        exact Agrees.some ⟨trivial, hlast⟩
    · -- the value ends behind the name, in the larger text as well
      obtain ⟨hopen, hnone⟩ := not_or.1 hfallback
      rw [not_not] at hnone
      rcases hread with hsealed | ⟨value, d, heq, hend⟩
      · have hle : c ≤ next := (char_lt hx).le.trans (identifier_lt hx').le
        exact absurd (hsealed.of_le hle hnext) hopen
      · simp only [hnone] at heq
        cases heq
        have hnone' : fallback (next.within front back) = none :=
          fallback_of_atPropertyEnd ((atPropertyEnd_within hnext).trans hend)
        simp only [Framed.within, hnone, hnone']
        exact Agrees.some ⟨trivial, hnext⟩
  · next hpeek =>
    have hquoted : Sealed back c ∨ c.quotedText ≠ none := by
      refine hread.imp_right fun ⟨value, d, heq, _⟩ hnone => ?_
      simp only [hpeek, hnone, bind, Option.bind_none] at heq
      cases heq
    refine (h.quotedText hquoted).bind_read fun value next hnext => ?_
    exact Agrees.some ⟨trivial, hnext⟩
  · refine (configWord_within h).bind_read fun word next hnext => ?_
    exact Agrees.some ⟨trivial, hnext⟩

theorem propertyKey_within (h : Closed back c) :
    Agrees front back (propertyKey c) (propertyKey (c.within front back)) := by
  refine h.identifier.bind_read fun key next hnext => ?_
  refine (hnext.blanks_char (by decide)).bind_cursor fun colon hcolon => ?_
  exact Agrees.some ⟨trivial, hcolon⟩

theorem property_within (h : Closed back c) (hread : Sealed back c ∨ property c ≠ none) :
    Agrees front back (property c) (property (c.within front back)) := by
  refine (propertyKey_within h).bind ?_
  rintro ⟨key, colon⟩ hx ⟨-, hcolon⟩
  have hclosed : Closed back colon.blanks := Closed.blanks hcolon
  have hvalue : Sealed back colon.blanks ∨
      ∃ value d, configValue colon.blanks = some (value, d) ∧ atPropertyEnd d = true := by
    refine hread.imp (fun h => h.of_le ((propertyKey_lt hx).le.trans (le_blanks colon)) hclosed)
      fun hread => ?_
    simp only [property, bind, hx, Option.bind_some] at hread
    cases hvalue : configValue colon.blanks with
    | none => rw [hvalue] at hread; exact absurd rfl hread
    | some r =>
      refine ⟨r.1, r.2, rfl, ?_⟩
      by_contra hend
      rw [hvalue, Option.bind_some, if_neg hend] at hread
      exact hread rfl
  simp only [Framed.within, Closed.blanks_within hcolon]
  refine (configValue_within hclosed hvalue).bind_read fun value next hnext => ?_
  simp only [atPropertyEnd_within hnext]
  split
  · exact Agrees.some ⟨trivial, hnext⟩
  · exact Agrees.none

theorem faultyProperty_within (h : Closed back c) :
    Agrees front back (faultyProperty c) (faultyProperty (c.within front back)) := by
  refine (propertyKey_within h).bind_read fun key colon hcolon => ?_
  simp only [h.line, h.lineEnd_within, offset_within, ← Span.ofLength_shift]
  exact Agrees.some ⟨trivial, h.lineEnd⟩

theorem propertyKey_of_isFresh (h : IsFresh c.rest) : propertyKey c = none := by
  cases hkey : c.identifier with
  | none => rw [propertyKey, hkey]; rfl
  | some r =>
    rw [propertyKey, hkey]
    simp only [bind, Option.bind_some, h.name hkey (Or.inr rfl), Option.bind_none]

/-- What is no property of a clean block has no key either. -/
theorem propertyKey_of_clean (hproperty : property c.layout = none)
    (h : ∀ l d, configLine c = some (l, d) → l.report? = none) : propertyKey c.layout = none := by
  cases hkey : propertyKey c.layout with
  | none => rfl
  | some r =>
    simp only [configLine, hproperty, faultyProperty, hkey, bind, Option.bind_some] at h
    cases h _ _ rfl

theorem configLine_within (hback : OpensAfresh back) (h : Closed back c)
    (hread : Sealed back c ∨ ∀ l d, configLine c = some (l, d) → l.report? = none) :
    Agrees front back (configLine c) (configLine (c.within front back)) := by
  rcases h.layout_cases front hback with ⟨hlayout, heq⟩ | ⟨hfresh, hfresh'⟩
  · by_cases hproperty : Sealed back c.layout ∨ property c.layout ≠ none
    · rw [configLine, configLine, heq]
      rcases (property_within hlayout hproperty : Agrees front back _ _).cases with
        ⟨hx, hy⟩ | ⟨⟨p, next⟩, hx, hy, -, hnext⟩
      · simp only [hx, hy]
        exact (faultyProperty_within hlayout).map fun r hr => ⟨rfl, trivial, hr.2⟩
      · simp only [hx, hy]
        exact Agrees.some ⟨trivial, hnext⟩
    · obtain ⟨hopen, hnone⟩ := not_or.1 hproperty
      have hkey := propertyKey_of_clean (not_not.1 hnone)
        (hread.resolve_left fun hsealed => hopen (hsealed.of_le (le_layout c) hlayout))
      have hkey' : propertyKey (c.within front back).layout = none := by
        obtain ⟨heq', -⟩ : Agrees front back (propertyKey c.layout) _ := propertyKey_within hlayout
        rw [heq, heq', hkey]
        rfl
      rw [configLine_eq_none hkey, configLine_eq_none hkey']
      exact Agrees.none
  · rw [configLine_eq_none (propertyKey_of_isFresh hfresh),
      configLine_eq_none (propertyKey_of_isFresh hfresh')]
    exact Agrees.none

/-- The closing brace is found behind layout. -/
theorem brace_within (hback : OpensAfresh back) (h : Closed back c) :
    Agrees front back (c.layout.char '\x7d') ((c.within front back).layout.char '\x7d') := by
  rcases h.layout_cases front hback with ⟨hlayout, heq⟩ | ⟨hfresh, hfresh'⟩
  · rw [heq]
    exact hlayout.char (by decide)
  · rw [hfresh.brace, hfresh'.brace]
    exact Agrees.none

theorem ConfigLine.property?_shift (n : Nat) :
    ConfigLine.property? ∘ ConfigLine.shift n = ConfigLine.property? :=
  funext fun l => by cases l <;> rfl

theorem ConfigLine.report?_shift (n : Nat) :
    ConfigLine.report? ∘ ConfigLine.shift n = fun l => l.report?.map (SyntaxReport.shift n) :=
  funext fun l => by cases l <;> rfl

/-- Nothing is reported of the lines of a clean block. -/
theorem configLine_of_clean {word blank inside : Cursor} {name : Token}
    (hword : c.keyword "config".toList = some word) (hblank : word.someBlanks = some blank)
    (hname : blank.identifier = some (name, d)) (hinside : d.blanks.char '\x7b' = some inside)
    (h : ∀ v rs e, config c = some (v, rs, e) → rs = []) :
    ∀ l ∈ (inside.many configLine).1, l.report? = none := by
  simp only [config, bind, hword, hblank, hname, hinside, Option.bind_some] at h
  cases hbrace : (inside.many configLine).2.layout.char '\x7d' with
  | none =>
    rw [hbrace] at h
    exact absurd (h _ _ _ rfl) (List.append_ne_nil_of_right_ne_nil _ (List.cons_ne_nil _ _))
  | some close =>
    rw [hbrace] at h
    exact List.filterMap_eq_nil_iff.1 (h _ _ _ rfl)

theorem config_within (hback : OpensAfresh back) (h : Closed back c)
    (hread : Sealed back c ∨ ∀ v rs d, config c = some (v, rs, d) → rs = []) :
    Agrees front back (config c) (config (c.within front back)) := by
  refine (h.keyword (by decide)).bind fun word hx hword => ?_
  refine (Closed.someBlanks hword).bind fun blank hx' hblank => ?_
  refine (Closed.identifier hblank).bind ?_
  rintro ⟨name, next⟩ hx'' ⟨-, hnext⟩
  refine (Closed.blanks_char hnext (by decide)).bind fun inside hx''' hinside => ?_
  have hle : c ≤ inside := (keyword_lt (by decide) hx).le.trans ((someBlanks_lt hx').le.trans
    ((identifier_lt hx'').le.trans ((le_blanks next).trans (char_lt hx''').le)))
  obtain ⟨hmany, hlast⟩ := many_within front (fun _ _ _ => configLine_lt) hinside fun d hd hclosed =>
    configLine_within hback hclosed <| hread.imp
      (fun hsealed => hsealed.of_le (hle.trans (hd.le fun _ _ _ => configLine_lt)) hclosed)
      fun hclean l e hl => configLine_of_clean hx hx' hx'' hx''' hclean l
        (hd.mem_many (fun _ _ _ => configLine_lt) hl)
  simp only [Framed.within] at hmany ⊢
  rw [hmany]
  simp only [List.filterMap_map, ConfigLine.property?_shift, ConfigLine.report?_shift,
    ← List.map_filterMap]
  rcases (brace_within hback hlast : Agrees front back _ _).cases with
    ⟨hx, hy⟩ | ⟨close, hx, hy, hclose⟩
  · simp only [hx, hy]
    refine Agrees.of_eq ?_ ⟨trivial, fun _ _ => trivial, hlast⟩
    simp only [Framed.within, List.map_append]
    rfl
  · simp only [hx, hy]
    exact Agrees.some ⟨trivial, fun _ _ => trivial, hclose⟩

/-! ## Steps -/

theorem payload_within (h : Closed back c) (hread : back = [] ∨ payload c ≠ none) :
    Agrees front back (payload c) (payload (c.within front back)) := by
  rw [payload] at hread
  rw [payload, payload, h.peek]
  split
  · next x hx =>
    rw [hx] at hread
    simp only at hread
    split
    · next htick =>
      rw [if_pos htick] at hread
      have hticks : back = [] ∨ c.backtickText ≠ none :=
        hread.imp_right fun hread hnone => hread (by rw [hnone]; rfl)
      exact (h.backtickText hticks).map fun r hr => ⟨rfl, trivial, trivial, hr.2⟩
    · next htick =>
      split
      · next hquote =>
        rw [if_neg htick, if_pos hquote] at hread
        have hquotes : Sealed back c ∨ c.quotedText ≠ none :=
          hread.imp Or.inl fun hread hnone => hread (by rw [hnone]; rfl)
        exact (h.quotedText hquotes).map fun r hr => ⟨rfl, trivial, trivial, hr.2⟩
      · refine h.identifier.bind_read fun t next hnext => ?_
        simp only [hnext.atTokenEnd]
        split
        · exact Agrees.some ⟨trivial, trivial, hnext⟩
        · exact Agrees.none
  · exact Agrees.none

theorem call_within {start : Nat} (h : Closed back c) (hread : back = [] ∨ call start c ≠ none) :
    Agrees front back (call start c)
      (call (start + byteLength front) (c.within front back)) := by
  rcases (h.identifier : Agrees front back _ _).cases with
    ⟨hx, hy⟩ | ⟨⟨name, next⟩, hx, hy, -, hnext⟩
  · rw [call, call, hx, hy]
    exact Agrees.none
  rcases (hnext.blanks_char (by decide) : Agrees front back (next.blanks.char ':') _).cases with
    ⟨hx', hy'⟩ | ⟨colon, hx', hy', hcolon⟩
  · simp only [call, bind, Option.bind_some, Framed.within, hx, hy, hx', hy']
    exact Agrees.none
  · simp only [call, bind, Option.bind_some, Framed.within, hx, hy, hx', hy',
      Closed.blanks_within hcolon]
      at hread ⊢
    have hpayload : back = [] ∨ payload colon.blanks ≠ none :=
      hread.imp_right fun hread hnone => hread (by rw [hnone]; rfl)
    refine (payload_within (Closed.blanks hcolon) hpayload).bind ?_
    rintro ⟨value, span, last⟩ _ hlast
    exact Agrees.some ⟨trivial, hlast.2.2⟩

theorem resultWord_within (h : Closed back c) :
    Agrees front back (resultWord c) (resultWord (c.within front back)) := by
  refine (h.keyword (by decide)).bind_cursor fun next hnext => ?_
  simp only [hnext.blanks_within, hnext.blanks.peek]
  split
  · exact Agrees.none
  · exact Agrees.some hnext

/-! ## Pipelines -/

/-- An arrow stands behind the layout, but no step. -/
def Stuck (c : Cursor) : Prop :=
  ∃ arrow, c.layout.chars ['|', '>'] = some arrow ∧ resultWord arrow.blanks = none ∧
    call c.layout.offset arrow.blanks = none

/-- What stands behind the text cannot complete a step that is broken off at the cursor. -/
def Clear (back : List Char) (c : Cursor) : Prop := back = [] ∨ ¬Stuck c

/-- The reader finds the same in a larger text, unless it leaves a step that is broken off. -/
def Local (front back : List Char) (read : PipelineReader) : Prop :=
  ∀ c, Closed back c → Clear back (read c).2.2 →
    read (c.within front back) = Framed.within front back (read c) ∧ Closed back (read c).2.2

theorem ownedStep_of_stuck (inner : Option (Nat → PipelineReader)) (label : Option Nat)
    (h : Stuck c) : ownedStep inner label c = none := by
  obtain ⟨arrow, harrow, hresult, hcall⟩ := h
  simp only [ownedStep, step, bind, harrow, Option.bind_some, hresult, hcall, Option.map_none,
    ite_self]

theorem Stuck.head (h : Stuck c) : ∃ xs, c.layout.rest = '|' :: xs := by
  obtain ⟨arrow, harrow, -, -⟩ := h
  by_contra hrest
  rw [chars, char_eq_none, Option.bind_none] at harrow
  · cases harrow
  · exact fun hhead => hrest (List.head?_eq_some_iff.1 hhead)

theorem ownedBranch_of_stuck (inner : Nat → PipelineReader) (label : Option Nat) (h : Stuck c) :
    ownedBranch inner label c = none := by
  obtain ⟨xs, hrest⟩ := h.head
  have hname : c.layout.identifier = none := by
    rw [identifier_eq, peek, hrest]
    rfl
  simp only [ownedBranch, branch, bind, hname, Option.bind_none, ite_self]

theorem branchHead_within (h : Closed back c) :
    Agrees front back (branchHead c) (branchHead (c.within front back)) := by
  refine h.identifier.bind_read fun label next hnext => ?_
  refine (hnext.blanks_char (by decide)).bind_cursor fun opening hopening => ?_
  have hdigits := hopening.blanks.run (p := Char.isDigit) rfl
  simp only [hopening.blanks_within, hopening.blanks.run_within (p := Char.isDigit) rfl,
    Framed.within, Token.shift, Span.isEmpty_shift]
  split
  · exact Agrees.none
  · refine (hdigits.blanks_char (by decide)).bind_cursor fun closing hclosing => ?_
    refine (hclosing.blanks_char (by decide)).bind_cursor fun colon hcolon => ?_
    exact Agrees.some ⟨⟨trivial, trivial⟩, hcolon⟩

theorem statusReports_shift (n status : Nat) (s : Span) :
    statusReports status (s.shift n) = (statusReports status s).map (SyntaxReport.shift n) := by
  rw [statusReports, statusReports]
  split <;> rfl

theorem branch_within {inner : Nat → PipelineReader}
    (hinner : ∀ label, Local front back (inner label)) (h : Closed back c)
    (hclear : ∀ b d, branch inner c = some (b, d) → Clear back d) :
    Agrees front back (branch inner c) (branch inner (c.within front back)) := by
  rw [branch_eq] at hclear
  rw [branch_eq, branch_eq]
  rcases (branchHead_within h : Agrees front back _ _).cases with
    ⟨hx, hy⟩ | ⟨⟨⟨label, digits⟩, colon⟩, hx, hy, -, hcolon⟩
  · rw [hx, hy]
    exact Agrees.none
  · rw [hx] at hclear
    obtain ⟨hread, hlast⟩ := hinner c.column colon hcolon (hclear _ _ rfl)
    rw [hx, hy]
    refine Agrees.of_eq ?_ ⟨⟨trivial, fun _ _ => trivial⟩, hlast⟩
    simp only [Framed.within, column_within] at hread ⊢
    simp only [branchFrom, hread, Token.shift, statusReports_shift, List.map_append, Branch.shift,
      Step.shiftAll_eq_map]

theorem ownedBranch_of_isFresh (inner : Nat → PipelineReader) (label : Option Nat)
    (h : IsFresh c.layout.rest) : ownedBranch inner label c = none := by
  have hbranch : branchHead c.layout = none := by
    cases hname : c.layout.identifier with
    | none => rw [branchHead, hname]; rfl
    | some r =>
      rw [branchHead, hname]
      simp only [bind, Option.bind_some, h.name hname (Or.inl rfl), Option.bind_none]
  simp only [ownedBranch, branch_eq, hbranch, Option.map_none, ite_self]

theorem ownedBranch_within (hback : OpensAfresh back) {inner : Nat → PipelineReader}
    (hinner : ∀ label, Local front back (inner label)) {label : Option Nat} (h : Closed back c)
    (hclear : ∀ b d, ownedBranch inner label c = some (b, d) → Clear back d) :
    Agrees front back (ownedBranch inner label c)
      (ownedBranch inner label (c.within front back)) := by
  rcases h.layout_cases front hback with ⟨hlayout, heq⟩ | ⟨hfresh, hfresh'⟩
  · have hright : isRightOf label (c.layout.within front back) = isRightOf label c.layout := rfl
    simp only [ownedBranch, heq, hright] at hclear ⊢
    split
    · next hlabel =>
      rw [if_pos hlabel] at hclear
      exact branch_within hinner hlayout hclear
    · exact Agrees.none
  · rw [ownedBranch_of_isFresh inner label hfresh, ownedBranch_of_isFresh inner label hfresh']
    exact Agrees.none

theorem choice_within (hback : OpensAfresh back) {inner : Option (Nat → PipelineReader)}
    (honward : ∀ read ∈ inner, ∀ label, Onward (read label))
    (hinner : ∀ read ∈ inner, ∀ label, Local front back (read label)) {label : Option Nat}
    {start : Nat} (h : Closed back c) (hclear : Clear back (choice inner label start c).2) :
    choice inner label (start + byteLength front) (c.within front back)
      = Framed.within front back (choice inner label start c) ∧
      Closed back (choice inner label start c).2 := by
  cases inner with
  | none =>
    refine ⟨?_, h.lineEnd⟩
    rw [choice, choice, h.lineEnd_within]
    rfl
  | some read =>
    have hmoves : ∀ c a d, ownedBranch read label c = some (a, d) → c < d :=
      fun _ _ _ => ownedBranch_lt (honward read rfl)
    obtain ⟨hmany, hlast⟩ := many_within front hmoves h fun d hd hclosed =>
      ownedBranch_within hback (hinner read rfl) hclosed fun b e hread => by
        have hafter := hd.clear_after hmoves
          (fun c hc => ownedBranch_of_stuck read label (not_not.1 (not_or.1 hc).2)) hclear
        rwa [after, hread] at hafter
    refine ⟨?_, hlast⟩
    rw [choice, choice, hmany]
    simp only [Framed.within, List.map_map, List.flatMap_map, List.map_flatMap, Step.shift,
      Branch.shiftAll_eq_map]
    rfl

theorem ownedStep_of_isFresh (inner : Option (Nat → PipelineReader)) (label : Option Nat)
    (h : IsFresh c.layout.rest) : ownedStep inner label c = none := by
  simp only [ownedStep, step, bind, h.arrow, Option.bind_none, ite_self]

theorem step_within (hback : OpensAfresh back) {inner : Option (Nat → PipelineReader)}
    (honward : ∀ read ∈ inner, ∀ label, Onward (read label))
    (hinner : ∀ read ∈ inner, ∀ label, Local front back (read label)) {label : Option Nat}
    (h : Closed back c)
    (hcall : ∀ arrow, c.chars ['|', '>'] = some arrow → resultWord arrow.blanks = none →
      back = [] ∨ call c.offset arrow.blanks ≠ none)
    (hclear : ∀ s d, step inner label c = some (s, d) → Clear back d) :
    Agrees front back (step inner label c) (step inner label (c.within front back)) := by
  rcases (h.chars (by decide) : Agrees front back (c.chars ['|', '>']) _).cases with
    ⟨hx, hy⟩ | ⟨arrow, hx, hy, harrow⟩
  · rw [step, step, hx, hy]
    exact Agrees.none
  have hblanks : (arrow.within front back).blanks = _ := Closed.blanks_within harrow
  rcases (resultWord_within (Closed.blanks harrow) : Agrees front back _ _).cases with
    ⟨hx', hy'⟩ | ⟨behind, hx', hy', hbehind⟩
  · simp only [step, bind, hx, hy, Option.bind_some, Framed.within, hblanks, hx', hy']
    exact (call_within (Closed.blanks harrow) (hcall arrow hx hx')).map fun r hr =>
      ⟨rfl, ⟨trivial, fun _ hmem => absurd hmem List.not_mem_nil⟩, hr.2⟩
  · simp only [step, bind, hx, Option.bind_some, hx'] at hclear
    obtain ⟨hchoice, hlast⟩ := choice_within hback honward hinner hbehind (hclear _ _ rfl)
    simp only [step, bind, hx, hy, Option.bind_some, Framed.within, hblanks, hx', hy']
    exact Agrees.of_eq hchoice ⟨⟨trivial, fun _ _ => trivial⟩, hlast⟩

theorem ownedStep_within (hback : OpensAfresh back) {inner : Option (Nat → PipelineReader)}
    (honward : ∀ read ∈ inner, ∀ label, Onward (read label))
    (hinner : ∀ read ∈ inner, ∀ label, Local front back (read label)) {label : Option Nat}
    (h : Closed back c) (hclear : Clear back (after (ownedStep inner label) c)) :
    Agrees front back (ownedStep inner label c) (ownedStep inner label (c.within front back)) := by
  rcases h.layout_cases front hback with ⟨hlayout, heq⟩ | ⟨hfresh, hfresh'⟩
  · have hright : isRightOf label (c.layout.within front back) = isRightOf label c.layout := rfl
    simp only [ownedStep, heq, hright]
    split
    · next hlabel =>
      refine step_within hback honward hinner hlayout (fun arrow harrow hresult => ?_)
        fun s d hread => ?_
      · by_cases hcall : call c.layout.offset arrow.blanks = none
        · have hstuck : Stuck c := ⟨arrow, harrow, hresult, hcall⟩
          rw [after, ownedStep_of_stuck inner label hstuck] at hclear
          exact Or.inl (hclear.resolve_right (not_not.2 hstuck))
        · exact Or.inr hcall
      · simp only [after, ownedStep, if_pos hlabel, hread] at hclear
        exact hclear
    · exact Agrees.none
  · rw [ownedStep_of_isFresh inner label hfresh, ownedStep_of_isFresh inner label hfresh']
    exact Agrees.none

theorem local_steps (hback : OpensAfresh back) {inner : Option (Nat → PipelineReader)}
    (honward : ∀ read ∈ inner, ∀ label, Onward (read label))
    (hinner : ∀ read ∈ inner, ∀ label, Local front back (read label)) (label : Option Nat) :
    Local front back (steps inner label) := by
  intro c h hclear
  obtain ⟨hmany, hlast⟩ := many_within front (fun _ _ _ => ownedStep_lt honward) h
    fun d hd hclosed => ownedStep_within hback honward hinner hclosed
      (hd.clear_after (fun _ _ _ => ownedStep_lt honward)
        (fun c hc => ownedStep_of_stuck inner label (not_not.1 (not_or.1 hc).2)) hclear)
  refine ⟨?_, hlast⟩
  rw [steps, steps, hmany]
  simp only [Framed.within, List.map_map, List.flatMap_map, List.map_flatMap]
  rfl

theorem local_branchSteps (hback : OpensAfresh back) (levels label : Nat) :
    Local front back (branchSteps levels label) := by
  induction levels generalizing label with
  | zero =>
    refine local_steps hback ?_ ?_ (some label)
    · rintro read ⟨⟩
    · rintro read ⟨⟩
  | succ levels ih =>
    refine local_steps hback ?_ ?_ (some label)
    · rintro read ⟨⟩
      exact onward_branchSteps levels
    · rintro read ⟨⟩
      exact ih

/-- A pipeline reads the same in a larger text, unless it leaves a step that is broken off. -/
theorem local_pipeline (front : List Char) (hback : OpensAfresh back) :
    Local front back pipeline := by
  refine local_steps hback ?_ ?_ none
  · rintro read ⟨⟩
    exact onward_branchSteps (maxNesting - 1)
  · rintro read ⟨⟩
    exact local_branchSteps hback (maxNesting - 1)

/-! ## Declarations -/

theorem declaredName_within (h : Closed back c) :
    Agrees front back (declaredName c) (declaredName (c.within front back)) := by
  refine h.someBlanks.bind_cursor fun blank hblank => ?_
  refine hblank.identifier.bind_read fun name next hnext => ?_
  refine (hnext.blanks_char (by decide)).bind_cursor fun equals hequals => ?_
  exact Agrees.some ⟨trivial, hequals⟩

theorem method_within (h : Closed back c) :
    Agrees front back (method c) (method (c.within front back)) := by
  refine h.identifier.bind_read fun word next hnext => ?_
  have hword : (Framed.within front back word).text = word.text := rfl
  simp only [hword]
  split
  · exact Agrees.some ⟨trivial, hnext⟩
  · exact Agrees.none

theorem namedPipeline_within (hback : OpensAfresh back) (h : Closed back c)
    (hclear : ∀ v rs d, namedPipeline c = some (v, rs, d) → Clear back d) :
    Agrees front back (namedPipeline c) (namedPipeline (c.within front back)) := by
  refine (h.keyword (by decide)).bind fun word hx hword => ?_
  refine (declaredName_within hword).bind fun ⟨name, equals⟩ hx' ⟨_, hequals⟩ => ?_
  simp only [namedPipeline, bind, hx, Option.bind_some, hx'] at hclear
  obtain ⟨hread, hlast⟩ := local_pipeline front hback equals hequals (hclear _ _ _ rfl)
  simp only [Framed.within] at hread ⊢
  simp only [hread]
  refine Agrees.of_eq ?_ ⟨trivial, fun _ _ => trivial, hlast⟩
  simp only [Framed.within, Spanned.shift, NamedPipeline.shift, Step.shiftAll_eq_map]
  rfl

theorem typedVariable_within (h : Closed back c) (hread : back = [] ∨ typedVariable c ≠ none) :
    Agrees front back (typedVariable c) (typedVariable (c.within front back)) := by
  refine h.identifier.bind ?_
  rintro ⟨kind, next⟩ hx ⟨-, hnext⟩
  have hkind : (Framed.within front back (kind, next)).1.text = kind.text := rfl
  simp only [typedVariable, bind, hx, Option.bind_some] at hread
  simp only [hkind]
  split
  · exact Agrees.none
  · next hreserved =>
    rw [if_neg hreserved] at hread
    refine (declaredName_within hnext).bind ?_
    rintro ⟨name, equals⟩ hx' ⟨-, hequals⟩
    rw [hx', Option.bind_some] at hread
    have hticks : back = [] ∨ equals.layout.backtickText ≠ none :=
      hread.imp_right fun hread hnone => hread (by rw [hnone]; rfl)
    have hend : back = [] ∨ equals.layout.rest ≠ [] := by
      refine hticks.imp_right fun hticks hnil => hticks ?_
      rw [Cursor.backtickText, Cursor.char, hnil]
      rfl
    simp only [Framed.within, Closed.layout_eq hequals hend]
    refine ((Closed.layout hequals hend).backtickText hticks).bind_read fun value last hlast => ?_
    exact Agrees.some ⟨trivial, hlast⟩

/-- A route has a slash where a variable has its name. -/
theorem typedVariable_of_route (h : route c ≠ none) : typedVariable c = none := by
  obtain ⟨r, hr⟩ := Option.ne_none_iff_exists'.1 h
  simp only [route, method, bind, Option.bind_eq_some_iff] at hr
  obtain ⟨⟨word, next⟩, ⟨⟨word', next'⟩, hword, hmethod⟩, pathStart, hblank, hpath⟩ := hr
  split at hmethod
  · cases hmethod
    split at hpath
    · next hslash =>
      have hname : pathStart.identifier = none := by
        rw [identifier_eq, hslash]
        rfl
      simp only [typedVariable, declaredName, bind, hword, Option.bind_some, hblank, hname,
        Option.bind_none, ite_self]
    · cases hpath
  · cases hmethod

theorem routeBody_shift (n : Nat) (ss : List Step) :
    routeBody (Step.shiftAll n ss) = (routeBody ss).shift n := by
  rw [Step.shiftAll_eq_map]
  refine routeBody_map (fun ss => by rw [RouteBody.shift, Step.shiftAll_eq_map]) (fun s => ?_) ss
  cases s with
  | call span word payload payloadSpan =>
    cases payload with
    | identifier name =>
      simp only [Step.shift, routeBody]
      split <;> rfl
    | backtick text => rfl
    | quoted text => rfl
  | result span branches => rfl

theorem route_within (hback : OpensAfresh back) (h : Closed back c)
    (hclear : ∀ v rs d, route c = some (v, rs, d) → Clear back d) :
    Agrees front back (route c) (route (c.within front back)) := by
  refine (method_within h).bind ?_
  rintro ⟨word, next⟩ hx ⟨-, hnext⟩
  refine (Closed.someBlanks hnext).bind fun pathStart hx' hpathStart => ?_
  simp only [route, bind, hx, Option.bind_some, hx'] at hclear
  simp only [Framed.within, Closed.peek hpathStart]
  split
  · next hslash =>
    rw [if_pos hslash] at hclear
    refine (Closed.bareToken hpathStart).bind ?_
    rintro ⟨path, behind⟩ hx'' ⟨-, hbehind⟩
    rw [hx''] at hclear
    obtain ⟨hread, hlast⟩ := local_pipeline front hback behind hbehind (hclear _ _ _ rfl)
    simp only [Framed.within] at hread ⊢
    simp only [hread]
    refine Agrees.of_eq ?_ ⟨trivial, fun _ _ => trivial, hlast⟩
    simp only [Framed.within, ← Step.shiftAll_eq_map, routeBody_shift]
    rfl
  · exact Agrees.none

/-! ## Suites -/

theorem spacedWord_within {word : List Char} (h : Closed back c) (hword : '\n' ∉ word) :
    Agrees front back (spacedWord word c) (spacedWord word (c.within front back)) :=
  (h.keyword hword).bind_cursor fun _ hnext => hnext.someBlanks

end Grammar
end PipelineLang
