import PipelineLang.Proofs.Grammar.SuiteReading
import PipelineLang.Proofs.Text.Decimal

/-!
# Configuration blocks are read as they are written

A block is written with one property a line, each value as it is rendered. Texts and fallbacks stand in
quotes there, so whatever they hold, be it a comment sign, a brace or the spelling of a number, is
read as text (`quotedText_written`). Numbers and booleans stand bare: all their characters are
part of a word (`IsBare`), and the word is told from others by what it spells (`valueOfWord_render`).
So a block is read as it is written, without a report (`parse_writtenConfig`).
-/

namespace PipelineLang

open Cursor Grammar

/-! ## What can be written -/

/-- Texts stand between quotes, and the name of a variable behind a dollar sign. -/
def ConfigValue.IsWritable : ConfigValue → Prop
  | .text s => (Payload.quoted s).IsWritable
  | .environment name fallback =>
    IsIdentifier name ∧ ∀ s ∈ fallback, (Payload.quoted s).IsWritable
  | .boolean _ => True
  | .number n => n.IsRegular

instance : DecidablePred ConfigValue.IsWritable
  | .text s => inferInstanceAs (Decidable (Payload.quoted s).IsWritable)
  | .environment name fallback => inferInstanceAs
    (Decidable (IsIdentifier name ∧ ∀ s ∈ fallback, (Payload.quoted s).IsWritable))
  | .boolean _ => inferInstanceAs (Decidable True)
  | .number n => inferInstanceAs (Decidable n.IsRegular)

structure ConfigProperty.IsWritable (p : ConfigProperty) : Prop where
  key : IsIdentifier p.key
  value : p.value.IsWritable

structure Config.IsWritable (c : Config) : Prop where
  name : IsIdentifier c.name
  properties : ∀ p ∈ c.properties, p.IsWritable

def ConfigProperty.written (p : ConfigProperty) : List Char :=
  p.key.toList ++ ':' :: ' ' :: p.value.render.toList

/-- The block, with its properties in the given column. -/
def Config.written (column : Nat) (c : Config) : List Char :=
  ("config " ++ c.name ++ " \x7b").toList
    ++ (writtenLines column (c.properties.map ConfigProperty.written) ++ writtenLine 0 ['\x7d'])

/-! ## Rendered values -/

namespace ConfigValue

theorem toList_render_text (s : String) : (text s).render.toList = (Payload.quoted s).written := by
  rw [render, String.toList_append, String.toList_append]
  rfl

theorem toList_render_environment_none (name : String) :
    (environment name none).render.toList = '$' :: name.toList := by
  rw [render, String.toList_append]
  rfl

theorem toList_render_environment_some (name s : String) :
    (environment name (some s)).render.toList
      = '$' :: (name.toList ++ ' ' :: '|' :: '|' :: ' ' :: (Payload.quoted s).written) := by
  rw [render, String.toList_append, String.toList_append, String.toList_append,
    String.toList_append, List.append_assoc, List.append_assoc]
  rfl

end ConfigValue

/-- A block starts with the word for it. -/
theorem Config.written_append (column : Nat) (c : Config) (rest : List Char) :
    c.written column ++ rest = "config".toList ++ ' ' :: (c.name.toList ++ ' ' :: '\x7b' ::
      (writtenLines column (c.properties.map ConfigProperty.written)
        ++ (writtenLine 0 ['\x7d'] ++ rest))) := by
  rw [written, String.toList_append, String.toList_append]
  simp only [List.append_assoc]
  rfl

/-! ## Bare words -/

/-- A word of letters, digits, points, `_` and `-`, as booleans and numbers are rendered. -/
def IsBare (cs : List Char) : Prop := ∀ x ∈ cs, isIdentChar x = true ∨ x = '.'

theorem isIdentChar_of_isDigit {x : Char} (h : x.isDigit = true) : isIdentChar x = true := by
  rw [isIdentChar, Char.isAlphanum, h, Bool.or_true, Bool.true_or, Bool.true_or]

theorem Decimal.isBare_render (n : Decimal) : IsBare n.render.toList := by
  intro x hx
  rw [Decimal.toList_render, List.mem_append] at hx
  rcases hx with hx | hx
  · split at hx
    · rw [List.mem_singleton.1 hx]
      exact Or.inl (by decide)
    · cases hx
  · exact (Decimal.mem_magnitude hx).imp_left isIdentChar_of_isDigit

/-- No character of a bare word ends it. -/
theorem IsBare.not_ends {cs : List Char} (h : IsBare cs) {x : Char} (hx : x ∈ cs) :
    (!Blank.isAscii x && x != '#' && x != '\x7d') = true := by
  by_contra hends
  have hcases : x = ' ' ∨ x = '\t' ∨ x = '\n' ∨ x = '\x0c' ∨ x = '\r' ∨ x = '#' ∨ x = '\x7d' := by
    simpa [Blank.isAscii, or_assoc, imp_iff_not_or] using hends
  have hbare := h x hx
  rcases hcases with rfl | rfl | rfl | rfl | rfl | rfl | rfl <;> exact absurd hbare (by decide)

/-- A value starts with no blank. -/
theorem ConfigValue.render_head (v : ConfigValue) :
    ∃ x xs, v.render.toList = x :: xs ∧ Blank.isInline x = false := by
  cases v with
  | text s => exact ⟨'"', _, toList_render_text s, rfl⟩
  | environment name default =>
    cases default with
    | none => exact ⟨'$', _, toList_render_environment_none name, rfl⟩
    | some s => exact ⟨'$', _, toList_render_environment_some name s, rfl⟩
  | boolean b => cases b <;> exact ⟨_, _, rfl, rfl⟩
  | number n =>
    obtain ⟨x, xs, hhead⟩ := List.exists_cons_of_ne_nil n.render_ne_nil
    refine ⟨x, xs, hhead, ?_⟩
    rcases n.isBare_render x (hhead ▸ List.mem_cons_self) with hx | rfl
    · exact not_isInline_of_isIdentChar hx
    · rfl

/-! ## Backticks -/

theorem ConfigValue.isPaired_render {v : ConfigValue} (h : v.IsWritable) :
    IsPaired v.render.toList := by
  cases v with
  | text s =>
    rw [toList_render_text]
    exact Payload.even_written h
  | environment name default =>
    obtain ⟨hname, hdefault⟩ := h
    cases default with
    | none =>
      rw [toList_render_environment_none]
      exact hname.isPaired.cons (by decide)
    | some s =>
      have htext : IsPaired (Payload.quoted s).written := Payload.even_written (hdefault s rfl)
      rw [toList_render_environment_some]
      exact .cons (by decide) <| .word hname.isPaired <| .cons (by decide) <| .cons (by decide) <|
        .cons (by decide) htext
  | boolean b => cases b <;> decide
  | number n => exact .of_not_mem fun hmem => absurd (n.isBare_render tick hmem) (by decide)

theorem Config.isPaired_written {value : Config} (h : value.IsWritable) (column : Nat) :
    IsPaired (value.written column) := by
  have hline : ∀ p ∈ value.properties, IsPaired p.written := fun p hp =>
    (h.properties p hp).key.isPaired.append <| .cons (by decide) <| .cons (by decide) <|
      ConfigValue.isPaired_render (h.properties p hp).value
  rw [← List.append_nil (value.written column), Config.written_append]
  exact .word (by decide) <| .word h.name.isPaired <| .cons (by decide) <|
    (isPaired_writtenLines (List.forall_mem_map.2 hline) column).append (by decide)

namespace Grammar

/-! ## Numbers -/

variable {n : Decimal}

theorem spells_magnitude (n : Decimal) :
    (n.magnitude.all (fun x => x.isDigit || x = '.') && n.magnitude.any Char.isDigit) = true := by
  obtain ⟨x, xs, hhead, hx⟩ := n.magnitude_head
  rw [Bool.and_eq_true, List.all_eq_true, List.any_eq_true]
  refine ⟨fun y hy => ?_, x, hhead ▸ List.mem_cons_self, hx⟩
  rw [Bool.or_eq_true, decide_eq_true_eq]
  exact Decimal.mem_magnitude hy

/-- What stands behind the sign of a number are digits and points. -/
theorem numberOfWord_render (h : n.IsRegular) : numberOfWord n.render.toList = some n := by
  have hread := Decimal.ofPlain?_render h
  rw [Decimal.toList_render] at hread ⊢
  cases hnegative : n.negative with
  | true =>
    rw [hnegative] at hread
    exact (if_pos (spells_magnitude n)).trans hread
  | false =>
    obtain ⟨x, xs, hhead, hx⟩ := n.magnitude_head
    have hspells := spells_magnitude n
    rw [hhead] at hspells
    rw [hnegative, hhead] at hread
    rw [hhead]
    show numberOfWord (x :: xs) = some n
    unfold numberOfWord
    split
    · next heq =>
      cases heq
      exact absurd hx (by decide)
    · exact (if_pos hspells).trans hread

/-- A number spells neither boolean, since no letter stands in it. -/
theorem valueOfWord_render (h : n.IsRegular) : valueOfWord n.render = .number n := by
  have hnot : ∀ word : String, numberOfWord word.toList = none → n.render ≠ word := by
    rintro word hword rfl
    rw [numberOfWord_render h] at hword
    cases hword
  rw [valueOfWord, if_neg (hnot "true" (by decide)), if_neg (hnot "false" (by decide)),
    numberOfWord_render h]

/-! ## Reading values -/

variable {c d : Cursor} {rest : List Char}

/-- A bare word is read up to the end of its line. -/
theorem configWord_append {word : String} (hword : IsBare word.toList) (hne : word.toList ≠ [])
    (hrest : AtLineEnd rest) (h : c.rest = word.toList ++ rest) :
    ∃ t d, configWord c = some (t, d) ∧ t.text = word ∧ d.rest = rest := by
  obtain ⟨x, xs, hcs⟩ := List.exists_cons_of_ne_nil hne
  obtain ⟨htext, hend⟩ := run_append h (fun _ => hword.not_ends) fun y hy => by
    rw [isAscii_of_isLayout (hrest y hy)]
    rfl
  have hspan := span_takeWhile_cons (p := fun x => !Blank.isAscii x && x != '#' && x != '\x7d')
    (by rw [h, hcs, List.cons_append]) (hword.not_ends (hcs ▸ List.mem_cons_self))
  refine ⟨_, _, ?_, htext.trans String.ofList_toList, hend⟩
  simp only [configWord, hspan, Bool.false_eq_true, if_false]

theorem configValue_word {word : String} (hword : IsBare word.toList) (hne : word.toList ≠ [])
    (hrest : AtLineEnd rest) (h : c.rest = word.toList ++ rest) :
    ∃ d, configValue c = some (valueOfWord word, d) ∧ d.rest = rest := by
  obtain ⟨t, d, hread, rfl, hend⟩ := configWord_append hword hne hrest h
  obtain ⟨x, xs, hcs⟩ := List.exists_cons_of_ne_nil hne
  have hbare := hword x (hcs ▸ List.mem_cons_self)
  have hpeek : c.peek = some x := by
    rw [peek, h, hcs]
    rfl
  refine ⟨d, ?_, hend⟩
  unfold configValue
  split
  · next hdollar =>
    cases hpeek.symm.trans hdollar
    exact absurd hbare (by decide)
  · next hquote =>
    cases hpeek.symm.trans hquote
    exact absurd hbare (by decide)
  · rw [hread]
    rfl

/-- No fallback stands behind a line. -/
theorem fallback_eq_none (h : c.rest = '\n' :: rest) : fallback c = none := by
  have hbars : c.blanks.chars ['|', '|'] = none := by
    rw [chars, char_eq_none (by rw [blanks_cons h rfl]; rintro ⟨⟩), Option.bind_none]
  rw [fallback, hbars]
  rfl

theorem fallback_written {s : String} (hs : (Payload.quoted s).IsWritable)
    (h : c.rest = ' ' :: '|' :: '|' :: ' ' :: ((Payload.quoted s).written ++ rest)) :
    ∃ t d, fallback c = some (t, d) ∧ t.text = s ∧ d.rest = rest := by
  have hopen : c.blanks.rest = ['|', '|'] ++ ' ' :: ((Payload.quoted s).written ++ rest) :=
    blanks_space h rfl
  obtain ⟨bars, hbars, hbehind⟩ := chars_append hopen
  have hvalue : bars.blanks.rest = (Payload.quoted s).written ++ rest :=
    blanks_space hbehind rfl
  obtain ⟨t, d, hread, htext, hend⟩ := quotedText_written hs hvalue
  have hpeek : bars.blanks.peek = some '"' := by
    rw [peek, hvalue]
    rfl
  refine ⟨t, d, ?_, htext, hend⟩
  simp only [fallback, bind, hbars, Option.bind_some, hpeek, if_true, hread]

/-- Behind a dollar sign stands the name of a variable, and behind that what stands in for it. -/
theorem configValue_dollar {name : String} (hname : IsIdentifier name)
    (hrest : ∀ x ∈ rest.head?, isIdentChar x = false) (h : c.rest = '$' :: (name.toList ++ rest)) :
    ∃ next : Cursor, next.rest = rest ∧
      (fallback next = none → configValue c = some (.environment name none, next)) ∧
      ∀ t d, fallback next = some (t, d) →
        configValue c = some (.environment name (some t.text), d) := by
  have hpeek : c.peek = some '$' := by
    rw [peek, h]
    rfl
  obtain ⟨dollar, hdollar, hbehind⟩ : ∃ d, c.char '$' = some d ∧ d.rest = name.toList ++ rest :=
    ⟨_, char_cons h, rfl⟩
  obtain ⟨t, next, hread, rfl, hnext⟩ := identifier_append hbehind hname hrest
  refine ⟨next, hnext, fun hnone => ?_, fun t' d hsome => ?_⟩
  · simp only [configValue, hpeek, bind, hdollar, Option.bind_some, hread, hnone]
    rfl
  · simp only [configValue, hpeek, bind, hdollar, Option.bind_some, hread, hsome]
    rfl

theorem configValue_quoted {s : String} (hs : (Payload.quoted s).IsWritable)
    (h : c.rest = (Payload.quoted s).written ++ rest) :
    ∃ d, configValue c = some (.text s, d) ∧ d.rest = rest := by
  obtain ⟨t, d, hread, rfl, hend⟩ := quotedText_written hs h
  have hpeek : c.peek = some '"' := by
    rw [peek, h]
    rfl
  refine ⟨d, ?_, hend⟩
  simp only [configValue, hpeek, hread]
  rfl

/-- **A value is read as it is rendered**, at the end of its line. -/
theorem configValue_render {v : ConfigValue} (hv : v.IsWritable)
    (h : c.rest = v.render.toList ++ '\n' :: rest) :
    ∃ d, configValue c = some (v, d) ∧ d.rest = '\n' :: rest := by
  have hline : AtLineEnd ('\n' :: rest) := by
    rintro x ⟨⟩
    rfl
  cases v with
  | text s =>
    rw [ConfigValue.toList_render_text] at h
    exact configValue_quoted hv h
  | environment name default =>
    obtain ⟨hname, hdefault⟩ := hv
    cases default with
    | none =>
      rw [ConfigValue.toList_render_environment_none, List.cons_append] at h
      obtain ⟨next, hnext, hread, -⟩ := configValue_dollar hname (by rintro x ⟨⟩; rfl) h
      exact ⟨next, hread (fallback_eq_none hnext), hnext⟩
    | some s =>
      simp only [ConfigValue.toList_render_environment_some, List.cons_append,
        List.append_assoc] at h
      obtain ⟨next, hnext, -, hread⟩ := configValue_dollar hname (head?_space _) h
      obtain ⟨t, d, hfallback, rfl, hend⟩ := fallback_written (hdefault s rfl) hnext
      exact ⟨d, hread t d hfallback, hend⟩
  | boolean b =>
    have hletters : (ConfigValue.boolean b).render.toList.all isIdentChar = true := by
      cases b <;> decide
    have hbare : IsBare (ConfigValue.boolean b).render.toList := fun x hx =>
      Or.inl (List.all_eq_true.1 hletters x hx)
    obtain ⟨d, hread, hend⟩ := configValue_word hbare (by cases b <;> decide) hline h
    refine ⟨d, hread.trans ?_, hend⟩
    cases b <;> rfl
  | number n =>
    obtain ⟨d, hread, hend⟩ := configValue_word n.isBare_render n.render_ne_nil hline h
    exact ⟨d, hread.trans (congrArg (fun v => some (v, d)) (valueOfWord_render hv)), hend⟩

/-! ## Reading blocks -/

theorem property_written {p : ConfigProperty} (hp : p.IsWritable)
    (h : c.rest = p.written ++ '\n' :: rest) :
    ∃ d, property c = some (p, d) ∧ d.rest = '\n' :: rest := by
  obtain ⟨key, value⟩ := p
  simp only [ConfigProperty.written, List.append_assoc, List.cons_append] at h
  obtain ⟨t, next, hkey, rfl, hnext⟩ := identifier_append h hp.key (by rintro x ⟨⟩; rfl)
  obtain ⟨colon, hcolon, hbehind⟩ := blanks_char_cons hnext rfl
  obtain ⟨x, xs, hhead, hx⟩ := value.render_head
  have hvalue : colon.blanks.rest = value.render.toList ++ '\n' :: rest := by
    rw [hhead] at hbehind ⊢
    exact blanks_space hbehind hx
  obtain ⟨d, hread, hend⟩ := configValue_render hp.value hvalue
  have hline : atPropertyEnd d = true := by
    rw [atPropertyEnd, peek, blanks_cons hend rfl]
    rfl
  refine ⟨d, ?_, hend⟩
  simp only [property, propertyKey, bind, hkey, hcolon, Option.bind_some, pure, hread, hline, if_true]

theorem configLine_written {p : ConfigProperty} (hp : p.IsWritable) {column : Nat}
    (hrest : rest.head? = some '\n') (h : c.rest = writtenLine column p.written ++ rest) :
    ∃ d, configLine c = some (.property p, d) ∧ d.rest = rest := by
  obtain ⟨more, rfl⟩ := List.head?_eq_some_iff.1 hrest
  obtain ⟨x, xs, hkey, hx⟩ := hp.key.head
  have hlayout : c.layout.rest = p.written ++ '\n' :: more := by
    rw [ConfigProperty.written, hkey, List.cons_append] at h ⊢
    exact (layout_writtenLine h (not_layout_of_isIdentStart hx)).1
  obtain ⟨d, hread, hend⟩ := property_written hp hlayout
  exact ⟨d, by simp only [configLine, hread], hend⟩

/-- The lines of a block are its properties, and nothing else is read before its closing brace. -/
theorem configLines_written {properties : List ConfigProperty}
    (hproperties : ∀ p ∈ properties, p.IsWritable) {column : Nat}
    (h : c.rest = writtenLines column (properties.map ConfigProperty.written)
      ++ (writtenLine 0 ['\x7d'] ++ rest)) :
    ∃ d, c.many configLine = (properties.map .property, d) ∧ d.layout.rest = '\x7d' :: rest := by
  have hend : (writtenLine 0 ['\x7d'] ++ rest).head? = some '\n' := rfl
  obtain ⟨d, hlines, hlast⟩ := many_written configLine (fun rest => rest.head? = some '\n')
    ConfigLine.property (fun _ _ _ => configLine_lt)
    (fun p hp _ _ hrest hc => configLine_written (hproperties p hp) hrest hc)
    (fun _ _ _ => rfl) hend h
  obtain ⟨hclose, -⟩ := layout_writtenLine hlast (by decide)
  have hkey : propertyKey d.layout = none := by
    rw [propertyKey, identifier_eq, peek, hclose]
    rfl
  rw [many_of_none (configLine_eq_none hkey), List.append_nil] at hlines
  exact ⟨d, hlines, hclose⟩

/-- **A block is read as it is written.** -/
theorem config_written {value : Config} (hvalue : value.IsWritable) {column : Nat}
    (h : c.rest = value.written column ++ rest) :
    ∃ v d, config c = some (v, [], d) ∧ v.value = value ∧ d.rest = rest := by
  obtain ⟨name, properties⟩ := value
  rw [Config.written_append] at h
  obtain ⟨word, hword, hblank⟩ := keyword_append h (head?_space _)
  obtain ⟨start, hstart, hbehind⟩ := someBlanks_space hblank (hvalue.name.head?_append _)
  obtain ⟨t, next, hname, rfl, hnext⟩ := identifier_append hbehind hvalue.name (head?_space _)
  obtain ⟨inside, hopen, hbody⟩ : ∃ d, next.blanks.char '\x7b' = some d ∧
      d.rest = writtenLines column (properties.map ConfigProperty.written)
        ++ (writtenLine 0 ['\x7d'] ++ rest) := ⟨_, char_cons (blanks_space hnext rfl), rfl⟩
  obtain ⟨last, hlines, hclose⟩ := configLines_written hvalue.properties hbody
  refine ⟨⟨⟨t.text, properties⟩, ⟨c.offset, (last.layout.step '\x7d' rest).offset⟩⟩,
    last.layout.step '\x7d' rest, ?_, rfl, rfl⟩
  simp only [config, bind, hword, hstart, hname, hopen, hlines, Option.bind_some,
    char_cons hclose, List.filterMap_map, Function.comp_def, ConfigLine.property?,
    ConfigLine.report?, List.filterMap_some, List.filterMap_none]
  rfl

/-! ## Documents -/

/-- **A configuration block is read as it is written.** Let a block be given whose name and keys are
identifiers, whose texts and fallbacks are of one line and hold no quote, backslash or backtick, whose
variables are identifiers, and whose numbers have 96 bits and 28 fraction digits at most and are no
negative zero. Its text, one property a line and in any column, is read without a report as one
block, the one that is written. -/
theorem parse_writtenConfig (column : Nat) {value : Config} (hvalue : value.IsWritable)
    {tail : List Char} (htail : ∀ x ∈ tail, Blank.isLayout x = true) :
    ∃ v, (parse (value.written column ++ tail)).reports = [] ∧
      (parse (value.written column ++ tail)).program = { Program.empty with configs := [v] } ∧
      v.value = value := by
  have htext : (start 0 (value.written column ++ tail)).rest = value.written column ++ tail := rfl
  obtain ⟨v, d, hread, hv, hd⟩ := config_written hvalue htext
  have hdeclaration : declaration (start 0 (value.written column ++ tail))
      = some (.config v [], d) := by
    simp only [declaration, hread, Option.map_some, Option.some_or]
  have hitems : items (value.written column ++ tail) = [.config v []] :=
    items_declaration (by rw [Config.written_append]; rfl) hdeclaration (hd ▸ htail)
  have hticks : unclosedTick (value.written column ++ tail) = [] :=
    unclosedTick_layout (Config.isPaired_written hvalue column) htail
  refine ⟨v, ?_, ?_, hv⟩
  · rw [parse, hitems, hticks]
    rfl
  · rw [parse, hitems]
    rfl

/-- A block whose texts look like values of other kinds, or like the end of one. -/
def lookalikeConfig : Config where
  name := "config"
  properties :=
    [⟨"a", .text "true"⟩, ⟨"b", .text "1.50"⟩, ⟨"c", .text "# \x7d || $HOME"⟩, ⟨"d", .text ""⟩,
      ⟨"a", .environment "a-b" none⟩, ⟨"e", .environment "PORT" (some "|| #")⟩,
      ⟨"true", .boolean true⟩, ⟨"f", .number ⟨true, 10, 2⟩⟩, ⟨"g", .number ⟨false, 0, 3⟩⟩,
      ⟨"h", .number ⟨false, Decimal.limit - 1, Decimal.maxScale⟩⟩]

/-- A name stands behind `config` that is the word itself, and a key twice. -/
theorem parse_writtenConfig_lookalikeConfig :
    lookalikeConfig.written 2 ++ ['\n']
        = ["config config \x7b",
           "  a: \"true\"",
           "  b: \"1.50\"",
           "  c: \"# \x7d || $HOME\"",
           "  d: \"\"",
           "  a: $a-b",
           "  e: $PORT || \"|| #\"",
           "  true: true",
           "  f: -0.10",
           "  g: 0.000",
           "  h: 7.9228162514264337593543950335",
           "\x7d"].flatMap (fun line => line.toList ++ ['\n']) ∧
      ∃ v, (parse (lookalikeConfig.written 2 ++ ['\n'])).reports = [] ∧
        (parse (lookalikeConfig.written 2 ++ ['\n'])).program
          = { Program.empty with configs := [v] } ∧
        v.value = lookalikeConfig := by
  have hproperties : ∀ p ∈ lookalikeConfig.properties, IsIdentifier p.key ∧ p.value.IsWritable := by
    decide +kernel
  have hconfig : lookalikeConfig.IsWritable :=
    ⟨by decide, fun p hp => ⟨(hproperties p hp).1, (hproperties p hp).2⟩⟩
  have htail : ∀ x ∈ ['\n'], Blank.isLayout x = true := by
    rintro x (_ | ⟨_, ⟨⟩⟩)
    rfl
  exact ⟨by decide +kernel, parse_writtenConfig 2 hconfig htail⟩

end Grammar
end PipelineLang
