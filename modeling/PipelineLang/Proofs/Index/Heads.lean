import Mathlib.Data.Bool.AllAny
import PipelineLang.Proofs.Index.Context

/-!
# Declarations at the head of their lines

A cursor on a declared name is on the declared symbol where the line of the name shows the
declaration: nothing but blanks stands before it on its line (`HeadsLine`), and the value of a
variable follows on that line (`ValueFollows`). Elsewhere the name counts only if it is the name of a
reference as well (`declarations_resolved`).
-/

namespace PipelineLang

open Utf8 Cursor Reference Grammar

namespace Context

variable {text pre line post : List Char} {a b c d x y : Cursor} {r : Reference} {o : Nat}

/-! ## Heads of lines -/

/-- Only blanks stand before the offset on its line. -/
def HeadsLine (text : List Char) (offset : Nat) : Prop :=
  ∀ x ∈ (lineAt text offset).1, Blank.isInline x = true

instance (text : List Char) (offset : Nat) : Decidable (HeadsLine text offset) :=
  decidable_of_iff ((lineAt text offset).1.all Blank.isInline = true) List.all_eq_true

/-- No line starts behind a place of a line but before the end of the line. -/
theorem eq_of_lineStart {run : List Char} (hab : a ≤ b) (hrun : Between a run d) (hbd : b ≤ d)
    (hnewline : '\n' ∉ run) (hb : ∀ x ∈ b.before, x = '\n') : a = b := by
  obtain ⟨front, hfront⟩ := exists_run hab
  obtain ⟨back, hback⟩ := exists_run hbd
  rcases List.eq_nil_or_concat' front with rfl | ⟨front, x, rfl⟩
  · exact hfront.2.symm
  · rw [hfront.before_eq, List.getLast?_concat, Option.some_or] at hb
    rw [← (hfront.trans hback).run_eq hrun, hb x rfl] at hnewline
    simp at hnewline

/-- The line of a place is the one that what stands there reaches. -/
theorem between_lineCursor {seg : List Char} (hline : IsLine text pre line post)
    (hc : start 0 text ≤ c) (hseg : Between c seg d) (hnewline : '\n' ∉ seg)
    (hpost : c.offset ≤ byteLength (pre ++ line)) (hpre : byteLength pre ≤ d.offset) :
    Between (lineCursor pre line post) (lineAt text c.offset).1 c := by
  obtain ⟨pre', post', hline', hfront⟩ := lineAt_spec text c.offset
  obtain ⟨front, hrun⟩ := exists_run hc
  have hfloor : (splitFloor c.offset text).1 = front := by
    have hoffset := hrun.offset_eq
    have htext : text = front ++ c.rest := hrun.rest_eq
    rw [start, Nat.zero_add] at hoffset
    rw [hoffset, htext, splitFloor_byteLength]
  rw [hfloor] at hfront
  subst hfront
  have hthis := hline.between_lineCursor
  have hof := hline'.between_lineCursor
  have hbehind := hrun.tail hof
  suffices heq : lineCursor pre line post = lineCursor pre' _ post' by rwa [heq]
  rcases le_total_of_le hthis.le hof.le with hle | hle
  · -- the line of `c` would start inside this one
    have hend : Between (lineCursor pre line post) line ((lineCursor pre line post).skip line.length) :=
      ⟨by rw [rest_skip, lineCursor, rest_followed, start, List.drop_left], rfl⟩
    have hoffset := (hthis.trans hend).offset_eq
    rw [start, Nat.zero_add] at hoffset
    refine eq_of_lineStart hle hend (hbehind.le.trans ?_) hline.single ?_
    · exact le_of_offset_le hc (hthis.trans hend).le (hoffset ▸ hpost)
    · rw [hof.before_eq, start, Option.or_none]
      exact hline'.opens
  · -- this line would start inside that of `c`, before `d`
    have hoffset := hthis.offset_eq
    rw [start, Nat.zero_add] at hoffset
    refine (eq_of_lineStart hle (hbehind.trans hseg) ?_ ?_ ?_).symm
    · exact le_of_offset_le hthis.le (hc.trans hseg.le) (hoffset ▸ hpre)
    · have hsingle := hline'.single
      simp only [List.mem_append, not_or] at hsingle ⊢
      exact ⟨hsingle.1, hnewline⟩
    · rw [hthis.before_eq, start, Option.or_none]
      exact hline.opens

theorem headsLine_iff (h : Between a (lineAt text c.offset).1 c)
    (hpeek : ∀ x ∈ c.peek, Blank.isInline x = false) :
    HeadsLine text c.offset ↔ a.blanks = c := by
  constructor
  · intro hall
    have hrun : a.rest.takeWhile Blank.isInline = (lineAt text c.offset).1 := by
      rw [h.rest_eq, List.takeWhile_append_of_pos hall]
      have hnone : c.rest.takeWhile Blank.isInline = [] := by
        cases hc : c.rest with
        | nil => rfl
        | cons x xs =>
          exact List.takeWhile_cons_of_neg (by rw [hpeek x (by rw [peek, hc]; rfl)]; decide)
      rw [hnone, List.append_nil]
    rw [blanks, skipWhile, hrun]
    exact h.2.symm
  · intro heq
    have hblanks := blanks_between a
    rw [heq] at hblanks
    intro x hx
    rw [h.run_eq hblanks] at hx
    exact List.all_eq_true.1 List.all_takeWhile x hx

/-- Blanks before a place are read from their start only. -/
theorem someBlanks_inj {s : Cursor} (ha : s ≤ a) (hb : s ≤ b) (hax : a.someBlanks = some x)
    (hbx : b.someBlanks = some x) (hbefore : a.before.any Blank.isInline = false)
    (hbefore' : b.before.any Blank.isInline = false) : a = b := by
  have hdirect {a b : Cursor} (hle : a ≤ b) (hax : a.someBlanks = some x)
      (hbx : b.someBlanks = some x) (hbefore : b.before.any Blank.isInline = false) : a = b := by
    obtain ⟨bs, hbs, -, hall⟩ := someBlanks_spec hax
    obtain ⟨bs', hbs', -⟩ := someBlanks_spec hbx
    obtain ⟨front, hfront⟩ := exists_run hle
    rcases List.eq_nil_or_concat' front with rfl | ⟨front, z, rfl⟩
    · exact hfront.2.symm
    · have hz : z ∈ bs := by
        rw [← (hfront.trans hbs').run_eq hbs]
        simp
      rw [hfront.before_eq, List.getLast?_concat, Option.some_or, Option.any_some, hall z hz]
        at hbefore
      cases hbefore
  rcases le_total_of_le ha hb with hle | hle
  · exact hdirect hle hax hbx hbefore'
  · exact (hdirect hle hbx hax hbefore).symm

/-- A declared name is read from behind one word only. -/
theorem declaredName_inj {s equals equals' : Cursor} {n n' : Token} (ha : s ≤ a) (hb : s ≤ b)
    (hna : declaredName a = some (n, equals)) (hnb : declaredName b = some (n', equals'))
    (hspan : n.span = n'.span) (hbefore : a.before.any Blank.isInline = false)
    (hbefore' : b.before.any Blank.isInline = false) : a = b := by
  simp only [declaredName, bind, Option.bind_eq_some_iff] at hna hnb
  obtain ⟨x, hx, ⟨n, y⟩, hn, equals, -, heq⟩ := hna
  obtain ⟨x', hx', ⟨n', y'⟩, hn', equals', -, heq'⟩ := hnb
  cases heq
  cases heq'
  rw [(identifier_spec hn).2.1, (identifier_spec hn').2.1, Span.mk.injEq] at hspan
  have hxx : x = x' := eq_of_offset_eq (ha.trans (someBlanks_lt hx).le)
    (hb.trans (someBlanks_lt hx').le) hspan.1
  subst hxx
  exact someBlanks_inj ha hb hx hx' hbefore hbefore'

/-- A word is no blank. -/
theorem before_of_isWord {word : List Char} (h : Between a word b) (hword : IsWord word) :
    b.before.any Blank.isInline = false := by
  rw [h.before_eq, List.getLast?_eq_some_getLast hword.1, Option.some_or, Option.any_some]
  exact hword.not_isInline _ (List.getLast_mem hword.1)

/-! ## Declared names of a line -/

theorem declaredPipeline_followed {b : Option Char} (h : LineBounds b post) (c : Cursor) :
    declaredPipeline (c.followed b post) = declaredPipeline c := by
  simp only [declaredPipeline, bind, pure, h.blanks, h.chars (by decide : '\n' ∉ "pipeline".toList),
    h.declaredName, Option.bind_map, Function.comp_def, Prod.map, id]

theorem declaredVariable_followed {b : Option Char} (h : LineBounds b post) (c : Cursor) :
    declaredVariable (c.followed b post) = declaredVariable c := by
  have hpeek (e : Cursor) :
      decide ((e.followed b post).peek = some tick) = decide (e.peek = some tick) := by
    have hany (o : Option Char) : decide (o = some tick) = o.any (· == tick) := by
      cases o <;> simp [beq_eq_decide]
    rw [hany, hany, h.peek_any (by decide)]
  simp only [declaredVariable, bind, h.blanks, h.identifier, h.declaredName, Option.bind_map,
    Function.comp_def, Prod.map, id, hpeek]

/-- The line of a named pipeline shows it if the pipeline is the first thing there. -/
theorem declaredPipeline_iff {n : Token} {equals : Cursor}
    (h : Between a (lineAt text c.offset).1 c) (hword : c.chars "pipeline".toList = some b)
    (hname : declaredName b = some (n, equals)) :
    declaredPipeline a = some ⟨.pipeline n.text, n.span⟩ ↔ HeadsLine text c.offset := by
  have hbetween := chars_between hword
  have hpeek : ∀ x ∈ c.peek, Blank.isInline x = false := by
    intro x hx
    rw [peek, hbetween.rest_eq] at hx
    cases hx
    rfl
  rw [headsLine_iff h hpeek]
  constructor
  · intro hdeclared
    obtain ⟨word, n', equals', hword', hname', heq⟩ := declaredPipeline_spec hdeclared
    have hbetween' := chars_between hword'
    have hle := (le_blanks a).trans hbetween'.le
    have hspan : n'.span = n.span := (congrArg Reference.span heq).symm
    obtain rfl : word = b := declaredName_inj hle (h.le.trans hbetween.le) hname' hname hspan
      (before_of_isWord hbetween' (by decide)) (before_of_isWord hbetween (by decide))
    have hoffset := hbetween.offset_eq
    have hoffset' := hbetween'.offset_eq
    exact eq_of_offset_eq (le_blanks a) h.le (by omega)
  · intro hhead
    rw [declaredPipeline, hhead]
    simp only [bind, pure, hword, hname, Option.bind_some]

/-- The line of a variable shows it if the variable is the first thing there and its value starts on
that line. -/
theorem declaredVariable_iff {kind n : Token} {equals : Cursor}
    (h : Between a (lineAt text c.offset).1 c) (hkind : c.identifier = some (kind, b))
    (hreserved : reservedTypes.contains kind.text = false)
    (hname : declaredName b = some (n, equals)) :
    declaredVariable a = some ⟨.typed kind.text n.text, n.span⟩ ↔
      HeadsLine text c.offset ∧ equals.blanks.peek = some tick := by
  obtain ⟨hbetween, -, hidentifier, -⟩ := identifier_spec hkind
  have hpeek : ∀ x ∈ c.peek, Blank.isInline x = false := by
    intro x hx
    refine hidentifier.isWord.not_isInline x ?_
    rw [peek, hbetween.rest_eq, List.head?_append_of_ne_nil _ hidentifier.isWord.1] at hx
    exact List.mem_of_head? hx
  rw [headsLine_iff h hpeek]
  constructor
  · intro hdeclared
    obtain ⟨kind', next, n', equals', hkind', hname', hvalue, -, heq⟩ :=
      declaredVariable_spec hdeclared
    obtain ⟨hbetween', -, hidentifier', -⟩ := identifier_spec hkind'
    have hle := (le_blanks a).trans hbetween'.le
    have hspan : n'.span = n.span := (congrArg Reference.span heq).symm
    obtain rfl : next = b := declaredName_inj hle (h.le.trans hbetween.le) hname' hname hspan
      (before_of_isWord hbetween' hidentifier'.isWord)
      (before_of_isWord hbetween hidentifier.isWord)
    rw [hname] at hname'
    cases hname'
    have htext : kind.text = kind'.text :=
      (SymbolKey.typed.inj (congrArg Reference.key heq)).1
    have hoffset := hbetween.offset_eq
    have hoffset' := hbetween'.offset_eq
    rw [htext] at hoffset
    exact ⟨eq_of_offset_eq (le_blanks a) h.le (by omega), hvalue⟩
  · rintro ⟨hhead, hvalue⟩
    rw [declaredVariable, hhead]
    simp only [bind, hkind, hname, Option.bind_some, hvalue, hreserved, decide_true, Bool.not_false,
      Bool.and_self, if_true]

/-! ## Values on the line of their name -/

/-- Between the name of a variable and its value stand blanks of the line, the equals sign and the
backtick only. -/
def ValueFollows (text : List Char) (v : Variable) : Prop :=
  ∀ x ∈ Span.text ⟨v.nameSpan.stop, v.valueSpan.start⟩ text,
    Blank.isInline x = true ∨ x = '=' ∨ x = tick

instance (text : List Char) (v : Variable) : Decidable (ValueFollows text v) :=
  decidable_of_iff ((Span.text ⟨v.nameSpan.stop, v.valueSpan.start⟩ text).all
    fun x => Blank.isInline x = true ∨ x = '=' ∨ x = tick) List.all_iff_forall_prop

theorem layout_of_between {bs : List Char} (h : Between c bs d)
    (hbs : ∀ x ∈ bs, Blank.isLayout x = true) : c.layout = d.layout := by
  induction bs generalizing c with
  | nil => rw [h.2, List.length_nil, skip_zero]
  | cons x bs ih =>
    have hrest : c.rest = x :: (bs ++ d.rest) := h.rest_eq
    have hstep : Between c [x] (c.step x (bs ++ d.rest)) :=
      ⟨hrest, by rw [step_eq_skip hrest]; rfl⟩
    rw [layout_cons hrest (hbs x List.mem_cons_self)]
    refine ih (Between.tail ?_ hstep) fun y hy => hbs y (List.mem_cons_of_mem x hy)
    exact h

/-- Layout without a line end and without a comment is of blanks. -/
theorem inline_of_isGap {gap : List Char} (hgap : IsGap false gap)
    (hall : ∀ x ∈ gap, Blank.isInline x = true ∨ x = '=' ∨ x = tick) :
    ∀ x ∈ gap, Blank.isInline x = true := by
  intro x hx
  obtain ⟨front, back, hsplit⟩ := List.append_of_mem hx
  rcases hgap front x back hsplit with hwhite | ⟨pre, comment, heq, -⟩ | ⟨hfalse, -⟩
  · rcases hall x hx with hinline | rfl | rfl
    · exact hinline
    · exact absurd hwhite (by decide)
    · exact absurd hwhite (by decide)
  · -- a comment starts with a character that is none of these
    have hhash : '#' ∈ gap := by
      rw [hsplit, ← List.singleton_append, ← List.append_assoc, heq]
      simp
    exact absurd (hall '#' hhash) (by decide)
  · cases hfalse

/-- A text in backticks stands on this line if only blanks stand before it. -/
theorem blanks_peek_iff {gap : List Char} {inner : Cursor} (h : Between c gap c.layout)
    (hgap : IsGap false gap) (htick : c.layout.char tick = some inner) :
    c.blanks.peek = some tick ↔ ∀ x ∈ gap, Blank.isInline x = true ∨ x = '=' ∨ x = tick := by
  constructor
  · intro hpeek
    obtain ⟨bs, hbs, hall⟩ := blanks_spec c
    have hlayout : ∀ x ∈ bs, Blank.isLayout x = true := by
      intro x hx
      have := hall x hx
      simp only [Blank.isInline, Blank.isLayout, Bool.or_eq_true] at this ⊢
      exact Or.inl (Or.inl this)
    have hstop : c.blanks.layout = c.blanks := by
      refine layout_of_head fun x hx => ?_
      rw [← peek, hpeek] at hx
      cases hx
      decide
    rw [layout_of_between hbs hlayout, hstop] at h
    intro x hx
    rw [h.run_eq hbs] at hx
    exact Or.inl (hall x hx)
  · intro hall
    have hrest := (char_between htick).rest_eq
    have hrun : c.rest.takeWhile Blank.isInline = gap := by
      rw [h.rest_eq, List.takeWhile_append_of_pos (inline_of_isGap hgap hall), hrest,
        List.singleton_append, List.takeWhile_cons_of_neg (by decide), List.append_nil]
    rw [blanks, skipWhile, hrun, ← h.2, peek, hrest]
    rfl

/-- The value of a variable that is read follows on the line of its name if the line shows it. -/
theorem valueFollows_iff {v : Spanned Variable} (hb : start 0 text ≤ b) {n value : Token}
    {equals : Cursor} (hname : declaredName b = some (n, equals))
    (hvalue : equals.layout.backtickText = some (value, d)) (hn : v.value.nameSpan = n.span)
    (hv : v.value.valueSpan = value.span) :
    equals.blanks.peek = some tick ↔ ValueFollows text v.value := by
  simp only [declaredName, bind, Option.bind_eq_some_iff] at hname
  obtain ⟨x, hx, ⟨n, y⟩, hnread, equals, hequals, heq⟩ := hname
  cases heq
  simp only [backtickText, bind, Option.bind_eq_some_iff] at hvalue
  obtain ⟨inner, hopen, next, -, heq⟩ := hvalue
  cases heq
  obtain ⟨bs, hbs, hinline⟩ := blanks_spec y
  obtain ⟨gap, hrest, hskip, hgap, -⟩ := layout_spec equals
  have hbetween : Between equals gap equals.layout := ⟨hrest, hskip⟩
  have hrun := hbs.trans ((char_between hequals).trans (hbetween.trans (char_between hopen)))
  have hy : start 0 text ≤ y := hb.trans ((someBlanks_lt hx).le.trans (identifier_lt hnread).le)
  have htext : Span.text ⟨v.value.nameSpan.stop, v.value.valueSpan.start⟩ text
      = bs ++ (['='] ++ (gap ++ [tick])) := by
    rw [hn, hv, (identifier_spec hnread).2.1]
    exact (hrun.spells hy).text_eq
  rw [blanks_peek_iff hbetween hgap hopen, ValueFollows, htext]
  constructor
  · intro hall z hz
    simp only [List.mem_append, List.mem_singleton] at hz
    rcases hz with hz | rfl | hz | rfl
    · exact Or.inl (hinline z hz)
    · exact Or.inr (Or.inl rfl)
    · exact hall z hz
    · exact Or.inr (Or.inr rfl)
  · intro hall z hz
    exact hall z (by simp [hz])

/-! ## All declarations -/

theorem typedVariable_not_reserved {v : Spanned Variable} (h : typedVariable c = some (v, d)) :
    reservedTypes.contains v.value.kind = false := by
  simp only [typedVariable, bind, Option.bind_eq_some_iff] at h
  obtain ⟨⟨kind, next⟩, -, h⟩ := h
  split at h
  · cases h
  · next hreserved =>
    simp only [Option.bind_eq_some_iff] at h
    obtain ⟨⟨name, equals⟩, -, ⟨value, last⟩, -, heq⟩ := h
    cases heq
    exact eq_false_of_ne_true hreserved

/-- A declared name is on the line of the word before it. -/
theorem declaredName_line {n : Token} {equals : Cursor} (h : declaredName c = some (n, equals)) :
    ∃ seg d, Between c seg d ∧ '\n' ∉ seg ∧ c.offset ≤ n.span.start ∧ n.span.stop = d.offset := by
  simp only [declaredName, bind, Option.bind_eq_some_iff] at h
  obtain ⟨x, hx, ⟨n, d⟩, hn, equals, -, heq⟩ := h
  cases heq
  obtain ⟨bs, hbs, -, hinline⟩ := someBlanks_spec hx
  obtain ⟨hbetween, hspan, hidentifier, -⟩ := identifier_spec hn
  refine ⟨_, d, hbs.trans hbetween, fun hmem => ?_, ?_, by rw [hspan]⟩
  · rcases List.mem_append.1 hmem with hmem | hmem
    · exact absurd (hinline _ hmem) (by decide)
    · exact absurd (hidentifier.2 _ hmem) (by decide)
  · rw [hspan]
    exact offset_le hbs.le

/-- A cursor on a declared name is on the symbol if the line shows its declaration, or if the name is
that of a reference. -/
theorem resolve_declaration (symbols : SymbolTable) {word : List Char} {n : Token}
    {equals : Cursor} (hc : start 0 text ≤ c) (hword : Between c word b) (hnewline : '\n' ∉ word)
    (hname : declaredName b = some (n, equals)) (key : SymbolKey) (hkey : key.name = n.text)
    (ho : n.span.contains o = true) :
    ∃ a, Between a (lineAt text c.offset).1 c ∧
      (resolve text o symbols = some (.symbol key n.span) ↔
        (declaredPipeline a = some ⟨key, n.span⟩ ∨ declaredVariable a = some ⟨key, n.span⟩) ∨
          ⟨key, n.span⟩ ∈ scan text) := by
  have hat : IdentifierAt (start 0 text) key.name n.span :=
    hkey ▸ (declaredName_identifierAt hname).of_le (hc.trans hword.le)
  obtain ⟨pre, line, post, hline, hstart, hstop, hiff⟩ := resolve_iff (r := ⟨key, n.span⟩) symbols hat ho
  obtain ⟨seg, d, hseg, hsegline, hle, hd⟩ := declaredName_line hname
  have hnone : '\n' ∉ word ++ seg := by simp [hnewline, hsegline]
  refine ⟨lineCursor pre line post, between_lineCursor hline hc (hword.trans hseg) hnone ?_ ?_, ?_⟩
  · have := offset_le hword.le
    simp only at hstart
    omega
  · exact hd ▸ hstop
  · rw [hiff, mem_lineNames, hline.mem_scan_iff hstart hstop, lineCursor,
      declaredPipeline_followed hline.bounds, declaredVariable_followed hline.bounds, or_assoc]

/-- **Where a declaration is found from its name.** A cursor on the name of a pipeline, also right
behind it, is on that pipeline just if the declaration is the first thing on its line, or the name is
that of a reference as well; for a variable, its value has to follow on that line. -/
theorem declarations_resolved (text : List Char) (symbols : SymbolTable) (o : Nat) :
    (∀ v ∈ (parse text).program.pipelines, v.value.nameSpan.contains o = true →
      (resolve text o symbols = some (.symbol (.pipeline v.value.name) v.value.nameSpan) ↔
        HeadsLine text v.span.start ∨
          ⟨.pipeline v.value.name, v.value.nameSpan⟩ ∈ scan text)) ∧
    ∀ v ∈ (parse text).program.typedVariables, v.value.nameSpan.contains o = true →
      (resolve text o symbols
          = some (.symbol (.typed v.value.kind v.value.name) v.value.nameSpan) ↔
        (HeadsLine text v.span.start ∧ ValueFollows text v.value) ∨
          ⟨.typed v.value.kind v.value.name, v.value.nameSpan⟩ ∈ scan text) := by
  constructor
  · intro v hv ho
    obtain ⟨c, rs, d, hc, hread, hspan⟩ := mem_pipelines hv
    simp only [namedPipeline, bind, Option.bind_eq_some_iff] at hread
    obtain ⟨b, hkeyword, ⟨n, equals⟩, hname, heq⟩ := hread
    cases heq
    have hword := (chars_of_keyword hkeyword).1
    obtain ⟨a, ha, hiff⟩ := resolve_declaration symbols hc (chars_between hword) (by decide) hname
      (.pipeline n.text) rfl ho
    have hvariable : declaredVariable a ≠ some ⟨.pipeline n.text, n.span⟩ := by
      intro hdeclared
      obtain ⟨kind, next, n', equals', -, -, -, -, heq⟩ := declaredVariable_spec hdeclared
      cases heq
    rw [hspan]
    exact hiff.trans (or_congr_left
      ((or_iff_left hvariable).trans (declaredPipeline_iff ha hword hname)))
  · intro v hv ho
    obtain ⟨c, d, hc, hread, hspan⟩ := mem_typedVariables hv
    obtain ⟨kind, b, n, equals, value, hkind, hname, hvalue, heq⟩ := typedVariable_spec hread
    have hreserved := typedVariable_not_reserved hread
    rw [heq] at ho hreserved ⊢
    obtain ⟨hbetween, -, hidentifier, -⟩ := identifier_spec hkind
    have hnewline : '\n' ∉ kind.text.toList :=
      fun hmem => absurd (hidentifier.2 _ hmem) (by decide)
    obtain ⟨a, ha, hiff⟩ := resolve_declaration symbols hc hbetween hnewline hname
      (.typed kind.text n.text) rfl ho
    have hpipeline : declaredPipeline a ≠ some ⟨.typed kind.text n.text, n.span⟩ := by
      intro hdeclared
      obtain ⟨word, n', equals', -, -, heq⟩ := declaredPipeline_spec hdeclared
      cases heq
    have hline := declaredVariable_iff ha hkind hreserved hname
    rw [valueFollows_iff (v := v) (hc.trans hbetween.le) hname hvalue (by rw [heq]) (by rw [heq]),
      heq] at hline
    rw [hspan]
    exact hiff.trans (or_congr_left ((or_iff_right hpipeline).trans hline))

/-- A pipeline and a variable that head their lines are found right behind their names. -/
theorem declarations_resolved_heads :
    let text := "pipeline p =\n  |> pg: q\n\tpg q = \x60SELECT 1\x60\n".toList
    let symbols := (analyze defaultEngine text).symbols
    (∃ v ∈ (parse text).program.pipelines, v.value.nameSpan.contains 10 = true ∧
      resolve text 10 symbols = some (.symbol (.pipeline v.value.name) v.value.nameSpan)) ∧
    ∃ v ∈ (parse text).program.typedVariables, v.value.nameSpan.contains 29 = true ∧
      resolve text 29 symbols
        = some (.symbol (.typed v.value.kind v.value.name) v.value.nameSpan) := by
  intro text symbols
  obtain ⟨v, hv, ho, hhead⟩ : ∃ v ∈ (parse text).program.pipelines,
      v.value.nameSpan.contains 10 = true ∧ HeadsLine text v.span.start :=
    List.any_iff_exists_prop.1 (by decide +kernel)
  obtain ⟨u, hu, ho', hhead'⟩ : ∃ v ∈ (parse text).program.typedVariables,
      v.value.nameSpan.contains 29 = true ∧ HeadsLine text v.span.start ∧
        ValueFollows text v.value := List.any_iff_exists_prop.1 (by decide +kernel)
  exact ⟨⟨v, hv, ho, ((declarations_resolved text symbols 10).1 v hv ho).2 (Or.inl hhead)⟩,
    u, hu, ho', ((declarations_resolved text symbols 29).2 u hu ho').2 (Or.inl hhead')⟩

/-- A variable whose value starts on the next line is not found from its name, nor is a pipeline that
stands behind another declaration. -/
theorem not_resolved_below :
    let text := "pg q =\n  \x60SELECT 1\x60 pipeline p =\n  |> pg: q\n".toList
    let symbols := (analyze defaultEngine text).symbols
    (∃ v ∈ (parse text).program.typedVariables, v.value.nameSpan.contains 3 = true ∧
      resolve text 3 symbols = none) ∧
    ∃ v ∈ (parse text).program.pipelines, v.value.nameSpan.contains 29 = true ∧
      resolve text 29 symbols = none := by
  decide +kernel

end Context
end PipelineLang
