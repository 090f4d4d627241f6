import PipelineLang.Proofs.Template.Tags

/-!
# Blocks of inline partials

The tags that open inline partials and those that close them stand one behind the other
(`successive_tagsFrom`). Where the tags of a region nest, an opening has a closing that matches it
(`Nested.exists_closing`). But the block of a partial ends with the first closing behind its
opening: that is the matching one just if no other partial is defined in between, and else one of
those, before it (`inlineBlock_upto_closing`).
-/

namespace PipelineLang.Template

open Cursor Grammar Reference

/-! ## Tags that nest -/

/-- Each opening has a closing behind it, with tags in between that nest. -/
inductive Nested : List (InlineTag × Span) → Prop where
  | nil : Nested []
  | block {name : Token} {o c : Span} {inside rest : List (InlineTag × Span)}
      (hinside : Nested inside) (hrest : Nested rest) :
      Nested ((.opening name, o) :: inside ++ (.closing, c) :: rest)

/-- How many of the tags that satisfy `p` lie in the block. -/
def countIn (block : Span) (p : InlineTag → Bool) (tags : List (InlineTag × Span)) : Nat :=
  tags.countP fun t => p t.1 && block.encloses t.2

namespace Nested

variable {tags : List (InlineTag × Span)}

/-- The closing that matches an opening. -/
theorem exists_closing (h : Nested tags) : ∀ {front rest : List (InlineTag × Span)} {name : Token}
    {o : Span}, tags = front ++ (.opening name, o) :: rest →
      ∃ inside c back, rest = inside ++ (.closing, c) :: back ∧ Nested inside := by
  induction h with
  | nil =>
    intro front rest name o htags
    cases (List.append_eq_nil_iff.1 htags.symm).2
  | @block _ _ close inside rest' hinside _ ihinside ihrest =>
    intro front rest name o htags
    cases front with
    | nil =>
      obtain ⟨-, rfl⟩ := List.cons.inj htags
      exact ⟨inside, close, rest', rfl, hinside⟩
    | cons t front =>
      obtain ⟨-, htags⟩ := List.cons.inj htags
      rcases List.append_eq_append_iff.1 htags with ⟨m, -, hm⟩ | ⟨m, hm, hrest⟩
      · -- the opening is behind the first block
        cases m with
        | nil => cases hm
        | cons x m => exact ihrest (List.cons.inj hm).2
      · -- the opening is inside of it
        cases m with
        | nil => cases hrest
        | cons x m =>
          obtain ⟨rfl, rfl⟩ := List.cons.inj hrest
          obtain ⟨inner, c, back, rfl, hinner⟩ := ihinside hm
          exact ⟨inner, c, back ++ (.closing, close) :: rest', by simp, hinner⟩

/-- The first closing among tags that nest has an opening before it, and nothing but openings. -/
theorem exists_first_closing (h : Nested tags) (hne : tags ≠ []) :
    ∃ os c rest, tags = os ++ (.closing, c) :: rest ∧ os ≠ [] ∧
      ∀ t ∈ os, t.1.isOpening = true := by
  induction h with
  | nil => exact absurd rfl hne
  | @block name o c inside rest _ _ ih _ =>
    by_cases hinside : inside = []
    · refine ⟨[(.opening name, o)], c, rest, by rw [hinside], List.cons_ne_nil _ _, ?_⟩
      exact fun t ht => List.mem_singleton.1 ht ▸ rfl
    · obtain ⟨os, c', rest', rfl, -, hos⟩ := ih hinside
      refine ⟨(.opening name, o) :: os, c', rest' ++ (.closing, c) :: rest, by simp,
        List.cons_ne_nil _ _, ?_⟩
      exact List.forall_mem_cons.2 ⟨rfl, hos⟩

end Nested

/-! ## Tags one behind the other -/

variable {c d : Cursor} {text : List Char} {region s : Span} {name : String}

theorem mem_tagsFrom {t : InlineTag × Span} (h : t ∈ tagsFrom c) :
    ∃ b d, c ≤ b ∧ inlineTag b = some ((b.offset, t.1), d) ∧ t.2 = ⟨b.offset, d.offset⟩ := by
  obtain ⟨⟨⟨start, tag⟩, d⟩, hm, rfl⟩ := List.mem_map.1 h
  obtain ⟨b, hb, hmatch⟩ := mem_searchAll moves_inlineTag c _ hm
  obtain ⟨rfl, -⟩ := inlineTag_cases hmatch
  exact ⟨b, d, hb, hmatch, rfl⟩

/-- The tags stand one behind the other, and none is empty. -/
structure Successive (tags : List (InlineTag × Span)) : Prop where
  pairwise : tags.Pairwise fun t t' => t.2.stop ≤ t'.2.start
  nonempty : ∀ t ∈ tags, t.2.start < t.2.stop

theorem successive_tagsFrom (c : Cursor) : Successive (tagsFrom c) where
  pairwise := by
    refine List.pairwise_map.2 ((pairwise_searchAll moves_inlineTag c).imp ?_)
    rintro ⟨⟨start, tag⟩, d⟩ ⟨⟨start', tag'⟩, d'⟩ ⟨b, hb, hmatch⟩
    obtain ⟨rfl, -⟩ := inlineTag_cases hmatch
    exact offset_le hb
  nonempty t ht := by
    obtain ⟨b, d, -, hmatch, hspan⟩ := mem_tagsFrom ht
    rw [hspan]
    exact offset_lt (moves_inlineTag _ _ _ hmatch)

/-! ## Ends of blocks -/

/-- Where a closing tag lies behind the cursor, the block ends with it or before it. -/
theorem blockEnd_le (region : Span) (h : (.closing, s) ∈ tagsFrom c) :
    c.offset ≤ blockEnd region c ∧ blockEnd region c ≤ s.stop := by
  obtain ⟨b, d, hb, hmatch, hspan⟩ := mem_tagsFrom h
  obtain ⟨-, ⟨n, hopening, -⟩ | ⟨-, -, hclose⟩⟩ := inlineTag_cases hmatch
  · cases hopening
  have hmem := mem_searchAll_of_match moves_inlineClose separate_inlineClose hb hclose
  have hpairwise := pairwise_searchAll moves_inlineClose c
  have hfound := mem_searchAll moves_inlineClose c
  rw [blockEnd, show s = ⟨b.offset, d.offset⟩ from hspan]
  cases hsearch : searchAll inlineClose c with
  | nil =>
    rw [hsearch] at hmem
    cases hmem
  | cons m ms =>
    rw [hsearch] at hmem hpairwise hfound
    obtain ⟨e, he, hfirst⟩ := hfound m List.mem_cons_self
    refine ⟨offset_le (he.trans (moves_inlineClose _ _ _ hfirst).le), ?_⟩
    rcases List.mem_cons.1 hmem with heq | hlater
    · rw [← heq]
    · obtain ⟨e', he', hmatch'⟩ := (List.pairwise_cons.1 hpairwise).1 _ hlater
      exact offset_le (he'.trans (moves_inlineClose _ _ _ hmatch').le)

/-- A block ends with the next tag if that is a closing one. -/
theorem blockEnd_of_closing (region : Span) {rest : List (InlineTag × Span)}
    (h : tagsFrom c = (.closing, s) :: rest) : blockEnd region c = s.stop := by
  obtain ⟨⟨⟨start, tag⟩, d⟩, ms, hsearch, hm, -⟩ := List.map_eq_cons_iff.1 h
  cases hm
  obtain ⟨b, hb, hmatch, hnone⟩ := exists_first moves_inlineTag hsearch
  obtain ⟨-, ⟨n, hopening, -⟩ | ⟨-, -, hclose⟩⟩ := inlineTag_cases hmatch
  · cases hopening
  rw [blockEnd, searchAll_of_none hb fun e he heb => (inlineTag_eq_none (hnone e he heb)).2,
    searchAll_of_match moves_inlineClose hclose]

/-- An inline partial of a region is that of an opening tag, the last one of its name. -/
theorem exists_opening {definition : InlineDefinition}
    (h : (Table.ofList (definitionsIn text region)).find? name = some definition) :
    ∃ front o behind, tagsIn text region
        = front ++ (.opening ⟨name, definition.nameSpan⟩, o) :: tagsFrom behind ∧
      o.stop = behind.offset ∧ definition.block = ⟨o.start, blockEnd region behind⟩ ∧
      ∀ t ∈ tagsFrom behind, ∀ n, t.1 = .opening n → n.text ≠ name := by
  obtain ⟨front, back, hdefinitions, hlast⟩ := Table.exists_of_find?_ofList h
  rw [definitionsIn, searchAll_inlineOpen, List.map_filterMap] at hdefinitions
  obtain ⟨before, found, hsearch, -, hfound⟩ := List.filterMap_eq_append_iff.1 hdefinitions
  obtain ⟨skipped, ⟨⟨start, tag⟩, behind⟩, later, rfl, -, hm, rfl⟩ :=
    List.filterMap_eq_cons_iff.1 hfound
  rw [← List.append_assoc] at hsearch
  have hlater := searchAll_behind moves_inlineTag hsearch
  cases tag with
  | closing => cases hm
  | opening n =>
    cases hm
    refine ⟨(before ++ skipped).map placed, ⟨start, behind.offset⟩, behind, ?_, rfl, rfl,
      fun t ht n' ht' hname => hlast ?_⟩
    · rw [tagsIn, tagsFrom, hsearch, List.map_append, List.map_cons, tagsFrom, hlater]
      rfl
    · obtain ⟨⟨⟨start', tag'⟩, behind'⟩, hm', rfl⟩ := List.mem_map.1 ht
      rw [hlater] at hm'
      cases ht'
      exact List.mem_map.2 ⟨_, List.mem_filterMap.2 ⟨_, hm', rfl⟩, hname⟩

/-! ## Tags in blocks -/

section

variable {block : Span} {p : InlineTag → Bool} {tags front os rest : List (InlineTag × Span)}

theorem countIn_append (block : Span) (p : InlineTag → Bool) (tags rest : List (InlineTag × Span)) :
    countIn block p (tags ++ rest) = countIn block p tags + countIn block p rest :=
  List.countP_append

theorem countIn_eq_zero (h : ∀ t ∈ tags, p t.1 = true → block.encloses t.2 = false) :
    countIn block p tags = 0 := by
  refine List.countP_eq_zero.2 fun t ht hcount => ?_
  obtain ⟨hp, hencloses⟩ := Bool.and_eq_true_iff.1 hcount
  rw [h t ht hp] at hencloses
  cases hencloses

theorem countIn_eq_length (h : ∀ t ∈ tags, p t.1 = true ∧ block.encloses t.2 = true) :
    countIn block p tags = tags.length :=
  List.countP_eq_length.2 fun t ht => Bool.and_eq_true_iff.2 (h t ht)

section

variable {t u : InlineTag × Span} (h : Successive (front ++ t :: os ++ u :: rest))
  (hos : ∀ x ∈ t :: os, x.1.isOpening = true) (hu : u.1.isClosing = true)
  (hstart : block.start = t.2.start) (hstop : block.stop ≤ u.2.stop)

include h in
/-- The tags up to another one start with the first of them and end before that one. -/
theorem Successive.bounds :
    ∀ x ∈ t :: os, t.2.start ≤ x.2.start ∧ x.2.stop ≤ u.2.start ∧ u.2.start < u.2.stop := by
  obtain ⟨hbefore, -, hcross⟩ := List.pairwise_append.1 h.pairwise
  have hbehind := (List.pairwise_append.1 hbefore).2.1
  intro x hx
  refine ⟨?_, hcross x (List.mem_append_right _ hx) u List.mem_cons_self, h.nonempty u (by simp)⟩
  rcases List.mem_cons.1 hx with rfl | hx
  · exact le_rfl
  · have hle := (List.pairwise_cons.1 hbehind).1 x hx
    have hlt := h.nonempty t (by simp)
    omega

include h hstart hstop in
/-- A block from one tag on, up to the end of another one or less far, has no tags but these two and
those in between. -/
theorem countIn_between (p : InlineTag → Bool) : countIn block p (front ++ t :: os ++ u :: rest)
    = countIn block p (t :: os) + countIn block p [u] := by
  obtain ⟨hbefore, hbehind, -⟩ := List.pairwise_append.1 h.pairwise
  have hfront : countIn block p front = 0 := by
    refine countIn_eq_zero fun x hx _ => eq_false_of_ne_true fun hin => ?_
    have hle := (List.pairwise_append.1 hbefore).2.2 x hx t List.mem_cons_self
    have hlt := h.nonempty x (by simp [hx])
    have := (Span.encloses_iff.1 hin).1
    omega
  have hrest : countIn block p rest = 0 := by
    refine countIn_eq_zero fun x hx _ => eq_false_of_ne_true fun hin => ?_
    have hle := (List.pairwise_cons.1 hbehind).1 x hx
    have hlt := h.nonempty x (by simp [hx])
    have := (Span.encloses_iff.1 hin).2
    omega
  rw [List.append_assoc, countIn_append, hfront, Nat.zero_add, List.append_cons, countIn_append,
    hrest, Nat.add_zero, countIn_append]

include h hos hu hstart in
/-- A block that reaches the end of the first closing has that one and all openings before it. -/
theorem countIn_of_reach (hreach : block.stop = u.2.stop) :
    countIn block InlineTag.isOpening (t :: os) = os.length + 1 ∧
      countIn block InlineTag.isClosing [u] = 1 := by
  constructor
  · refine countIn_eq_length fun x hx => ⟨hos x hx, Span.encloses_iff.2 ?_⟩
    have hbounds := h.bounds x hx
    omega
  · refine countIn_eq_length fun x hx => ?_
    obtain rfl := List.mem_singleton.1 hx
    have hbounds := h.bounds t List.mem_cons_self
    have hlt := h.nonempty t (by simp)
    exact ⟨hu, Span.encloses_iff.2 (by omega)⟩

include hos hstart in
/-- A block that ends before has no closing, but the opening that it starts with. -/
theorem countIn_of_short (hfirst : t.2.stop ≤ block.stop) (hshort : block.stop < u.2.stop) :
    0 < countIn block InlineTag.isOpening (t :: os) ∧
      countIn block InlineTag.isClosing [u] = 0 := by
  constructor
  · refine List.countP_pos_iff.2 ⟨t, List.mem_cons_self, Bool.and_eq_true_iff.2 ⟨?_, ?_⟩⟩
    · exact hos t List.mem_cons_self
    · exact Span.encloses_iff.2 ⟨hstart.le, hfirst⟩
  · refine countIn_eq_zero fun x hx _ => eq_false_of_ne_true fun hin => ?_
    have hstop := (Span.encloses_iff.1 hin).2
    rw [List.mem_singleton.1 hx] at hstop
    exact absurd hshort (not_lt.2 hstop)

include h hos hu hstart hstop in
/-- Up to the first closing behind an opening, a block has as many openings as closings only if it
reaches the end of that closing and no other opening lies before it. -/
theorem countIn_first_closing (hfirst : t.2.stop ≤ block.stop) :
    let tags := front ++ t :: os ++ u :: rest
    (os = [] → block.stop = u.2.stop →
      countIn block InlineTag.isClosing tags = countIn block InlineTag.isOpening tags) ∧
    (os ≠ [] → countIn block InlineTag.isClosing tags < countIn block InlineTag.isOpening tags) := by
  intro tags
  have hclosings : countIn block InlineTag.isClosing (t :: os) = 0 := by
    refine countIn_eq_zero fun x hx hclosing => ?_
    rw [InlineTag.isClosing, hos x hx] at hclosing
    cases hclosing
  have hopening : countIn block InlineTag.isOpening [u] = 0 := by
    refine countIn_eq_zero fun x hx hopening => ?_
    rw [InlineTag.isClosing, ← List.mem_singleton.1 hx, hopening] at hu
    cases hu
  rw [countIn_between h hstart hstop, countIn_between h hstart hstop, hclosings, hopening]
  rcases hstop.eq_or_lt with hreach | hshort
  · obtain ⟨hopenings, hclosing⟩ := countIn_of_reach h hos hu hstart hreach
    rw [hopenings, hclosing]
    refine ⟨fun hnil _ => by rw [hnil]; rfl, fun hne => ?_⟩
    have := List.length_pos_iff.2 hne
    omega
  · obtain ⟨hopenings, hclosing⟩ := countIn_of_short hos hstart hfirst hshort
    exact ⟨fun _ hreach => absurd hreach hshort.ne, fun _ => by omega⟩

end

end

/-! ## Blocks and what they match -/

/-- The block of an opening goes up to the first closing tag behind it or less far. It has as many
openings as closings if there is no opening in between, and more of them if there is one. -/
theorem block_upto_first_closing {front os rest : List (InlineTag × Span)} {n : Token} {o : Span}
    {behind : Cursor} (htags : tagsIn text region = front ++ (.opening n, o) :: tagsFrom behind)
    (ho : o.stop = behind.offset) (hbehind : tagsFrom behind = os ++ (.closing, s) :: rest)
    (hos : ∀ t ∈ os, t.1.isOpening = true) :
    let block : Span := ⟨o.start, blockEnd region behind⟩
    block.stop ≤ s.stop ∧
      (os = [] → block.stop = s.stop ∧
        countIn block InlineTag.isClosing (tagsIn text region)
          = countIn block InlineTag.isOpening (tagsIn text region)) ∧
      (os ≠ [] → countIn block InlineTag.isClosing (tagsIn text region)
        < countIn block InlineTag.isOpening (tagsIn text region)) := by
  intro block
  have hsuccessive := successive_tagsFrom (regionCursor text region)
  rw [hbehind] at htags
  rw [← tagsIn, htags, ← List.cons_append, ← List.append_assoc] at hsuccessive
  obtain ⟨hle, hstop⟩ := blockEnd_le (c := behind) (s := s) region (by simp [hbehind])
  have hstart : block.start = o.start := rfl
  obtain ⟨hnone, hsome⟩ := countIn_first_closing hsuccessive
    (List.forall_mem_cons.2 ⟨rfl, hos⟩) rfl hstart hstop (ho.le.trans hle)
  rw [htags, ← List.cons_append, ← List.append_assoc]
  refine ⟨hstop, fun hnil => ?_, hsome⟩
  rw [hnil] at hbehind
  have hreach : blockEnd region behind = s.stop := blockEnd_of_closing region hbehind
  exact ⟨hreach, hnone hnil hreach⟩

/-- **Blocks end with the first closing tag, not with their own.** In a region whose tags nest, the
block that is recorded for an inline partial begins with an opening tag of that name, the last one,
and a closing tag matches that. If no tag lies in between, the block ends with the matching tag and
has as many openings as closings. Else it ends before that tag, and has more openings. -/
theorem inlineBlock_upto_closing (text : List Char) (engine : String) :
    ∀ scope ∈ (collect (parse text).program text engine).scopes, Nested (tagsIn text scope.region) →
      ∀ name definition, scope.definitions.find? name = some definition →
        ∃ front o inside c back, Nested inside ∧
          tagsIn text scope.region
            = front ++ (.opening ⟨name, definition.nameSpan⟩, o) :: inside ++ (.closing, c) :: back ∧
          (∀ t ∈ inside ++ back, ∀ n, t.1 = .opening n → n.text ≠ name) ∧
          definition.block.start = o.start ∧
          (inside = [] → definition.block.stop = c.stop ∧
            countIn definition.block InlineTag.isClosing (tagsIn text scope.region)
              = countIn definition.block InlineTag.isOpening (tagsIn text scope.region)) ∧
          (inside ≠ [] → definition.block.stop ≤ c.start ∧
            countIn definition.block InlineTag.isClosing (tagsIn text scope.region)
              < countIn definition.block InlineTag.isOpening (tagsIn text scope.region)) := by
  intro scope hscope hnested name definition hfind
  obtain ⟨region, -, hof⟩ := List.mem_filterMap.1 hscope
  obtain rfl := scopeOf_eq_some hof
  obtain ⟨front, o, behind, htags, ho, hblock, hlast⟩ := exists_opening hfind
  obtain ⟨inside, c, back, hbehind, hinside⟩ := hnested.exists_closing htags
  refine ⟨front, o, inside, c, back, hinside, ?_, fun t ht => hlast t ?_, by rw [hblock],
    fun hnil => ?_, fun hne => ?_⟩
  · rw [htags, hbehind, ← List.cons_append, ← List.append_assoc]
  · rw [hbehind]
    simp only [List.mem_append, List.mem_cons] at ht ⊢
    tauto
  · rw [hblock]
    rw [hnil] at hbehind
    exact (block_upto_first_closing htags ho hbehind nofun).2.1 rfl
  · rw [hblock]
    obtain ⟨os, c', rest, rfl, hos, hopenings⟩ := hinside.exists_first_closing hne
    have hsplit : tagsFrom behind = os ++ (.closing, c') :: (rest ++ (.closing, c) :: back) := by
      rw [hbehind, List.append_assoc, List.cons_append]
    obtain ⟨hstop, -, hsome⟩ := block_upto_first_closing htags ho hsplit hopenings
    have hbefore : c'.stop ≤ c.start := by
      have hpairwise := (successive_tagsFrom behind).pairwise
      rw [hbehind] at hpairwise
      exact (List.pairwise_append.1 hpairwise).2.2 (.closing, c') (by simp) _ List.mem_cons_self
    exact ⟨hstop.trans hbefore, hsome hos⟩

/-- A template with two inline partials of one name, one behind the other. -/
def inlineTwice : List Char :=
  "handlebars t = \x60\x7b\x7b#*inline \"a\"\x7d\x7dx\x7b\x7b/inline\x7d\x7d".toList
    ++ "\x7b\x7b~#*inline \"a\" ~\x7d\x7dy\x7b\x7b~/inline\x7d\x7d\x60\n".toList

/-- The block of the name is the second one, from tag to tag. -/
theorem inlineBlock_upto_closing_inlineTwice :
    ∃ scope ∈ (collect (parse inlineTwice).program inlineTwice "handlebars").scopes,
      Nested (tagsIn inlineTwice scope.region) ∧
      scope.definitions.find? "a" = some ⟨⟨57, 58⟩, ⟨44, 76⟩⟩ ∧
      ∃ front o c back, tagsIn inlineTwice scope.region
          = front ++ [(.opening ⟨"a", ⟨57, 58⟩⟩, o), (.closing, c)] ++ back ∧
        (⟨44, 76⟩ : Span) = ⟨o.start, c.stop⟩ := by
  have hscope : ⟨⟨16, 76⟩, ⟨[("a", ⟨⟨57, 58⟩, ⟨44, 76⟩⟩)]⟩⟩ ∈
      (collect (parse inlineTwice).program inlineTwice "handlebars").scopes := by decide +kernel
  have htags : tagsIn inlineTwice ⟨16, 76⟩ = [(.opening ⟨"a", ⟨28, 29⟩⟩, ⟨16, 32⟩),
      (.closing, ⟨33, 44⟩), (.opening ⟨"a", ⟨57, 58⟩⟩, ⟨44, 63⟩), (.closing, ⟨64, 76⟩)] := by
    decide +kernel
  have hnested : Nested (tagsIn inlineTwice ⟨16, 76⟩) := by
    rw [htags]
    exact @Nested.block _ _ _ [] _ .nil (@Nested.block _ _ _ [] [] .nil .nil)
  refine ⟨_, hscope, hnested, rfl, ?_⟩
  obtain ⟨front, o, inside, c, back, -, hsplit, -, hstart, hflat, hcut⟩ :=
    inlineBlock_upto_closing inlineTwice "handlebars" _ hscope hnested "a" _ rfl
  have hnil : inside = [] := by
    by_contra hne
    have hlt := (hcut hne).2
    rw [htags] at hlt
    exact absurd hlt (by decide)
  refine ⟨front, o, c, back, ?_, ?_⟩
  · rw [hsplit, hnil]
    simp
  · exact Span.mk.injEq _ _ _ _ |>.mpr ⟨hstart, (hflat hnil).1⟩

/-- A template with an inline partial inside another one. -/
def inlineInside : List Char :=
  "handlebars t = \x60\x7b\x7b#*inline \"a\"\x7d\x7d\x7b\x7b#*inline \"b\"\x7d\x7dx".toList
    ++ "\x7b\x7b/inline\x7d\x7dy\x7b\x7b/inline\x7d\x7d\x60\n".toList

/-- The tags nest, but the block of the outer partial ends with the closing tag of the inner one, and
has two openings and one closing. -/
theorem inlineInside_cut_short :
    ∃ scope ∈ (collect (parse inlineInside).program inlineInside "handlebars").scopes,
      Nested (tagsIn inlineInside scope.region) ∧
      tagsIn inlineInside scope.region
        = [(.opening ⟨"a", ⟨28, 29⟩⟩, ⟨16, 32⟩), (.opening ⟨"b", ⟨44, 45⟩⟩, ⟨32, 48⟩),
          (.closing, ⟨49, 60⟩), (.closing, ⟨61, 72⟩)] ∧
      scope.definitions.find? "a" = some ⟨⟨28, 29⟩, ⟨16, 60⟩⟩ ∧
      countIn ⟨16, 60⟩ InlineTag.isOpening (tagsIn inlineInside scope.region) = 2 ∧
      countIn ⟨16, 60⟩ InlineTag.isClosing (tagsIn inlineInside scope.region) = 1 := by
  have hscope : ⟨⟨16, 72⟩, ⟨[("a", ⟨⟨28, 29⟩, ⟨16, 60⟩⟩), ("b", ⟨⟨44, 45⟩, ⟨32, 60⟩⟩)]⟩⟩ ∈
      (collect (parse inlineInside).program inlineInside "handlebars").scopes := by decide +kernel
  have htags : tagsIn inlineInside ⟨16, 72⟩
      = [(.opening ⟨"a", ⟨28, 29⟩⟩, ⟨16, 32⟩), (.opening ⟨"b", ⟨44, 45⟩⟩, ⟨32, 48⟩),
        (.closing, ⟨49, 60⟩), (.closing, ⟨61, 72⟩)] := by decide +kernel
  refine ⟨_, hscope, ?_, htags, rfl, ?_, ?_⟩
  · rw [htags]
    exact @Nested.block _ _ _ [_, _] [] (@Nested.block _ _ _ [] [] .nil .nil) .nil
  · rw [htags]
    decide
  · rw [htags]
    decide

end PipelineLang.Template
