import PipelineLang.Proofs.Reference.Line
import PipelineLang.Proofs.Source.Position

/-!
# From offsets to positions and back

The offset of a position is looked for line by line and then unit by unit; the position of an offset
is counted from the text before it. Both describe one cut of the text: what stands before a line, and
the front of the line (`ofOffset_line`, `offset?_line`). So an offset between characters is that of
its own position, a position has an offset if its line is that long, and that offset has the position
again, or the next one if the position is in the middle of a character (`positions_roundTrip`).
-/

namespace PipelineLang

open Utf8 Reference

/-! ## Units -/

theorem units16_pos (x : Char) (xs : List Char) : 0 < units16 (x :: xs) := by
  rw [units16]
  split
  · omega
  · omega

/-- No character takes more units than bytes. -/
theorem units16_le_byteLength (cs : List Char) : units16 cs ≤ byteLength cs := by
  induction cs with
  | nil => exact Nat.le_refl 0
  | cons x xs ih =>
    have hpos := Char.utf8Size_pos x
    have hwide (h : ¬x.toNat < 0x10000) : x.utf8Size ≠ 1 := fun hone => by
      have hle : x.toNat ≤ 127 := UInt32.le_iff_toNat_le.1 (Char.utf8Size_eq_one_iff.1 hone)
      omega
    rw [units16, byteLength]
    split
    · omega
    · next h =>
      have := hwide h
      omega

theorem length_le_byteLength (cs : List Char) : cs.length ≤ byteLength cs := by
  induction cs with
  | nil => exact Nat.le_refl 0
  | cons x xs ih =>
    have hpos := Char.utf8Size_pos x
    rw [List.length_cons, byteLength]
    omega

/-- The units end in the middle of a character of the line, one that takes two. -/
def SplitsPair (line : List Char) (units : Nat) : Prop :=
  ∃ front x back, line = front ++ x :: back ∧ 0x10000 ≤ x.toNat ∧ units = units16 front + 1

/-- Where a character ends none is split. -/
theorem not_splitsPair (front back : List Char) : ¬SplitsPair (front ++ back) (units16 front) := by
  rintro ⟨front', x, back', hline, hwide, hunits⟩
  rcases List.append_eq_append_iff.1 hline with ⟨run, rfl, -⟩ | ⟨run, rfl, hrun⟩
  · rw [units16_append] at hunits
    omega
  · cases run with
    | nil =>
      rw [List.append_nil] at hunits
      omega
    | cons y ys =>
      obtain ⟨rfl, -⟩ := List.cons.inj hrun
      rw [units16_append, units16, if_neg (by omega)] at hunits
      omega

/-- What splits a character does so behind more of the line. -/
theorem SplitsPair.append_left {line : List Char} {units : Nat} (h : SplitsPair line units)
    (front : List Char) : SplitsPair (front ++ line) (units16 front + units) := by
  obtain ⟨front', x, back, rfl, hwide, rfl⟩ := h
  refine ⟨front ++ front', x, back, (List.append_assoc ..).symm, hwide, ?_⟩
  rw [units16_append, Nat.add_assoc]

/-! ## Fronts of lines -/

namespace Reference.IsLine

variable {text pre front back post : List Char}

theorem eq_front (h : IsLine text pre (front ++ back) post) :
    text = (pre ++ front) ++ (back ++ post) := by
  rw [h.eq]
  simp only [List.append_assoc]

theorem lineFeed_not_mem_front (h : IsLine text pre (front ++ back) post) : '\n' ∉ front :=
  fun hmem => h.single (List.mem_append_left back hmem)

/-- The front of a line adds no line feed to those before it. -/
theorem count_front (h : IsLine text pre (front ++ back) post) :
    (pre ++ front).count '\n' = pre.count '\n' := by
  rw [List.count_append, List.count_eq_zero.2 h.lineFeed_not_mem_front, Nat.add_zero]

/-- Since the last line feed there is the front of the line. -/
theorem last_front (h : IsLine text pre (front ++ back) post) : Lines.last (pre ++ front) = front := by
  have hpre : Lines.last pre = [] := by
    rcases List.eq_nil_or_concat' pre with rfl | ⟨pre, x, rfl⟩
    · rfl
    · obtain rfl : x = '\n' := h.opens x (by rw [List.getLast?_concat]; rfl)
      rw [Lines.last_concat, if_pos rfl]
  rw [Lines.last_append h.lineFeed_not_mem_front, hpre, List.nil_append]

end Reference.IsLine

namespace Position

variable {text pre line post : List Char}

/-! ## Lines -/

theorem length_splitOn (text : List Char) : (text.splitOn '\n').length = lineCount text := by
  rw [lineCount]
  induction text with
  | nil => rfl
  | cons x xs ih =>
    rw [List.splitOn_cons_eq_if_modifyHead, List.count_cons]
    split
    · rw [List.length_cons, ih]
    · rw [List.length_modifyHead, ih, Nat.add_zero]

theorem head?_splitOn (hsingle : '\n' ∉ line) (hcloses : ∀ x ∈ post.head?, x = '\n') :
    ((line ++ post).splitOn '\n')[0]? = some line := by
  cases post with
  | nil =>
    rw [List.append_nil, List.splitOn_eq_singleton hsingle]
    rfl
  | cons y ys =>
    obtain rfl := hcloses y rfl
    rw [List.splitOn_append_cons_self_of_not_mem hsingle]
    rfl

/-- A line stands in the list of lines behind those before it. -/
theorem getElem?_splitOn (h : IsLine text pre line post) :
    (text.splitOn '\n')[pre.count '\n']? = some line := by
  have hhead := head?_splitOn h.single h.closes
  rcases List.eq_nil_or_concat' pre with rfl | ⟨pre, x, rfl⟩
  · rw [h.eq, List.nil_append]
    exact hhead
  · obtain rfl : x = '\n' := h.opens x (by rw [List.getLast?_concat]; rfl)
    have hlength : (pre ++ ['\n']).count '\n' = (pre.splitOn '\n').length := by
      rw [length_splitOn, lineCount, List.count_append]
      rfl
    rw [h.eq, List.append_assoc, List.append_assoc, List.singleton_append,
      List.splitOn_append_cons_self, hlength, List.getElem?_append_right le_rfl, Nat.sub_self]
    exact hhead

/-- Every number up to that of the line feeds is the number of a line. -/
theorem exists_isLine {n : Nat} (h : n < lineCount text) :
    ∃ pre line post, IsLine text pre line post ∧ pre.count '\n' = n := by
  induction n generalizing text with
  | zero =>
    obtain ⟨pre, post, hline, hpre⟩ := isLine_around [] text
    obtain rfl : pre = [] := (List.append_eq_nil_iff.1 hpre.symm).1
    exact ⟨[], _, post, hline, rfl⟩
  | succ n ih =>
    have hmem : '\n' ∈ text := List.count_pos_iff.1 (by rw [lineCount] at h; omega)
    obtain ⟨first, rest, rfl, hfirst⟩ := List.eq_append_cons_of_mem hmem
    have hcount : (first ++ '\n' :: rest).count '\n' = rest.count '\n' + 1 := by
      rw [List.count_append, List.count_eq_zero.2 hfirst, List.count_cons_self, Nat.zero_add]
    have hrest : n < lineCount rest := by
      rw [lineCount, hcount] at h
      exact Nat.lt_of_succ_lt_succ h
    obtain ⟨pre, line, post, hline, hpre⟩ := ih hrest
    refine ⟨first ++ '\n' :: pre, line, post, ⟨?_, fun x hx => ?_, hline.closes, hline.single⟩, ?_⟩
    · rw [hline.eq]
      simp only [List.append_assoc, List.cons_append]
    · rw [List.getLast?_append, List.getLast?_cons, Option.some_or, Option.mem_some] at hx
      cases hlast : pre.getLast? with
      | none => rw [← hx, hlast, Option.getD_none]
      | some y => rw [← hx, hlast, Option.getD_some, hline.opens y hlast]
    · rw [List.count_append, List.count_eq_zero.2 hfirst, List.count_cons_self, Nat.zero_add, hpre]

theorem lineStart?_append (hopens : ∀ x ∈ pre.getLast?, x = '\n') (offset : Nat)
    (rest : List Char) :
    lineStart? (pre.count '\n') offset (pre ++ rest) = some (offset + byteLength pre, rest) := by
  induction pre generalizing offset with
  | nil => rw [List.count_nil, List.nil_append, lineStart?, byteLength, Nat.add_zero]
  | cons x xs ih =>
    have hlast : xs.getLast?.getD x = '\n' := hopens _ (by rw [List.getLast?_cons]; rfl)
    have ih := ih (fun y hy => by rwa [hy, Option.getD_some] at hlast) (offset + x.utf8Size)
    have hoffset : offset + byteLength (x :: xs) = offset + x.utf8Size + byteLength xs := by
      rw [byteLength, Nat.add_assoc]
    by_cases hx : x = '\n'
    · rw [hoffset, ← ih, hx, List.count_cons_self, List.cons_append, lineStart?, if_pos rfl]
    · -- the line feed at the end is still to come
      have hmem : '\n' ∈ xs := by
        cases hxs : xs.getLast? with
        | none => rw [hxs, Option.getD_none] at hlast; exact absurd hlast hx
        | some y =>
          rw [hxs, Option.getD_some] at hlast
          exact hlast ▸ List.mem_of_getLast? hxs
      obtain ⟨n, hn⟩ := Nat.exists_eq_add_one_of_ne_zero (List.count_pos_iff.2 hmem).ne'
      rw [List.count_cons_of_ne hx, hn, List.cons_append, lineStart?, if_neg hx, ← hn, ih, hoffset]

theorem lineStart?_eq_none {n : Nat} (h : text.count '\n' < n) (offset : Nat) :
    lineStart? n offset text = none := by
  induction text generalizing n offset with
  | nil =>
    cases n with
    | zero => cases h
    | succ n => rfl
  | cons x xs ih =>
    cases n with
    | zero => cases h
    | succ n =>
      rw [lineStart?]
      rw [List.count_cons] at h
      refine ih ?_ _
      split
      · next hx =>
        subst hx
        rw [if_pos (beq_self_eq_true _)] at h
        exact Nat.lt_of_succ_lt_succ h
      · exact Nat.lt_of_le_of_lt (Nat.le_add_right _ _) h

/-! ## Units of a line -/

/-- A walk is over where it has passed enough units. -/
theorem walk?_of_le {character units : Nat} (h : character ≤ units) (offset : Nat)
    (rest : List Char) : walk? character units offset rest = some offset := by
  cases rest with
  | nil => exact if_pos h
  | cons x xs => exact if_pos h

/-- Behind a run of a line the units before it are those of the run. -/
theorem walk?_append {run : List Char} (h : '\n' ∉ run) (units offset : Nat) (rest : List Char) :
    walk? (units + units16 run) units offset (run ++ rest) = some (offset + byteLength run) := by
  induction run generalizing units offset with
  | nil => exact walk?_of_le le_rfl offset rest
  | cons x xs ih =>
    rw [List.mem_cons, not_or] at h
    have hpos := units16_pos x xs
    have hunits : units + units16 (x :: xs) = units + units16 [x] + units16 xs := by
      rw [← List.singleton_append, units16_append, Nat.add_assoc]
    rw [List.cons_append, walk?, if_neg (by omega), if_neg (Ne.symm h.1), hunits, ih h.2, byteLength,
      Nat.add_assoc]

/-- A walk that starts at the end of a line stays there. -/
theorem walk?_lineEnd (hcloses : ∀ x ∈ post.head?, x = '\n') (character units offset : Nat) :
    walk? character units offset post = if character ≤ units then some offset else none := by
  cases post with
  | nil => rfl
  | cons y ys =>
    obtain rfl := hcloses y rfl
    rw [walk?, if_pos rfl]

/-- A walk along a line gets as far as the units of the line go. -/
theorem isSome_walk? (hsingle : '\n' ∉ line) (hcloses : ∀ x ∈ post.head?, x = '\n')
    (character units offset : Nat) :
    (walk? character units offset (line ++ post)).isSome = true
      ↔ character ≤ units + units16 line := by
  induction line generalizing units offset with
  | nil =>
    rw [List.nil_append, walk?_lineEnd hcloses, Option.isSome_ite, units16, Nat.add_zero]
  | cons x xs ih =>
    rw [List.mem_cons, not_or] at hsingle
    have hunits : units16 (x :: xs) = units16 [x] + units16 xs :=
      units16_append [x] xs
    rw [List.cons_append, walk?, if_neg (Ne.symm hsingle.1)]
    split
    · exact iff_of_true rfl (by omega)
    · rw [ih hsingle.2, hunits, Nat.add_assoc]

/-- A walk along a line ends where the units before it are those asked for, or behind the character
that they split. -/
theorem walk?_spec (hsingle : '\n' ∉ line) (hcloses : ∀ x ∈ post.head?, x = '\n')
    {character units offset o : Nat} (hle : units ≤ character)
    (h : walk? character units offset (line ++ post) = some o) :
    ∃ front back, line = front ++ back ∧ o = offset + byteLength front ∧
      (character = units + units16 front ∨
        SplitsPair line (character - units) ∧ character + 1 = units + units16 front) := by
  induction line generalizing units offset with
  | nil =>
    rw [List.nil_append, walk?_lineEnd hcloses] at h
    obtain ⟨hcharacter, heq⟩ := Option.ite_none_right_eq_some.1 h
    cases heq
    exact ⟨[], [], rfl, rfl, Or.inl (Nat.le_antisymm hcharacter hle)⟩
  | cons x xs ih =>
    rw [List.mem_cons, not_or] at hsingle
    rw [List.cons_append, walk?, if_neg (Ne.symm hsingle.1)] at h
    split at h
    · next hcharacter =>
      cases h
      exact ⟨[], x :: xs, rfl, rfl, Or.inl (Nat.le_antisymm hcharacter hle)⟩
    · next hcharacter =>
      rcases Nat.lt_or_ge character (units + units16 [x]) with hlt | hge
      · -- the character takes two units, of which one was asked for
        rw [walk?_of_le hlt.le] at h
        cases h
        have hwide : 0x10000 ≤ x.toNat := by
          by_contra hnarrow
          rw [units16, if_pos (Nat.lt_of_not_le hnarrow), units16] at hlt
          omega
        rw [units16, if_neg (Nat.not_lt.2 hwide), units16] at hlt
        refine ⟨[x], xs, rfl, rfl, Or.inr ⟨⟨[], x, xs, rfl, hwide, ?_⟩, ?_⟩⟩
        · rw [units16]
          omega
        · rw [units16, if_neg (Nat.not_lt.2 hwide), units16]
          omega
      · obtain ⟨front, back, rfl, rfl, hfront⟩ := ih hsingle.2 hge h
        have hunits : units16 (x :: front) = units16 [x] + units16 front := units16_append [x] front
        refine ⟨x :: front, back, rfl, by rw [byteLength, Nat.add_assoc], ?_⟩
        rw [hunits, ← Nat.add_assoc]
        have hbehind : units16 [x] + (character - (units + units16 [x])) = character - units := by
          omega
        exact hfront.imp_right fun hsplits => ⟨hbehind ▸ hsplits.1.append_left [x], hsplits.2⟩

/-! ## Offsets and positions -/

/-- The position of an offset on a line. -/
theorem ofOffset_line {front back : List Char} (h : IsLine text pre (front ++ back) post) :
    ofOffset text (byteLength (pre ++ front)) = ⟨pre.count '\n', units16 front⟩ := by
  rw [h.eq_front, ofOffset, splitFloor_byteLength, h.count_front, h.last_front]

/-- The offset of a position on a line. -/
theorem offset?_line (h : IsLine text pre line post) (character : Nat) :
    offset? text ⟨pre.count '\n', character⟩
      = walk? character 0 (byteLength pre) (line ++ post) := by
  have hstart := lineStart?_append h.opens 0 (line ++ post)
  rw [← List.append_assoc, ← h.eq, Nat.zero_add] at hstart
  rw [offset?, hstart]
  rfl

/-- **An offset between characters is that of its own position.** -/
theorem offset?_ofOffset {o : Nat} (h : IsBoundary text o) : offset? text (ofOffset text o) = some o := by
  obtain ⟨front, back, rfl, rfl⟩ := h
  obtain ⟨pre, post, hline, hfront⟩ := isLine_around front back
  have hposition := ofOffset_line hline
  rw [← hfront] at hposition
  have hwalk := walk?_append hline.lineFeed_not_mem_front 0 (byteLength pre)
    (back.takeWhile (· != '\n') ++ post)
  rw [Nat.zero_add] at hwalk
  rw [hposition, offset?_line hline, List.append_assoc, hwalk, ← byteLength_append, ← hfront]

/-- A position has an offset if there is its line and it is that long. -/
theorem isSome_offset? (p : Position) : (offset? text p).isSome = true ↔
    ∃ line, (text.splitOn '\n')[p.line]? = some line ∧ p.character ≤ units16 line := by
  rcases Nat.lt_or_ge p.line (lineCount text) with hlt | hge
  · obtain ⟨pre, line, post, hline, hpre⟩ := exists_isLine hlt
    have hoffset := offset?_line hline p.character
    rw [hpre] at hoffset
    rw [hoffset, isSome_walk? hline.single hline.closes, ← hpre, getElem?_splitOn hline, Nat.zero_add]
    simp only [Option.some.injEq, exists_eq_left']
  · have hnone : (text.splitOn '\n')[p.line]? = none := by
      rw [List.getElem?_eq_none_iff, length_splitOn]
      exact hge
    rw [offset?, lineStart?_eq_none hge, hnone]
    exact iff_of_false Bool.false_ne_true (by rintro ⟨line, ⟨⟩, -⟩)

/-- **The offset of a position has the position again**, or the next one if the position splits a
character. -/
theorem ofOffset_of_offset? {p : Position} {o : Nat} (h : offset? text p = some o) :
    IsBoundary text o ∧ ∃ line, (text.splitOn '\n')[p.line]? = some line ∧
      (SplitsPair line p.character → ofOffset text o = ⟨p.line, p.character + 1⟩) ∧
      (¬SplitsPair line p.character → ofOffset text o = p) := by
  rcases Nat.lt_or_ge p.line (lineCount text) with hlt | hge
  · obtain ⟨pre, line, post, hline, hpre⟩ := exists_isLine hlt
    have hoffset := offset?_line hline p.character
    rw [hpre, h] at hoffset
    obtain ⟨front, back, rfl, rfl, hunits⟩ :=
      walk?_spec hline.single hline.closes (Nat.zero_le _) hoffset.symm
    rw [Nat.zero_add] at hunits
    rw [← byteLength_append, ofOffset_line hline, ← hpre, getElem?_splitOn hline]
    refine ⟨⟨pre ++ front, back ++ post, ?_, rfl⟩, front ++ back, rfl, fun hsplits => ?_,
      fun hwhole => ?_⟩
    · rw [hline.eq]
      simp only [List.append_assoc]
    · rcases hunits with heq | ⟨-, heq⟩
      · exact absurd (heq ▸ hsplits) (not_splitsPair front back)
      · rw [heq]
    · rcases hunits with heq | ⟨hsplits, -⟩
      · rw [← heq, hpre]
      · exact absurd hsplits hwhole
  · rw [offset?, lineStart?_eq_none hge] at h
    cases h

/-- The numbers of a position are no larger than the text is long. -/
theorem ofOffset_le_byteLength (text : List Char) (o : Nat) :
    (ofOffset text o).line ≤ byteLength text ∧ (ofOffset text o).character ≤ byteLength text := by
  obtain ⟨pre, post, hline, hfront⟩ := isLine_around (splitFloor o text).1 (splitFloor o text).2
  have hbytes : byteLength (splitFloor o text).1 ≤ byteLength text := by
    have hlength := congrArg byteLength (splitFloor_append o text)
    rw [byteLength_append] at hlength
    omega
  constructor
  · calc (splitFloor o text).1.count '\n'
      _ ≤ (splitFloor o text).1.length := List.count_le_length
      _ ≤ byteLength (splitFloor o text).1 := length_le_byteLength _
      _ ≤ byteLength text := hbytes
  · have hlast : byteLength (Lines.last (splitFloor o text).1) ≤ byteLength (splitFloor o text).1 := by
      rw [hfront, byteLength_append, ← hfront]
      exact Nat.le_add_left ..
    exact (units16_le_byteLength _).trans (hlast.trans hbytes)

end Position

open Position

/-- **Positions and offsets go back and forth.** The numbers of a position are no larger than its
text is long, so those of a text of less than `2 ^ 32` bytes have 32 bits. An offset between
characters is that of its own position. A position has an offset if its line, counted from zero, is
one of the text and has, without its line feed, as many units as the position asks for; the offset is
between characters of that line, and its position is the same one, or the next one if the units split
a character. A larger offset has no earlier position, inside of characters and behind the text too, so
the range of a span whose ends are in order has its ends in order. -/
theorem positions_roundTrip (text : List Char) :
    (∀ o, (ofOffset text o).line ≤ byteLength text ∧
      (ofOffset text o).character ≤ byteLength text) ∧
    (∀ o, IsBoundary text o → offset? text (ofOffset text o) = some o) ∧
    lineCount text = (text.splitOn '\n').length ∧
    (∀ p, (offset? text p).isSome = true ↔
      ∃ line, (text.splitOn '\n')[p.line]? = some line ∧ p.character ≤ units16 line) ∧
    (∀ p o, offset? text p = some o → IsBoundary text o ∧
      ∃ line, (text.splitOn '\n')[p.line]? = some line ∧
        (SplitsPair line p.character → ofOffset text o = ⟨p.line, p.character + 1⟩) ∧
        (¬SplitsPair line p.character → ofOffset text o = p)) ∧
    (∀ m n, m ≤ n → (ofOffset text m).le (ofOffset text n)) ∧
    ∀ s : Span, s.start ≤ s.stop →
      (Range.ofSpan text s).start.le (Range.ofSpan text s).stop :=
  ⟨ofOffset_le_byteLength text, fun _ h => offset?_ofOffset h, (length_splitOn text).symm,
    isSome_offset?, fun _ _ h => ofOffset_of_offset? h, fun _ _ h => ofOffset_le h text,
    fun _ h => ofOffset_le h text⟩

/-- In the middle of a character that takes two units. -/
example : offset? ['a', '😀', '\n'] ⟨0, 2⟩ = some 5 ∧ ofOffset ['a', '😀', '\n'] 5 = ⟨0, 3⟩ := by
  decide

end PipelineLang
