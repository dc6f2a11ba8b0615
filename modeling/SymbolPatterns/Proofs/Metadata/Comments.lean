import SymbolPatterns.Metadata.Header

/-!
Comments are blanked out in two passes, the blocks first. This gives what one
pass from left to right gives, in which the opening that comes first counts, as
long as no block that is closed opens in a line comment and goes on behind its
line.
-/

namespace SymbolPatterns.Metadata

theorem closesBlock_cons {text : List Char} (c : Char) (h : closesBlock text = true) :
    closesBlock (c :: text) = true := by
  unfold closesBlock
  split
  · rfl
  · next heq =>
    obtain ⟨-, rfl⟩ := List.cons.inj heq
    exact h
  · next heq => cases heq

theorem closesBlock_append {rest : List Char} (front : List Char) (h : closesBlock rest = true) :
    closesBlock (front ++ rest) = true := by
  induction front with
  | nil => exact h
  | cons c front ih => exact closesBlock_cons c ih

theorem closesBlock_iff {text : List Char} : closesBlock text = true ↔ ['*', '/'] <:+: text := by
  constructor
  · intro h
    fun_induction closesBlock text with
    | case1 rest => exact List.infix_append [] ['*', '/'] rest
    | case2 c rest _ ih => exact List.infix_cons (ih h)
    | case3 => cases h
  · rintro ⟨front, rest, rfl⟩
    rw [List.append_assoc]
    exact closesBlock_append front rfl

/-- A block that is closed begins with the text. An opening without an end
behind it is left in the text by both ways. -/
def opensBlock : List Char → Bool
  | '/' :: '*' :: rest => closesBlock rest
  | _ => false

theorem exists_of_opensBlock {text : List Char} (h : opensBlock text = true) :
    ∃ rest, text = '/' :: '*' :: rest ∧ closesBlock rest = true := by
  unfold opensBlock at h
  split at h
  · exact ⟨_, rfl, h⟩
  · cases h

theorem stripBlocks_keep {c : Char} {rest : List Char} (h : opensBlock (c :: rest) = false) :
    stripBlocks false (c :: rest) = c :: stripBlocks false rest := by
  by_cases hopen : ∃ others, c = '/' ∧ rest = '*' :: others
  · obtain ⟨others, rfl, rfl⟩ := hopen
    have hnot : ¬closesBlock others = true := Bool.eq_false_iff.1 h
    have hstar : stripBlocks false ('*' :: others) = '*' :: stripBlocks false others := by
      rw [stripBlocks]
      exact nofun
    rw [stripBlocks, if_neg hnot, hstar]
  · rw [stripBlocks]
    exact fun others hc hrest => hopen ⟨others, hc, hrest⟩

theorem stripBlocks_open {rest : List Char} (h : closesBlock rest = true) :
    stripBlocks false ('/' :: '*' :: rest) = ' ' :: stripBlocks true rest := by
  rw [stripBlocks, if_pos h]

theorem stripBlocks_skip {c : Char} {rest : List Char}
    (h : ∀ others, c = '*' → rest ≠ '/' :: others) :
    stripBlocks true (c :: rest) = stripBlocks true rest := by
  rw [stripBlocks]
  exact fun others hc hrest => h others hc hrest

/-- What is left of the blocks begins with a slash only where the text does.
So the first pass makes no openings of line comments at the front. -/
theorem exists_of_stripBlocks_slash {text rest : List Char}
    (h : stripBlocks false text = '/' :: rest) : ∃ others, text = '/' :: others := by
  cases text with
  | nil => cases h
  | cons c text =>
      cases hopen : opensBlock (c :: text) with
      | false =>
          rw [stripBlocks_keep hopen] at h
          exact ⟨text, congrArg (· :: text) (List.cons.inj h).1⟩
      | true =>
          obtain ⟨others, heq, hcloses⟩ := exists_of_opensBlock hopen
          rw [heq, stripBlocks_open hcloses] at h
          cases (List.cons.inj h).1

theorem stripLines_keep {c : Char} {rest : List Char}
    (h : ∀ others, c = '/' → rest ≠ '/' :: others) :
    stripLines false (c :: rest) = c :: stripLines false rest := by
  by_cases hc : c = '\n'
  · rw [hc, stripLines]
  · rw [stripLines]
    · exact hc
    · exact fun others hc hrest => h others hc hrest

theorem stripLines_skip {c : Char} {rest : List Char} (h : c ≠ '\n') :
    stripLines true (c :: rest) = stripLines true rest := by
  rw [stripLines]
  exact h

/-- What a scan is inside of: code, a line comment or a block comment. -/
inductive Inside where
  | code
  | block
  | line

/-- Blanks out comments from left to right: whichever opening comes first
counts. A line comment is dropped up to the end of its line, and a block
comment that is closed becomes one space. This is what a reader of the
language would take for comments. -/
def scan : Inside → List Char → List Char
  | _, [] => []
  | .code, '/' :: '/' :: rest => scan .line rest
  | .code, '/' :: '*' :: rest =>
      if closesBlock rest then ' ' :: scan .block rest else '/' :: '*' :: scan .code rest
  | .code, c :: rest => c :: scan .code rest
  | .block, '*' :: '/' :: rest => scan .code rest
  | .block, _ :: rest => scan .block rest
  | .line, '\n' :: rest => '\n' :: scan .code rest
  | .line, _ :: rest => scan .line rest

/-- Whether no block that is closed begins with the second slash of a line
comment, and none that begins behind it reaches behind the line. The flags
tell what the two passes are inside of. It is a test that goes through the
text once and can be run. -/
def apart : (inBlock inLine : Bool) → List Char → Bool
  | _, _, [] => true
  | true, inLine, '*' :: '/' :: rest => apart false inLine rest
  | true, true, '\n' :: _ => false
  | true, inLine, _ :: rest => apart true inLine rest
  | false, true, '\n' :: rest => apart false false rest
  | false, inLine, '/' :: '*' :: rest => apart (closesBlock rest) inLine rest
  | false, false, '/' :: '/' :: rest => !opensBlock ('/' :: rest) && apart false true rest
  | false, inLine, _ :: rest => apart false inLine rest

theorem scan_keep {c : Char} {rest : List Char}
    (hline : ∀ others, c = '/' → rest ≠ '/' :: others)
    (hblock : ∀ others, c = '/' → rest ≠ '*' :: others) :
    scan .code (c :: rest) = c :: scan .code rest := by
  rw [scan]
  · exact fun others hc hrest => hline others hc hrest
  · exact fun others hc hrest => hblock others hc hrest

theorem scan_block_close (rest : List Char) :
    scan .block ('*' :: '/' :: rest) = scan .code rest := by
  rw [scan]

theorem scan_block_skip {c : Char} {rest : List Char}
    (h : ∀ others, c = '*' → rest ≠ '/' :: others) :
    scan .block (c :: rest) = scan .block rest := by
  rw [scan]
  exact fun others hc hrest => h others hc hrest

theorem scan_line_skip {c : Char} {rest : List Char} (h : c ≠ '\n') :
    scan .line (c :: rest) = scan .line rest := by
  rw [scan]
  exact h

theorem opensBlock_eq_false {c : Char} {rest : List Char}
    (h : ∀ others, c = '/' → rest ≠ '*' :: others) : opensBlock (c :: rest) = false := by
  cases hopen : opensBlock (c :: rest) with
  | false => rfl
  | true =>
      obtain ⟨others, heq, -⟩ := exists_of_opensBlock hopen
      obtain ⟨rfl, rfl⟩ := List.cons.inj heq
      exact absurd rfl (h others rfl)

/-- Both passes together are inside of a line comment if the second is,
whatever the first is inside of. -/
def insideOf (inBlock inLine : Bool) : Inside :=
  if inLine then .line else if inBlock then .block else .code

/-- Where the blocks are apart from the line comments, both passes give what
the one pass gives from every point on. The induction is on the text, and the
states of both passes go along. -/
theorem strip_eq_scan {inBlock inLine : Bool} {text : List Char}
    (h : apart inBlock inLine text = true) :
    stripLines inLine (stripBlocks inBlock text) = scan (insideOf inBlock inLine) text := by
  fun_induction apart inBlock inLine text with
  | case1 inBlock inLine => rw [stripBlocks, stripLines, scan]
  | case2 inLine rest ih =>
      rw [stripBlocks, ih h]
      cases inLine with
      | false => exact (scan_block_close rest).symm
      | true => exact ((scan_line_skip (by decide)).trans (scan_line_skip (by decide))).symm
  | case3 => cases h
  | case4 inLine c rest hclose hline ih =>
      rw [stripBlocks_skip fun others hc hrest => hclose others hc hrest, ih h]
      cases inLine with
      | false => exact (scan_block_skip fun others hc hrest => hclose others hc hrest).symm
      | true => exact (scan_line_skip (hline rfl)).symm
  | case5 rest ih =>
      rw [stripBlocks_keep rfl, stripLines, ih h]
      rfl
  | case6 inLine rest ih =>
      cases hcloses : closesBlock rest with
      | true =>
          rw [hcloses] at h ih
          rw [stripBlocks_open hcloses]
          cases inLine with
          | false =>
              rw [stripLines_keep (by simp), ih h]
              simp [insideOf, scan, hcloses]
          | true =>
              rw [stripLines_skip (by decide), ih h]
              simp [insideOf, scan]
      | false =>
          rw [hcloses] at h ih
          have hopen : opensBlock ('/' :: '*' :: rest) = false := hcloses
          rw [stripBlocks_keep hopen, stripBlocks_keep rfl]
          cases inLine with
          | false =>
              rw [stripLines_keep (by simp), stripLines_keep (by simp), ih h]
              simp [insideOf, scan, hcloses]
          | true =>
              rw [stripLines_skip (by decide), stripLines_skip (by decide), ih h]
              simp [insideOf, scan]
  | case7 rest ih =>
      obtain ⟨hopen, hrest⟩ := Bool.and_eq_true_iff.1 h
      rw [stripBlocks_keep rfl, stripBlocks_keep (by simpa using hopen), stripLines, ih hrest]
      simp [insideOf, scan]
  | case8 inLine c rest hline hblock hcomment ih =>
      rw [stripBlocks_keep (opensBlock_eq_false fun others hc hrest => hblock others hc hrest)]
      cases inLine with
      | false =>
          have hfirst : ∀ others, c = '/' → stripBlocks false rest ≠ '/' :: others := by
            intro others hc hstripped
            obtain ⟨more, rfl⟩ := exists_of_stripBlocks_slash hstripped
            exact hcomment more rfl hc rfl
          rw [stripLines_keep hfirst, ih h]
          exact (scan_keep (fun others hc hrest => hcomment others rfl hc hrest)
            fun others hc hrest => hblock others hc hrest).symm
      | true =>
          rw [stripLines_skip (hline rfl), ih h]
          exact (scan_line_skip (hline rfl)).symm

/-- No line comment begins in a text, and no block comment that is closed.
Such a text is left as it is, so results about declarations are stated for it. -/
structure CommentFree (text : List Char) : Prop where
  noLine : ¬['/', '/'] <:+: text
  noBlock : ∀ rest, '/' :: '*' :: rest <:+ text → ¬['*', '/'] <:+: rest

theorem commentFree_nil : CommentFree [] where
  noLine := by simp
  noBlock := fun rest hrest => by simp at hrest

theorem commentFree_cons_iff {c : Char} {text : List Char} :
    CommentFree (c :: text) ↔
      (∀ others, c = '/' → text ≠ '/' :: others) ∧ opensBlock (c :: text) = false ∧
        CommentFree text := by
  constructor
  · intro h
    refine ⟨?_, ?_, fun hinfix => h.noLine (List.infix_cons hinfix),
      fun rest hrest => h.noBlock rest (hrest.trans (List.suffix_cons c text))⟩
    · rintro others rfl rfl
      exact h.noLine (List.infix_append [] ['/', '/'] others)
    · cases hopen : opensBlock (c :: text) with
      | false => rfl
      | true =>
          obtain ⟨rest, heq, hcloses⟩ := exists_of_opensBlock hopen
          exact absurd (closesBlock_iff.1 hcloses) (h.noBlock rest (heq ▸ List.suffix_rfl))
  · rintro ⟨hline, hopen, htext⟩
    constructor
    · intro hinfix
      rcases List.infix_cons_iff.1 hinfix with ⟨others, heq⟩ | hinfix
      · obtain ⟨rfl, rfl⟩ := List.cons.inj heq
        exact hline others rfl rfl
      · exact htext.noLine hinfix
    · intro rest hrest hcloses
      rcases List.suffix_cons_iff.1 hrest with heq | hrest
      · rw [← heq] at hopen
        have hopens : opensBlock ('/' :: '*' :: rest) = true := closesBlock_iff.2 hcloses
        rw [hopens] at hopen
        cases hopen
      · exact htext.noBlock rest hrest hcloses

theorem stripComments_of_commentFree {text : List Char} (h : CommentFree text) :
    stripComments text = text := by
  have hblocks : stripBlocks false text = text := by
    induction text with
    | nil => rfl
    | cons c text ih =>
        obtain ⟨-, hopen, htext⟩ := commentFree_cons_iff.1 h
        rw [stripBlocks_keep hopen, ih htext]
  have hlines : stripLines false text = text := by
    clear hblocks
    induction text with
    | nil => rfl
    | cons c text ih =>
        obtain ⟨hline, -, htext⟩ := commentFree_cons_iff.1 h
        rw [stripLines_keep hline, ih htext]
  rw [stripComments, hblocks, hlines]

theorem head_of_scan_line {c : Char} {text rest : List Char} (h : scan .line text = c :: rest) :
    c = '\n' := by
  induction text with
  | nil => cases h
  | cons first text ih =>
      by_cases hfirst : first = '\n'
      · rw [hfirst, scan] at h
        exact (List.cons.inj h).1.symm
      · rw [scan_line_skip hfirst] at h
        exact ih h

/-- What a scan of code begins with, the text begins with, if it is no blank
in the place of a comment. -/
theorem exists_of_scan_code {c : Char} {text rest : List Char} (h : scan .code text = c :: rest)
    (hspace : c ≠ ' ') (hfeed : c ≠ '\n') : ∃ others, text = c :: others := by
  cases text with
  | nil => cases h
  | cons first text =>
      by_cases hline : ∃ others, first = '/' ∧ text = '/' :: others
      · obtain ⟨others, rfl, rfl⟩ := hline
        rw [scan] at h
        exact absurd (head_of_scan_line h) hfeed
      · by_cases hblock : ∃ others, first = '/' ∧ text = '*' :: others
        · obtain ⟨others, rfl, rfl⟩ := hblock
          rw [scan] at h
          split at h
          · exact absurd (List.cons.inj h).1.symm hspace
          · exact ⟨_, congrArg (· :: '*' :: others) (List.cons.inj h).1⟩
        · rw [scan_keep (fun others hc htext => hline ⟨others, hc, htext⟩)
            fun others hc htext => hblock ⟨others, hc, htext⟩] at h
          exact ⟨text, congrArg (· :: text) (List.cons.inj h).1⟩

theorem closesBlock_cons_cases {c : Char} {text : List Char}
    (h : closesBlock (c :: text) = true) :
    (c = '*' ∧ ∃ others, text = '/' :: others) ∨ closesBlock text = true := by
  unfold closesBlock at h
  split at h
  · next others heq =>
    obtain ⟨rfl, rfl⟩ := List.cons.inj heq
    exact .inl ⟨rfl, others, rfl⟩
  · next heq =>
    obtain ⟨-, rfl⟩ := List.cons.inj heq
    exact .inr h
  · cases h

/-- A scan makes no ends of blocks: a star and a slash that come together
where something was dropped are kept apart by a space or a line. -/
theorem closesBlock_of_scan {inside : Inside} {text : List Char}
    (h : closesBlock (scan inside text) = true) : closesBlock text = true := by
  fun_induction scan inside text with
  | case1 => cases h
  | case2 rest ih => exact closesBlock_append ['/', '/'] (ih h)
  | case3 rest hcloses ih => exact closesBlock_append ['/', '*'] hcloses
  | case4 rest hcloses ih =>
      rcases closesBlock_cons_cases h with ⟨hc, -⟩ | hstar
      · cases hc
      · rcases closesBlock_cons_cases hstar with ⟨-, others, hslash⟩ | hrest
        · obtain ⟨more, rfl⟩ := exists_of_scan_code hslash (by decide) (by decide)
          rfl
        · exact absurd (ih hrest) hcloses
  | case5 c rest hline hblock ih =>
      rcases closesBlock_cons_cases h with ⟨rfl, others, hslash⟩ | hrest
      · obtain ⟨more, rfl⟩ := exists_of_scan_code hslash (by decide) (by decide)
        rfl
      · exact closesBlock_cons c (ih hrest)
  | case6 rest ih => rfl
  | case7 c rest hclose ih => exact closesBlock_cons c (ih h)
  | case8 rest ih =>
      rcases closesBlock_cons_cases h with ⟨hc, -⟩ | hrest
      · cases hc
      · exact closesBlock_cons '\n' (ih hrest)
  | case9 c rest hfeed ih => exact closesBlock_cons c (ih h)

/-- A scan leaves no comments, so scanning again changes nothing. -/
theorem commentFree_scan (inside : Inside) (text : List Char) :
    CommentFree (scan inside text) := by
  fun_induction scan inside text with
  | case1 => exact commentFree_nil
  | case2 rest ih => exact ih
  | case3 rest hcloses ih => exact commentFree_cons_iff.2 ⟨by simp, rfl, ih⟩
  | case4 rest hcloses ih =>
      have hopen : opensBlock ('/' :: '*' :: scan .code rest) = false :=
        Bool.eq_false_iff.2 (mt closesBlock_of_scan hcloses)
      have hstar : CommentFree ('*' :: scan .code rest) :=
        commentFree_cons_iff.2 ⟨by simp, rfl, ih⟩
      exact commentFree_cons_iff.2 ⟨by simp, hopen, hstar⟩
  | case5 c rest hline hblock ih =>
      have hslash : ∀ others, c = '/' → scan .code rest ≠ '/' :: others := by
        intro others hc heq
        obtain ⟨more, rfl⟩ := exists_of_scan_code heq (by decide) (by decide)
        exact hline more hc rfl
      have hstar : ∀ others, c = '/' → scan .code rest ≠ '*' :: others := by
        intro others hc heq
        obtain ⟨more, rfl⟩ := exists_of_scan_code heq (by decide) (by decide)
        exact hblock more hc rfl
      exact commentFree_cons_iff.2 ⟨hslash, opensBlock_eq_false hstar, ih⟩
  | case6 rest ih => exact ih
  | case7 c rest hclose ih => exact ih
  | case8 rest ih => exact commentFree_cons_iff.2 ⟨by simp, rfl, ih⟩
  | case9 c rest hfeed ih => exact ih

/-- Where blocks are apart from line comments, comments are blanked out as one
pass from left to right does it, and what is found in a header is what is
found outside of the comments of that pass. Elsewhere the two differ, and a
declaration outside of all comments can be lost. -/
theorem stripComments_eq_scan {content : List Char} (h : apart false false content = true) :
    stripComments content = scan .code content ∧
      headerSymbols content = headerSymbols (scan .code content) := by
  have hstrip : stripComments content = scan .code content := strip_eq_scan h
  refine ⟨hstrip, ?_⟩
  rw [headerSymbols, headerSymbols, hstrip, stripComments_of_commentFree (commentFree_scan _ _)]

/-- Blocks in lines, lines in blocks and blocks that are not closed, none of
which reaches behind its line. -/
def mixedComments : List Char :=
  "// a /* class B; */ c\nclass /* // */ Car;\n/* class Old;\n */ struct Tree; // */ /* x".toList

theorem stripComments_mixedComments :
    stripComments mixedComments = scan .code mixedComments ∧
      headerSymbols mixedComments = [.typeName "Car", .typeName "Tree"] := by
  have hstrip := stripComments_eq_scan (by decide +kernel : apart false false mixedComments = true)
  refine ⟨hstrip.1, hstrip.2.trans ?_⟩
  decide +kernel

theorem stripBlocks_append {front rest : List Char} (h : ¬['/', '*'] <:+: front)
    (hrest : closesBlock rest = true) :
    stripBlocks false (front ++ '/' :: '*' :: rest) = front ++ ' ' :: stripBlocks true rest := by
  induction front with
  | nil => exact stripBlocks_open hrest
  | cons c front ih =>
      have hopen : opensBlock (c :: (front ++ '/' :: '*' :: rest)) = false := by
        refine opensBlock_eq_false fun others hc hstar => ?_
        rcases List.append_eq_cons_iff.1 hstar with ⟨-, hslash⟩ | ⟨more, rfl, -⟩
        · cases (List.cons.inj hslash).1
        · exact h (hc ▸ List.infix_append [] ['/', '*'] more)
      rw [List.cons_append, stripBlocks_keep hopen, ih fun hinfix => h (List.infix_cons hinfix),
        List.cons_append]

theorem stripBlocks_inside {front : List Char} (rest : List Char)
    (h : ¬['*', '/'] <:+: front ++ ['*']) :
    stripBlocks true (front ++ '*' :: '/' :: rest) = stripBlocks false rest := by
  induction front with
  | nil => rw [List.nil_append, stripBlocks]
  | cons c front ih =>
      have hend : ∀ others, c = '*' → front ++ '*' :: '/' :: rest ≠ '/' :: others := by
        rintro others rfl heq
        rcases List.append_eq_cons_iff.1 heq with ⟨-, hstar⟩ | ⟨more, rfl, -⟩
        · cases (List.cons.inj hstar).1
        · exact h (List.infix_append [] ['*', '/'] (more ++ ['*']))
      rw [List.cons_append, stripBlocks_skip hend, ih fun hinfix => h (List.infix_cons hinfix)]

theorem stripLines_inside {front : List Char} (rest : List Char) (h : '\n' ∉ front) :
    stripLines true (front ++ rest) = stripLines true rest := by
  induction front with
  | nil => rfl
  | cons c front ih =>
      obtain ⟨hc, hfront⟩ := not_or.1 (mt List.mem_cons.2 h)
      rw [List.cons_append, stripLines_skip (Ne.symm hc), ih hfront]

/-- A block that is opened in a line comment and closed somewhere behind takes
everything with it, up to the end of the line in which it is closed. Patterns
for files in a comment are enough to open one. -/
theorem stripComments_block_in_line {front inner : List Char} (rest : List Char)
    (hline : '\n' ∉ front) (hopen : ¬['/', '*'] <:+: '/' :: '/' :: front)
    (hinner : ¬['*', '/'] <:+: inner ++ ['*']) :
    stripComments ('/' :: '/' :: front ++ '/' :: '*' :: (inner ++ '*' :: '/' :: rest)) =
      stripLines true (stripBlocks false rest) := by
  rw [stripComments, stripBlocks_append hopen (closesBlock_append inner rfl),
    stripBlocks_inside rest hinner, List.cons_append, List.cons_append, stripLines,
    stripLines_inside _ hline, stripLines_skip (by decide)]

/-- The class stands outside of all comments and is lost: the block that takes
it begins in a line comment. -/
theorem block_in_line_comment_takes_class :
    let text := "// Plugins/*.as\nclass Car;\n/* end */".toList
    stripComments text ≠ scan .code text ∧ headerSymbols text = [] ∧
      headerSymbols (scan .code text) = [.typeName "Car"] := by
  decide +kernel

end SymbolPatterns.Metadata
