import BlockVerilog.Proofs.Text.Tidied

/-!
Wrapped texts.

A layout of a paragraph is a cut of its words into lines, each as full as the limit allows. Every
paragraph has exactly one, and wrapping prints it. A line that is printed has itself as its only
layout, so a wrapped text stays as it is when it is wrapped again.
-/

namespace BlockVerilog.Text

/-! ### Words -/

/-- A text falls into words: the longest runs without white space, with white space around them. -/
inductive FallsInto : List Char → List (List Char) → Prop where
  | blank {gap : List Char} (blanks : ∀ c ∈ gap, isBlank c = true) : FallsInto gap []
  | word {gap word rest : List Char} {others : List (List Char)}
      (blanks : ∀ c ∈ gap, isBlank c = true) (nonempty : word ≠ [])
      (visible : ∀ c ∈ word, isBlank c = false) (ends : ∀ c ∈ rest.head?, isBlank c = true)
      (behind : FallsInto rest others) : FallsInto (gap ++ word ++ rest) (word :: others)

@[simp] theorem words_nil : words [] = [] := by
  simp [words]

/-- Words split at white space: the equation that all else about them follows from. -/
theorem words_append_blank {c : Char} (blank : isBlank c = true) (first second : List Char) :
    words (first ++ c :: second) = words first ++ words second := by
  rw [words, List.splitOnP_append_cons first second blank, List.filter_append]
  rfl

theorem words_gap {gap : List Char} (blanks : ∀ c ∈ gap, isBlank c = true) (text : List Char) :
    words (gap ++ text) = words text := by
  induction gap with
  | nil => rw [List.nil_append]
  | cons c gap inductionHypothesis =>
      obtain ⟨blank, behind⟩ := List.forall_mem_cons.mp blanks
      have split := words_append_blank blank [] (gap ++ text)
      rwa [words_nil, List.nil_append, List.nil_append, inductionHypothesis behind] at split

theorem words_of_blanks {text : List Char} (blanks : ∀ c ∈ text, isBlank c = true) :
    words text = [] := by
  have all := words_gap blanks []
  rwa [List.append_nil, words_nil] at all

theorem words_of_visible {word : List Char} (nonempty : word ≠ [])
    (visible : ∀ c ∈ word, isBlank c = false) : words word = [word] := by
  have whole : word.splitOnP isBlank = [word] := List.splitOnP_eq_singleton visible
  rw [words, whole]
  simp [nonempty]

theorem FallsInto.eq_words {text : List Char} {found : List (List Char)}
    (falls : FallsInto text found) : found = words text := by
  induction falls with
  | blank blanks => rw [words_of_blanks blanks]
  | @word gap word rest others blanks nonempty visible ends _ inductionHypothesis =>
      rw [List.append_assoc, words_gap blanks, inductionHypothesis]
      cases rest with
      | nil => rw [List.append_nil, words_of_visible nonempty visible, words_nil]
      | cons c rest =>
          have blank : isBlank c = true := ends c rfl
          have front : words ([c] ++ rest) = words rest :=
            words_gap (List.forall_mem_singleton.mpr blank) rest
          rw [List.singleton_append] at front
          rw [words_append_blank blank, words_of_visible nonempty visible, front]
          rfl

theorem exists_fallsInto (text : List Char) : ∃ found, FallsInto text found := by
  induction text with
  | nil => exact ⟨[], .blank (List.forall_mem_nil _)⟩
  | cons c text inductionHypothesis =>
      obtain ⟨found, falls⟩ := inductionHypothesis
      by_cases blank : isBlank c = true
      · cases falls with
        | blank blanks =>
            apply Exists.intro []
            apply FallsInto.blank
            exact List.forall_mem_cons.mpr ⟨blank, blanks⟩
        | @word gap word rest others blanks nonempty visible ends behind =>
            have longer : ∀ d ∈ c :: gap, isBlank d = true :=
              List.forall_mem_cons.mpr ⟨blank, blanks⟩
            exact ⟨word :: others, .word longer nonempty visible ends behind⟩
      · rw [Bool.not_eq_true] at blank
        -- a visible character goes on with the word behind it, if that follows at once
        have alone (ends : ∀ d ∈ text.head?, isBlank d = true) :
            FallsInto ([] ++ [c] ++ text) ([c] :: found) := by
          apply FallsInto.word (List.forall_mem_nil _) (List.cons_ne_nil c []) _ ends falls
          exact List.forall_mem_singleton.mpr blank
        cases falls with
        | blank blanks => exact ⟨_, alone fun d first => blanks d (List.mem_of_mem_head? first)⟩
        | @word gap word rest others blanks nonempty visible ends behind =>
            cases gap with
            | nil =>
                have longer : ∀ d ∈ c :: word, isBlank d = false :=
                  List.forall_mem_cons.mpr ⟨blank, visible⟩
                exact ⟨(c :: word) :: others,
                  .word (List.forall_mem_nil _) (List.cons_ne_nil c word) longer ends behind⟩
            | cons first gap =>
                refine ⟨_, alone fun d head => ?_⟩
                obtain rfl : first = d := Option.some.inj head
                exact blanks first List.mem_cons_self

theorem fallsInto_iff {text : List Char} {found : List (List Char)} :
    FallsInto text found ↔ found = words text := by
  constructor
  · exact FallsInto.eq_words
  · rintro rfl
    obtain ⟨found, falls⟩ := exists_fallsInto text
    rwa [← falls.eq_words]

/-- A word that can be told from what is around it. -/
def IsVisible (word : List Char) : Prop := word ≠ [] ∧ ∀ c ∈ word, isBlank c = false

theorem FallsInto.visible {text : List Char} {found : List (List Char)}
    (falls : FallsInto text found) : ∀ word ∈ found, IsVisible word := by
  induction falls with
  | blank => exact List.forall_mem_nil _
  | word _ nonempty visible _ _ inductionHypothesis =>
      exact List.forall_mem_cons.mpr ⟨⟨nonempty, visible⟩, inductionHypothesis⟩

/-! ### Lines of words -/

@[simp] theorem joinWords_nil : joinWords [] = [] := rfl

@[simp] theorem joinWords_singleton (word : List Char) : joinWords [word] = word :=
  List.intercalate_singleton

theorem joinWords_append {front back : List (List Char)} (nonempty : front ≠ [])
    (nonemptyBack : back ≠ []) :
    joinWords (front ++ back) = joinWords front ++ ' ' :: joinWords back := by
  rw [joinWords, intercalate_append [' '] nonempty nonemptyBack, List.append_assoc]
  rfl

theorem mem_joinWords {line : List (List Char)} {c : Char} (listed : c ∈ joinWords line) :
    c = ' ' ∨ ∃ word ∈ line, c ∈ word := by
  induction line with
  | nil => cases listed
  | cons word line inductionHypothesis =>
      by_cases last : line = []
      · rw [last, joinWords_singleton] at listed
        exact .inr ⟨word, List.mem_cons_self, listed⟩
      · rw [← List.singleton_append, joinWords_append (List.cons_ne_nil word []) last,
          joinWords_singleton, List.mem_append, List.mem_cons] at listed
        rcases listed with inside | space | later
        · exact .inr ⟨word, List.mem_cons_self, inside⟩
        · exact .inl space
        · refine (inductionHypothesis later).imp_right ?_
          rintro ⟨other, member, inside⟩
          exact ⟨other, List.mem_cons_of_mem word member, inside⟩

theorem length_joinWords_concat {line : List (List Char)} (nonempty : line ≠ [])
    (word : List Char) :
    (joinWords (line ++ [word])).length = (joinWords line).length + 1 + word.length := by
  rw [joinWords_append nonempty (List.cons_ne_nil word []), joinWords_singleton,
    List.length_append, List.length_cons]
  omega

theorem length_joinWords_le (line rest : List (List Char)) :
    (joinWords line).length ≤ (joinWords (line ++ rest)).length := by
  by_cases empty : line = []
  · rw [empty, joinWords_nil]
    exact Nat.zero_le _
  · by_cases last : rest = []
    · rw [last, List.append_nil]
    · rw [joinWords_append empty last, List.length_append]
      exact Nat.le_add_right _ _

/-- The words of a line are found again in its text. -/
theorem fallsInto_joinWords {line : List (List Char)} (visible : ∀ word ∈ line, IsVisible word) :
    FallsInto (joinWords line) line := by
  rw [fallsInto_iff]
  induction line with
  | nil => rw [joinWords_nil, words_nil]
  | cons word line inductionHypothesis =>
      obtain ⟨⟨nonempty, plain⟩, others⟩ := List.forall_mem_cons.mp visible
      by_cases last : line = []
      · rw [last, joinWords_singleton, words_of_visible nonempty plain]
      · have space : isBlank ' ' = true := by decide
        rw [← List.singleton_append, joinWords_append (List.cons_ne_nil word []) last,
          words_append_blank space, ← inductionHypothesis others, joinWords_singleton,
          words_of_visible nonempty plain]

theorem IsVisible.opens {word : List Char} (visible : IsVisible word) : opens word = true := by
  obtain ⟨c, rest, rfl⟩ := List.exists_cons_of_ne_nil visible.1
  have first := visible.2 c List.mem_cons_self
  simp [Text.opens, first]

theorem IsVisible.closes {word : List Char} (visible : IsVisible word) : closes word = true := by
  obtain ⟨front, c, rfl⟩ := (List.eq_nil_or_concat word).resolve_left visible.1
  have last := visible.2 c (by simp)
  simp [Text.closes, last]

/-- No white space stands around the words of a line. -/
theorem opens_closes_joinWords {line : List (List Char)} (nonempty : line ≠ [])
    (visible : ∀ word ∈ line, IsVisible word) :
    opens (joinWords line) = true ∧ closes (joinWords line) = true := by
  induction line with
  | nil => exact absurd rfl nonempty
  | cons word line inductionHypothesis =>
      obtain ⟨plain, others⟩ := List.forall_mem_cons.mp visible
      by_cases last : line = []
      · rw [last, joinWords_singleton]
        exact ⟨plain.opens, plain.closes⟩
      · obtain ⟨_, closed⟩ := inductionHypothesis last others
        rw [← List.singleton_append, joinWords_append (List.cons_ne_nil word []) last,
          joinWords_singleton]
        constructor
        · exact opens_append plain.opens _
        · rw [List.append_cons]
          exact closes_append closed _

/-! ### Full lines -/

/-- A line keeps within a limit, or is a single word. -/
def Fits (limit : Nat) (line : List (List Char)) : Prop :=
  (joinWords line).length ≤ limit ∨ ∃ word, line = [word]

/-- The first word of the next line would have made this one too long. -/
def NoRoom (limit : Nat) (line next : List (List Char)) : Prop :=
  ∀ word ∈ next.head?, limit < (joinWords (line ++ [word])).length

/-- Lines of words, each as full as a limit allows. -/
structure IsFilled (limit : Nat) (layout : List (List (List Char))) : Prop where
  nonempty : ∀ line ∈ layout, line ≠ []
  fits : ∀ line ∈ layout, Fits limit line
  full : layout.IsChain (NoRoom limit)

/-- A paragraph in lines: its words in order, each line as full as a limit allows. Without words it
is one empty line. -/
structure IsLayout (limit : Nat) (paragraph : List Char) (layout : List (List (List Char))) :
    Prop where
  cut : FallsInto paragraph layout.flatten
  filled : layout = [[]] ∨ layout ≠ [] ∧ IsFilled limit layout

theorem fillLine_cases (limit : Nat) (line ws : List (List Char)) :
    ∃ taken rest, fillLine limit line ws = (line ++ taken) :: rest := by
  induction ws generalizing line with
  | nil => exact ⟨[], [], by rw [fillLine, List.append_nil]⟩
  | cons word ws inductionHypothesis =>
      rw [fillLine]
      split
      next =>
        obtain ⟨taken, rest, same⟩ := inductionHypothesis (line ++ [word])
        exact ⟨word :: taken, rest, by rw [same, List.append_assoc, List.singleton_append]⟩
      next => exact ⟨[], fillLine limit [word] ws, by rw [List.append_nil]⟩

theorem flatten_fillLine (limit : Nat) (line ws : List (List Char)) :
    (fillLine limit line ws).flatten = line ++ ws := by
  induction ws generalizing line with
  | nil => simp [fillLine]
  | cons word ws inductionHypothesis =>
      rw [fillLine]
      split <;> simp [inductionHypothesis]

theorem isFilled_fillLine {limit : Nat} {line : List (List Char)} (nonempty : line ≠ [])
    (fits : Fits limit line) (ws : List (List Char)) :
    IsFilled limit (fillLine limit line ws) := by
  induction ws generalizing line with
  | nil => exact ⟨by simpa [fillLine], by simpa [fillLine], List.IsChain.singleton line⟩
  | cons word ws inductionHypothesis =>
      rw [fillLine]
      split
      next room =>
        apply inductionHypothesis (by simp)
        left
        rwa [length_joinWords_concat nonempty]
      next none =>
        have alone : Fits limit [word] := .inr ⟨word, rfl⟩
        have behind := inductionHypothesis (List.cons_ne_nil word []) alone
        obtain ⟨taken, rest, next⟩ := fillLine_cases limit [word] ws
        constructor
        case nonempty => exact List.forall_mem_cons.mpr ⟨nonempty, behind.nonempty⟩
        case fits => exact List.forall_mem_cons.mpr ⟨fits, behind.fits⟩
        case full =>
          have chain := behind.full
          rw [next] at chain ⊢
          refine List.isChain_cons_cons.mpr ⟨fun first head => ?_, chain⟩
          obtain rfl : word = first := Option.some.inj head
          rw [length_joinWords_concat nonempty]
          exact Nat.lt_of_not_le none

/-- Words that fit on a line are put on it. -/
theorem fillLine_append {limit : Nat} {line taken : List (List Char)} (nonempty : line ≠ [])
    (fits : Fits limit (line ++ taken)) (ws : List (List Char)) :
    fillLine limit line (taken ++ ws) = fillLine limit (line ++ taken) ws := by
  induction taken generalizing line with
  | nil => rw [List.nil_append, List.append_nil]
  | cons word taken inductionHypothesis =>
      have regroup : line ++ word :: taken = line ++ [word] ++ taken := List.append_cons ..
      have room : (joinWords line).length + 1 + word.length ≤ limit := by
        rcases fits with short | ⟨only, alone⟩
        · have shorter := length_joinWords_le (line ++ [word]) taken
          rw [← regroup, length_joinWords_concat nonempty] at shorter
          exact Nat.le_trans shorter short
        · -- a single word is not a line and a word behind it
          have count := congrArg List.length alone
          have positive := List.length_pos_iff.mpr nonempty
          simp at count
          omega
      rw [regroup] at fits ⊢
      rw [List.cons_append, fillLine, if_pos room, inductionHypothesis (by simp) fits]

theorem fillLine_flatten {limit : Nat} {line : List (List Char)} {rest : List (List (List Char))}
    (filled : IsFilled limit (line :: rest)) :
    fillLine limit line rest.flatten = line :: rest := by
  induction rest generalizing line with
  | nil => rw [List.flatten_nil, fillLine]
  | cons next rest inductionHypothesis =>
      obtain ⟨nonempty, others⟩ := List.forall_mem_cons.mp filled.nonempty
      obtain ⟨_, fits⟩ := List.forall_mem_cons.mp filled.fits
      obtain ⟨noRoom, chain⟩ := List.isChain_cons_cons.mp filled.full
      have later := inductionHypothesis ⟨others, fits, chain⟩
      obtain ⟨word, behind, rfl⟩ := List.exists_cons_of_ne_nil (List.forall_mem_cons.mp others).1
      have tooLong : ¬ (joinWords line).length + 1 + word.length ≤ limit := by
        rw [← length_joinWords_concat nonempty]
        exact Nat.not_le_of_lt (noRoom word rfl)
      have onward := fillLine_append (List.cons_ne_nil word []) (fits _ List.mem_cons_self)
        rest.flatten
      rw [List.flatten_cons, List.cons_append, fillLine, if_neg tooLong, onward]
      exact congrArg (line :: ·) later

theorem fill_flatten {limit : Nat} {layout : List (List (List Char))} (some : layout ≠ [])
    (filled : IsFilled limit layout) : fill limit layout.flatten = layout := by
  obtain ⟨line, rest, rfl⟩ := List.exists_cons_of_ne_nil some
  have nonempty := filled.nonempty line List.mem_cons_self
  obtain ⟨word, behind, rfl⟩ := List.exists_cons_of_ne_nil nonempty
  have onward := fillLine_append (List.cons_ne_nil word []) (filled.fits _ List.mem_cons_self)
    rest.flatten
  rw [List.flatten_cons, List.cons_append, fill, onward]
  exact fillLine_flatten filled

/-- Every paragraph has one layout, which filling finds. -/
theorem isLayout_iff {limit : Nat} {paragraph : List Char} {layout : List (List (List Char))} :
    IsLayout limit paragraph layout ↔ layout = fill limit (words paragraph) := by
  constructor
  · rintro ⟨cut, rfl | ⟨some, filled⟩⟩
    · rw [← cut.eq_words]
      rfl
    · rw [← cut.eq_words, fill_flatten some filled]
  · rintro rfl
    cases found : words paragraph with
    | nil => exact ⟨fallsInto_iff.mpr found.symm, .inl rfl⟩
    | cons word ws =>
        have filled : IsFilled limit (fillLine limit [word] ws) :=
          isFilled_fillLine (List.cons_ne_nil word []) (.inr ⟨word, rfl⟩) ws
        obtain ⟨taken, rest, same⟩ := fillLine_cases limit [word] ws
        constructor
        case cut => rw [fallsInto_iff, found, fill, flatten_fillLine, List.singleton_append]
        case filled => exact .inr ⟨by rw [fill, same]; exact List.cons_ne_nil _ _, filled⟩

namespace IsLayout

variable {limit : Nat} {paragraph : List Char} {layout : List (List (List Char))}
  {line : List (List Char)}

theorem ne_nil (laidOut : IsLayout limit paragraph layout) : layout ≠ [] := by
  rcases laidOut.filled with rfl | ⟨some, _⟩
  · exact List.cons_ne_nil [] []
  · exact some

theorem visible (laidOut : IsLayout limit paragraph layout) (listed : line ∈ layout) :
    ∀ word ∈ line, IsVisible word :=
  fun _ member => laidOut.cut.visible _ (List.mem_flatten_of_mem listed member)

/-- A line that was laid out is laid out again as it is. -/
theorem again (laidOut : IsLayout limit paragraph layout) (listed : line ∈ layout) :
    IsLayout limit (joinWords line) [line] := by
  have cut := fallsInto_joinWords (laidOut.visible listed)
  rcases laidOut.filled with rfl | ⟨_, filled⟩
  · obtain rfl : line = [] := List.mem_singleton.mp listed
    exact ⟨cut, .inl rfl⟩
  · have nonempty := filled.nonempty line listed
    have fits := filled.fits line listed
    refine ⟨by rwa [List.flatten_singleton], .inr ⟨List.cons_ne_nil line [], ?_⟩⟩
    exact ⟨by simpa, by simpa, List.IsChain.singleton line⟩

theorem newline_not_mem (laidOut : IsLayout limit paragraph layout) (listed : line ∈ layout) :
    '\n' ∉ joinWords line := by
  intro newline
  rcases mem_joinWords newline with space | ⟨word, member, inside⟩
  · exact absurd space (by decide)
  · have plain := (laidOut.visible listed word member).2 '\n' inside
    exact absurd plain (by decide)

end IsLayout

/-- The layouts of all paragraphs of a text. -/
def layouts (limit : Nat) (text : List Char) : List (List (List (List Char))) :=
  (lines text).map fun paragraph => fill limit (words paragraph)

theorem isLayout_layouts (limit : Nat) (text : List Char) :
    List.Forall₂ (IsLayout limit) (lines text) (layouts limit text) := by
  rw [layouts, List.forall₂_map_right_iff, List.forall₂_same]
  intro paragraph _
  exact isLayout_iff.mpr rfl

theorem wrap_eq (limit : Nat) (text : List Char) :
    wrap limit text = unlines ((layouts (max limit 1) text).flatMap (·.map joinWords)) := by
  rw [wrap, layouts, List.flatMap_map]

/-- Every printed line was laid out in some paragraph. -/
theorem exists_printed {limit : Nat} {text printed : List Char}
    (listed : printed ∈ (layouts limit text).flatMap (·.map joinWords)) :
    ∃ paragraph layout line, IsLayout limit paragraph layout ∧ line ∈ layout ∧
      printed = joinWords line := by
  obtain ⟨layout, found, member⟩ := List.mem_flatMap.mp listed
  obtain ⟨paragraph, _, rfl⟩ := List.mem_map.mp found
  obtain ⟨line, inLayout, rfl⟩ := List.mem_map.mp member
  exact ⟨paragraph, _, line, isLayout_iff.mpr rfl, inLayout, rfl⟩

theorem layouts_ne_nil (limit : Nat) (text : List Char) : layouts limit text ≠ [] := by
  rw [layouts, ne_eq, List.map_eq_nil_iff]
  exact List.splitOn_ne_nil _ _

theorem printed_ne_nil {limit : Nat} {text : List Char} {layout : List (List (List Char))}
    (found : layout ∈ layouts limit text) : layout.map joinWords ≠ [] := by
  obtain ⟨paragraph, _, rfl⟩ := List.mem_map.mp found
  have laidOut : IsLayout limit paragraph (fill limit (words paragraph)) := isLayout_iff.mpr rfl
  rw [ne_eq, List.map_eq_nil_iff]
  exact laidOut.ne_nil

/-- The lines of a wrapped text are those of its layouts. -/
theorem lines_wrap (limit : Nat) (text : List Char) :
    lines (wrap limit text) = (layouts (max limit 1) text).flatMap (·.map joinWords) := by
  have clean : ∀ printed ∈ (layouts (max limit 1) text).flatMap (·.map joinWords),
      '\n' ∉ printed := by
    intro printed listed
    obtain ⟨_, _, line, laidOut, member, rfl⟩ := exists_printed listed
    exact laidOut.newline_not_mem member
  have nonempty : (layouts (max limit 1) text).flatMap (·.map joinWords) ≠ [] := by
    obtain ⟨layout, found⟩ := List.exists_mem_of_ne_nil _ (layouts_ne_nil (max limit 1) text)
    intro empty
    exact printed_ne_nil found (List.flatMap_eq_nil_iff.mp empty layout found)
  rw [wrap_eq]
  exact List.splitOn_intercalate '\n' clean nonempty

theorem unlines_flatten {blocks : List (List (List Char))}
    (nonempty : ∀ block ∈ blocks, block ≠ []) :
    unlines blocks.flatten = unlines (blocks.map unlines) := by
  induction blocks with
  | nil => rfl
  | cons block blocks inductionHypothesis =>
      obtain ⟨some, others⟩ := List.forall_mem_cons.mp nonempty
      cases blocks with
      | nil => simp [unlines]
      | cons next blocks =>
          have more : (next :: blocks).flatten ≠ [] := by
            rw [List.flatten_cons]
            exact List.append_ne_nil_of_left_ne_nil (others next List.mem_cons_self) _
          rw [List.flatten_cons, unlines_append some more, inductionHypothesis others]
          simp [unlines, List.intercalate_cons_cons]

/-- Each line is wrapped as it stands. -/
theorem wrap_wrap (limit : Nat) (text : List Char) :
    wrap limit (wrap limit text) = wrap limit text := by
  have kept : ∀ printed ∈ lines (wrap limit text),
      (fill (max limit 1) (words printed)).map joinWords = [printed] := by
    intro printed listed
    rw [lines_wrap] at listed
    obtain ⟨_, _, line, laidOut, member, rfl⟩ := exists_printed listed
    rw [← isLayout_iff.mp (laidOut.again member), List.map_singleton]
  calc wrap limit (wrap limit text)
      = unlines ((lines (wrap limit text)).flatMap fun printed => [printed]) :=
        congrArg unlines (List.flatMap_congr kept)
    _ = unlines (lines (wrap limit text)) := by rw [List.flatMap_singleton']
    _ = wrap limit text := by rw [lines_wrap, wrap_eq]

/-- Wrapping lays out each line of a text on its own: all its words in order, single spaces between
those of a line and no white space around them, each line within the limit or a single word, and
none with room for the first word of the next. Newlines stand between lines and between paragraphs,
and wrapping again changes nothing. -/
theorem wrap_lossless_greedy (limit : Nat) (text : List Char) :
    ∃ paragraphs : List (List (List (List Char))),
      List.Forall₂ (IsLayout (max limit 1)) (lines text) paragraphs ∧
      wrap limit text = unlines (paragraphs.map fun layout => unlines (layout.map joinWords)) ∧
      lines (wrap limit text) = paragraphs.flatMap (·.map joinWords) ∧
      (∀ printed ∈ lines (wrap limit text),
        printed ≠ [] → opens printed = true ∧ closes printed = true) ∧
      wrap limit (wrap limit text) = wrap limit text := by
  apply Exists.intro (layouts (max limit 1) text)
  refine ⟨isLayout_layouts _ _, ?_, lines_wrap limit text, ?_, wrap_wrap limit text⟩
  · have blocks : ∀ block ∈ (layouts (max limit 1) text).map (·.map joinWords), block ≠ [] :=
      List.forall_mem_map.mpr fun layout found => printed_ne_nil found
    rw [wrap_eq, List.flatMap_def, unlines_flatten blocks, List.map_map]
    rfl
  · intro printed listed nonempty
    rw [lines_wrap] at listed
    obtain ⟨_, _, line, laidOut, member, rfl⟩ := exists_printed listed
    apply opens_closes_joinWords _ (laidOut.visible member)
    rintro rfl
    exact nonempty joinWords_nil

example : wrap 9 "one two three  four\n\nfive".toList = "one two\nthree\nfour\n\nfive".toList := by
  decide +kernel

end BlockVerilog.Text
