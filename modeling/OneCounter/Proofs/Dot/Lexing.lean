import Mathlib.Data.List.Infix
import OneCounter.Dot.Token
import OneCounter.Dot.Writer

/-!
How graph files are divided into tokens. Main statements: a name in quotes is scanned as that
name and a bare word as that word, whatever follows the delimiter, so that texts can be scanned
part by part; and no name that is scanned ends in a backslash, which is what a name needs to be
written in quotes.
-/

namespace OneCounter.Dot

/-- A backslash at the end would take the closing quote into the text. -/
def Quotable (text : List Char) : Prop := text.getLast? ≠ some '\\'

instance (text : List Char) : Decidable (Quotable text) :=
  inferInstanceAs (Decidable (text.getLast? ≠ some '\\'))

theorem quotable_nil : Quotable [] := by decide

theorem quotable_cons_iff {c : Char} {text : List Char} :
    Quotable (c :: text) ↔ Quotable text ∧ (text = [] → c ≠ '\\') := by
  cases text with
  | nil => simp [Quotable]
  | cons d rest => simp [Quotable, List.getLast?_cons]

theorem quotable_of_notMem {text : List Char} (missing : '\\' ∉ text) : Quotable text :=
  fun last => missing (List.mem_of_getLast? last)

/-! ### Quoted text -/

theorem quoteChars_cons {c : Char} (plain : c ≠ '"') (rest : List Char) :
    quoteChars (c :: rest) = c :: quoteChars rest := by
  rw [quoteChars]
  exact plain

/-- Only past the end of the text does a quote stand without a backslash. -/
theorem eq_nil_of_head?_quoteChars {text rest : List Char}
    (quote : (quoteChars text ++ '"' :: rest).head? = some '"') : text = [] := by
  cases text with
  | nil => rfl
  | cons c tail =>
      by_cases same : c = '"'
      · simp [same, quoteChars] at quote
      · rw [quoteChars_cons same] at quote
        exact absurd (by simpa using quote) same

theorem quotedText?_cons {c : Char} {rest : List Char} (plain : c ≠ '"')
    (unescaped : c = '\\' → rest.head? ≠ some '"') :
    quotedText? (c :: rest) = (quotedText? rest).map fun result => (c :: result.1, result.2) := by
  rw [quotedText?]
  · exact plain
  · intro tail slash shape
    exact unescaped slash (by simp [shape])

theorem quotedText?_quoteChars {text : List Char} (ends : Quotable text) (rest : List Char) :
    quotedText? (quoteChars text ++ '"' :: rest) = some (text, rest) := by
  induction text with
  | nil => rfl
  | cons c tail ih =>
      obtain ⟨tailEnds, last⟩ := quotable_cons_iff.mp ends
      by_cases same : c = '"'
      · subst same
        simp [quoteChars, quotedText?, ih tailEnds]
      · rw [quoteChars_cons same, List.cons_append, quotedText?_cons same, ih tailEnds]
        · rfl
        · intro slash quote
          exact last (eq_nil_of_head?_quoteChars quote) slash

theorem head?_of_quotedText?_nil {input rest : List Char}
    (found : quotedText? input = some ([], rest)) : input.head? = some '"' := by
  fun_cases quotedText? input with
  | case1 => simp [quotedText?] at found
  | case2 tail => rfl
  | case3 tail => simp [quotedText?] at found
  | case4 c tail notQuote notEscape => simp [quotedText?] at found

theorem quotable_of_quotedText? {input text rest : List Char}
    (found : quotedText? input = some (text, rest)) : Quotable text := by
  fun_induction quotedText? input generalizing text rest with
  | case1 => simp at found
  | case2 tail =>
      simp only [Option.some.injEq, Prod.mk.injEq] at found
      rw [← found.1]
      exact quotable_nil
  | case3 tail ih =>
      obtain ⟨result, inner, same⟩ := Option.map_eq_some_iff.mp found
      simp only [Prod.mk.injEq] at same
      rw [← same.1]
      exact quotable_cons_iff.mpr ⟨ih inner, fun _ => by decide⟩
  | case4 c tail notQuote notEscape ih =>
      obtain ⟨⟨chars, after⟩, inner, same⟩ := Option.map_eq_some_iff.mp found
      simp only [Prod.mk.injEq] at same
      rw [← same.1]
      refine quotable_cons_iff.mpr ⟨ih inner, ?_⟩
      -- A backslash that ends the text would stand before the closing quote.
      rintro rfl slash
      obtain ⟨more, shape⟩ := List.head?_eq_some_iff.mp (head?_of_quotedText?_nil inner)
      exact notEscape more slash shape

theorem count_newline_quoteChars (text : List Char) :
    (quoteChars text).count '\n' = text.count '\n' := by
  induction text with
  | nil => rfl
  | cons c tail ih =>
      by_cases same : c = '"'
      · subst same
        simp [quoteChars, ih]
      · simp [quoteChars_cons same, List.count_cons, ih]

/-! ### Bare names -/

/-- Characters that end a bare name and do not make an arrow of its last dash. -/
def Delimits (d : Char) : Prop := isWordChar d = false ∧ d ≠ '>'

instance (d : Char) : Decidable (Delimits d) :=
  inferInstanceAs (Decidable (isWordChar d = false ∧ d ≠ '>'))

theorem startsArrow_eq_false {c d : Char} {rest : List Char} (notTip : d ≠ '>')
    (notDashes : ¬ (c = '-' ∧ d = '-')) : startsArrow (c :: d :: rest) = false := by
  unfold startsArrow
  split
  · next shape => simp at shape; exact absurd shape.2.1 notTip
  · next shape => simp at shape; exact absurd ⟨shape.1, shape.2.1⟩ notDashes
  · rfl

section

variable {c d : Char} {word : List Char}

theorem startsArrow_word (chars : ∀ e ∈ c :: word, isWordChar e = true)
    (dashes : ¬ ['-', '-'] <:+: c :: word) (delimits : Delimits d) (rest : List Char) :
    startsArrow (c :: (word ++ d :: rest)) = false := by
  cases word with
  | nil =>
      refine startsArrow_eq_false delimits.2 ?_
      rintro ⟨-, rfl⟩
      exact absurd delimits.1 (by decide)
  | cons e more =>
      refine startsArrow_eq_false ?_ ?_
      · rintro rfl
        exact absurd (chars '>' (by simp)) (by decide)
      · rintro ⟨rfl, rfl⟩
        exact dashes ⟨[], more, rfl⟩

theorem bareName_word (chars : ∀ e ∈ word, isWordChar e = true) (dashes : ¬ ['-', '-'] <:+: word)
    (delimits : Delimits d) (rest : List Char) :
    bareName (word ++ d :: rest) = (word, d :: rest) := by
  induction word with
  | nil => simp [bareName, delimits.1]
  | cons c tail ih =>
      have inner := ih (fun e member => chars e (List.mem_cons_of_mem _ member))
        fun inside => dashes (inside.trans (List.suffix_cons c tail).isInfix)
      have arrowless := startsArrow_word chars dashes delimits rest
      simp [bareName, chars c (by simp), arrowless, inner]

end

theorem isWordChar_of_mem_bareName (input : List Char) :
    ∀ c ∈ (bareName input).1, isWordChar c = true := by
  fun_induction bareName input with
  | case1 => simp
  | case2 c rest isWord tail ih =>
      intro d member
      rcases List.mem_cons.mp member with same | inside
      · simp only [Bool.and_eq_true] at isWord
        rw [same]
        exact isWord.1
      · exact ih d inside
  | case3 => simp

theorem isWordChar_of_isBlank {c : Char} (blank : Text.isBlank c = true) :
    isWordChar c = false := by
  have checked : ∀ code ∈ List.range' 0x9 5 ++ List.range' 0x2000 11 ++
      [0x20, 0x85, 0xa0, 0x1680, 0x2028, 0x2029, 0x202f, 0x205f, 0x3000],
      isWordChar (Char.ofNat code) = false := by decide +kernel
  rw [← Char.ofNat_toNat c]
  apply checked
  simp only [Text.isBlank, Bool.or_eq_true, Bool.and_eq_true, decide_eq_true_eq,
    beq_iff_eq] at blank
  simp only [List.mem_append, List.mem_range'_1, List.mem_cons, List.not_mem_nil]
  omega

theorem isWordChar_of_punctuation? {c : Char} {token : Token} (mark : punctuation? c = some token) :
    isWordChar c = false := by
  unfold punctuation? at mark
  split at mark
  all_goals first | decide | simp at mark

/-! ### Scanning -/

theorem map_cons_eq (lexeme : Lexeme) (scanned : Except ReadError (List Lexeme)) :
    (do
      let more ← scanned
      return lexeme :: more) = scanned.map (lexeme :: ·) := by
  cases scanned <;> rfl

theorem scan_newline (line : Nat) (rest : List Char) :
    scan line ('\n' :: rest) = scan (line + 1) rest := by
  rw [scan, if_pos rfl]

theorem scan_blank {c : Char} (blank : Text.isBlank c = true) (sameLine : c ≠ '\n') (line : Nat)
    (rest : List Char) : scan line (c :: rest) = scan line rest := by
  rw [scan, if_neg sameLine, if_pos blank]

/-- A comment is passed over with the end of its line. -/
theorem scan_comment {opening text : List Char} (opens : opening = ['#'] ∨ opening = ['/', '/'])
    (oneLine : '\n' ∉ text) (line : Nat) (rest : List Char) :
    scan line (opening ++ text ++ '\n' :: rest) = scan (line + 1) rest := by
  have skipped : ∀ front : List Char, '\n' ∉ front →
      (front ++ '\n' :: rest).dropWhile (· ≠ '\n') = '\n' :: rest := by
    intro front missing
    rw [List.dropWhile_append_of_pos]
    · simp
    · intro c member
      simpa using ne_of_mem_of_not_mem member missing
  rcases opens with rfl | rfl
  · rw [List.append_assoc, List.singleton_append, scan, if_neg (by decide), if_neg (by decide),
      if_pos (by simp [startsComment]), skipped text oneLine, scan_newline]
  · rw [List.append_assoc, List.cons_append, scan, if_neg (by decide), if_neg (by decide),
      if_pos (by simp [startsComment]), ← List.append_assoc, skipped _ (by simpa using oneLine),
      scan_newline]

theorem scan_punctuation {c : Char} {token : Token} (mark : punctuation? c = some token)
    (line : Nat) (rest : List Char) : scan line (c :: rest) = (scan line rest).map (⟨line, token⟩ :: ·) := by
  have plain : c ≠ '\n' ∧ Text.isBlank c = false ∧ c ≠ '#' ∧ c ≠ '/' ∧ c ≠ '"' ∧ c ≠ '-' := by
    unfold punctuation? at mark
    split at mark <;> first | decide | simp at mark
  obtain ⟨notNewline, notBlank, notHash, notSlash, notQuote, notDash⟩ := plain
  have notComment : startsComment (c :: rest) = false := by
    simp [startsComment, notHash, notSlash]
  have notArrow : startsArrow (c :: rest) = false := by
    simp [startsArrow, notDash]
  rw [scan, if_neg notNewline, if_neg (by simp [notBlank]), if_neg (by simp [notComment]),
    if_neg notQuote, if_neg (by simp [notArrow])]
  simp only [mark]
  exact map_cons_eq _ _

theorem scan_arrow {tip : Char} (isTip : tip = '>' ∨ tip = '-') (line : Nat) (rest : List Char) :
    scan line ('-' :: tip :: rest) = (scan line rest).map (⟨line, .arrow⟩ :: ·) := by
  have starts : startsArrow ('-' :: tip :: rest) = true := by
    rcases isTip with rfl | rfl <;> rfl
  rw [scan, if_neg (by decide), if_neg (by decide), if_neg (by simp [startsComment]),
    if_neg (by decide), if_pos starts]
  exact map_cons_eq _ _

theorem scan_quote {text : List Char} (ends : Quotable text) (line : Nat) (rest : List Char) :
    scan line ('"' :: quoteChars text ++ '"' :: rest) =
      (scan (line + text.count '\n') rest).map (⟨line, .id (String.ofList text)⟩ :: ·) := by
  rw [List.cons_append, scan, if_neg (by decide), if_neg (by decide),
    if_neg (by simp [startsComment]), if_pos rfl]
  split
  · next missing =>
      rw [quotedText?_quoteChars ends] at missing
      cases missing
  · next found =>
      rw [quotedText?_quoteChars ends, Option.some.injEq, Prod.mk.injEq] at found
      rw [← found.1, ← found.2]
      exact map_cons_eq _ _

/-- A name that can be written bare. -/
structure Bare (word : List Char) : Prop where
  nonempty : word ≠ []
  chars : ∀ c ∈ word, isWordChar c = true
  dashes : ¬ ['-', '-'] <:+: word

instance (word : List Char) : Decidable (Bare word) :=
  decidable_of_iff (word ≠ [] ∧ word.all isWordChar = true ∧ ¬ ['-', '-'] <:+: word)
    ⟨fun ⟨nonempty, chars, dashes⟩ => ⟨nonempty, List.all_eq_true.mp chars, dashes⟩,
      fun bare => ⟨bare.nonempty, List.all_eq_true.mpr bare.chars, bare.dashes⟩⟩

theorem scan_word {word : List Char} {d : Char} (bare : Bare word) (delimits : Delimits d)
    (line : Nat) (rest : List Char) :
    scan line (word ++ d :: rest) =
      (scan line (d :: rest)).map (⟨line, .id (String.ofList word)⟩ :: ·) := by
  obtain ⟨nonempty, chars, dashes⟩ := bare
  cases word with
  | nil => exact absurd rfl nonempty
  | cons c tail =>
      -- A word character is refused by every branch of the scanner before the one for words.
      have isWord := chars c (by simp)
      have differs : ∀ e, isWordChar e = false → c ≠ e := by
        rintro e notWord rfl
        rw [isWord] at notWord
        cases notWord
      have notBlank : ¬ Text.isBlank c = true := by
        intro blank
        rw [isWordChar_of_isBlank blank] at isWord
        cases isWord
      have notComment : startsComment (c :: (tail ++ d :: rest)) = false := by
        simp [startsComment, differs '#' (by decide), differs '/' (by decide)]
      have noMark : punctuation? c = none := by
        cases mark : punctuation? c with
        | none => rfl
        | some token =>
            rw [isWordChar_of_punctuation? mark] at isWord
            cases isWord
      have arrowless := startsArrow_word chars dashes delimits rest
      have name := bareName_word
        (fun e member => chars e (List.mem_cons_of_mem _ member))
        (fun inside => dashes (inside.trans (List.suffix_cons c tail).isInfix)) delimits rest
      rw [List.cons_append, scan, if_neg (differs '\n' (by decide)), if_neg notBlank,
        if_neg (by simp [notComment]), if_neg (differs '"' (by decide)),
        if_neg (by simp [arrowless])]
      simp only [noMark, isWord, if_true, name]
      exact map_cons_eq _ _

theorem cons_of_map_cons_eq_ok {lexeme : Lexeme} {scanned : Except ReadError (List Lexeme)}
    {lexemes : List Lexeme}
    (ok : (do
      let more ← scanned
      return lexeme :: more) = .ok lexemes) :
    ∃ more, scanned = .ok more ∧ lexemes = lexeme :: more := by
  cases scanned with
  | error fault => cases ok
  | ok more => exact ⟨more, rfl, (Except.ok.inj ok).symm⟩

/-- A name, if the token is one, that can be written in quotes. -/
def Token.Quotable (token : Token) : Prop := ∀ name, token = .id name → Dot.Quotable name.toList

theorem Token.quotable_id {text : List Char} (ends : Dot.Quotable text) :
    (Token.id (String.ofList text)).Quotable := by
  rintro name same
  injection same with same
  rw [← same, String.toList_ofList]
  exact ends

theorem Token.quotable_of_punctuation? {c : Char} {token : Token}
    (mark : punctuation? c = some token) : token.Quotable := by
  rintro name rfl
  unfold punctuation? at mark
  split at mark <;> simp at mark

theorem quotable_of_isWordChar {c : Char} (isWord : isWordChar c = true) (rest : List Char) :
    Quotable (c :: (bareName rest).1) := by
  apply quotable_of_notMem
  intro member
  have slash : isWordChar '\\' = true := by
    rcases List.mem_cons.mp member with same | inside
    · exact same ▸ isWord
    · exact isWordChar_of_mem_bareName rest _ inside
  exact absurd slash (by decide)

theorem quotable_of_scan {line : Nat} {input : List Char} {lexemes : List Lexeme}
    (scanned : scan line input = .ok lexemes) : ∀ lexeme ∈ lexemes, lexeme.token.Quotable := by
  fun_induction scan line input generalizing lexemes with
  | case1 line =>
      cases scanned
      simp
  | case2 line rest ih => exact ih scanned
  | case3 line c rest _ _ ih => exact ih scanned
  | case4 line c rest _ _ _ ih => exact ih scanned
  | case5 => cases scanned
  | case6 line rest text after found _ _ _ ih =>
      obtain ⟨more, tail, rfl⟩ := cons_of_map_cons_eq_ok scanned
      exact List.forall_mem_cons.mpr ⟨Token.quotable_id (quotable_of_quotedText? found), ih tail⟩
  | case7 line c rest _ _ _ _ _ ih =>
      obtain ⟨more, tail, rfl⟩ := cons_of_map_cons_eq_ok scanned
      exact List.forall_mem_cons.mpr ⟨nofun, ih tail⟩
  | case8 line c rest _ _ _ _ _ token mark ih =>
      obtain ⟨more, tail, rfl⟩ := cons_of_map_cons_eq_ok scanned
      exact List.forall_mem_cons.mpr ⟨Token.quotable_of_punctuation? mark, ih tail⟩
  | case9 line c rest _ _ _ _ _ _ isWord ih =>
      obtain ⟨more, tail, rfl⟩ := cons_of_map_cons_eq_ok scanned
      exact List.forall_mem_cons.mpr
        ⟨Token.quotable_id (quotable_of_isWordChar isWord rest), ih tail⟩
  | case10 => cases scanned

/-! ### Texts that are scanned by themselves -/

/-- The text is scanned as the given tokens, whatever follows it. -/
def Lexes (line : Nat) (text : List Char) (lexemes : List Lexeme) : Prop :=
  ∀ rest, scan line (text ++ rest) =
    (scan (line + text.count '\n') rest).map (lexemes ++ ·)

theorem Lexes.append {line : Nat} {left right : List Char} {front back : List Lexeme}
    (first : Lexes line left front) (second : Lexes (line + left.count '\n') right back) :
    Lexes line (left ++ right) (front ++ back) := by
  intro rest
  rw [List.append_assoc, first, second, List.count_append, Nat.add_assoc]
  cases scan _ rest with
  | error fault => rfl
  | ok more => simp [Except.map]

theorem Lexes.scan_eq {line : Nat} {text : List Char} {lexemes : List Lexeme}
    (lexes : Lexes line text lexemes) : scan line text = .ok lexemes := by
  have whole := lexes []
  rw [List.append_nil, scan] at whole
  simpa [Except.map] using whole

theorem lexes_nil (line : Nat) : Lexes line [] [] := by
  intro rest
  cases scanned : scan line rest <;> simp [Except.map, scanned]

section

variable {line : Nat} {rest : List Char} {lexemes : List Lexeme}

theorem lexes_newline (after : Lexes (line + 1) rest lexemes) :
    Lexes line ('\n' :: rest) lexemes := by
  intro more
  rw [List.cons_append, scan_newline, after, List.count_cons_self, Nat.add_right_comm]
  rfl

theorem lexes_blank {c : Char} (blank : Text.isBlank c = true) (sameLine : c ≠ '\n')
    (after : Lexes line rest lexemes) : Lexes line (c :: rest) lexemes := by
  intro more
  rw [List.cons_append, scan_blank blank sameLine, after, List.count_cons_of_ne sameLine]

theorem lexes_space (after : Lexes line rest lexemes) : Lexes line (' ' :: rest) lexemes :=
  lexes_blank (by decide) (by decide) after

theorem lexes_comment {opening text : List Char} (opens : opening = ['#'] ∨ opening = ['/', '/'])
    (oneLine : '\n' ∉ text) (after : Lexes (line + 1) rest lexemes) :
    Lexes line (opening ++ text ++ '\n' :: rest) lexemes := by
  intro more
  have newlines : (opening ++ text ++ '\n' :: rest).count '\n' = 1 + rest.count '\n' := by
    rcases opens with rfl | rfl <;> simp [List.count_eq_zero.mpr oneLine, Nat.add_comm]
  rw [List.append_assoc, List.cons_append, scan_comment opens oneLine, after, newlines,
    Nat.add_assoc]

theorem lexes_arrow {tip : Char} (isTip : tip = '>' ∨ tip = '-') (after : Lexes line rest lexemes) :
    Lexes line ('-' :: tip :: rest) (⟨line, .arrow⟩ :: lexemes) := by
  intro more
  have sameLine : tip ≠ '\n' := by
    rcases isTip with rfl | rfl <;> decide
  rw [List.cons_append, List.cons_append, scan_arrow isTip, after,
    List.count_cons_of_ne (by decide), List.count_cons_of_ne sameLine]
  cases scan _ more <;> rfl

theorem lexes_mark {c : Char} {token : Token} (mark : punctuation? c = some token)
    (after : Lexes line rest lexemes) : Lexes line (c :: rest) (⟨line, token⟩ :: lexemes) := by
  intro more
  have notNewline : c ≠ '\n' := by
    rintro rfl
    simp [punctuation?] at mark
  rw [List.cons_append, scan_punctuation mark, after, List.count_cons_of_ne notNewline]
  cases scan _ more <;> rfl

theorem lexes_quote {name : String} (ends : Quotable name.toList)
    (after : Lexes (line + name.toList.count '\n') rest lexemes) :
    Lexes line ((quote name).toList ++ rest) (⟨line, .id name⟩ :: lexemes) := by
  intro more
  have whole := scan_quote ends line (rest ++ more)
  rw [after, String.ofList_toList] at whole
  have newlines : (quote name).toList.count '\n' = name.toList.count '\n' := by
    simp [quote, count_newline_quoteChars]
  rw [List.append_assoc, List.count_append, newlines, ← Nat.add_assoc, quote, String.toList_ofList,
    List.append_assoc, List.singleton_append, whole]
  cases scan _ more <;> rfl

theorem lexes_word (word : String) {d : Char} (bare : Bare word.toList) (delimits : Delimits d)
    (after : Lexes line (d :: rest) lexemes) :
    Lexes line (word.toList ++ d :: rest) (⟨line, .id word⟩ :: lexemes) := by
  intro more
  have newlines : word.toList.count '\n' = 0 :=
    List.count_eq_zero.mpr fun member => absurd (bare.chars _ member) (by decide)
  have next := after more
  rw [List.cons_append] at next
  rw [List.append_assoc, List.cons_append, scan_word bare delimits, String.ofList_toList, next,
    List.count_append, newlines, Nat.zero_add]
  cases scan _ more <;> rfl

end

end OneCounter.Dot
