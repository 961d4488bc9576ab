/-
Lines as rows of tokens. A line is made up of its tokens in their order, with separators before, between and
behind them and perhaps a comment at its end; each token looks as tokens of its class do, and takes all
characters that it can. The scanner finds such a layout of every line, so nothing of a line is lost, and a line
has only one, so nothing else could have been found. Main statement: `tokens_layout`.
-/
import SmallLisp.Proofs.Source.Enclosed

namespace SmallLisp.Source

/-! ## What tokens look like -/

/-- The characters that can be tokens on their own. -/
def soloChars : List Char := ['[', ']', '\x7b', '\x7d', '(', ')', '\'', '\x60', '~', '^', '@']

/-- A row of characters that continue a word, of which the first can start one. -/
def IsAtom (chars : List Char) : Prop :=
  chars ≠ [] ∧ (∀ c ∈ chars, isWordChar c = true) ∧ ∀ c ∈ chars.head?, c ∉ soloChars

/-- A quote and what may stand behind it on a line, with the quote that closes it. -/
def IsClosedText (chars : List Char) : Prop := ∃ body, TextBody body ∧ '\n' ∉ body ∧ chars = '"' :: (body ++ ['"'])

/-- The same without the quote that closes it. -/
def IsUnclosedText (chars : List Char) : Prop := ∃ body, TextBody body ∧ '\n' ∉ body ∧ chars = '"' :: body

namespace Token

/-- What the characters of a token look like, for each class of tokens. -/
def Shaped (t : Token) : Prop :=
  t.className = "splice" ∧ t.lexeme = "~@" ∨
  t.className = "special" ∧ (∃ c ∈ soloChars, t.lexeme = String.singleton c) ∨
  t.className = "string" ∧ (IsClosedText t.lexeme.toList ∨ IsUnclosedText t.lexeme.toList) ∨
  t.className = "atom" ∧ IsAtom t.lexeme.toList

/-- Whether a token is a string without the quote that would close it. -/
def IsUnclosed : Token → Prop
  | .text chars => ¬IsClosedText chars
  | _ => False

end Token

/-- Whether a line ends here. -/
def AtLineEnd (rest : List Char) : Prop := ∀ c ∈ rest.head?, c = '\n'

/-- Where a string ends that nothing closes: at the end of the line, or at a backslash before it. -/
def EndsText (rest : List Char) : Prop := AtLineEnd rest ∨ ∃ rest', rest = '\\' :: rest' ∧ AtLineEnd rest'

/-- What may follow a token that has taken all characters that it can. -/
def Token.EndsBefore (rest : List Char) : Token → Prop
  | .mark .unquote => rest.head? ≠ some '@'
  | .word _ => EndsWord rest
  | .text chars => (Token.text chars).IsUnclosed → EndsText rest
  | _ => True

/-- How a line is made up of certain tokens. -/
inductive Line : List Char → List Token → Prop where
  | blank {blanks : List Char} : (∀ c ∈ blanks, isSeparator c = true) → Line blanks []
  | comment {blanks : List Char} (note : List Char) : (∀ c ∈ blanks, isSeparator c = true) →
    Line (blanks ++ ';' :: note) []
  | token {blanks rest : List Char} {t : Token} {ts : List Token} : (∀ c ∈ blanks, isSeparator c = true) →
    t.Shaped → t.EndsBefore rest → Line rest ts → Line (blanks ++ (t.lexeme.toList ++ rest)) (t :: ts)

/-! ## Shapes and classes -/

theorem shaped_word {chars : List Char} : (Token.word chars).Shaped ↔ IsAtom chars := by
  simp [Token.Shaped, Token.className, Token.lexeme]

theorem shaped_text {chars : List Char} : (Token.text chars).Shaped ↔ IsClosedText chars ∨ IsUnclosedText chars := by
  simp [Token.Shaped, Token.className, Token.lexeme]

/-- The tokens that are known by their class and character alone have the shape of their class. -/
theorem shaped_fixed {t : Token} (hword : ∀ chars, t ≠ .word chars) (htext : ∀ chars, t ≠ .text chars) : t.Shaped := by
  have hsolo : ∀ {t : Token} {c : Char}, t.className = "special" → t.lexeme = String.singleton c → c ∈ soloChars →
      t.Shaped := fun hclass hlexeme hc => .inr (.inl ⟨hclass, _, hc, hlexeme⟩)
  cases t with
  | word chars => exact absurd rfl (hword chars)
  | text chars => exact absurd rfl (htext chars)
  | caret => exact hsolo (c := '^') rfl rfl (by decide)
  | opening b => cases b <;> exact hsolo rfl rfl (by decide)
  | closing b => cases b <;> exact hsolo rfl rfl (by decide)
  | mark m =>
    cases m with
    | spliceUnquote => exact .inl ⟨rfl, rfl⟩
    | quote => exact hsolo (c := '\'') rfl rfl (by decide)
    | quasiquote => exact hsolo (c := '\x60') rfl rfl (by decide)
    | unquote => exact hsolo (c := '~') rfl rfl (by decide)
    | deref => exact hsolo (c := '@') rfl rfl (by decide)

theorem Token.Shaped.lexeme_ne_nil {t : Token} (h : t.Shaped) : t.lexeme.toList ≠ [] := by
  rcases h with ⟨-, h⟩ | ⟨-, c, -, h⟩ | ⟨-, ⟨body, -, -, h⟩ | ⟨body, -, -, h⟩⟩ | ⟨-, h, -⟩
  · simp [h]
  · simp [h]
  · simp [h]
  · simp [h]
  · exact h

theorem punctuation?_spec {c : Char} {t : Token} (h : punctuation? c = some t) :
    t.Shaped ∧ t.lexeme.toList = [c] ∧ ∀ rest, t.EndsBefore rest := by
  unfold punctuation? at h
  split_ifs at h with h1 h2 h3 h4 h5 h6 h7 h8 <;> cases h <;>
    exact ⟨shaped_fixed (by simp) (by simp), by simp_all [Token.lexeme, Bracket.opening, Bracket.closing, Mark.lexeme],
      fun _ => trivial⟩

/-- A character starts a word if it can continue one and is no token on its own. -/
theorem start_eq_word_iff (c : Char) : Mode.start c = ([], .word [c]) ↔ isWordChar c = true ∧ c ∉ soloChars := by
  constructor
  · intro h
    unfold Mode.start at h
    split_ifs at h with hs hc hq ht ha hm <;> try simp at h
    cases hp : punctuation? c with
    | some t => simp [hp] at h
    | none =>
      refine ⟨by simp_all [isWordChar], fun hsolo => ?_⟩
      simp only [soloChars, List.mem_cons, List.not_mem_nil, or_false] at hsolo
      rcases hsolo with rfl | rfl | rfl | rfl | rfl | rfl | rfl | rfl | rfl | rfl | rfl <;> simp_all [punctuation?]
  · rintro ⟨hword, hsolo⟩
    simp only [isWordChar, Bool.and_eq_true, Bool.not_eq_true', bne_iff_ne, Option.isNone_iff_eq_none] at hword
    obtain ⟨⟨⟨hs, hp⟩, hq⟩, hc⟩ := hword
    simp only [soloChars, List.mem_cons, List.not_mem_nil, or_false, not_or] at hsolo
    simp [Mode.start, hs, hp, hq, hc, hsolo]

theorem isAtom_iff_isWord {chars : List Char} : IsAtom chars ↔ IsWord chars := by
  constructor
  · rintro ⟨hne, hall, hhead⟩
    obtain ⟨c, cs, rfl⟩ := List.exists_cons_of_ne_nil hne
    obtain ⟨hc, hcs⟩ := List.forall_mem_cons.1 hall
    exact ⟨c, cs, rfl, (start_eq_word_iff c).2 ⟨hc, hhead c rfl⟩, hcs⟩
  · rintro ⟨c, cs, rfl, hstart, hcs⟩
    obtain ⟨hc, hsolo⟩ := (start_eq_word_iff c).1 hstart
    exact ⟨by simp, List.forall_mem_cons.2 ⟨hc, hcs⟩, by simpa using hsolo⟩

/-! ## A layout is scanned as its tokens -/

namespace Mode

theorem scan_gap_separator {c : Char} (h : isSeparator c = true) (rest : List Char) :
    gap.scan (c :: rest) = gap.scan rest := by
  by_cases hn : c = '\n'
  · rw [hn, scan_gap_newline]
  · rw [scan_cons, next_gap hn, start, if_pos h]
    rfl

theorem scan_gap_separators {blanks : List Char} (h : ∀ c ∈ blanks, isSeparator c = true) (rest : List Char) :
    gap.scan (blanks ++ rest) = gap.scan rest := by
  induction blanks with
  | nil => rfl
  | cons c blanks ih =>
    obtain ⟨hc, hblanks⟩ := List.forall_mem_cons.1 h
    rw [List.cons_append, scan_gap_separator hc, ih hblanks]

/-- A comment goes on to the end of its line. -/
theorem scan_comment_append {note : List Char} (h : '\n' ∉ note) (rest : List Char) :
    comment.scan (note ++ rest) = comment.scan rest := by
  induction note with
  | nil => rfl
  | cons c note ih =>
    obtain ⟨hc, hnote⟩ := not_or.1 (mt List.mem_cons.2 h)
    rw [List.cons_append, scan_cons, next_comment (Ne.symm hc), List.reverse_nil, List.nil_append, ih hnote]

theorem scan_comment {note : List Char} (h : '\n' ∉ note) : comment.scan note = [] := by
  have := scan_comment_append h []
  rwa [List.append_nil] at this

/-- An unquoting mark ends wherever no `@` follows. -/
theorem scan_tilde_end {rest : List Char} (h : rest.head? ≠ some '@') :
    tilde.scan rest = .mark .unquote :: gap.scan rest := by
  cases rest with
  | nil => rfl
  | cons c rest =>
    have hc : c ≠ '@' := by simpa using h
    by_cases hn : c = '\n'
    · rw [hn, scan_gap_newline]
      rfl
    · rw [scan_cons, next_tilde hn, if_neg hc, scan_cons gap, next_gap hn]
      simp [restart, flush]

/-- A string that nothing closes ends with the line, or before the backslash that ends the line. -/
theorem scan_text_end (seen : List Char) {rest : List Char} (h : EndsText rest) :
    (text seen).scan rest = .text seen.reverse :: gap.scan rest := by
  have hend : ∀ mode : Mode, ∀ {rest : List Char}, AtLineEnd rest →
      mode.scan rest = mode.flush.reverse ++ gap.scan rest := by
    intro mode rest h
    cases rest with
    | nil => simp [scan, flush]
    | cons c rest =>
      obtain rfl : c = '\n' := h c rfl
      rw [scan_cons, next_newline, scan_gap_newline]
  rcases h with h | ⟨rest, rfl, h⟩
  · rw [hend _ h]
    rfl
  · have htext : (text seen).scan ('\\' :: rest) = (escape seen).scan rest := rfl
    have hgap : gap.scan ('\\' :: rest) = (word ['\\']).scan rest := rfl
    rw [htext, hgap, hend (escape seen) h, hend (word ['\\']) h]
    rfl

end Mode

/-- A token is scanned apart from what follows it. -/
theorem scan_token {t : Token} {rest : List Char} (h : t.Shaped) (hend : t.EndsBefore rest) :
    Mode.gap.scan (t.lexeme.toList ++ rest) = t :: Mode.gap.scan rest := by
  cases t with
  | caret => rfl
  | opening b =>
    rw [Token.lexeme, String.toList_singleton, List.singleton_append, Mode.scan_gap_opening]
  | closing b =>
    rw [Token.lexeme, String.toList_singleton, List.singleton_append, Mode.scan_gap_closing]
  | mark m =>
    cases m with
    | unquote => exact Mode.scan_tilde_end hend
    | _ => rfl
  | word chars =>
    rw [Token.lexeme, String.toList_ofList]
    exact (isAtom_iff_isWord.1 (shaped_word.1 h)).spells rest hend
  | text chars =>
    rw [Token.lexeme, String.toList_ofList]
    by_cases hclosed : IsClosedText chars
    · obtain ⟨body, hbody, hline, rfl⟩ := hclosed
      have hquote : Mode.gap.scan ('"' :: (body ++ '"' :: rest)) = (Mode.text ['"']).scan (body ++ '"' :: rest) := rfl
      rw [List.cons_append, List.append_assoc, List.singleton_append, hquote, Mode.scan_text_body hbody hline]
      rfl
    · obtain ⟨body, hbody, hline, rfl⟩ := (shaped_text.1 h).resolve_left hclosed
      have hquote : Mode.gap.scan ('"' :: (body ++ rest)) = (Mode.text ['"']).scan (body ++ rest) := rfl
      rw [List.cons_append, hquote, Mode.scan_text_append hbody hline, Mode.scan_text_end _ (hend hclosed)]
      simp

/-- What is laid out as certain tokens is scanned as these. -/
theorem Line.tokens_eq {line : List Char} {ts : List Token} (h : Line line ts) (hline : '\n' ∉ line) :
    tokens line = ts := by
  rw [tokens_eq_scan]
  induction h with
  | @blank blanks hblanks =>
    have := Mode.scan_gap_separators hblanks []
    rwa [List.append_nil] at this
  | @comment blanks note hblanks =>
    have hnote : '\n' ∉ note := fun hn => hline (List.mem_append_right _ (List.mem_cons_of_mem _ hn))
    rw [Mode.scan_gap_separators hblanks, ← Mode.scan_comment hnote]
    rfl
  | token hblanks hshaped hend _ ih =>
    have hrest := ih fun hn => hline (List.mem_append_right _ (List.mem_append_right _ hn))
    rw [Mode.scan_gap_separators hblanks, scan_token hshaped hend, hrest]

/-! ## Every line has a layout -/

namespace Line

theorem separator {c : Char} {line : List Char} {ts : List Token} (hc : isSeparator c = true) (h : Line line ts) :
    Line (c :: line) ts := by
  cases h with
  | blank hblanks => exact .blank (List.forall_mem_cons.2 ⟨hc, hblanks⟩)
  | comment note hblanks => exact .comment note (List.forall_mem_cons.2 ⟨hc, hblanks⟩)
  | token hblanks hshaped hend hrest => exact .token (List.forall_mem_cons.2 ⟨hc, hblanks⟩) hshaped hend hrest

/-- A token may stand at the beginning of a line. -/
theorem cons (chars : List Char) {rest : List Char} {t : Token} {ts : List Token} (hchars : t.lexeme.toList = chars)
    (hshaped : t.Shaped) (hend : t.EndsBefore rest) (hrest : Line rest ts) : Line (chars ++ rest) (t :: ts) := by
  subst hchars
  exact .token (List.forall_mem_nil _) hshaped hend hrest

theorem mark (chars : List Char) {m : Mark} {rest : List Char} {ts : List Token}
    (hchars : (Token.mark m).lexeme.toList = chars) (hend : (Token.mark m).EndsBefore rest) (hrest : Line rest ts) :
    Line (chars ++ rest) (.mark m :: ts) :=
  .cons chars hchars (shaped_fixed (by simp) (by simp)) hend hrest

theorem word {chars rest : List Char} {ts : List Token} (h : IsAtom chars) (hend : EndsWord rest)
    (hrest : Line rest ts) : Line (chars ++ rest) (.word chars :: ts) :=
  .cons chars String.toList_ofList (shaped_word.2 h) hend hrest

theorem text {chars rest : List Char} {ts : List Token} (h : IsClosedText chars ∨ IsUnclosedText chars)
    (hend : ¬IsClosedText chars → EndsText rest) (hrest : Line rest ts) : Line (chars ++ rest) (.text chars :: ts) :=
  .cons chars String.toList_ofList (shaped_text.2 h) hend hrest

end Line

theorem TextBody.append {body more : List Char} (h : TextBody body) (hmore : TextBody more) :
    TextBody (body ++ more) := by
  induction h with
  | nil => exact hmore
  | plain hq hb _ ih => exact .plain hq hb ih
  | escaped hn _ ih => exact .escaped hn ih

namespace Mode

/-- The characters of the token or comment that a mode is inside of; of a comment, the first one stands for all. -/
def begun : Mode → List Char
  | .gap => []
  | .comment => [';']
  | .tilde => ['~']
  | .word seen => seen.reverse
  | .text seen => seen.reverse
  | .escape seen => seen.reverse ++ ['\\']

/-- Whether these characters can begin such a token. -/
def Sensible : Mode → Prop
  | .word seen => IsAtom seen.reverse
  | .text seen | .escape seen => IsUnclosedText seen.reverse
  | _ => True

/-- Where the line ends, the tokens that are flushed lay out what has begun. -/
theorem line_flush {mode : Mode} (h : mode.Sensible) : Line mode.begun mode.flush.reverse := by
  have hend : AtLineEnd [] := by simp [AtLineEnd]
  have hnothing : Line [] [] := .blank (List.forall_mem_nil _)
  cases mode with
  | gap => exact hnothing
  | comment => exact @Line.comment [] [] (List.forall_mem_nil _)
  | tilde =>
    have hend : (Token.mark .unquote).EndsBefore [] := by simp [Token.EndsBefore]
    exact .mark ['~'] rfl hend hnothing
  | word seen =>
    have := Line.word h endsWord_nil hnothing
    simpa [begun, flush] using this
  | text seen =>
    have := Line.text (.inr h) (fun _ => .inl hend) hnothing
    simpa [begun, flush] using this
  | escape seen =>
    have hatom : IsAtom ['\\'] := ⟨by simp, List.forall_mem_singleton.2 rfl, by simp [soloChars]⟩
    exact .text (.inr h) (fun _ => .inr ⟨[], rfl, hend⟩) (.word hatom endsWord_nil hnothing)

/-- What a character starts between tokens is laid out, provided that the rest of the line is from every mode. -/
theorem line_start {c : Char} {cs : List Char} (hc : c ≠ '\n') (hcs : '\n' ∉ cs)
    (ih : ∀ mode : Mode, mode.Sensible → Line (mode.begun ++ cs) (mode.scan cs)) :
    Line (c :: cs) (gap.scan (c :: cs)) := by
  have hgap : Line cs (gap.scan cs) := ih gap trivial
  rw [scan_cons, next_gap hc]
  -- either the character is a word so far, or it comes to no word at all
  by_cases hw : start c = ([], .word [c])
  · obtain ⟨hword, hsolo⟩ := (start_eq_word_iff c).1 hw
    rw [hw]
    exact ih (.word [c]) ⟨by simp, by simpa using hword, by simpa using hsolo⟩
  · unfold start
    split_ifs with hs hsemi hq ht ha hm
    · exact .separator hs hgap
    · obtain rfl : c = ';' := by simpa using hsemi
      rw [scan_comment hcs]
      exact @Line.comment [] cs (List.forall_mem_nil _)
    · obtain rfl : c = '"' := by simpa using hq
      exact ih (.text ['"']) ⟨[], .nil, by simp, rfl⟩
    · obtain rfl : c = '~' := by simpa using ht
      exact ih .tilde trivial
    · obtain rfl : c = '@' := by simpa using ha
      exact .mark ['@'] (m := .deref) rfl trivial hgap
    · obtain rfl : c = '^' := by simpa using hm
      exact .cons ['^'] (t := .caret) rfl (shaped_fixed (by simp) (by simp)) trivial hgap
    · cases hp : punctuation? c with
      | some t =>
        obtain ⟨hshaped, hchars, hend⟩ := punctuation?_spec hp
        exact .cons [c] hchars hshaped (hend cs) hgap
      | none => simp [start, hs, hsemi, hq, ht, ha, hm, hp] at hw

/-- The scanner lays out what a mode has begun together with the rest of the line. -/
theorem line_scan : ∀ (cs : List Char) (mode : Mode), mode.Sensible → '\n' ∉ cs →
    Line (mode.begun ++ cs) (mode.scan cs)
  | [], mode, h, _ => by
    rw [List.append_nil]
    exact line_flush h
  | c :: cs, mode, h, hline => by
    obtain ⟨hn, hcs⟩ := not_or.1 (mt List.mem_cons.2 hline)
    have hc : c ≠ '\n' := Ne.symm hn
    have ih : ∀ mode : Mode, mode.Sensible → Line (mode.begun ++ cs) (mode.scan cs) := fun mode h =>
      line_scan cs mode h hcs
    -- a token that ends before the character is followed by what the character starts
    have hgap := line_start hc hcs ih
    cases mode with
    | gap => exact hgap
    | comment =>
      rw [scan_comment hline]
      exact @Line.comment [] (c :: cs) (List.forall_mem_nil _)
    | tilde =>
      by_cases ha : c = '@'
      · subst ha
        exact .mark ['~', '@'] (m := .spliceUnquote) rfl trivial (ih gap trivial)
      · have hend : (c :: cs).head? ≠ some '@' := by simpa using ha
        rw [scan_tilde_end hend]
        exact .mark ['~'] (m := .unquote) rfl hend hgap
    | word seen =>
      by_cases hword : isWordChar c = true
      · rw [scan_cons, next_word hc, if_pos hword]
        have := ih (.word (c :: seen)) (isAtom_iff_isWord.2 (by
          rw [List.reverse_cons]
          exact IsWord.snoc (isAtom_iff_isWord.1 h) hword))
        simpa [begun] using this
      · have hend : EndsWord (c :: cs) := endsWord_cons.2 (by simpa using hword)
        rw [scan_word_end seen hend]
        exact .word h hend hgap
    | text seen =>
      obtain ⟨body, hbody, hbodyLine, hseen⟩ := h
      rw [scan_cons, next_text hc]
      by_cases hq : c = '"'
      · subst hq
        have hclosed : IsClosedText (seen.reverse ++ ['"']) := ⟨body, hbody, hbodyLine, by rw [hseen]; rfl⟩
        have := Line.text (.inl hclosed) (fun hopen => absurd hclosed hopen) (ih gap trivial)
        simpa [begun] using this
      · by_cases hb : c = '\\'
        · subst hb
          have := ih (.escape seen) ⟨body, hbody, hbodyLine, hseen⟩
          simpa [begun] using this
        · have := ih (.text (c :: seen))
            ⟨body ++ [c], hbody.append (.plain hq hb .nil), by simp [hbodyLine, hn], by simp [hseen]⟩
          simpa [begun, hq, hb] using this
    | escape seen =>
      obtain ⟨body, hbody, hbodyLine, hseen⟩ := h
      rw [scan_cons, next_escape hc]
      have := ih (.text (c :: '\\' :: seen))
        ⟨body ++ ['\\', c], hbody.append (.escaped hc .nil), by simp [hbodyLine, hn], by simp [hseen]⟩
      simpa [begun] using this

end Mode

/-- The layouts of a line are that of its tokens, and no others. -/
theorem line_iff {line : List Char} (h : '\n' ∉ line) (ts : List Token) : Line line ts ↔ tokens line = ts := by
  constructor
  · exact fun hlayout => hlayout.tokens_eq h
  · rintro rfl
    rw [tokens_eq_scan]
    exact Mode.line_scan line .gap trivial h

/-! ## The lines of a text -/

/-- The tokens of lines with newlines between them are those of each line. -/
theorem tokens_intercalate : ∀ lines : List (List Char), tokens (['\n'].intercalate lines) = lines.flatMap tokens
  | [] => rfl
  | [line] => by rw [List.intercalate_singleton, List.flatMap_singleton]
  | line :: line' :: lines => by
    rw [List.intercalate_cons_cons, List.append_assoc, List.singleton_append, tokens_append_newline,
      tokens_intercalate (line' :: lines), List.flatMap_cons (x := line)]

theorem tokens_eq_flatMap_lines (cs : List Char) : tokens cs = (List.splitOn '\n' cs).flatMap tokens := by
  rw [← tokens_intercalate, List.intercalate_splitOn]

theorem newline_notMem_line {line : List Char} : ∀ {cs : List Char}, line ∈ List.splitOn '\n' cs → '\n' ∉ line
  | [], h => by
    rw [List.splitOn_nil, List.mem_singleton] at h
    simp [h]
  | c :: cs, h => by
    have ih : ∀ line ∈ List.splitOn '\n' cs, '\n' ∉ line := fun line h => newline_notMem_line h
    obtain ⟨first, lines, hlines⟩ := List.exists_cons_of_ne_nil (List.splitOn_ne_nil '\n' cs)
    rw [hlines] at ih
    obtain ⟨hfirst, hothers⟩ := List.forall_mem_cons.1 ih
    rw [List.splitOn_cons_eq_if_modifyHead, hlines] at h
    split_ifs at h with hc
    · rcases List.mem_cons.1 h with rfl | h
      · simp
      · exact ih line h
    · rcases List.mem_cons.1 h with rfl | h
      · have hne : '\n' ≠ c := fun hn => hc (beq_iff_eq.2 hn.symm)
        simp [hne, hfirst]
      · exact hothers line h

theorem Line.shaped {line : List Char} {ts : List Token} (h : Line line ts) : ∀ t ∈ ts, t.Shaped := by
  induction h with
  | blank | comment => exact List.forall_mem_nil _
  | token _ hshaped _ _ ih => exact List.forall_mem_cons.2 ⟨hshaped, ih⟩

theorem shaped_of_mem_tokens {cs : List Char} {t : Token} (h : t ∈ tokens cs) : t.Shaped := by
  rw [tokens_eq_flatMap_lines, List.mem_flatMap] at h
  obtain ⟨line, hline, ht⟩ := h
  exact ((line_iff (newline_notMem_line hline) _).2 rfl).shaped t ht

/-- A text is scanned line by line. Every line is laid out as its tokens, and in no other way, so that nothing of
it is lost: besides its tokens there are separators and perhaps a comment at the end. No token is empty, and each
has the shape of its class. -/
theorem tokens_layout (text : String) :
    tokens text.toList = (List.splitOn '\n' text.toList).flatMap tokens ∧
    (∀ line ∈ List.splitOn '\n' text.toList, ∀ ts, Line line ts ↔ tokens line = ts) ∧
    ∀ t ∈ tokens text.toList, t.lexeme.toList ≠ [] ∧ t.Shaped := by
  refine ⟨tokens_eq_flatMap_lines _, fun line hline ts => line_iff (newline_notMem_line hline) ts, fun t ht => ?_⟩
  have hshaped := shaped_of_mem_tokens ht
  exact ⟨hshaped.lexeme_ne_nil, hshaped⟩

/-- Two lines of which the first breaks off in a string, before a last backslash. -/
def brokenLine : String := ",~~@x\"b;c\\\n\"d\\\"\" ;~ e"

theorem tokens_layout_brokenLine :
    let lines := List.splitOn '\n' brokenLine.toList
    ",~~@x\"b;c\\".toList ∈ lines ∧ "\"d\\\"\" ;~ e".toList ∈ lines ∧
    Line ",~~@x\"b;c\\".toList
      [.mark .unquote, .mark .spliceUnquote, .word ['x'], .text "\"b;c".toList, .word ['\\']] ∧
    Line "\"d\\\"\" ;~ e".toList [.text "\"d\\\"\"".toList] ∧
    Token.text "\"b;c".toList ∈ tokens brokenLine.toList ∧ (Token.text "\"b;c".toList).Shaped := by
  intro lines
  obtain ⟨-, hlines, htokens⟩ := tokens_layout brokenLine
  have hfirst : ",~~@x\"b;c\\".toList ∈ lines := by decide
  have hsecond : "\"d\\\"\" ;~ e".toList ∈ lines := by decide
  have htoken : Token.text "\"b;c".toList ∈ tokens brokenLine.toList := by decide
  exact ⟨hfirst, hsecond, (hlines _ hfirst _).2 (by decide), (hlines _ hsecond _).2 (by decide), htoken,
    (htokens _ htoken).2⟩

end SmallLisp.Source
