/-
Scanning as a recursion along the text: what a mode makes of the characters ahead. The main
statements say which tokens a scan can yield, and that words, strings, brackets and gaps are scanned
apart from what follows them.
-/
import SmallLisp.Source.Token
import Mathlib.Tactic.SplitIfs

namespace SmallLisp.Source

namespace Mode

/-- The tokens that a scan adds from a mode on, in their order. -/
def scan : Mode → List Char → List Token
  | mode, [] => mode.flush.reverse
  | mode, c :: cs => (mode.next c).1.reverse ++ scan (mode.next c).2 cs

theorem scan_cons (mode : Mode) (c : Char) (cs : List Char) :
    mode.scan (c :: cs) = (mode.next c).1.reverse ++ (mode.next c).2.scan cs := rfl

/-! One equation for each mode; a newline is apart. -/

theorem next_newline (mode : Mode) : mode.next '\n' = (mode.flush, gap) := rfl

section Next

variable {c : Char} (h : c ≠ '\n')
include h

theorem next_gap : gap.next c = start c := by simp [next, h]

theorem next_comment : comment.next c = ([], comment) := by simp [next, h]

theorem next_tilde : tilde.next c =
    if c = '@' then ([.mark .spliceUnquote], gap) else restart tilde c := by simp [next, h]

theorem next_word (seen : List Char) : (word seen).next c =
    if isWordChar c then ([], word (c :: seen)) else restart (word seen) c := by simp [next, h]

theorem next_text (seen : List Char) : (text seen).next c =
    if c = '"' then ([.text (c :: seen).reverse], gap)
    else if c = '\\' then ([], escape seen) else ([], text (c :: seen)) := by simp [next, h]

theorem next_escape (seen : List Char) : (escape seen).next c = ([], text (c :: '\\' :: seen)) := by
  simp [next, h]

end Next

theorem foldl_feed : ∀ (cs : List Char) (mode : Mode) (found : List Token),
    let scan := cs.foldl Scan.feed ⟨mode, found⟩
    (scan.mode.flush ++ scan.tokens).reverse = found.reverse ++ mode.scan cs
  | [], mode, found => by simp [scan]
  | c :: cs, mode, found => by
    have ih := foldl_feed cs (mode.next c).2 ((mode.next c).1 ++ found)
    simp only [List.foldl_cons, Scan.feed] at ih ⊢
    rw [ih, scan_cons, List.reverse_append, List.append_assoc]

end Mode

theorem tokens_eq_scan (cs : List Char) : tokens cs = Mode.gap.scan cs := by
  have h := Mode.foldl_feed cs .gap []
  simpa [tokens] using h

theorem isWordChar_newline : isWordChar '\n' = false := by decide

/-! ## The shape of tokens -/

/-- A word as the scanner finds it: a character that starts one, then characters that continue it. -/
def IsWord (chars : List Char) : Prop :=
  ∃ c cs, chars = c :: cs ∧ Mode.start c = ([], .word [c]) ∧ ∀ d ∈ cs, isWordChar d = true

/-- What the scanner promises of a token. -/
def Token.Scanned : Token → Prop
  | .word chars => IsWord chars
  | .text chars => ∃ cs, chars = '"' :: cs
  | _ => True

/-- The promise for what a mode has seen of a token. -/
def Mode.Scanned : Mode → Prop
  | .word seen => IsWord seen.reverse
  | .text seen => ∃ cs, seen.reverse = '"' :: cs
  | .escape seen => ∃ cs, seen.reverse = '"' :: cs
  | _ => True

namespace Mode

theorem scanned_flush {mode : Mode} (h : mode.Scanned) : ∀ t ∈ mode.flush, t.Scanned := by
  cases mode with
  | gap | comment => simp [flush]
  | tilde => simp [flush, Token.Scanned]
  | word seen | text seen =>
    intro t ht
    rw [List.mem_singleton.1 ht]
    exact h
  | escape seen =>
    -- the backslash at the end of a line is a word of its own
    simp only [flush, List.mem_cons, List.not_mem_nil, or_false, forall_eq_or_imp, forall_eq]
    exact ⟨⟨'\\', [], rfl, by decide, by simp⟩, h⟩

theorem scanned_punctuation? {c : Char} {t : Token} (h : punctuation? c = some t) : t.Scanned := by
  unfold punctuation? at h
  split_ifs at h <;> cases h <;> trivial

theorem scanned_start (c : Char) : (start c).2.Scanned ∧ ∀ t ∈ (start c).1, t.Scanned := by
  -- either the character is a word so far, or it comes to no word at all
  by_cases hw : start c = ([], .word [c])
  · rw [hw]
    exact ⟨⟨c, [], rfl, hw, by simp⟩, by simp⟩
  · unfold start
    split_ifs with hs hc hq ht ha hm
    · simp [Scanned]
    · simp [Scanned]
    · exact ⟨⟨[], by simpa using hq⟩, by simp⟩
    · simp [Scanned]
    · simp [Scanned, Token.Scanned]
    · simp [Scanned, Token.Scanned]
    · split
      · rename_i t ht
        simpa [Scanned] using scanned_punctuation? ht
      · rename_i hp
        simp [start, hs, hc, hq, ht, ha, hm, hp] at hw

theorem scanned_restart {mode : Mode} (h : mode.Scanned) (c : Char) :
    (restart mode c).2.Scanned ∧ ∀ t ∈ (restart mode c).1, t.Scanned := by
  refine ⟨(scanned_start c).1, fun t ht => ?_⟩
  rcases List.mem_append.1 ht with ht | ht
  · exact (scanned_start c).2 t ht
  · exact scanned_flush h t ht

theorem IsWord.snoc {cs : List Char} {c : Char} (h : IsWord cs) (hc : isWordChar c = true) :
    IsWord (cs ++ [c]) := by
  obtain ⟨d, ds, rfl, hd, hds⟩ := h
  refine ⟨d, ds ++ [c], rfl, hd, fun e he => ?_⟩
  rcases List.mem_append.1 he with he | he
  · exact hds e he
  · rw [List.mem_singleton.1 he]; exact hc

/-- One character keeps the promise. -/
theorem scanned_next {mode : Mode} (h : mode.Scanned) (c : Char) :
    (mode.next c).2.Scanned ∧ ∀ t ∈ (mode.next c).1, t.Scanned := by
  by_cases hn : c = '\n'
  · rw [hn, next_newline]
    exact ⟨trivial, scanned_flush h⟩
  · cases mode with
    | gap => rw [next_gap hn]; exact scanned_start c
    | comment => rw [next_comment hn]; exact ⟨trivial, by simp⟩
    | tilde =>
      rw [next_tilde hn]
      split_ifs with ha
      · exact ⟨trivial, by simp [Token.Scanned]⟩
      · exact scanned_restart h c
    | word seen =>
      rw [next_word hn]
      split_ifs with hc
      · refine ⟨?_, by simp⟩
        show IsWord (c :: seen).reverse
        rw [List.reverse_cons]
        exact IsWord.snoc h hc
      · exact scanned_restart h c
    | text seen =>
      obtain ⟨cs, hcs⟩ := h
      rw [next_text hn]
      split_ifs with hq hb
      · refine ⟨trivial, fun t ht => ?_⟩
        rw [List.mem_singleton.1 ht]
        exact ⟨cs ++ [c], by simp [hcs]⟩
      · exact ⟨⟨cs, hcs⟩, by simp⟩
      · exact ⟨⟨cs ++ [c], by simp [hcs]⟩, by simp⟩
    | escape seen =>
      obtain ⟨cs, hcs⟩ := h
      rw [next_escape hn]
      exact ⟨⟨cs ++ ['\\', c], by simp [hcs]⟩, by simp⟩

theorem scanned_scan : ∀ (cs : List Char) (mode : Mode), mode.Scanned → ∀ t ∈ mode.scan cs, t.Scanned
  | [], mode, h, t, ht => scanned_flush h t (by simpa [scan] using ht)
  | c :: cs, mode, h, t, ht => by
    rw [scan_cons, List.mem_append, List.mem_reverse] at ht
    rcases ht with ht | ht
    · exact (scanned_next h c).2 t ht
    · exact scanned_scan cs _ (scanned_next h c).1 t ht

end Mode

/-- Every token of a text keeps the promise of the scanner. -/
theorem scanned_of_mem_tokens {cs : List Char} {t : Token} (h : t ∈ tokens cs) : t.Scanned := by
  rw [tokens_eq_scan] at h
  exact Mode.scanned_scan cs .gap trivial t h

/-! ## Scanning apart -/

/-- What may follow a word: nothing, or a character that does not continue it. -/
def EndsWord (rest : List Char) : Prop := ∀ c ∈ rest.head?, isWordChar c = false

theorem endsWord_nil : EndsWord [] := by simp [EndsWord]

theorem endsWord_cons {c : Char} {rest : List Char} : EndsWord (c :: rest) ↔ isWordChar c = false := by
  simp [EndsWord]

/-- A text that is scanned as certain tokens wherever a word may end after it. -/
def Spells (cs : List Char) (ts : List Token) : Prop :=
  ∀ rest, EndsWord rest → Mode.gap.scan (cs ++ rest) = ts ++ Mode.gap.scan rest

theorem Spells.tokens_eq {cs : List Char} {ts : List Token} (h : Spells cs ts) : tokens cs = ts := by
  have := h [] endsWord_nil
  simpa [tokens_eq_scan, Mode.scan, Mode.flush] using this

namespace Mode

theorem scan_gap_newline (rest : List Char) : gap.scan ('\n' :: rest) = gap.scan rest := by
  simp [scan_cons, next, flush]

/-- A newline or any character that a word does not take starts anew. -/
theorem scan_word_end (seen : List Char) {rest : List Char} (h : EndsWord rest) :
    (word seen).scan rest = .word seen.reverse :: gap.scan rest := by
  cases rest with
  | nil => simp [scan, flush]
  | cons c rest =>
    rw [endsWord_cons] at h
    -- a newline flushes the word; any other character restarts the scan, with the same result
    by_cases hn : c = '\n'
    · rw [hn, scan_gap_newline, scan_cons, next_newline]
      simp [flush]
    · rw [scan_cons, next_word hn, h, scan_cons gap, next_gap hn]
      simp [restart, flush]

theorem scan_word_append (rest : List Char) : ∀ (cs seen : List Char), (∀ c ∈ cs, isWordChar c = true) →
    (word seen).scan (cs ++ rest) = (word (cs.reverse ++ seen)).scan rest
  | [], seen, _ => rfl
  | c :: cs, seen, h => by
    have hc := h c (List.mem_cons_self ..)
    have hn : c ≠ '\n' := by
      rintro rfl
      rw [isWordChar_newline] at hc; cases hc
    rw [List.cons_append, scan_cons, next_word hn, if_pos hc, List.reverse_nil, List.nil_append,
      scan_word_append rest cs (c :: seen) fun d hd => h d (List.mem_cons_of_mem _ hd)]
    simp

end Mode

theorem IsWord.spells {cs : List Char} (h : IsWord cs) : Spells cs [.word cs] := by
  obtain ⟨c, cs, rfl, hc, hcs⟩ := h
  intro rest hrest
  have hn : c ≠ '\n' := by
    rintro rfl
    revert hc; decide
  rw [List.cons_append, Mode.scan_cons, Mode.next_gap hn, hc, List.reverse_nil, List.nil_append,
    Mode.scan_word_append rest cs [c] hcs, Mode.scan_word_end _ hrest]
  simp

/-- A text that is a single word by itself is one. -/
theorem isWord_of_tokens_eq {cs : List Char} (h : tokens cs = [.word cs]) : IsWord cs :=
  scanned_of_mem_tokens (t := .word cs) (by rw [h]; exact List.mem_singleton_self _)

end SmallLisp.Source
