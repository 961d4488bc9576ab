/-
Tokens that stand apart. A token that was scanned from some text is scanned as itself in every other text, as long
as something stands between it and the next one: separators, newlines, or comments that end in a newline. Only a
string that is not closed takes what follows it on its line. Main statement: `tokens_spacedText`.
-/
import SmallLisp.Proofs.Source.Layout

namespace SmallLisp.Source

/-- What may stand around tokens: separators, newlines among them, and comments with the newline that ends them. -/
inductive Spacing : List Char → Prop where
  | nil : Spacing []
  | separator {c : Char} {more : List Char} : isSeparator c = true → Spacing more → Spacing (c :: more)
  | comment {note more : List Char} : '\n' ∉ note → Spacing more → Spacing (';' :: (note ++ '\n' :: more))

/-- The text of some tokens, each with the spacing behind it. -/
def spacedText : List (Token × List Char) → List Char
  | [] => []
  | (t, spacing) :: rows => t.lexeme.toList ++ (spacing ++ spacedText rows)

namespace Spacing

variable {spacing : List Char}

theorem scan (h : Spacing spacing) (rest : List Char) : Mode.gap.scan (spacing ++ rest) = Mode.gap.scan rest := by
  induction h with
  | nil => rfl
  | separator hc _ ih => rw [List.cons_append, Mode.scan_gap_separator hc, ih]
  | @comment note more hnote _ ih =>
    have hstart : ∀ cs, Mode.gap.scan (';' :: cs) = Mode.comment.scan cs := fun _ => rfl
    have hend : ∀ cs, Mode.comment.scan ('\n' :: cs) = Mode.gap.scan cs := fun _ => rfl
    rw [List.cons_append, List.append_assoc, List.cons_append, hstart, Mode.scan_comment_append hnote, hend, ih]

/-- No spacing begins with a character that goes on with a word. -/
theorem endsWord (h : Spacing spacing) : EndsWord spacing := by
  cases h with
  | nil => exact endsWord_nil
  | separator hc _ => exact endsWord_cons.2 (by simp [isWordChar, hc])
  | comment _ _ => exact endsWord_cons.2 (by decide)

/-- A token ends before a spacing that is not empty, and at the end of the text. -/
theorem endsBefore (h : Spacing spacing) {t : Token} (hopen : t.IsUnclosed → AtLineEnd spacing) {rest : List Char}
    (hrest : spacing ≠ [] ∨ rest = []) : t.EndsBefore (spacing ++ rest) := by
  have hhead : (spacing ++ rest).head? = spacing.head? := by
    rcases hrest with hne | rfl
    · obtain ⟨c, cs, rfl⟩ := List.exists_cons_of_ne_nil hne
      rfl
    · rw [List.append_nil]
  have hends : EndsWord (spacing ++ rest) := by
    unfold EndsWord
    rw [hhead]
    exact h.endsWord
  cases t with
  | word chars => exact hends
  | text chars =>
    intro hunclosed
    left
    unfold AtLineEnd
    rw [hhead]
    exact hopen hunclosed
  | mark m =>
    cases m with
    | unquote =>
      intro hat
      have := hends '@' hat
      revert this
      decide
    | _ => trivial
  | _ => trivial

end Spacing

/-- A token by itself is scanned as itself. -/
theorem tokens_lexeme {t : Token} (h : t.Shaped) : tokens t.lexeme.toList = [t] := by
  have hend : t.EndsBefore ([] ++ []) :=
    Spacing.nil.endsBefore (fun _ => by simp [AtLineEnd]) (.inr rfl)
  have hscan := scan_token h hend
  rw [List.append_nil, List.append_nil] at hscan
  rw [tokens_eq_scan, hscan]
  rfl

theorem scan_spacedText : ∀ {rows : List (Token × List Char)},
    (∀ row ∈ rows, row.1.Shaped ∧ Spacing row.2 ∧ (row.1.IsUnclosed → AtLineEnd row.2)) →
    (∀ row ∈ rows.dropLast, row.2 ≠ []) → Mode.gap.scan (spacedText rows) = rows.map Prod.fst
  | [], _, _ => rfl
  | (t, spacing) :: rows, hrows, hbetween => by
    obtain ⟨⟨hshaped, hspacing, hopen⟩, hrows⟩ := List.forall_mem_cons.1 hrows
    have hrest : spacing ≠ [] ∨ spacedText rows = [] := by
      cases rows with
      | nil => exact .inr rfl
      | cons row rows => exact .inl (hbetween (t, spacing) (by simp))
    have hothers : ∀ row ∈ rows.dropLast, row.2 ≠ [] := by
      cases rows with
      | nil => exact List.forall_mem_nil _
      | cons row rows => exact fun row hrow => hbetween row (by simp [hrow])
    rw [spacedText, scan_token hshaped (hspacing.endsBefore hopen hrest), hspacing.scan,
      scan_spacedText hrows hothers, List.map_cons]

/-- Tokens that were scanned, from whatever texts, and that are written down again with spacing around them are
scanned as the same tokens. Between two tokens there has to be some spacing, and what follows a string that is not
closed has to begin with a newline, if it is not empty. In particular the tokens of a text may be written down line
by line. -/
theorem tokens_spacedText :
    (∀ (before : List Char) (rows : List (Token × List Char)), Spacing before →
      (∀ row ∈ rows, ∃ text : String, row.1 ∈ tokens text.toList) → (∀ row ∈ rows, Spacing row.2) →
      (∀ row ∈ rows.dropLast, row.2 ≠ []) → (∀ row ∈ rows, row.1.IsUnclosed → AtLineEnd row.2) →
      tokens (before ++ spacedText rows) = rows.map Prod.fst) ∧
    ∀ text : String, tokens ("\n".intercalate ((tokens text.toList).map Token.lexeme)).toList = tokens text.toList := by
  constructor
  · intro before rows hbefore hscanned hspacing hbetween hopen
    have hshaped : ∀ row ∈ rows, row.1.Shaped := by
      intro row hrow
      obtain ⟨text, htext⟩ := hscanned row hrow
      exact shaped_of_mem_tokens htext
    rw [tokens_eq_scan, hbefore.scan]
    exact scan_spacedText (fun row hrow => ⟨hshaped row hrow, hspacing row hrow, hopen row hrow⟩) hbetween
  · intro text
    have halone : ∀ t ∈ tokens text.toList, tokens t.lexeme.toList = [t] := fun t ht =>
      tokens_lexeme (shaped_of_mem_tokens ht)
    rw [String.toList_intercalate, List.map_map]
    calc tokens (['\n'].intercalate ((tokens text.toList).map (String.toList ∘ Token.lexeme)))
        = ((tokens text.toList).map (String.toList ∘ Token.lexeme)).flatMap tokens := tokens_intercalate _
      _ = (tokens text.toList).flatMap fun t => tokens t.lexeme.toList := List.flatMap_map ..
      _ = (tokens text.toList).flatMap fun t => [t] := List.flatMap_congr halone
      _ = tokens text.toList := List.flatMap_singleton' _

/-- Tokens that would run into each other without their spacing. -/
def crowdedRows : List (Token × List Char) :=
  [(.text "\"a;".toList, ['\n']), (.word ['\\'], ";b\n,".toList), (.mark .unquote, [' ']), (.mark .deref, [' ']),
    (.word "c~@\\".toList, [';', '\n']), (.text "\"d".toList, [])]

theorem tokens_spacedText_crowdedRows :
    Spacing [','] ∧ (∀ row ∈ crowdedRows, ∃ text : String, row.1 ∈ tokens text.toList) ∧
    (∀ row ∈ crowdedRows, Spacing row.2) ∧ (∀ row ∈ crowdedRows.dropLast, row.2 ≠ []) ∧
    (∀ row ∈ crowdedRows, row.1.IsUnclosed → AtLineEnd row.2) ∧
    tokens ([','] ++ spacedText crowdedRows) = crowdedRows.map Prod.fst := by
  have hblank : ∀ c, isSeparator c = true → Spacing [c] := fun c hc => .separator hc .nil
  have hbefore : Spacing [','] := hblank ',' (by decide)
  have hscanned : ∀ row ∈ crowdedRows, ∃ text : String, row.1 ∈ tokens text.toList := by
    have htokens : tokens "\"a;\\\n~ @ c~@\\ \"d".toList = crowdedRows.map Prod.fst := by decide
    intro row hrow
    exact ⟨_, htokens ▸ List.mem_map_of_mem hrow⟩
  have hspacing : ∀ row ∈ crowdedRows, Spacing row.2 := by
    simp only [crowdedRows, List.forall_mem_cons]
    exact ⟨hblank _ (by decide), @Spacing.comment ['b'] _ (by decide) (hblank _ (by decide)), hblank _ (by decide),
      hblank _ (by decide), @Spacing.comment [] _ (by decide) .nil, .nil, List.forall_mem_nil _⟩
  have hbetween : ∀ row ∈ crowdedRows.dropLast, row.2 ≠ [] := by decide
  have hopen : ∀ row ∈ crowdedRows, row.1.IsUnclosed → AtLineEnd row.2 := by
    simp [crowdedRows, AtLineEnd, Token.IsUnclosed]
  exact ⟨hbefore, hscanned, hspacing, hbetween, hopen, tokens_spacedText.1 _ _ hbefore hscanned hspacing hbetween hopen⟩

/-- A string that is not closed wants its newline behind the last token too: a blank there would belong to it. -/
theorem unclosed_takes_blank :
    ¬∀ (before : List Char) (rows : List (Token × List Char)), Spacing before →
      (∀ row ∈ rows, ∃ text : String, row.1 ∈ tokens text.toList) → (∀ row ∈ rows, Spacing row.2) →
      (∀ row ∈ rows.dropLast, row.2 ≠ [] ∧ (row.1.IsUnclosed → row.2.head? = some '\n')) →
      tokens (before ++ spacedText rows) = rows.map Prod.fst := by
  intro h
  have hscanned : Token.text "\"a".toList ∈ tokens "\"a".toList := by decide
  have hfirst := h [] [(.text "\"a".toList, [' '])] .nil (by simpa using ⟨"\"a", hscanned⟩)
    (by simpa using Spacing.separator (c := ' ') (by decide) .nil) (by simp)
  have hlonger : tokens ([] ++ spacedText [(.text "\"a".toList, [' '])]) = [.text "\"a ".toList] := by decide
  rw [hlonger] at hfirst
  revert hfirst
  decide

end SmallLisp.Source
