/-
Texts that are scanned as known tokens wherever they stand: string literals (`spells_literal`), what
is put between brackets (`Spells.enclosed`), and rows with spaces between (`spells_intercalate`).
-/
import SmallLisp.Proofs.Source.Grammar
import SmallLisp.Proofs.Source.Scan
import SmallLisp.Value.Text
import Mathlib.Data.List.Forall2

namespace SmallLisp.Source

/-! ## String literals -/

namespace Mode

/-- A body is taken whole, whatever follows. -/
theorem scan_text_append {body : List Char} (h : TextBody body) (hline : '\n' ∉ body) (seen rest : List Char) :
    (text seen).scan (body ++ rest) = (text (body.reverse ++ seen)).scan rest := by
  induction h generalizing seen with
  | nil => rfl
  | @plain c cs hq hb _ ih =>
    obtain ⟨hc, hcs⟩ := not_or.1 (mt List.mem_cons.2 hline)
    rw [List.cons_append, scan_cons, next_text (Ne.symm hc), if_neg hq, if_neg hb, List.reverse_nil, List.nil_append,
      ih hcs, List.reverse_cons, List.append_assoc, List.singleton_append]
  | @escaped c cs hn _ ih =>
    obtain ⟨hb, hc⟩ := not_or.1 (mt List.mem_cons.2 hline)
    obtain ⟨hc, hcs⟩ := not_or.1 (mt List.mem_cons.2 hc)
    rw [List.cons_append, scan_cons, next_text (by decide), if_neg (by decide), if_pos rfl, List.cons_append, scan_cons,
      next_escape hn, ih hcs]
    simp

/-- A body is scanned up to the quote that closes it. -/
theorem scan_text_body {body : List Char} (h : TextBody body) (hline : '\n' ∉ body) (seen rest : List Char) :
    (text seen).scan (body ++ '"' :: rest) = .text (seen.reverse ++ body ++ ['"']) :: gap.scan rest := by
  rw [scan_text_append h hline, scan_cons, next_text (by decide), if_pos rfl]
  simp

end Mode

theorem textBody_escapeChar (c : Char) {cs : List Char} (h : TextBody cs) : TextBody (Text.escapeChar c ++ cs) := by
  unfold Text.escapeChar
  split_ifs with hb hq hn
  · exact .escaped (by decide) h
  · exact .escaped (by decide) h
  · exact .escaped (by decide) h
  · exact .plain (by simpa using hq) (by simpa using hb) h

/-- What is escaped may stand between quotes. -/
theorem textBody_escape (cs : List Char) : TextBody (Text.escape cs) := by
  induction cs with
  | nil => exact .nil
  | cons c cs ih => exact textBody_escapeChar c ih

theorem newline_notMem_escape (cs : List Char) : '\n' ∉ Text.escape cs := by
  intro h
  obtain ⟨c, -, hc⟩ := List.mem_flatMap.1 h
  unfold Text.escapeChar at hc
  split_ifs at hc with hb hq hn
  · simp at hc
  · simp at hc
  · simp at hc
  · simp only [List.mem_singleton] at hc
    simp [← hc] at hn

/-- A string literal is one token. -/
theorem spells_literal (cs : List Char) :
    Spells ('"' :: (Text.escape cs ++ ['"'])) [.text ('"' :: (Text.escape cs ++ ['"']))] := by
  intro rest _
  rw [List.cons_append, List.append_assoc, Mode.scan_cons, Mode.next_gap (by decide)]
  show (Mode.text ['"']).scan _ = _
  rw [List.singleton_append, Mode.scan_text_body (textBody_escape cs) (newline_notMem_escape cs)]
  rfl

/-! ## Brackets and spaces -/

theorem Mode.scan_gap_opening (b : Bracket) (rest : List Char) :
    gap.scan (b.opening :: rest) = .opening b :: gap.scan rest := by
  cases b <;> rfl

theorem Mode.scan_gap_closing (b : Bracket) (rest : List Char) :
    gap.scan (b.closing :: rest) = .closing b :: gap.scan rest := by
  cases b <;> rfl

theorem endsWord_closing (b : Bracket) (rest : List Char) : EndsWord (b.closing :: rest) := by
  rw [endsWord_cons]
  cases b <;> decide

theorem Spells.enclosed (b : Bracket) {cs : List Char} {ts : List Token} (h : Spells cs ts) :
    Spells (b.opening :: (cs ++ [b.closing])) (.opening b :: (ts ++ [.closing b])) := by
  intro rest _
  rw [List.cons_append, Mode.scan_gap_opening, List.append_assoc, List.singleton_append,
    h _ (endsWord_closing b rest), Mode.scan_gap_closing, List.cons_append, List.append_assoc, List.singleton_append]

theorem spells_nil : Spells [] [] := fun _ _ => rfl

theorem Spells.space {cs ds : List Char} {ts us : List Token} (h : Spells cs ts) (h' : Spells ds us) :
    Spells (cs ++ ' ' :: ds) (ts ++ us) := by
  intro rest hrest
  have hspace : Mode.gap.scan (' ' :: (ds ++ rest)) = Mode.gap.scan (ds ++ rest) := rfl
  rw [List.append_assoc, List.cons_append, h _ (endsWord_cons.2 (by decide)), hspace, h' _ hrest, List.append_assoc]

/-- Texts with spaces between are scanned one by one. -/
theorem spells_intercalate {texts : List String} {trees : List Tree}
    (h : List.Forall₂ (fun text tree => Spells text.toList tree.yield) texts trees) :
    Spells (" ".intercalate texts).toList (yieldAll trees) := by
  induction h with
  | nil => exact spells_nil
  | @cons text tree texts trees hhead htail ih =>
    cases texts with
    | nil =>
      cases htail
      simpa [yieldAll] using hhead
    | cons text' texts =>
      rw [String.intercalate_cons_of_ne_nil (by simp), String.toList_append, String.toList_append, List.append_assoc]
      exact hhead.space ih

end SmallLisp.Source
