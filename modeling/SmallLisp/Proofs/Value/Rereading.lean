/-
What the reader makes can be read back. Its forms are readable, and none of them carries metadata, so
printing the forms of a text and reading again gives the same forms (`readAll_rereads`). The names that
a word can become, the numerals that it can hold and the escapes of a string are characterised on the
way.
-/
import SmallLisp.Proofs.Source.Enclosed
import SmallLisp.Proofs.Source.Literals
import SmallLisp.Proofs.Value.RoundTrip
import SmallLisp.Proofs.Value.Soundness

namespace SmallLisp

/-! ## Numbers -/

namespace Text

theorem digitValue_lt (c : Char) : (digitValue? c).getD 0 < 10 := by
  unfold digitValue?
  cases h : zeros.find? fun z => decide (z ≤ c.toNat) && decide (c.toNat < z + 10) with
  | none => simp
  | some z =>
    have hz := List.find?_some h
    simp only [Bool.and_eq_true, decide_eq_true_eq] at hz
    simp only [Option.map_some, Option.getD_some]
    omega

/-- A row of digits writes a number with no more digits. -/
theorem numberOfDigits_lt (cs : List Char) : numberOfDigits cs < 10 ^ cs.length := by
  induction cs using List.reverseRecOn with
  | nil => decide
  | append_singleton cs c ih =>
    have hc := digitValue_lt c
    rw [numberOfDigits_snoc, List.length_append, List.length_singleton, pow_succ]
    omega

end Text

namespace Binary64

theorem ofUnits_ne_nan (negative : Bool) (num den : Nat) : ofUnits negative num den ≠ .nan := by
  have hparts : ∀ mantissa scale, ofParts negative mantissa scale ≠ .nan := by
    intro mantissa scale
    unfold ofParts
    split <;> simp
  unfold ofUnits
  dsimp only
  split <;> exact hparts _ _

/-- Every decimal has a place on the line. -/
theorem ofDecimal_ne_nan (negative : Bool) (d : Decimal) : ofDecimal negative d ≠ .nan := by
  unfold ofDecimal
  dsimp only
  split_ifs
  · simp [zero]
  · simp
  · simp [zero]
  · exact ofUnits_ne_nan _ _ _
  · exact ofUnits_ne_nan _ _ _

end Binary64

/-! ## Atoms -/

namespace Source

/-- Whether a token is no decimal beyond the largest double. -/
def Token.Finite : Token → Prop
  | .word chars => ∀ negative, floatNumeral? chars ≠ some (.infinite negative)
  | _ => True

instance : DecidablePred Token.Finite
  | .word chars =>
    decidable_of_iff (floatNumeral? chars ≠ some (.infinite false) ∧ floatNumeral? chars ≠ some (.infinite true))
      (Bool.forall_bool (p := fun negative => floatNumeral? chars ≠ some (.infinite negative))).symm
  | .mark _ | .caret | .opening _ | .closing _ | .text _ => .isTrue trivial

theorem floatNumeral?_ne_nan (chars : List Char) : floatNumeral? chars ≠ some .nan := by
  intro h
  obtain ⟨d, -, hd⟩ := Option.map_eq_some_iff.1 h
  exact Binary64.ofDecimal_ne_nan _ d hd

/-- What a derivation needs of a token for its form to be read back: the scanner found it, it has a value,
and the value is finite. -/
structure Token.Writable (token : Token) : Prop where
  scanned : token.Scanned
  sound : token.Sound
  finite : token.Finite

end Source

namespace Value

open Source (Token Tree IsWord tokens atomValue wordValue yieldAll yieldEntries denoteAll denoteEntries)

/-- An integer that is read is short enough to be written. -/
theorem readable_integerValue {negative : Bool} {digits : List Char} {v : Value}
    (h : Source.integerValue negative digits = .ok v) : v.Readable := by
  unfold Source.integerValue at h
  split at h
  · next hlength =>
    cases h
    refine .int ((Binary64.decimalLength_le_iff (by decide)).2 ?_)
    calc (if negative then -(Text.numberOfDigits digits : Int) else Text.numberOfDigits digits).natAbs
        = Text.numberOfDigits digits := by split <;> simp
      _ < 10 ^ digits.length := Text.numberOfDigits_lt digits
      _ ≤ 10 ^ digitLimit := Nat.pow_le_pow_right (by decide) hlength
  · cases h

/-- What a word denotes is readable. A name is one word and is read as itself, because that is how it was
found. -/
theorem readable_of_word {chars : List Char} {v : Value} (hword : IsWord chars) (hfinite : (Token.word chars).Finite)
    (h : atomValue chars = .ok v) : v.Readable := by
  have hone : tokens (String.ofList chars).toList = [.word (String.ofList chars).toList] := by
    rw [String.toList_ofList]
    exact hword.spells.tokens_eq
  have hitself : atomValue (String.ofList chars).toList = .ok v := by
    rw [String.toList_ofList]
    exact h
  have hcases := h
  unfold atomValue at hcases
  split at hcases
  · cases hcases
    exact .nil
  split at hcases
  · cases hcases
    exact .bool _
  split at hcases
  · cases hcases
    exact .bool _
  split at hcases
  · exact readable_integerValue hcases
  split at hcases
  · next x hx =>
    cases hcases
    cases x with
    | nan => exact absurd hx (Source.floatNumeral?_ne_nan chars)
    | infinite negative => exact absurd hx (hfinite negative)
    | finite negative mantissa scale canonical => exact .float negative mantissa scale canonical
  split at hcases
  · exact absurd rfl (hword.head_ne_quote _)
  · next name =>
    cases hcases
    rw [String.toList_ofList] at hone hitself
    refine .keyword ?_ ?_
    · rw [String.toList_ofList]
      exact hone
    · rw [String.toList_ofList]
      exact hitself
  · cases hcases
    exact .symbol hone hitself

theorem readable_of_text {cs : List Char} {v : Value} (h : atomValue ('"' :: cs) = .ok v) : v.Readable := by
  rw [Source.atomValue_text] at h
  split at h
  · cases h
    exact .str _
  · cases h

/-! ## Forms -/

/-- Whether a value is what the reader could have made: readable, and without metadata. -/
structure Rereadable (v : Value) : Prop where
  readable : v.Readable
  bare : v.bare = v

theorem rereadable_atomic {v : Value} (h : v.Readable) (hatomic : v.IsAtomic) : v.Rereadable := by
  refine ⟨h, ?_⟩
  cases h with
  | list | vector | map => exact hatomic.elim
  | _ => rfl

theorem bareAll_eq_self {vs : List Value} (h : ∀ v ∈ vs, v.bare = v) : bareAll vs = vs := by
  rw [bareAll_eq_map, List.map_congr_left h, List.map_id']

theorem rereadable_ofList {items : List Value} (h : ∀ v ∈ items, v.Rereadable) : (ofList items).Rereadable := by
  refine ⟨.list _ fun v hv => (h v hv).readable, ?_⟩
  rw [ofList, Value.bare, bareAll_eq_self fun v hv => (h v hv).bare]

theorem rereadable_ofVector {items : List Value} (h : ∀ v ∈ items, v.Rereadable) : (ofVector items).Rereadable := by
  refine ⟨.vector _ fun v hv => (h v hv).readable, ?_⟩
  rw [ofVector, Value.bare, bareAll_eq_self fun v hv => (h v hv).bare]

/-- Of equal keys one is left, so the keys of a map that is read are different. -/
theorem rereadable_ofEntries {entries : Entries} (h : ∀ entry ∈ entries, entry.1.Rereadable ∧ entry.2.Rereadable) :
    (ofEntries (Entries.ofList entries)).Rereadable := by
  have heach : ∀ entry ∈ Entries.ofList entries, entry.1.Rereadable ∧ entry.2.Rereadable :=
    Entries.forall_merge (fun _ he => absurd he List.not_mem_nil) h
  have hempty : Entries.Distinct [] := List.Pairwise.nil
  have hdistinct : (Entries.ofList entries).Distinct := hempty.merge entries
  refine ⟨.map _ (fun entry he => (heach entry he).1.readable) (fun entry he => (heach entry he).2.readable)
    hdistinct, ?_⟩
  have hsame : ∀ entry ∈ Entries.ofList entries, (entry.1.bare, entry.2.bare) = entry := fun entry he => by
    rw [(heach entry he).1.bare, (heach entry he).2.bare]
  rw [ofEntries, Value.bare, bareEntries_eq_map, List.map_congr_left hsame, List.map_id']

theorem rereadable_symbol {name : String} (one_word : tokens name.toList = [.word name.toList])
    (itself : atomValue name.toList = .ok (.symbol name)) : (symbol name).Rereadable :=
  ⟨.symbol one_word itself, rfl⟩

theorem rereadable_mark (m : Source.Mark) : (symbol m.head).Rereadable := by
  cases m <;> exact rereadable_symbol (by decide) rfl

/-- The texts of such values in a row are read as the same values. -/
theorem readAll_texts_of_rereadable (cells : Array Value) {vs : List Value} (h : ∀ v ∈ vs, v.Rereadable) :
    ∃ texts, vs.mapM (text true cells) = .ok texts ∧ Source.readAll (" ".intercalate texts) = ⟨vs, none, []⟩ := by
  obtain ⟨texts, htexts, hread⟩ := readAll_texts cells fun v hv => (h v hv).readable
  refine ⟨texts, htexts, ?_⟩
  rw [hread, List.map_congr_left fun v hv => (h v hv).bare, List.map_id']

/-- The text of one is read as that value alone. -/
theorem Rereadable.readAll_text {v : Value} (h : v.Rereadable) (cells : Array Value) :
    ∃ shown, v.text true cells = .ok shown ∧ Source.readAll shown = ⟨[v], none, []⟩ := by
  obtain ⟨texts, htexts, hread⟩ := readAll_texts_of_rereadable cells (List.forall_mem_singleton.2 h)
  cases hshown : v.text true cells with
  | error fault =>
    rw [List.mapM_cons, hshown] at htexts
    cases htexts
  | ok shown =>
    rw [List.mapM_cons, hshown] at htexts
    cases htexts
    exact ⟨shown, rfl, by simpa using hread⟩

/-! ## Derivations -/

mutual

/-- A derivation of such tokens denotes what the reader could have made. -/
theorem rereadable_denote : ∀ t : Tree, (∀ token ∈ t.yield, token.Writable) → t.denote.Rereadable
  | .word chars, h => by
    have hword := h (.word chars) (List.mem_singleton_self _)
    have hvalue : atomValue chars = .ok (wordValue chars) := hword.sound
    exact rereadable_atomic (readable_of_word hword.scanned hword.finite hvalue) (Source.atomic_of_atomValue hvalue)
  | .text body _, _ => rereadable_atomic (.str _) trivial
  | .marked m operand, h => by
    have hoperand := rereadable_denote operand fun token ht => h token (List.mem_cons_of_mem _ ht)
    exact rereadable_ofList (by simp [rereadable_mark, hoperand])
  | .caret info target, h => by
    have hinfo := rereadable_denote info fun token ht =>
      h token (List.mem_cons_of_mem _ (List.mem_append_left _ ht))
    have htarget := rereadable_denote target fun token ht =>
      h token (List.mem_cons_of_mem _ (List.mem_append_right _ ht))
    have hhead : (symbol "with-meta").Rereadable := rereadable_symbol (by decide) rfl
    exact rereadable_ofList (by simp [hhead, hinfo, htarget])
  | .list items, h =>
    rereadable_ofList (rereadable_denoteAll items fun token ht =>
      h token (List.mem_cons_of_mem _ (List.mem_append_left _ ht)))
  | .vector items, h =>
    rereadable_ofVector (rereadable_denoteAll items fun token ht =>
      h token (List.mem_cons_of_mem _ (List.mem_append_left _ ht)))
  | .map entries, h =>
    rereadable_ofEntries (rereadable_denoteEntries entries fun token ht =>
      h token (List.mem_cons_of_mem _ (List.mem_append_left _ ht)))
termination_by structural t => t

theorem rereadable_denoteAll : ∀ ts : List Tree, (∀ token ∈ yieldAll ts, token.Writable) →
    ∀ v ∈ denoteAll ts, v.Rereadable
  | [], _ => by simp [denoteAll]
  | t :: ts, h => by
    have ht := rereadable_denote t fun token hm => h token (List.mem_append_left _ hm)
    have hts := rereadable_denoteAll ts fun token hm => h token (List.mem_append_right _ hm)
    exact List.forall_mem_cons.2 ⟨ht, hts⟩
termination_by structural ts => ts

theorem rereadable_denoteEntries : ∀ entries : List (Tree × Tree),
    (∀ token ∈ yieldEntries entries, token.Writable) →
    ∀ entry ∈ denoteEntries entries, entry.1.Rereadable ∧ entry.2.Rereadable
  | [], _ => by simp [denoteEntries]
  | (k, v) :: entries, h => by
    have hk := rereadable_denote k fun token hm => h token (List.mem_append_left _ hm)
    have hv := rereadable_denote v fun token hm =>
      h token (List.mem_append_right _ (List.mem_append_left _ hm))
    have hrest := rereadable_denoteEntries entries fun token hm =>
      h token (List.mem_append_right _ (List.mem_append_right _ hm))
    exact List.forall_mem_cons.2 ⟨⟨hk, hv⟩, hrest⟩
termination_by structural entries => entries

end

/-! ## Texts -/

/-- Reading to the end takes every token, so all of them have values. -/
theorem writable_of_readAll {text : String} (hread : (Source.readAll text).fault? = none)
    (hfinite : ∀ token ∈ tokens text.toList, token.Finite) : ∀ token ∈ tokens text.toList, token.Writable := by
  have hscanned : ∀ token ∈ tokens text.toList, token.Scanned := fun token ht => Source.scanned_of_mem_tokens ht
  have hsound := (Source.passes_of_allForms hread).sound hscanned
  exact fun token ht => ⟨hscanned token ht, hsound token ht, hfinite token ht⟩

/-- Every form of a text that is read to the end can be read back. -/
theorem rereadable_of_readAll {text : String} (hread : (Source.readAll text).fault? = none)
    (hfinite : ∀ token ∈ tokens text.toList, token.Finite) : ∀ v ∈ (Source.readAll text).forms, v.Rereadable := by
  have hwritable := writable_of_readAll hread hfinite
  have hforms := Source.readAllFrom_accounts (tokens text.toList) [] .outside fun token ht => (hwritable token ht).sound
  obtain ⟨trees, hforms, hend⟩ := hforms
  rw [show Source.readAllFrom [] (denoteAll []).reverse (tokens text.toList) = Source.readAll text from rfl]
    at hforms hend
  rw [hread] at hend
  have hyield : yieldAll trees = tokens text.toList := by simpa [yieldAll] using hend
  rw [hforms]
  exact rereadable_denoteAll trees (hyield ▸ hwritable)

/-- Every word or string token of such a text was taken, so it has a value, and the value can be read
back. -/
theorem rereadable_of_token {text : String} (hread : (Source.readAll text).fault? = none)
    (hfinite : ∀ token ∈ tokens text.toList, token.Finite) {token : Token} (htoken : token ∈ tokens text.toList)
    {chars : List Char} (hchars : token = .word chars ∨ token = .text chars) :
    ∃ v, atomValue chars = .ok v ∧ v.Rereadable := by
  have hwritable := writable_of_readAll hread hfinite token htoken
  obtain ⟨stack, htaken⟩ := (Source.passes_of_allForms hread).taken token htoken
  have hvalue : ∃ v, atomValue chars = .ok v := by
    cases hv : atomValue chars with
    | ok v => exact ⟨v, rfl⟩
    | error fault =>
      have hfails : Source.accept.atom stack chars = .failed fault := by rw [Source.accept.atom, hv]
      rcases hchars with rfl | rfl <;> exact absurd hfails (htaken fault)
  obtain ⟨v, hvalue⟩ := hvalue
  have hreadable : v.Readable := by
    rcases hchars with rfl | rfl
    · exact readable_of_word hwritable.scanned hwritable.finite hvalue
    · obtain ⟨cs, rfl⟩ := hwritable.scanned
      exact readable_of_text hvalue
  exact ⟨v, hvalue, rereadable_atomic hreadable (Source.atomic_of_atomValue hvalue)⟩

/-- Reading what was printed. Where a text is read to the end and none of its decimals is beyond the
largest double, its forms have readable texts; put in a row with spaces between, these texts are read as
the same forms. Every name, number and string in the text stands for a value whose own text is read as
that value alone. -/
theorem readAll_rereads (text : String) (cells : Array Value) (hread : (Source.readAll text).fault? = none)
    (hfinite : ∀ token ∈ tokens text.toList, token.Finite) :
    (∃ texts, (Source.readAll text).forms.mapM (Value.text true cells) = .ok texts ∧
      Source.readAll (" ".intercalate texts) = ⟨(Source.readAll text).forms, none, []⟩) ∧
    ∀ token ∈ tokens text.toList, ∀ chars, token = .word chars ∨ token = .text chars →
      ∃ v shown, atomValue chars = .ok v ∧ v.text true cells = .ok shown ∧
        Source.readAll shown = ⟨[v], none, []⟩ := by
  refine ⟨?_, fun token htoken chars hchars => ?_⟩
  · exact readAll_texts_of_rereadable cells (rereadable_of_readAll hread hfinite)
  · obtain ⟨v, hvalue, hv⟩ := rereadable_of_token hread hfinite htoken hchars
    obtain ⟨shown, hshown, hagain⟩ := hv.readAll_text cells
    exact ⟨v, shown, hvalue, hshown, hagain⟩

/-- A text with equal keys, marks, metadata, an unknown escape, a decimal, and digits of another script. -/
def scrawl : String := "\x7b:k -0 :k [x -1.5e1 \"a\\q\\n\"]\x7d '(f ~@xs) ^:m (٣ , nil) ; end"

theorem readAll_rereads_scrawl :
    ((Source.readAll scrawl).fault? = none ∧ (Source.readAll scrawl).forms.length = 3 ∧
      ∀ token ∈ tokens scrawl.toList, token.Finite) ∧
    (∃ texts, (Source.readAll scrawl).forms.mapM (Value.text true #[]) = .ok texts ∧
      Source.readAll (" ".intercalate texts) = ⟨(Source.readAll scrawl).forms, none, []⟩) ∧
    ∀ token ∈ tokens scrawl.toList, ∀ chars, token = .word chars ∨ token = .text chars →
      ∃ v shown, atomValue chars = .ok v ∧ v.text true #[] = .ok shown ∧
        Source.readAll shown = ⟨[v], none, []⟩ := by
  have hread : (Source.readAll scrawl).fault? = none := Option.isNone_iff_eq_none.1 (by decide +kernel)
  have hcount : (Source.readAll scrawl).forms.length = 3 := by decide +kernel
  have hfinite : ∀ token ∈ tokens scrawl.toList, token.Finite := by decide +kernel
  exact ⟨⟨hread, hcount, hfinite⟩, readAll_rereads scrawl #[] hread hfinite⟩

end Value

end SmallLisp
