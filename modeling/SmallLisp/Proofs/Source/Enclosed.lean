/-
Texts between brackets. Inside of a bracket that stays open, a row of tokens is read as it is outside
of all constructs, form by form, up to a closing bracket that would close that one. Main statements:
a text whose reading ends well adds its forms to the bracket (`readFrom_items`), and a malformed text
that is put into `(do .. nil)` is malformed there as well, except in two cases: it closes the bracket
itself, or it ends in marks that take the `nil` for their operand (`readFrom_malformed_iff`). On the way,
whether the tokens of one form can be read (`nextForm_of_scanned`).
-/
import SmallLisp.Proofs.Source.Reading
import SmallLisp.Proofs.Source.Spelling

namespace SmallLisp.Source

/-! ## Lines -/

/-- A newline ends every token, so that what stands before it is scanned as if nothing followed. -/
theorem Mode.scan_append_newline (rest : List Char) : ∀ (cs : List Char) (mode : Mode),
    mode.scan (cs ++ '\n' :: rest) = mode.scan cs ++ gap.scan rest
  | [], mode => by rw [List.nil_append, scan_cons, next_newline, scan]
  | c :: cs, mode => by
    rw [List.cons_append, scan_cons, scan_cons, Mode.scan_append_newline rest cs, List.append_assoc]

theorem tokens_append_newline (cs rest : List Char) : tokens (cs ++ '\n' :: rest) = tokens cs ++ tokens rest := by
  rw [tokens_eq_scan, tokens_eq_scan, tokens_eq_scan, Mode.scan_append_newline]

theorem tokens_opening (b : Bracket) (cs : List Char) : tokens (b.opening :: cs) = .opening b :: tokens cs := by
  rw [tokens_eq_scan, tokens_eq_scan, Mode.scan_gap_opening]

theorem tokens_word_space {chars : List Char} (h : IsWord chars) (cs : List Char) :
    tokens (chars ++ ' ' :: cs) = .word chars :: tokens cs := by
  have hspace : Mode.gap.scan (' ' :: cs) = Mode.gap.scan cs := rfl
  rw [tokens_eq_scan, tokens_eq_scan, h.spells _ (endsWord_cons.2 (by decide)), hspace, List.singleton_append]

/-! ## Inside of a bracket -/

/-- What progress comes to if reading stands inside of a bracket that has read some items already. -/
def Progress.within (b : Bracket) (read : List Value) : Progress → Progress
  | .complete form => .inside [.items b (form :: read)]
  | .inside stack => .inside (stack ++ [.items b read])
  | .failed fault => .failed fault
  | .refused fault => .refused fault

section Within

variable (b : Bracket) (read : List Value)

theorem deliver_within : ∀ (stack : List Context) (form : Value),
    deliver (stack ++ [.items b read]) form = (deliver stack form).within b read
  | [], _ => rfl
  | .items _ _ :: _, _ => rfl
  | .operand _ :: stack, _ => deliver_within stack _
  | .metadata :: _, _ => rfl
  | .target _ :: stack, _ => deliver_within stack _

theorem atom_within (stack : List Context) (chars : List Char) :
    accept.atom (stack ++ [.items b read]) chars = (accept.atom stack chars).within b read := by
  unfold accept.atom
  cases atomValue chars with
  | ok form => exact deliver_within b read stack form
  | error fault => rfl

/-- A token is taken inside of the bracket as it is outside, unless it closes the bracket. -/
theorem accept_within {stack : List Context} {token : Token} (h : stack ≠ [] ∨ token ≠ .closing b) :
    accept (stack ++ [.items b read]) token = (accept stack token).within b read := by
  cases token with
  | opening | mark | caret => rfl
  | text chars | word chars => exact atom_within b read stack chars
  | closing b' =>
    cases stack with
    | nil =>
      have hb : b' ≠ b := by simpa using h
      exact if_neg hb
    | cons context stack =>
      cases context with
      | items b'' read' =>
        simp only [List.cons_append, accept]
        split
        · cases compound b' read'.reverse with
          | ok form => exact deliver_within b read stack form
          | error fault => rfl
        · rfl
      | _ => rfl

/-- What is taken outside does not close the bracket. -/
theorem accept_within_of_taken {stack : List Context} {token : Token}
    (h : ∀ fault, accept stack token ≠ .refused fault) :
    accept (stack ++ [.items b read]) token = (accept stack token).within b read := by
  refine accept_within b read (not_and_or.1 ?_)
  rintro ⟨rfl, rfl⟩
  exact h _ rfl

end Within

/-! ## Tokens that are taken -/

/-- A token that is taken, or that closes a bracket too early, is no integer that is too long. -/
theorem sound_of_taken {stack : List Context} {token : Token} (hscanned : token.Scanned)
    (h : ∀ fault, accept stack token ≠ .failed fault) : token.Sound := by
  cases token with
  | word chars =>
    cases hv : atomValue chars with
    | ok v =>
      show atomValue chars = .ok (wordValue chars)
      rw [wordValue, hv]
    | error fault => exact absurd (by rw [accept, accept.atom, hv]) (h fault)
  | text chars => exact hscanned
  | _ => trivial

/-- Taking all of some tokens, from a stack and the forms so far to others. -/
inductive Passes : List Context → List Value → List Token → List Context → List Value → Prop where
  | none {stack : List Context} {forms : List Value} : Passes stack forms [] stack forms
  | complete {stack stack' : List Context} {forms forms' : List Value} {token : Token} {ts : List Token}
    {form : Value} :
    accept stack token = .complete form → Passes [] (form :: forms) ts stack' forms' →
    Passes stack forms (token :: ts) stack' forms'
  | inside {stack stack' inner : List Context} {forms forms' : List Value} {token : Token} {ts : List Token} :
    accept stack token = .inside inner → Passes inner forms ts stack' forms' →
    Passes stack forms (token :: ts) stack' forms'

/-- A token that is not taken. -/
def Stops (stack : List Context) (token : Token) (fault : ReadFault) : Prop :=
  accept stack token = .failed fault ∨ accept stack token = .refused fault

/-- Either all tokens are taken, or reading stops at one of them. -/
theorem passes_or_stops : ∀ (ts : List Token) (stack : List Context) (forms : List Value),
    (∃ stack' forms', Passes stack forms ts stack' forms') ∨
    ∃ before token after stack' forms' fault, ts = before ++ token :: after ∧
      Passes stack forms before stack' forms' ∧ Stops stack' token fault
  | [], stack, forms => .inl ⟨stack, forms, .none⟩
  | token :: ts, stack, forms => by
    cases h : accept stack token with
    | complete form =>
      rcases passes_or_stops ts [] (form :: forms) with ⟨stack', forms', hp⟩ |
        ⟨before, t, after, stack', forms', fault, rfl, hp, hs⟩
      · exact .inl ⟨stack', forms', .complete h hp⟩
      · exact .inr ⟨token :: before, t, after, stack', forms', fault, rfl, .complete h hp, hs⟩
    | inside inner =>
      rcases passes_or_stops ts inner forms with ⟨stack', forms', hp⟩ |
        ⟨before, t, after, stack', forms', fault, rfl, hp, hs⟩
      · exact .inl ⟨stack', forms', .inside h hp⟩
      · exact .inr ⟨token :: before, t, after, stack', forms', fault, rfl, .inside h hp, hs⟩
    | failed fault => exact .inr ⟨[], token, ts, stack, forms, fault, rfl, .none, .inl h⟩
    | refused fault => exact .inr ⟨[], token, ts, stack, forms, fault, rfl, .none, .inr h⟩

namespace Passes

variable {stack stack' : List Context} {forms forms' : List Value} {ts : List Token}

theorem readAllFrom (h : Passes stack forms ts stack' forms') (rest : List Token) :
    readAllFrom stack forms (ts ++ rest) = Source.readAllFrom stack' forms' rest := by
  induction h with
  | none => rfl
  | complete ha _ ih => rw [List.cons_append, Source.readAllFrom, ha]; exact ih
  | inside ha _ ih => rw [List.cons_append, Source.readAllFrom, ha]; exact ih

/-- Inside of a bracket the same tokens are taken, and the forms are added to its items. -/
theorem readFrom_within (h : Passes stack forms ts stack' forms') (b : Bracket) (read : List Value)
    (rest : List Token) :
    readFrom (stack ++ [.items b (forms ++ read)]) (ts ++ rest) =
      readFrom (stack' ++ [.items b (forms' ++ read)]) rest := by
  induction h with
  | none => rfl
  | @complete stack _ forms _ token ts form ha _ ih =>
    rw [List.cons_append, readFrom, accept_within_of_taken b _ (by simp [ha]), ha]
    exact ih
  | @inside stack _ inner forms _ token ts ha _ ih =>
    rw [List.cons_append, readFrom, accept_within_of_taken b _ (by simp [ha]), ha]
    exact ih

/-- No token of them is at fault. -/
theorem taken (h : Passes stack forms ts stack' forms') :
    ∀ token ∈ ts, ∃ within, ∀ fault, accept within token ≠ .failed fault := by
  induction h with
  | none => exact fun _ h => absurd h List.not_mem_nil
  | @complete stack _ _ _ token _ _ ha _ ih | @inside stack _ _ _ _ token _ ha _ ih =>
    exact List.forall_mem_cons.2 ⟨⟨stack, by simp [ha]⟩, ih⟩

theorem sound (h : Passes stack forms ts stack' forms') (hscanned : ∀ token ∈ ts, token.Scanned) :
    ∀ token ∈ ts, token.Sound := by
  intro token htoken
  obtain ⟨within, htaken⟩ := h.taken token htoken
  exact sound_of_taken (hscanned token htoken) htaken

/-- What is taken has derivations: the forms are those of a row, and the stack has taken the rest. -/
theorem accounts (h : Passes stack forms ts stack' forms') (hsound : ∀ token ∈ ts, token.Sound) :
    ∀ {taken : List Token} (done : List Tree), Opened stack taken → forms = (denoteAll done).reverse →
    ∃ done' taken', Opened stack' taken' ∧ forms' = (denoteAll done').reverse ∧
      yieldAll done' ++ taken' = yieldAll done ++ (taken ++ ts) := by
  induction h with
  | none => exact fun {taken} done ho hforms => ⟨done, taken, ho, hforms, by rw [List.append_nil]⟩
  | @complete stack _ forms _ token ts form ha _ ih =>
    intro taken done ho hforms
    obtain ⟨htoken, hrest⟩ := List.forall_mem_cons.1 hsound
    have haccounts := accept_accounts ho htoken
    rw [ha] at haccounts
    obtain ⟨t, ht, hd⟩ := haccounts
    obtain ⟨done', taken', ho', hforms', hyield⟩ := ih hrest (done ++ [t]) .outside (by
      rw [hforms, denoteAll_append, List.reverse_append, ← hd]; rfl)
    refine ⟨done', taken', ho', hforms', ?_⟩
    rw [hyield, yieldAll_append, yieldAll, yieldAll, ht]
    simp
  | @inside stack _ inner forms _ token ts ha _ ih =>
    intro taken done ho hforms
    obtain ⟨htoken, hrest⟩ := List.forall_mem_cons.1 hsound
    have haccounts := accept_accounts ho htoken
    rw [ha] at haccounts
    obtain ⟨done', taken', ho', hforms', hyield⟩ := ih hrest done haccounts hforms
    refine ⟨done', taken', ho', hforms', ?_⟩
    rw [hyield]
    simp

end Passes

/-! ## Texts of one form -/

theorem Passes.length_le {stack stack' : List Context} {forms forms' : List Value} {ts : List Token}
    (h : Passes stack forms ts stack' forms') : forms.length ≤ forms'.length := by
  induction h with
  | none => exact Nat.le_refl _
  | complete _ _ ih => exact Nat.le_of_succ_le ih
  | inside _ _ ih => exact ih

/-- Where no form is completed, reading one form goes on as reading all does. -/
theorem Passes.readFrom {stack stack' : List Context} {forms forms' : List Value} {ts : List Token}
    (h : Passes stack forms ts stack' forms') (hsame : forms'.length = forms.length) (rest : List Token) :
    readFrom stack (ts ++ rest) = Source.readFrom stack' rest := by
  induction h with
  | none => rfl
  | complete _ hp _ =>
    have hlength := hp.length_le
    rw [List.length_cons] at hlength
    omega
  | inside ha _ ih =>
    rw [List.cons_append, Source.readFrom, ha]
    exact ih hsame

theorem readFrom_of_stops {stack : List Context} {token : Token} {fault : ReadFault} (h : Stops stack token fault)
    (rest : List Token) : (readFrom stack (token :: rest)).1 = .error fault := by
  rw [readFrom]
  rcases h with h | h <;> rw [h]

/-- The tokens of a derivation have values and are read as the form that it denotes, or reading ends with
a fault. -/
theorem nextForm_of_scanned {t : Tree} (hscanned : ∀ token ∈ t.yield, token.Scanned) :
    (∀ token ∈ t.yield, token.Sound) ∧ (nextForm t.yield).1 = .ok (some t.denote) ∨
      ∃ fault, (nextForm t.yield).1 = .error fault := by
  rcases passes_or_stops t.yield [] [] with
    ⟨stack, forms, hp⟩ | ⟨before, token, after, stack, forms, fault, hsplit, hp, hs⟩
  · have hsound := hp.sound hscanned
    have hform := nextForm_yield t [] hsound
    rw [List.append_nil] at hform
    exact .inl ⟨hsound, by rw [hform]⟩
  · have hbefore : ∀ token ∈ before, token.Scanned := fun token ht =>
      hscanned token (hsplit ▸ List.mem_append_left _ ht)
    obtain ⟨done, taken, -, hforms, hyield⟩ := hp.accounts (hp.sound hbefore) [] .outside rfl
    -- a form that is completed before the end would be the derivation itself
    obtain rfl : done = [] := by
      cases done with
      | nil => rfl
      | cons u us =>
        have hwhole : t.yield ++ [] = u.yield ++ (yieldAll us ++ taken ++ token :: after) := by
          rw [List.append_nil, hsplit, show before = _ from hyield.symm, yieldAll]
          simp only [List.append_assoc]
        simpa using (t.yield_append_inj hwhole).2
    refine .inr ⟨fault, ?_⟩
    rw [nextForm, hsplit, hp.readFrom (by rw [hforms]; rfl)]
    exact readFrom_of_stops hs after

/-! ## Texts that are read to the end -/

/-- Tokens that are read without a fault are all taken, as the forms that are read. -/
theorem passes_of_allForms {ts : List Token} (h : (allForms ts).fault? = none) :
    Passes [] [] ts [] (allForms ts).forms.reverse := by
  rcases passes_or_stops ts [] [] with ⟨stack, forms, hp⟩ | ⟨before, token, after, stack, forms, fault, rfl, hp, hs⟩
  · have hreading := hp.readAllFrom []
    rw [List.append_nil] at hreading
    rw [allForms, hreading] at h ⊢
    cases stack with
    | nil => simpa [readAllFrom] using hp
    | cons context stack => simp [readAllFrom] at h
  · rw [allForms, hp.readAllFrom, readAllFrom] at h
    rcases hs with hs | hs
    · rw [hs] at h; cases h
    · rw [hs] at h; cases h

/-- Inside of a bracket they add their forms to its items. -/
theorem readFrom_items {ts : List Token} (h : (allForms ts).fault? = none) (b : Bracket) (read : List Value)
    (rest : List Token) :
    readFrom [.items b read] (ts ++ rest) = readFrom [.items b ((allForms ts).forms.reverse ++ read)] rest :=
  (passes_of_allForms h).readFrom_within b read rest

theorem readFrom_closing {b : Bracket} {read : List Value} {form : Value} (h : compound b read.reverse = .ok form)
    (rest : List Token) : readFrom [.items b read] (.closing b :: rest) = (.ok (some form), rest) := by
  rw [readFrom, accept_closing read h]
  rfl

/-! ## Malformed texts -/

/-- What stands before a form and wants it: a mark, or a caret with its metadata. -/
inductive Prefix where
  | mark (m : Mark)
  | caret (info : Tree)

/-- The tokens of a prefix. -/
def Prefix.yield : Prefix → List Token
  | .mark m => [.mark m]
  | .caret info => .caret :: info.yield

/-- Whether some forms and then a closing bracket stand at the beginning. -/
def ClosesEarly (b : Bracket) (ts : List Token) : Prop :=
  ∃ trees rest, ts = yieldAll trees ++ .closing b :: rest ∧ ∀ token ∈ yieldAll trees, token.Sound

/-- Whether the tokens are some forms, and then prefixes that want one more. -/
def EndsWanting (ts : List Token) : Prop :=
  ∃ trees wanting, wanting ≠ [] ∧ ts = yieldAll trees ++ wanting.flatMap Prefix.yield ∧ ∀ token ∈ ts, token.Sound

/-- A stack on which a form completes all constructs has taken prefixes only. -/
theorem prefixes_of_complete {stack : List Context} {taken : List Token} (h : Opened stack taken) :
    ∀ {v form : Value}, deliver stack v = .complete form →
    ∃ wanting : List Prefix, taken = wanting.flatMap Prefix.yield ∧ (stack ≠ [] → wanting ≠ []) := by
  induction h with
  | outside => exact fun _ => ⟨[], rfl, fun h => absurd rfl h⟩
  | items | metadata => exact fun h => by cases h
  | operand m _ ih =>
    intro v form hform
    obtain ⟨wanting, rfl, -⟩ := ih hform
    exact ⟨wanting ++ [.mark m], by simp [Prefix.yield], by simp⟩
  | target info _ ih =>
    intro v form hform
    obtain ⟨wanting, rfl, -⟩ := ih hform
    exact ⟨wanting ++ [.caret info], by simp [Prefix.yield], by simp⟩

/-- Prefixes want one form only. -/
theorem exists_tree_of_wanting (t : Tree) : ∀ wanting : List Prefix,
    ∃ u : Tree, u.yield = wanting.flatMap Prefix.yield ++ t.yield
  | [] => ⟨t, rfl⟩
  | .mark m :: wanting => by
    obtain ⟨u, hu⟩ := exists_tree_of_wanting t wanting
    exact ⟨.marked m u, by simp [Tree.yield, Prefix.yield, hu]⟩
  | .caret info :: wanting => by
    obtain ⟨u, hu⟩ := exists_tree_of_wanting t wanting
    exact ⟨.caret info u, by simp [Tree.yield, Prefix.yield, hu]⟩

/-! ### Faults of the syntax -/

/-- Whether reading ends with a fault of the syntax. -/
def Malformed (x : Except ReadFault (Option Value)) : Prop := ∃ fault, x = .error fault ∧ fault.IsSyntactic

theorem malformed_of_open {stack : List Context} (h : stack ≠ []) : Malformed (readFrom stack []).1 := by
  cases stack with
  | nil => exact absurd rfl h
  | cons context stack => exact ⟨context.endFault, rfl, endFault_isSyntactic context⟩

theorem deliver_cases : ∀ (stack : List Context) (v : Value),
    (∃ form, deliver stack v = .complete form) ∨ ∃ inner, inner ≠ [] ∧ deliver stack v = .inside inner
  | [], v => .inl ⟨v, rfl⟩
  | .items b read :: stack, v => .inr ⟨.items b (v :: read) :: stack, by simp, rfl⟩
  | .metadata :: stack, v => .inr ⟨.target v :: stack, by simp, rfl⟩
  | .operand _ :: stack, _ => deliver_cases stack _
  | .target _ :: stack, _ => deliver_cases stack _

theorem compound_fault {b : Bracket} {items : List Value} {fault : ReadFault} (h : compound b items = .error fault) :
    fault = .oddMap := by
  cases b with
  | round | square => cases h
  | curly =>
    simp only [compound] at h
    split at h <;> cases h
    rfl

/-- A closing bracket at which reading stops is a fault of the syntax. -/
theorem isSyntactic_of_stops_closing {stack : List Context} {b : Bracket} {fault : ReadFault}
    (h : Stops stack (.closing b) fault) : fault.IsSyntactic := by
  have hrefused : Progress.refused (.unexpectedClosing b) = .failed fault ∨
      Progress.refused (.unexpectedClosing b) = .refused fault → fault.IsSyntactic := by
    rintro (h | h) <;> cases h
    trivial
  cases stack with
  | nil => exact hrefused h
  | cons context stack =>
    cases context with
    | items b' read =>
      simp only [Stops, accept] at h
      split at h
      · cases hc : compound b read.reverse with
        | ok form =>
          rw [hc] at h
          rcases deliver_cases stack form with ⟨form', hd⟩ | ⟨inner, -, hd⟩ <;> simp [hd] at h
        | error cause =>
          rw [hc, compound_fault hc] at h
          rcases h with h | h <;> cases h
          trivial
      · exact hrefused h
    | _ => exact hrefused h

/-! ### Between a head and a last `nil` -/

section Malformed

variable {ts : List Token} (read : List Value)

/-- The tokens that close the bracket, after a last item. -/
def lastNil : List Token := [.word "nil".toList, .closing .round]

/-- Reading that stands inside of constructs can only take the `nil` for the form that it wants. -/
theorem readFrom_lastNil {stack : List Context} (h : stack ≠ [])
    (hwants : ∀ form, deliver stack .nil ≠ .complete form) :
    Malformed (readFrom (stack ++ [.items .round read]) lastNil).1 := by
  obtain ⟨inner, hinner, hdeliver⟩ := (deliver_cases stack .nil).resolve_left fun ⟨form, hform⟩ => hwants form hform
  have hnil : accept (stack ++ [.items .round read]) (.word "nil".toList) =
    .inside (inner ++ [.items .round read]) := by
    rw [accept_within .round read (.inl h)]
    have hword : accept stack (.word "nil".toList) = deliver stack .nil := rfl
    rw [hword, hdeliver]
    rfl
  have hclosing : accept (inner ++ [.items .round read]) (.closing .round) =
      (accept inner (.closing .round)).within .round read := accept_within .round read (.inl hinner)
  rw [lastNil, readFrom, hnil]
  dsimp only
  rw [readFrom, hclosing]
  cases hp : accept inner (.closing .round) with
  | complete form => exact malformed_of_open (by simp)
  | inside stack' => exact malformed_of_open (by simp)
  | failed fault => exact ⟨fault, rfl, isSyntactic_of_stops_closing (.inl hp)⟩
  | refused fault => exact ⟨fault, rfl, isSyntactic_of_stops_closing (.inr hp)⟩

/-- Where a closing bracket follows, it is the one that ends the list. -/
theorem readFrom_of_closesEarly (h : ClosesEarly .round ts) (tail : List Token) :
    ∃ trees rest, ts = yieldAll trees ++ .closing .round :: rest ∧
      readFrom [.items .round read] (ts ++ tail) =
        (.ok (some (.ofList (read.reverse ++ denoteAll trees))), rest ++ tail) := by
  obtain ⟨trees, rest, rfl, hsound⟩ := h
  have hforms := allForms_yieldAll hsound rfl
  refine ⟨trees, rest, rfl, ?_⟩
  rw [List.append_assoc, List.cons_append, readFrom_items (by rw [hforms]), hforms]
  exact readFrom_closing (by rw [List.reverse_append, List.reverse_reverse]; rfl) _

/-- Where prefixes stand last, the `nil` is the form that they want. -/
theorem readFrom_of_endsWanting (h : EndsWanting ts) : ∃ trees t, yieldAll (trees ++ [t]) = ts ++ [.word "nil".toList] ∧
    readFrom [.items .round read] (ts ++ lastNil) =
      (.ok (some (.ofList (read.reverse ++ denoteAll (trees ++ [t])))), []) := by
  obtain ⟨trees, wanting, -, hts, hsound⟩ := h
  obtain ⟨t, ht⟩ := exists_tree_of_wanting (.word "nil".toList) wanting
  have hyield : yieldAll (trees ++ [t]) = ts ++ [.word "nil".toList] := by
    rw [yieldAll_append, yieldAll, yieldAll, List.append_nil, ht, hts, List.append_assoc]
    rfl
  have hsound' : ∀ token ∈ ts ++ [.word "nil".toList], token.Sound := by
    intro token htoken
    rcases List.mem_append.1 htoken with htoken | htoken
    · exact hsound token htoken
    · rw [List.mem_singleton.1 htoken]; rfl
  have hforms := allForms_yieldAll hsound' hyield
  refine ⟨trees, t, hyield, ?_⟩
  rw [lastNil, List.append_cons, readFrom_items (by rw [hforms]), hforms]
  exact readFrom_closing (by rw [List.reverse_append, List.reverse_reverse]; rfl) _

/-- A malformed text is malformed between a head and a last `nil` as well, unless it closes the list
itself or wants a form at its end. -/
theorem readFrom_malformed_iff (hscanned : ∀ token ∈ ts, token.Scanned) {fault : ReadFault}
    (hfault : (allForms ts).fault? = some fault) (hsyntactic : fault.IsSyntactic) :
    Malformed (readFrom [.items .round read] (ts ++ lastNil)).1 ↔ ¬ClosesEarly .round ts ∧ ¬EndsWanting ts := by
  constructor
  · rintro ⟨cause, hcause, -⟩
    refine ⟨fun h => ?_, fun h => ?_⟩
    · obtain ⟨trees, rest, -, hread⟩ := readFrom_of_closesEarly read h lastNil
      rw [hread] at hcause; cases hcause
    · obtain ⟨trees, t, -, hread⟩ := readFrom_of_endsWanting read h
      rw [hread] at hcause; cases hcause
  · rintro ⟨hcloses, hwanting⟩
    rcases passes_or_stops ts [] [] with ⟨stack, forms, hp⟩ | ⟨before, token, after, stack, forms, cause, rfl, hp, hs⟩
    · -- all tokens are taken, so reading ends inside of constructs
      obtain ⟨done, taken, ho, -, hyield⟩ := hp.accounts (hp.sound hscanned) [] .outside rfl
      have hreading := hp.readAllFrom []
      rw [List.append_nil] at hreading
      have hstack : stack ≠ [] := by
        rintro rfl
        rw [allForms, hreading] at hfault
        cases hfault
      have hwithin := hp.readFrom_within .round read lastNil
      simp only [List.nil_append] at hwithin
      rw [hwithin]
      refine readFrom_lastNil _ hstack fun form hform => hwanting ?_
      obtain ⟨wanting, rfl, hne⟩ := prefixes_of_complete ho hform
      refine ⟨done, wanting, hne hstack, ?_, hp.sound hscanned⟩
      simpa [yieldAll] using hyield.symm
    · -- reading stops at the same token
      have hbefore : ∀ token ∈ before, token.Scanned := fun token ht => hscanned token (List.mem_append_left _ ht)
      obtain ⟨done, taken, ho, -, hyield⟩ := hp.accounts (hp.sound hbefore) [] .outside rfl
      have htoken : stack ≠ [] ∨ token ≠ .closing .round := by
        refine not_and_or.1 ?_
        rintro ⟨rfl, rfl⟩
        refine hcloses ?_
        cases ho
        have hdone : yieldAll done = before := by simpa [yieldAll] using hyield
        exact ⟨done, after, by rw [hdone], by rw [hdone]; exact hp.sound hbefore⟩
      have hcause : cause = fault := by
        rw [allForms, hp.readAllFrom, readAllFrom] at hfault
        rcases hs with hs | hs <;> rw [hs] at hfault <;> exact Option.some.inj hfault
      have hwithin := hp.readFrom_within .round read (token :: after ++ lastNil)
      simp only [List.nil_append, List.cons_append] at hwithin
      rw [List.append_assoc, List.cons_append, hwithin, readFrom, accept_within _ _ htoken]
      rcases hs with hs | hs <;> rw [hs] <;> exact ⟨cause, rfl, hcause ▸ hsyntactic⟩

end Malformed

end SmallLisp.Source
