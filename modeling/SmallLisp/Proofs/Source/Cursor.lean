/-
Moves along a stream as those of a cursor in a row of tokens. A stream only looks at tokens and takes them, so that
what was taken, what waits in the buffer and what was not pulled yet are the row at all times, whichever moves are
made and whether they fail. What a move finds depends on the tokens ahead alone, and not on which of them is in the
buffer. Main statement: `makeAll_follows_row`.
-/
import SmallLisp.Source.Cursor
import SmallLisp.Proofs.Source.Lines

namespace SmallLisp.Source

namespace Stream

variable {s s' s'' : Stream} {taken more : List Token} {token : Token}

/-! ## Looking and taking -/

/-- Going along a stream by looking at tokens and taking them: the tokens that were taken on the way. -/
inductive Goes : Stream → List Token → Stream → Prop where
  | stay (s : Stream) : Goes s [] s
  | look {s s' : Stream} {taken : List Token} : Goes s.peek.2 taken s' → Goes s taken s'
  | take {s s₁ s' : Stream} {token : Token} {taken : List Token} :
    s.advance = (some token, s₁) → Goes s₁ taken s' → Goes s (token :: taken) s'

theorem Goes.trans (h : Goes s taken s') (h' : Goes s' more s'') : Goes s (taken ++ more) s'' := by
  induction h with
  | stay => exact h'
  | look _ ih => exact .look (ih h')
  | take htoken _ ih => exact .take htoken (ih h')

theorem ahead_of_advance (h : s.advance = (some token, s')) : s.ahead = token :: s'.ahead := by
  obtain ⟨hhead, htail⟩ := s.advance_eq
  rw [h] at hhead htail
  rw [htail, List.cons_head?_tail hhead.symm]

/-- What was taken stood ahead, right before what is ahead now. -/
theorem Goes.ahead_eq (h : Goes s taken s') : s.ahead = taken ++ s'.ahead := by
  induction h with
  | stay => rfl
  | look _ ih => rw [← ih, peek_eq _ |>.2]
  | take htoken _ ih => rw [ahead_of_advance htoken, ih, List.cons_append]

theorem length_buffer_peek (h : s.buffer.length ≤ 1) : s.peek.2.buffer.length ≤ 1 := by
  rcases s with ⟨_ | ⟨token, buffer⟩, _ | ⟨token', unpulled⟩⟩
  · exact h
  · exact Nat.le_refl 1
  · exact h
  · exact h

theorem length_buffer_advance (h : s.buffer.length ≤ 1) : s.advance.2.buffer.length ≤ 1 := by
  rcases s with ⟨_ | ⟨token, buffer⟩, _ | ⟨token', unpulled⟩⟩
  · exact h
  · exact h
  · exact Nat.le_of_succ_le h
  · exact Nat.le_of_succ_le h

/-- No more than one token ever waits. -/
theorem Goes.length_buffer (h : Goes s taken s') : s.buffer.length ≤ 1 → s'.buffer.length ≤ 1 := by
  induction h with
  | stay => exact id
  | look _ ih => exact fun h => ih (length_buffer_peek h)
  | @take s _ _ _ _ htoken _ ih =>
    intro h
    have := length_buffer_advance h
    rw [htoken] at this
    exact ih this

theorem goes_peek {token? : Option Token} (h : s.peek = (token?, s')) : Goes s [] s' := by
  have hlook : Goes s [] s.peek.2 := .look (.stay _)
  rwa [h] at hlook

theorem ahead_of_peek (h : s.peek = (some token, s')) :
    s.ahead = token :: s'.advance.2.ahead ∧ s'.advance = (some token, s'.advance.2) := by
  rcases s with ⟨_ | ⟨token', buffer⟩, _ | ⟨token'', unpulled⟩⟩ <;> cases h <;> exact ⟨rfl, rfl⟩

theorem ahead_of_peek_none (h : s.peek = (none, s')) : s.ahead = [] ∧ s'.ahead = [] := by
  rcases s with ⟨_ | ⟨token', buffer⟩, _ | ⟨token'', unpulled⟩⟩ <;> cases h
  exact ⟨rfl, rfl⟩

/-- A token that was looked at may be taken. -/
theorem goes_advance (h : s.peek = (some token, s')) : Goes s [token] s'.advance.2 :=
  (goes_peek h).trans (.take (ahead_of_peek h).2 (.stay _))

/-! ## Forms -/

/-- Reading goes along the stream, and reads what the tokens ahead are read as. -/
theorem readFrom_goes (stack : List Context) (s : Stream) : ∃ taken, Goes s taken (s.readFrom stack).2 ∧
    ((s.readFrom stack).1, (s.readFrom stack).2.ahead) = Source.readFrom stack s.ahead := by
  fun_induction Stream.readFrom stack s with
  | case1 s s' hpeek | case2 s s' hpeek context stack =>
    obtain ⟨hahead, hahead'⟩ := ahead_of_peek_none hpeek
    exact ⟨[], goes_peek hpeek, by rw [hahead, hahead']; rfl⟩
  | case3 stack s token s' hpeek form haccept | case5 stack s token s' hpeek fault haccept =>
    exact ⟨[token], goes_advance hpeek, by rw [(ahead_of_peek hpeek).1, Source.readFrom, haccept]⟩
  | case4 stack s token s' hpeek inner haccept ih =>
    obtain ⟨taken, hgoes, hread⟩ := ih
    exact ⟨token :: taken, (goes_advance hpeek).trans hgoes,
      by rw [hread, (ahead_of_peek hpeek).1, Source.readFrom, haccept]⟩
  | case6 stack s token s' hpeek fault haccept =>
    -- the token stays, so the stream ends where it looked
    have hahead := (goes_peek hpeek).ahead_eq
    rw [List.nil_append] at hahead
    exact ⟨[], goes_peek hpeek, by rw [← hahead, (ahead_of_peek hpeek).1, Source.readFrom, haccept]⟩

theorem requireForm_goes (expected : String) (s : Stream) : ∃ taken, Goes s taken (s.requireForm expected).2 ∧
    ((s.requireForm expected).1, (s.requireForm expected).2.ahead) = Source.requireForm expected s.ahead := by
  unfold Stream.requireForm
  split
  · rename_i s' hpeek
    obtain ⟨hahead, hahead'⟩ := ahead_of_peek_none hpeek
    exact ⟨[], goes_peek hpeek, by rw [hahead, hahead']; rfl⟩
  · rename_i token s' hpeek
    have hahead := (goes_peek hpeek).ahead_eq
    rw [List.nil_append] at hahead
    obtain ⟨taken, hgoes, hread⟩ := readFrom_goes [] s'
    refine ⟨taken, (goes_peek hpeek).trans hgoes, ?_⟩
    rw [Stream.nextForm, hread, Source.requireForm, if_neg (by simp [(ahead_of_peek hpeek).1]), Source.nextForm, hahead]

end Stream

/-- Reading all forms is reading one form after the other. -/
theorem readAllFrom_eq : ∀ (ts : List Token) (stack : List Context) (forms : List Value),
    readAllFrom stack forms ts = match readFrom stack ts with
      | (.ok (some form), rest) => readAllFrom [] (form :: forms) rest
      | (.ok none, rest) => ⟨forms.reverse, none, rest⟩
      | (.error fault, rest) => ⟨forms.reverse, some fault, rest⟩
  | [], [], forms => rfl
  | [], context :: stack, forms => rfl
  | token :: ts, stack, forms => by
    rw [readAllFrom, readFrom]
    cases accept stack token with
    | complete form => rfl
    | inside inner => exact readAllFrom_eq ts inner forms
    | failed fault | refused fault => rfl

theorem allForms_eq (ts : List Token) : allForms ts = match nextForm ts with
    | (.ok (some form), rest) => { allForms rest with forms := form :: (allForms rest).forms }
    | (.ok none, rest) => ⟨[], none, rest⟩
    | (.error fault, rest) => ⟨[], some fault, rest⟩ := by
  rw [allForms, readAllFrom_eq, nextForm]
  split
  · rename_i form rest _
    rw [readAllFrom_forms rest [] [form]]
    rfl
  · rfl
  · rfl

namespace Stream

/-- The next form behind a token that was looked at. -/
theorem nextForm_goes {s s' s'' : Stream} {token? : Option Token} {x : Except ReadFault (Option Value)}
    (hpeek : s.peek = (token?, s'))
    (hform : s'.nextForm = (x, s'')) : ∃ taken, Goes s taken s'' ∧ Source.nextForm s.ahead = (x, s''.ahead) := by
  have hahead := (goes_peek hpeek).ahead_eq
  rw [List.nil_append] at hahead
  obtain ⟨taken, hgoes, hread⟩ := readFrom_goes [] s'
  have hform' : s'.readFrom [] = (x, s'') := hform
  rw [hform'] at hgoes hread
  exact ⟨taken, (goes_peek hpeek).trans hgoes, by rw [Source.nextForm, hahead, ← hread]⟩

theorem allForms_goes (s : Stream) : ∃ taken, Goes s taken s.allForms.2.2 ∧
    Source.allForms s.ahead = ⟨s.allForms.1, s.allForms.2.1, s.allForms.2.2.ahead⟩ := by
  fun_induction Stream.allForms s with
  | case1 s s' hpeek =>
    obtain ⟨hahead, hahead'⟩ := ahead_of_peek_none hpeek
    exact ⟨[], goes_peek hpeek, by rw [hahead, hahead']; rfl⟩
  | case2 s token s' hpeek form s'' hform forms fault? rest hall ih =>
    obtain ⟨taken, hgoes, hread⟩ := nextForm_goes hpeek hform
    obtain ⟨more, hgoes', hmore⟩ := ih
    rw [hall] at hgoes' hmore
    exact ⟨taken ++ more, hgoes.trans hgoes', by rw [allForms_eq, hread]; dsimp only; rw [hmore]⟩
  | case3 s token s' hpeek s'' hform | case4 s token s' hpeek fault s'' hform =>
    obtain ⟨taken, hgoes, hread⟩ := nextForm_goes hpeek hform
    exact ⟨taken, hgoes, by rw [allForms_eq, hread]⟩

end Stream

/-! ## Moves -/

namespace Move

/-- What a move finds in a row of tokens, and the tokens that it leaves: what it comes to without any buffer. -/
def onRow : Move → List Token → Except ReadFault Finding × List Token
  | .peek, row => (.ok (.token row.head?), row)
  | .advance, row => (.ok (.token row.head?), row.tail)
  | .form, row => ((nextForm row).1.map .form, (nextForm row).2)
  | .required expected, row => ((requireForm expected row).1.map .form, (requireForm expected row).2)
  | .forms, row =>
    (match (allForms row).fault? with
      | some fault => .error fault
      | none => .ok (.forms (allForms row).forms), (allForms row).rest)

variable {s : Stream}

/-- A move goes along the stream, and finds what it finds in the row of the tokens ahead. -/
theorem make_goes (move : Move) (s : Stream) : ∃ taken, s.Goes taken (move.make s).2 ∧
    ((move.make s).1, (move.make s).2.ahead) = move.onRow s.ahead := by
  cases move with
  | peek =>
    obtain ⟨hhead, hahead⟩ := s.peek_eq
    exact ⟨[], .look (.stay _), by rw [onRow, ← hhead, ← hahead]; rfl⟩
  | advance =>
    obtain ⟨hhead, htail⟩ := s.advance_eq
    refine ⟨s.advance.1.toList, ?_, by rw [onRow, ← hhead, ← htail]; rfl⟩
    rcases s with ⟨_ | ⟨token, buffer⟩, _ | ⟨token', unpulled⟩⟩
    · exact .stay _
    · exact .take rfl (.stay _)
    · exact .take rfl (.stay _)
    · exact .take rfl (.stay _)
  | form =>
    obtain ⟨taken, hgoes, hread⟩ := s.readFrom_goes []
    exact ⟨taken, hgoes, by rw [onRow, nextForm, ← hread]; rfl⟩
  | required expected =>
    obtain ⟨taken, hgoes, hread⟩ := s.requireForm_goes expected
    exact ⟨taken, hgoes, by rw [onRow, ← hread]; rfl⟩
  | forms =>
    obtain ⟨taken, hgoes, hread⟩ := s.allForms_goes
    rw [make, onRow, hread]
    rcases hall : s.allForms with ⟨forms, _ | fault, rest⟩ <;> rw [hall] at hgoes <;> exact ⟨taken, hgoes, rfl⟩

theorem makeEach_goes : ∀ (moves : List Move) (s : Stream), ∃ taken, s.Goes taken (makeEach moves s).2
  | [], s => ⟨[], .stay s⟩
  | move :: moves, s => by
    obtain ⟨taken, hgoes, -⟩ := move.make_goes s
    obtain ⟨more, hgoes'⟩ := makeEach_goes moves (move.make s).2
    exact ⟨taken ++ more, hgoes.trans hgoes'⟩

theorem of_map_form {x : Except ReadFault (Option Value)} {form : Value}
    (h : x.map Finding.form = .ok (.form (some form))) : x = .ok (some form) := by
  cases x with
  | error fault => cases h
  | ok form? =>
    cases h
    rfl

/-- A move that finds a form has taken a token. -/
theorem length_make_lt {move : Move} {form : Value} (h : (move.make s).1 = .ok (.form (some form))) :
    (move.make s).2.ahead.length < s.ahead.length := by
  cases move with
  | peek | advance => cases h
  | forms =>
    rw [make] at h
    rcases hall : s.allForms with ⟨forms, _ | fault, rest⟩ <;> rw [hall] at h <;> cases h
  | form => exact Stream.length_readFrom_lt (Prod.ext (of_map_form h) rfl)
  | required expected =>
    have hform : (s.requireForm expected).1 = .ok (some form) := of_map_form h
    show (s.requireForm expected).2.ahead.length < s.ahead.length
    rw [Stream.requireForm] at hform ⊢
    rcases hpeek : s.peek with ⟨_ | token, s'⟩ <;> rw [hpeek] at hform
    · cases hform
    · exact Stream.length_nextForm_lt hpeek (Prod.ext hform rfl)

variable {taken more : List Token}

theorem eq_nil_of_goes_peek (h : s.Goes more (Move.peek.make s).2) : more = [] := by
  have hahead := h.ahead_eq
  have hstay : (Move.peek.make s).2.ahead = s.ahead := s.peek_eq.2
  rw [hstay] at hahead
  exact List.self_eq_append_left.1 hahead

theorem eq_next_of_goes_advance (h : s.Goes more (Move.advance.make s).2) : more = s.ahead.head?.toList := by
  have hahead := h.ahead_eq
  have htail : (Move.advance.make s).2.ahead = s.ahead.tail := s.advance_eq.2
  have hsplit : s.ahead.head?.toList ++ s.ahead.tail = s.ahead := by cases s.ahead <;> rfl
  rw [htail] at hahead
  exact List.append_cancel_right (hahead.symm.trans hsplit.symm)

theorem ne_nil_of_goes_form {move : Move} {form : Value} (h : s.Goes more (move.make s).2)
    (hform : (move.make s).1 = .ok (.form (some form))) : more ≠ [] := by
  rintro rfl
  have hless := length_make_lt hform
  rw [h.ahead_eq] at hless
  exact absurd hless (Nat.lt_irrefl _)

/-- Whatever moves were made along a row of tokens, and whichever failed: the tokens taken, the one that waits in
the buffer and those not pulled yet are the row, and so they are after one more move. That move goes on from there
and finds what the rest of the row holds, without regard to the buffer. To look takes nothing, to advance takes
exactly the next token, and to find a form takes one token or more. -/
theorem makeAll_follows_row (tokens : List Token) (moves : List Move) (move : Move) :
    let s := (makeAll moves tokens).2
    let finding := (move.make s).1
    let s' := (move.make s).2
    ∃ taken more, (Stream.ofTokens tokens).Goes taken s ∧ s.Goes more s' ∧
      taken ++ (s.buffer ++ s.unpulled) = tokens ∧ s.buffer.length ≤ 1 ∧
      (taken ++ more) ++ (s'.buffer ++ s'.unpulled) = tokens ∧ s'.buffer.length ≤ 1 ∧
      (finding, s'.ahead) = move.onRow (tokens.drop taken.length) ∧
      (move = .peek → finding = .ok (.token tokens[taken.length]?) ∧ more = []) ∧
      (move = .advance → finding = .ok (.token tokens[taken.length]?) ∧ more = tokens[taken.length]?.toList) ∧
      ∀ form, finding = .ok (.form (some form)) → more ≠ [] := by
  intro s finding s'
  obtain ⟨taken, hgoes⟩ := makeEach_goes moves (Stream.ofTokens tokens)
  obtain ⟨more, hmore, hfinding⟩ := move.make_goes s
  have hrow : tokens = taken ++ s.ahead := hgoes.ahead_eq
  have hdrop : tokens.drop taken.length = s.ahead := by rw [hrow, List.drop_left]
  have hnext : tokens[taken.length]? = s.ahead.head? := by rw [← hdrop, List.head?_drop]
  have hbuffer : s.buffer.length ≤ 1 := hgoes.length_buffer (Nat.zero_le 1)
  have hrow' : (taken ++ more) ++ s'.ahead = tokens := (hgoes.trans hmore).ahead_eq.symm
  refine ⟨taken, more, hgoes, hmore, hrow.symm, hbuffer, hrow', hmore.length_buffer hbuffer, ?_, ?_, ?_,
    fun form hform => ne_nil_of_goes_form hmore hform⟩
  · rw [hdrop]
    exact hfinding
  · rintro rfl
    rw [hnext]
    exact ⟨congrArg Prod.fst hfinding, eq_nil_of_goes_peek hmore⟩
  · rintro rfl
    rw [hnext]
    exact ⟨congrArg Prod.fst hfinding, eq_next_of_goes_advance hmore⟩

/-- A form stops at a bracket that does not fit, which then waits in the buffer. -/
example : (makeAll [.peek, .form] (tokens "(a ] b)".toList)).2 =
    ⟨[.closing .square], [.word ['b'], .closing .round]⟩ := by cbv

end Move

end SmallLisp.Source
