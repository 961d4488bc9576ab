/-
Reading against the grammar. The reader keeps a stack of open constructs; `Opened` says which tokens
such a stack has taken, as beginnings of derivations. Completeness: the tokens of a derivation take
the reader to its form. Soundness: whatever the reader completes has a derivation of exactly the
tokens that were taken. Main statement: `readAll_grammar`.
-/
import SmallLisp.Proofs.Source.Atoms

namespace SmallLisp

/-- Whether a fault is one of the syntax, and not of the size of a number. -/
def ReadFault.IsSyntactic : ReadFault → Prop
  | .tooManyDigits _ => False
  | _ => True

namespace Source

/-! ## Completeness -/

/-- Taking some tokens in turn, from a stack: only the last may complete a form outside all
constructs. -/
inductive Takes : List Context → List Token → Progress → Prop where
  | one {stack : List Context} {t : Token} : Takes stack [t] (accept stack t)
  | more {stack : List Context} {t : Token} {ts : List Token} {p : Progress} (stack' : List Context) :
    accept stack t = .inside stack' → Takes stack' ts p → Takes stack (t :: ts) p

theorem Takes.append {stack stack' : List Context} {ts us : List Token} {p : Progress} :
    Takes stack ts (.inside stack') → Takes stack' us p → Takes stack (ts ++ us) p := by
  intro h hu
  -- the induction is on the first tokens, up to the stack that they end in
  generalize hq : Progress.inside stack' = q at h
  induction h with
  | one => exact .more _ hq.symm hu
  | more _ ha _ ih => exact .more _ ha (ih hq)

theorem Takes.readFrom_complete {stack : List Context} {ts rest : List Token} {form : Value}
    (h : Takes stack ts (.complete form)) : readFrom stack (ts ++ rest) = (.ok (some form), rest) := by
  generalize hq : Progress.complete form = q at h
  induction h with
  | one => simp [readFrom, ← hq]
  | more _ ha _ ih => rw [List.cons_append, readFrom, ha]; exact ih hq

theorem Takes.readAllFrom_complete {stack : List Context} {ts rest : List Token} {forms : List Value}
    {form : Value} (h : Takes stack ts (.complete form)) :
    readAllFrom stack forms (ts ++ rest) = readAllFrom [] (form :: forms) rest := by
  generalize hq : Progress.complete form = q at h
  induction h with
  | one => simp [readAllFrom, ← hq]
  | more _ ha _ ih => rw [List.cons_append, readAllFrom, ha]; exact ih hq

theorem accept_atom {stack : List Context} {chars : List Char} {v : Value} (h : atomValue chars = .ok v) :
    accept.atom stack chars = deliver stack v := by
  rw [accept.atom, h]

/-- A closing bracket ends a construct of its kind. -/
theorem accept_closing {stack : List Context} {b : Bracket} (read : List Value) {v : Value}
    (h : compound b read.reverse = .ok v) : accept (.items b read :: stack) (.closing b) = deliver stack v := by
  simp only [accept, if_true, h]

theorem compound_curly (entries : List (Tree × Tree)) : compound .curly (denoteAll (flatten entries)) =
    .ok (.ofEntries (Entries.ofList (denoteEntries entries))) := by
  have h : (denoteAll (flatten entries)).length % 2 = 0 := by
    rw [denoteAll_eq_map, List.length_map, length_flatten_mod]
  rw [compound, if_pos h, pairs_denoteAll_flatten]

mutual

/-- The tokens of a derivation take the reader to where its form is delivered. -/
theorem takes_yield : ∀ (t : Tree) (stack : List Context), (∀ token ∈ t.yield, token.Sound) →
    Takes stack t.yield (deliver stack t.denote)
  | .word chars, stack, h => by
    rw [Tree.denote, ← accept_atom (h (.word chars) (List.mem_singleton_self _))]
    exact .one
  | .text body whole, stack, _ => by
    rw [Tree.denote, ← accept_atom (atomValue_whole whole)]
    exact .one
  | .marked m t, stack, h => by
    refine .more (.operand m :: stack) rfl ?_
    exact takes_yield t (.operand m :: stack) fun token ht => h token (List.mem_cons_of_mem _ ht)
  | .caret info target, stack, h => by
    have hi : ∀ token ∈ info.yield, token.Sound := fun token ht =>
      h token (List.mem_cons_of_mem _ (List.mem_append_left _ ht))
    have ht : ∀ token ∈ target.yield, token.Sound := fun token ht =>
      h token (List.mem_cons_of_mem _ (List.mem_append_right _ ht))
    refine .more (.metadata :: stack) rfl ?_
    exact (takes_yield info (.metadata :: stack) hi).append (takes_yield target (.target info.denote :: stack) ht)
  | .list items, stack, h => by
    have hi : ∀ token ∈ yieldAll items, token.Sound := fun token ht =>
      h token (List.mem_cons_of_mem _ (List.mem_append_left _ ht))
    refine .more (.items .round [] :: stack) rfl (takes_yieldAll items hi ?_)
    rw [Tree.denote, ← accept_closing (b := .round) ((denoteAll items).reverse ++ [])
      (by rw [List.append_nil, List.reverse_reverse]; rfl)]
    exact .one
  | .vector items, stack, h => by
    have hi : ∀ token ∈ yieldAll items, token.Sound := fun token ht =>
      h token (List.mem_cons_of_mem _ (List.mem_append_left _ ht))
    refine .more (.items .square [] :: stack) rfl (takes_yieldAll items hi ?_)
    rw [Tree.denote, ← accept_closing (b := .square) ((denoteAll items).reverse ++ [])
      (by rw [List.append_nil, List.reverse_reverse]; rfl)]
    exact .one
  | .map entries, stack, h => by
    have he : ∀ token ∈ yieldEntries entries, token.Sound := fun token ht =>
      h token (List.mem_cons_of_mem _ (List.mem_append_left _ ht))
    refine .more (.items .curly [] :: stack) rfl (takes_yieldEntries entries he ?_)
    rw [Tree.denote, ← accept_closing (b := .curly) ((denoteAll (flatten entries)).reverse ++ [])
      (by rw [List.append_nil, List.reverse_reverse, compound_curly])]
    exact .one
termination_by structural t => t

/-- The tokens of a row of derivations add their forms to an open bracket. -/
theorem takes_yieldAll : ∀ (ts : List Tree) {b : Bracket} {read : List Value} {stack : List Context}
    {us : List Token} {p : Progress}, (∀ token ∈ yieldAll ts, token.Sound) →
    Takes (.items b ((denoteAll ts).reverse ++ read) :: stack) us p →
    Takes (.items b read :: stack) (yieldAll ts ++ us) p
  | [], b, read, stack, us, p, _, hu => hu
  | t :: ts, b, read, stack, us, p, h, hu => by
    rw [yieldAll] at h ⊢
    rw [List.append_assoc]
    have ht := takes_yield t (.items b read :: stack) fun token ht => h token (List.mem_append_left _ ht)
    refine ht.append (takes_yieldAll ts (fun token ht => h token (List.mem_append_right _ ht)) ?_)
    simpa [denoteAll] using hu
termination_by structural ts => ts

theorem takes_yieldEntries : ∀ (es : List (Tree × Tree)) {b : Bracket} {read : List Value}
    {stack : List Context} {us : List Token} {p : Progress}, (∀ token ∈ yieldEntries es, token.Sound) →
    Takes (.items b ((denoteAll (flatten es)).reverse ++ read) :: stack) us p →
    Takes (.items b read :: stack) (yieldEntries es ++ us) p
  | [], b, read, stack, us, p, _, hu => hu
  | (k, v) :: es, b, read, stack, us, p, h, hu => by
    rw [yieldEntries] at h ⊢
    rw [List.append_assoc, List.append_assoc]
    have hk := takes_yield k (.items b read :: stack) fun token ht => h token (List.mem_append_left _ ht)
    have hv := takes_yield v (.items b (k.denote :: read) :: stack) fun token ht =>
      h token (List.mem_append_right _ (List.mem_append_left _ ht))
    refine hk.append (hv.append (takes_yieldEntries es
      (fun token ht => h token (List.mem_append_right _ (List.mem_append_right _ ht))) ?_))
    simpa [flatten, denoteAll] using hu
termination_by structural es => es

end

/-- The reader reads the form of a derivation and takes its tokens, no more. -/
theorem nextForm_yield (t : Tree) (rest : List Token) (h : ∀ token ∈ t.yield, token.Sound) :
    nextForm (t.yield ++ rest) = (.ok (some t.denote), rest) :=
  (takes_yield t [] h).readFrom_complete

theorem readAllFrom_yieldAll : ∀ (ts : List Tree) (forms : List Value) (rest : List Token),
    (∀ token ∈ yieldAll ts, token.Sound) →
    readAllFrom [] forms (yieldAll ts ++ rest) = readAllFrom [] ((denoteAll ts).reverse ++ forms) rest
  | [], forms, rest, _ => rfl
  | t :: ts, forms, rest, h => by
    rw [yieldAll] at h ⊢
    rw [List.append_assoc,
      (takes_yield t [] fun token ht => h token (List.mem_append_left _ ht)).readAllFrom_complete,
      readAllFrom_yieldAll ts _ _ fun token ht => h token (List.mem_append_right _ ht)]
    simp [denoteAll]

/-! ## Soundness -/

theorem endFault_isSyntactic (context : Context) : context.endFault.IsSyntactic := by
  cases context <;> trivial

/-- The tokens that a stack of open constructs has taken. -/
inductive Opened : List Context → List Token → Prop where
  | outside : Opened [] []
  | items {stack : List Context} {taken : List Token} (b : Bracket) (ts : List Tree) :
    Opened stack taken → Opened (.items b (denoteAll ts).reverse :: stack) (taken ++ .opening b :: yieldAll ts)
  | operand {stack : List Context} {taken : List Token} (m : Mark) :
    Opened stack taken → Opened (.operand m :: stack) (taken ++ [.mark m])
  | metadata {stack : List Context} {taken : List Token} :
    Opened stack taken → Opened (.metadata :: stack) (taken ++ [.caret])
  | target {stack : List Context} {taken : List Token} (info : Tree) :
    Opened stack taken → Opened (.target info.denote :: stack) (taken ++ .caret :: info.yield)

/-- What reading has come to accounts for the tokens that were taken. -/
def Progress.Accounts : Progress → List Token → Prop
  | .complete form, taken => ∃ t : Tree, t.yield = taken ∧ t.denote = form
  | .inside stack, taken => Opened stack taken
  | .failed fault, _ => fault.IsSyntactic
  | .refused fault, _ => fault.IsSyntactic

theorem deliver_accounts {stack : List Context} {taken : List Token} (h : Opened stack taken) :
    ∀ t : Tree, (deliver stack t.denote).Accounts (taken ++ t.yield) := by
  induction h with
  | outside => exact fun t => ⟨t, rfl, rfl⟩
  | @items stack taken b ts h _ =>
    intro t
    have := Opened.items b (ts ++ [t]) h
    simp only [denoteAll_append, yieldAll_append, denoteAll, yieldAll, List.reverse_append, List.append_nil] at this
    simpa [deliver, Progress.Accounts] using this
  | @operand stack taken m h ih =>
    -- a mark is complete with its operand, and the marked form is delivered further down
    intro t
    have := ih (.marked m t)
    rwa [Tree.yield, Tree.denote, List.append_cons] at this
  | @metadata stack taken h _ =>
    intro t
    have := Opened.target t h
    rwa [List.append_cons] at this
  | @target stack taken info h ih =>
    intro t
    have := ih (.caret info t)
    rwa [Tree.yield, Tree.denote, ← List.cons_append, ← List.append_assoc] at this

/-- A bracketed row is a derivation of the compound that it closes to. -/
theorem exists_compound (b : Bracket) (ts : List Tree) :
    (∃ t : Tree, t.yield = .opening b :: (yieldAll ts ++ [.closing b]) ∧ compound b (denoteAll ts) = .ok t.denote) ∨
    compound b (denoteAll ts) = .error .oddMap := by
  cases b with
  | round => exact .inl ⟨.list ts, rfl, rfl⟩
  | square => exact .inl ⟨.vector ts, rfl, rfl⟩
  | curly =>
    by_cases hlen : ts.length % 2 = 0
    · obtain ⟨entries, rfl⟩ := exists_flatten ts hlen
      exact .inl ⟨.map entries, by rw [yieldAll_flatten]; rfl, compound_curly entries⟩
    · refine .inr (if_neg ?_)
      rwa [denoteAll_eq_map, List.length_map]

theorem accept_accounts {stack : List Context} {taken : List Token} (h : Opened stack taken) {token : Token}
    (hs : token.Sound) : (accept stack token).Accounts (taken ++ [token]) := by
  cases token with
  | mark m => exact .operand m h
  | caret => exact .metadata h
  | opening b => exact .items b [] h
  | word chars =>
    show (accept.atom stack chars).Accounts _
    rw [accept_atom hs]
    exact deliver_accounts h (.word chars)
  | text chars =>
    obtain ⟨cs, rfl⟩ := hs
    show (accept.atom stack ('"' :: cs)).Accounts _
    cases hb : textBody? cs with
    | none => rw [accept.atom, atomValue_text, hb]; trivial
    | some body =>
      obtain ⟨whole, rfl⟩ := textBody?_eq_some.1 hb
      rw [accept_atom (atomValue_whole whole)]
      exact deliver_accounts h (.text body whole)
  | closing b =>
    -- only the bracket that was opened last can be closed, and a map only with its last value
    cases h with
    | @items stack taken b' ts h =>
      by_cases hb : b = b'
      · subst hb
        rcases exists_compound b ts with ⟨t, ht, hc⟩ | hc
        · rw [accept_closing _ (by rw [List.reverse_reverse, hc])]
          simpa [ht] using deliver_accounts h t
        · simp only [accept, if_true, List.reverse_reverse, hc]
          trivial
      · simp only [accept, if_neg hb]
        trivial
    | _ => trivial

/-- A form that is read has a derivation of exactly the tokens taken for it. -/
theorem readFrom_sound : ∀ (ahead : List Token) {stack : List Context} {taken rest : List Token} {form : Value},
    Opened stack taken → (∀ token ∈ ahead, token.Sound) → readFrom stack ahead = (.ok (some form), rest) →
    ∃ t : Tree, t.yield ++ rest = taken ++ ahead ∧ t.denote = form
  | [], [], taken, rest, form, _, _, h => by cases h
  | [], context :: stack, taken, rest, form, _, _, h => by cases h
  | token :: ahead, stack, taken, rest, form, ho, hs, h => by
    have ha := accept_accounts ho (hs token (List.mem_cons_self ..))
    rw [readFrom] at h
    split at h
    · rename_i form' hp
      rw [hp] at ha
      obtain ⟨t, ht, hd⟩ := ha
      cases h
      exact ⟨t, by rw [ht, List.append_assoc]; rfl, hd⟩
    · rename_i stack' hp
      rw [hp] at ha
      obtain ⟨t, ht, hd⟩ := readFrom_sound ahead ha (fun token ht => hs token (List.mem_cons_of_mem _ ht)) h
      exact ⟨t, by rw [ht, List.append_assoc]; rfl, hd⟩
    · cases h
    · cases h

/-- The account of a whole reading: the forms have derivations of the tokens that were taken, all of
them where no fault arose. -/
def Reading.Accounts (reading : Reading) (tokens : List Token) : Prop :=
  ∃ trees, reading.forms = denoteAll trees ∧
    match reading.fault? with
    | none => yieldAll trees = tokens
    | some fault => fault.IsSyntactic ∧ yieldAll trees <+: tokens

theorem readAllFrom_accounts : ∀ (ahead : List Token) {stack : List Context} {taken : List Token} (done : List Tree),
    Opened stack taken → (∀ token ∈ ahead, token.Sound) →
    (readAllFrom stack (denoteAll done).reverse ahead).Accounts (yieldAll done ++ (taken ++ ahead))
  | [], [], taken, done, ho, _ => by
    cases ho
    exact ⟨done, List.reverse_reverse _, by simp [readAllFrom]⟩
  | [], context :: stack, taken, done, _, _ =>
    ⟨done, List.reverse_reverse _, endFault_isSyntactic context, List.prefix_append _ _⟩
  | token :: ahead, stack, taken, done, ho, hs => by
    have ha := accept_accounts ho (hs token (List.mem_cons_self ..))
    have hs' : ∀ token ∈ ahead, token.Sound := fun token ht => hs token (List.mem_cons_of_mem _ ht)
    rw [readAllFrom]
    split
    · rename_i form hp
      rw [hp] at ha
      obtain ⟨t, ht, rfl⟩ := ha
      have := readAllFrom_accounts ahead (done ++ [t]) .outside hs'
      simpa [yieldAll_append, denoteAll_eq_map, yieldAll, ht] using this
    · rename_i stack' hp
      rw [hp] at ha
      have := readAllFrom_accounts ahead done ha hs'
      simpa using this
    · rename_i fault hp
      rw [hp] at ha
      exact ⟨done, List.reverse_reverse _, ha, List.prefix_append _ _⟩
    · rename_i fault hp
      rw [hp] at ha
      exact ⟨done, List.reverse_reverse _, ha, List.prefix_append _ _⟩

/-! ## All forms of a text -/

theorem readAllFrom_prefix : ∀ (ahead : List Token) (stack : List Context) (forms : List Value),
    forms.reverse <+: (readAllFrom stack forms ahead).forms
  | [], [], forms => List.prefix_rfl
  | [], context :: stack, forms => List.prefix_rfl
  | token :: ahead, stack, forms => by
    rw [readAllFrom]
    split
    · rename_i form _
      have := readAllFrom_prefix ahead [] (form :: forms)
      rw [List.reverse_cons] at this
      exact (List.prefix_append _ _).trans this
    · exact readAllFrom_prefix ahead _ forms
    · exact List.prefix_rfl
    · exact List.prefix_rfl

section Text

variable {ts : List Token} (hs : ∀ token ∈ ts, token.Sound)
include hs

/-- Tokens that have a derivation are read to the end, as the forms that it denotes. -/
theorem allForms_yieldAll {trees : List Tree} (h : yieldAll trees = ts) :
    allForms ts = ⟨denoteAll trees, none, []⟩ := by
  have := readAllFrom_yieldAll trees [] [] (by rwa [h])
  rw [List.append_nil, List.append_nil, h] at this
  rw [allForms, this]
  simp [readAllFrom]

/-- Reading yields the forms of every row of derivations that the tokens begin with. -/
theorem denoteAll_prefix_allForms {trees : List Tree} (h : yieldAll trees <+: ts) :
    denoteAll trees <+: (allForms ts).forms := by
  obtain ⟨rest, rfl⟩ := h
  have := readAllFrom_prefix rest [] ((denoteAll trees).reverse ++ [])
  rw [← readAllFrom_yieldAll trees _ _ fun token ht => hs token (List.mem_append_left _ ht)] at this
  simpa [allForms] using this

end Text

/-- Whether some derivations are the longest row of them that tokens begin with. -/
def IsLongestRow (trees : List Tree) (ts : List Token) : Prop :=
  yieldAll trees <+: ts ∧ ∀ others, yieldAll others <+: ts → yieldAll others <+: yieldAll trees

/-- Forms that were read up to a fault are those of the longest row of derivations. -/
theorem isLongestRow_of_allForms {ts : List Token} (hs : ∀ token ∈ ts, token.Sound) {trees : List Tree}
    (h : yieldAll trees <+: ts) (hf : (allForms ts).forms = denoteAll trees) : IsLongestRow trees ts := by
  refine ⟨h, fun others ho => ?_⟩
  -- another row cannot be longer: its forms would all have been read
  have hlen := (denoteAll_prefix_allForms hs ho).length_le
  rw [hf, denoteAll_eq_map, denoteAll_eq_map, List.length_map, List.length_map] at hlen
  obtain ⟨r, hr⟩ := h
  obtain ⟨r', hr'⟩ := ho
  obtain ⟨more, rfl⟩ := prefix_of_yieldAll_append (hr.trans hr'.symm) hlen
  rw [yieldAll_append]
  exact List.prefix_append _ _

/-- Reading against the grammar, for a text whose integers are short enough. It ends without a fault
exactly if the tokens have a derivation, which is then the only one and denotes the forms that are
read; otherwise it reads the longest row of derivations and ends with a fault of the syntax. From
wherever in the tokens a form is read, the tokens taken are those of a derivation of that form. -/
theorem readAll_grammar (text : String) (hshort : ∀ token ∈ tokens text.toList, token.Short) :
    ((readAll text).fault? = none ↔ ∃ trees, yieldAll trees = tokens text.toList) ∧
    (∀ trees, yieldAll trees = tokens text.toList →
      readAll text = ⟨trees.map Tree.denote, none, []⟩ ∧
      ∀ others, yieldAll others = tokens text.toList → others = trees) ∧
    ((¬∃ trees, yieldAll trees = tokens text.toList) →
      ∃ trees fault, IsLongestRow trees (tokens text.toList) ∧
        (readAll text).forms = trees.map Tree.denote ∧
        (readAll text).fault? = some fault ∧ fault.IsSyntactic) ∧
    ∀ ahead form rest, ahead <:+ tokens text.toList →
      (nextForm ahead = (.ok (some form), rest) ↔ ∃ t : Tree, t.yield ++ rest = ahead ∧ t.denote = form) := by
  have hs : ∀ token ∈ tokens text.toList, token.Sound := fun token ht => sound_of_mem_tokens ht (hshort token ht)
  obtain ⟨trees, hforms, hend⟩ := readAllFrom_accounts (tokens text.toList) [] .outside hs
  rw [show readAllFrom [] (denoteAll []).reverse (tokens text.toList) = readAll text from rfl] at hforms hend
  simp only [yieldAll, List.nil_append] at hend
  refine ⟨⟨fun h => ?_, ?_⟩, fun trees' h => ⟨?_, fun others ho => ?_⟩, fun hno => ?_, ?_⟩
  · rw [h] at hend
    exact ⟨trees, hend⟩
  · rintro ⟨trees', h⟩
    rw [readAll, allForms_yieldAll hs h]
  · rw [readAll, allForms_yieldAll hs h, denoteAll_eq_map]
  · exact yieldAll_injective (ho.trans h.symm)
  · cases hf : (readAll text).fault? with
    | none =>
      rw [hf] at hend
      exact absurd ⟨trees, hend⟩ hno
    | some fault =>
      rw [hf] at hend
      exact ⟨trees, fault, isLongestRow_of_allForms hs hend.2 hforms, by rw [hforms, denoteAll_eq_map], rfl, hend.1⟩
  · intro ahead form rest ha
    have hs' : ∀ token ∈ ahead, token.Sound := fun token ht => hs token (ha.subset ht)
    constructor
    · exact readFrom_sound ahead .outside hs'
    · rintro ⟨t, rfl, rfl⟩
      exact nextForm_yield t rest fun token ht => hs' token (List.mem_append_left _ ht)

/-- A text that breaks off inside its second form. -/
def unfinished : String := "^m [1 \"x\\\"\"] (~@b"

theorem readAll_grammar_unfinished : (∀ token ∈ tokens unfinished.toList, token.Short) ∧
    (¬∃ trees, yieldAll trees = tokens unfinished.toList) ∧
    ∃ trees fault, IsLongestRow trees (tokens unfinished.toList) ∧
      (readAll unfinished).forms = trees.map Tree.denote ∧
      (readAll unfinished).fault? = some fault ∧ fault.IsSyntactic := by
  have hshort : ∀ token ∈ tokens unfinished.toList, token.Short := by decide
  have h := readAll_grammar unfinished hshort
  have hfault : (readAll unfinished).fault?.isSome = true := by rfl
  have hno : ¬∃ trees, yieldAll trees = tokens unfinished.toList := by
    intro htrees
    rw [h.1.2 htrees] at hfault
    cases hfault
  exact ⟨hshort, hno, h.2.2.1 hno⟩

end Source

end SmallLisp
