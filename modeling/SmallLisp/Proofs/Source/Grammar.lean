/-
The grammar of forms over tokens: a form is a word, a whole string, a mark and a form, a caret and
two forms, or a bracketed row of forms, of which a map holds an even number. A derivation is a tree
with the tokens that it stands for (`yield`) and the form that it denotes. Main statement: tokens
that begin with the derivation of a form determine it, so a row of tokens has one derivation at
most (`yieldAll_injective`).
-/
import SmallLisp.Source.Form

namespace SmallLisp.Source

/-! ## Trees -/

/-- What may stand between the quotes of a string: no bare quote, and a backslash takes any
character but a newline with it. -/
inductive TextBody : List Char → Prop where
  | nil : TextBody []
  | plain {c : Char} {cs : List Char} : c ≠ '"' → c ≠ '\\' → TextBody cs → TextBody (c :: cs)
  | escaped {c : Char} {cs : List Char} : c ≠ '\n' → TextBody cs → TextBody ('\\' :: c :: cs)

/-- A derivation of a form. -/
inductive Tree where
  | word (chars : List Char)
  | text (body : List Char) (whole : TextBody body)
  | marked (m : Mark) (operand : Tree)
  | caret (info target : Tree)
  | list (items : List Tree)
  | vector (items : List Tree)
  | map (entries : List (Tree × Tree))

/-- What a word denotes. A numeral beyond the digit limit denotes nothing; nil stands in for it. -/
def wordValue (chars : List Char) : Value :=
  match atomValue chars with
  | .ok v => v
  | .error _ => .nil

mutual

/-- The tokens that a derivation stands for. -/
def Tree.yield : Tree → List Token
  | .word chars => [.word chars]
  | .text body _ => [.text ('"' :: (body ++ ['"']))]
  | .marked m operand => .mark m :: operand.yield
  | .caret info target => .caret :: (info.yield ++ target.yield)
  | .list items => .opening .round :: (yieldAll items ++ [.closing .round])
  | .vector items => .opening .square :: (yieldAll items ++ [.closing .square])
  | .map entries => .opening .curly :: (yieldEntries entries ++ [.closing .curly])
termination_by structural t => t

/-- The tokens of a row of derivations. -/
def yieldAll : List Tree → List Token
  | [] => []
  | t :: ts => t.yield ++ yieldAll ts
termination_by structural ts => ts

def yieldEntries : List (Tree × Tree) → List Token
  | [] => []
  | (k, v) :: entries => k.yield ++ (v.yield ++ yieldEntries entries)
termination_by structural entries => entries

end

mutual

/-- The form that a derivation denotes. A caret's metadata is written before its target. -/
def Tree.denote : Tree → Value
  | .word chars => wordValue chars
  | .text body _ => .str (String.ofList (Text.unescape body))
  | .marked m operand => .ofList [.symbol m.head, operand.denote]
  | .caret info target => .ofList [.symbol "with-meta", target.denote, info.denote]
  | .list items => .ofList (denoteAll items)
  | .vector items => .ofVector (denoteAll items)
  | .map entries => .ofEntries (Entries.ofList (denoteEntries entries))
termination_by structural t => t

/-- The forms that a row of derivations denotes. -/
def denoteAll : List Tree → List Value
  | [] => []
  | t :: ts => t.denote :: denoteAll ts
termination_by structural ts => ts

def denoteEntries : List (Tree × Tree) → Entries
  | [] => []
  | (k, v) :: entries => (k.denote, v.denote) :: denoteEntries entries
termination_by structural entries => entries

end

/-! ## Rows -/

theorem yieldAll_append (ts us : List Tree) : yieldAll (ts ++ us) = yieldAll ts ++ yieldAll us := by
  induction ts with
  | nil => rfl
  | cons t ts ih => simp only [List.cons_append, yieldAll, ih, List.append_assoc]

theorem denoteAll_eq_map (ts : List Tree) : denoteAll ts = ts.map Tree.denote := by
  induction ts with
  | nil => rfl
  | cons t ts ih => simp only [denoteAll, ih, List.map_cons]

theorem denoteAll_append (ts us : List Tree) : denoteAll (ts ++ us) = denoteAll ts ++ denoteAll us := by
  simp only [denoteAll_eq_map, List.map_append]

/-- A map's forms in one row. -/
def flatten : List (Tree × Tree) → List Tree
  | [] => []
  | (k, v) :: entries => k :: v :: flatten entries

theorem yieldAll_flatten (entries : List (Tree × Tree)) : yieldAll (flatten entries) = yieldEntries entries := by
  induction entries with
  | nil => rfl
  | cons entry entries ih => simp only [flatten, yieldAll, yieldEntries, ih]

theorem pairs_denoteAll_flatten (entries : List (Tree × Tree)) :
    Entries.pairs (denoteAll (flatten entries)) = denoteEntries entries := by
  induction entries with
  | nil => rfl
  | cons entry entries ih => simp only [flatten, denoteAll, denoteEntries, Entries.pairs, ih]

theorem length_flatten_mod (entries : List (Tree × Tree)) : (flatten entries).length % 2 = 0 := by
  induction entries with
  | nil => rfl
  | cons entry entries ih => simp only [flatten, List.length_cons]; omega

/-- Every row of even length is that of some entries. -/
theorem exists_flatten : ∀ (ts : List Tree), ts.length % 2 = 0 → ∃ entries, flatten entries = ts
  | [], _ => ⟨[], rfl⟩
  | [_], h => by simp at h
  | k :: v :: ts, h => by
    obtain ⟨entries, rfl⟩ := exists_flatten ts (by simp only [List.length_cons] at h; omega)
    exact ⟨(k, v) :: entries, rfl⟩

/-! ## Derivations are unique -/

/-- No derivation begins with a closing bracket. -/
theorem Tree.yield_head (t : Tree) : ∃ token tokens, t.yield = token :: tokens ∧ ∀ b, token ≠ .closing b := by
  cases t <;> exact ⟨_, _, rfl, by simp⟩

theorem Tree.yield_ne_closing (t : Tree) {b : Bracket} {r r' : List Token} :
    t.yield ++ r ≠ .closing b :: r' := by
  obtain ⟨token, tokens, h, hc⟩ := t.yield_head
  rw [h]
  intro he
  exact hc b (List.cons.inj he).1

mutual

/-- Tokens that begin with a derivation determine it. -/
theorem Tree.yield_append_inj : ∀ (t : Tree) {u : Tree} {r r' : List Token},
    t.yield ++ r = u.yield ++ r' → t = u ∧ r = r'
  -- the first token alone settles of which kind the other derivation is
  | .word chars, u, r, r', h => by
    cases u with
    | word chars' => simpa [Tree.yield] using h
    | _ => simp [Tree.yield] at h
  | .text body whole, u, r, r', h => by
    cases u with
    | text body' whole' => simpa [Tree.yield] using h
    | _ => simp [Tree.yield] at h
  | .marked m t, u, r, r', h => by
    cases u with
    | marked m' u =>
      simp only [Tree.yield, List.cons_append, List.cons.injEq, Token.mark.injEq] at h
      obtain ⟨rfl, h⟩ := h
      obtain ⟨rfl, rfl⟩ := Tree.yield_append_inj t h
      exact ⟨rfl, rfl⟩
    | _ => simp [Tree.yield] at h
  | .caret info target, u, r, r', h => by
    cases u with
    | caret info' target' =>
      simp only [Tree.yield, List.cons_append, List.append_assoc, List.cons.injEq, true_and] at h
      obtain ⟨rfl, h'⟩ := Tree.yield_append_inj info h
      obtain ⟨rfl, rfl⟩ := Tree.yield_append_inj target h'
      exact ⟨rfl, rfl⟩
    | _ => simp [Tree.yield] at h
  | .list items, u, r, r', h => by
    cases u with
    | list items' =>
      simp only [Tree.yield, List.cons_append, List.append_assoc, List.nil_append, List.cons.injEq, true_and] at h
      obtain ⟨rfl, rfl⟩ := yieldAll_closing_inj items h
      exact ⟨rfl, rfl⟩
    | _ => simp [Tree.yield] at h
  | .vector items, u, r, r', h => by
    cases u with
    | vector items' =>
      simp only [Tree.yield, List.cons_append, List.append_assoc, List.nil_append, List.cons.injEq, true_and] at h
      obtain ⟨rfl, rfl⟩ := yieldAll_closing_inj items h
      exact ⟨rfl, rfl⟩
    | _ => simp [Tree.yield] at h
  | .map entries, u, r, r', h => by
    cases u with
    | map entries' =>
      simp only [Tree.yield, List.cons_append, List.append_assoc, List.nil_append, List.cons.injEq, true_and] at h
      obtain ⟨rfl, rfl⟩ := yieldEntries_closing_inj entries h
      exact ⟨rfl, rfl⟩
    | _ => simp [Tree.yield] at h
termination_by structural t => t

theorem yieldAll_closing_inj : ∀ (ts : List Tree) {us : List Tree} {b : Bracket} {r r' : List Token},
    yieldAll ts ++ .closing b :: r = yieldAll us ++ .closing b :: r' → ts = us ∧ r = r'
  | [], [], b, r, r', h => ⟨rfl, (List.cons.inj h).2⟩
  | [], u :: us, b, r, r', h => by
    simp only [yieldAll, List.append_assoc] at h
    exact absurd h.symm u.yield_ne_closing
  | t :: ts, [], b, r, r', h => by
    simp only [yieldAll, List.append_assoc] at h
    exact absurd h t.yield_ne_closing
  | t :: ts, u :: us, b, r, r', h => by
    simp only [yieldAll, List.append_assoc] at h
    obtain ⟨rfl, h'⟩ := Tree.yield_append_inj t h
    obtain ⟨rfl, rfl⟩ := yieldAll_closing_inj ts h'
    exact ⟨rfl, rfl⟩
termination_by structural ts => ts

theorem yieldEntries_closing_inj : ∀ (es : List (Tree × Tree)) {es' : List (Tree × Tree)} {b : Bracket}
    {r r' : List Token}, yieldEntries es ++ .closing b :: r = yieldEntries es' ++ .closing b :: r' →
    es = es' ∧ r = r'
  | [], [], b, r, r', h => ⟨rfl, (List.cons.inj h).2⟩
  | [], (k, v) :: es', b, r, r', h => by
    simp only [yieldEntries, List.append_assoc] at h
    exact absurd h.symm k.yield_ne_closing
  | (k, v) :: es, [], b, r, r', h => by
    simp only [yieldEntries, List.append_assoc] at h
    exact absurd h k.yield_ne_closing
  | (k, v) :: es, (k', v') :: es', b, r, r', h => by
    simp only [yieldEntries, List.append_assoc] at h
    obtain ⟨rfl, hk⟩ := Tree.yield_append_inj k h
    obtain ⟨rfl, hv⟩ := Tree.yield_append_inj v hk
    obtain ⟨rfl, rfl⟩ := yieldEntries_closing_inj es hv
    exact ⟨rfl, rfl⟩
termination_by structural es => es

end

/-- Of two rows of derivations that the same tokens begin with, the longer continues the shorter. -/
theorem prefix_of_yieldAll_append {r r' : List Token} : ∀ {ts us : List Tree},
    yieldAll ts ++ r = yieldAll us ++ r' → us.length ≤ ts.length → us <+: ts
  | ts, [], _, _ => List.nil_prefix
  | [], u :: us, _, hlen => by simp at hlen
  | t :: ts, u :: us, h, hlen => by
    simp only [yieldAll, List.append_assoc] at h
    obtain ⟨rfl, h'⟩ := Tree.yield_append_inj t h
    exact (List.prefix_cons_inj t).2 (prefix_of_yieldAll_append h' (by simpa using hlen))

theorem yieldAll_eq_nil {ts : List Tree} (h : yieldAll ts = []) : ts = [] := by
  cases ts with
  | nil => rfl
  | cons t ts =>
    obtain ⟨token, tokens, ht, -⟩ := t.yield_head
    rw [yieldAll, ht] at h; cases h

/-- A row of tokens has one derivation at most. -/
theorem yieldAll_injective : ∀ {ts us : List Tree}, yieldAll ts = yieldAll us → ts = us
  | [], us, h => (yieldAll_eq_nil h.symm).symm
  | t :: ts, [], h => yieldAll_eq_nil h
  | t :: ts, u :: us, h => by
    simp only [yieldAll] at h
    obtain ⟨rfl, h'⟩ := Tree.yield_append_inj t h
    rw [yieldAll_injective h']

end SmallLisp.Source
