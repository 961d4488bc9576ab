/-
Map literals. The reader makes a map of the forms between the brackets, so that of two key forms that
are equal the first one stays in its place and takes the value form of the second. What it keeps is then
evaluated as the arguments of `hash-map` are. Main statement: a literal means the call of `hash-map` on
what the reader keeps, which is everything if no two key forms are equal (`mapLiteral_means_call`).
-/
import SmallLisp.Proofs.Evaluation.Rules
import SmallLisp.Proofs.Run.Soundness
import SmallLisp.Proofs.Source.Enclosed
import SmallLisp.Proofs.Value.RoundTrip
import SmallLisp.Session

namespace SmallLisp

open Source (Token Tree tokens yieldEntries denoteAll denoteEntries flatten)
open Value (Admissible inTurn length_inTurn)

/-! ## Keys and values in a row -/

theorem pairs_inTurn (entries : Entries) : Entries.pairs (inTurn entries) = entries := by
  induction entries with
  | nil => rfl
  | cons entry entries ih =>
    show Entries.pairs (entry.1 :: entry.2 :: inTurn entries) = _
    rw [Entries.pairs, ih]

theorem exists_inTurn : ∀ values : List Value, values.length % 2 = 0 → ∃ entries, inTurn entries = values
  | [], _ => ⟨[], rfl⟩
  | [_], h => by cases h
  | key :: value :: values, h => by
    obtain ⟨entries, rfl⟩ := exists_inTurn values (by simp only [List.length_cons] at h; omega)
    exact ⟨(key, value) :: entries, rfl⟩

theorem denoteAll_flatten (entries : List (Tree × Tree)) :
    denoteAll (flatten entries) = inTurn (denoteEntries entries) := by
  induction entries with
  | nil => rfl
  | cons entry entries ih =>
    show _ = entry.1.denote :: entry.2.denote :: inTurn (denoteEntries entries)
    rw [flatten, denoteAll, denoteAll, ih]

/-! ## The checks of keys -/

theorem requireKey_of_admissible {key : Value} (h : key.Admissible) (name : String) :
    Run.requireKey name key = pure () := by
  rw [Run.requireKey, h.no_function, h.no_cell]
  rfl

theorem admissible_of_requireKey {name : String} {key : Value} {u : Unit} {s s' : State}
    (h : Run.requireKey name key s = .value u s') : key.Admissible :=
  ((Run.Ensures.requireKey name (.nothing _) fun _ => trivial).value trivial h).2

theorem forM_requireKey {name : String} {entries : Entries} (h : ∀ entry ∈ entries, entry.1.Admissible) :
    (entries.forM fun entry => Run.requireKey name entry.1) = pure () := by
  induction entries with
  | nil => rfl
  | cons entry entries ih =>
    obtain ⟨hentry, hentries⟩ := List.forall_mem_cons.1 h
    show (Run.requireKey name entry.1 >>= fun _ => entries.forM fun entry => Run.requireKey name entry.1) = _
    rw [requireKey_of_admissible hentry, pure_bind, ih hentries]

section Values

variable {s s' : State}

/-- The call of `hash-map` on a row of keys and values. -/
theorem hashMap_value {entries : Entries} {v : Value} {caller : FrameId} :
    Maps.hashMap caller (inTurn entries) s = .value v s' ↔
    (∀ entry ∈ entries, entry.1.Admissible) ∧ v = .ofEntries (Entries.ofList entries) ∧ s' = s := by
  have heven : ¬(inTurn entries).length % 2 = 1 := by rw [length_inTurn]; omega
  have hrun : Maps.hashMap caller (inTurn entries) = (do
      entries.forM fun entry => Run.requireKey "hash-map" entry.1
      return .ofEntries (Entries.ofList entries)) := by
    simp only [Maps.hashMap, Maps.newEntries, if_neg heven, pairs_inTurn, bind_assoc, pure_bind]
  constructor
  · intro h
    rw [hrun] at h
    obtain ⟨u, t, hchecks, hpure⟩ := Run.bind_eq_value.1 h
    have hadmissible : ∀ entry ∈ entries, entry.1.Admissible :=
      ((Run.Ensures.forM (I := fun _ => True) (F := fun _ => True) fun entry _ =>
        .requireKey "hash-map" (.nothing _) fun _ => trivial).value trivial hchecks).2
    rw [forM_requireKey hadmissible] at hchecks
    cases hchecks
    cases hpure
    exact ⟨hadmissible, rfl, rfl⟩
  · rintro ⟨hadmissible, rfl, rfl⟩
    rw [hrun, forM_requireKey hadmissible]
    rfl

variable {eval : Evaluator} {frame : FrameId}

/-- The entries of a map of forms have values as the same forms in a row have, and admissible keys. -/
theorem evalEntries_value {forms entries : Entries} : evalEntries eval frame forms s = .value entries s' ↔
    evalEach eval frame (inTurn forms) s = .value (inTurn entries) s' ∧ ∀ entry ∈ entries, entry.1.Admissible := by
  induction forms generalizing s entries with
  | nil =>
    constructor
    · intro h
      cases h
      exact ⟨rfl, fun _ he => absurd he List.not_mem_nil⟩
    · rintro ⟨h, -⟩
      cases entries with
      | nil => cases h; rfl
      | cons => cases h
  | cons form forms ih =>
    show (evalEntries eval frame ((form.1, form.2) :: forms) s = _) ↔
      evalEach eval frame (form.1 :: form.2 :: inTurn forms) s = _ ∧ _
    simp only [evalEntries, evalEach_cons_value, Run.bind_eq_value]
    constructor
    · rintro ⟨key, t, hkey, _, t', hcheck, value, u, hvalue, rest, u', hrest, hpure⟩
      have hadmits := admissible_of_requireKey hcheck
      rw [requireKey_of_admissible hadmits] at hcheck
      cases hcheck
      cases hpure
      obtain ⟨hrest, hadmissible⟩ := ih.1 hrest
      exact ⟨⟨key, _, t, hkey, ⟨value, _, u, hvalue, hrest, rfl⟩, rfl⟩, List.forall_mem_cons.2 ⟨hadmits, hadmissible⟩⟩
    · rintro ⟨⟨key, _, t, hkey, ⟨value, values, u, hvalue, hvalues, rfl⟩, hrow⟩, hadmissible⟩
      cases entries with
      | nil => cases hrow
      | cons entry entries =>
        obtain ⟨hadmits, hadmissible⟩ := List.forall_mem_cons.1 hadmissible
        obtain ⟨rfl, rfl, rfl⟩ : key = entry.1 ∧ value = entry.2 ∧ values = inTurn entries := by
          simpa [inTurn] using hrow
        refine ⟨_, t, hkey, (), t, ?_, _, u, hvalue, entries, s', ih.2 ⟨hvalues, hadmissible⟩, rfl⟩
        rw [requireKey_of_admissible hadmits]
        rfl

end Values

/-! ## Literals and calls -/

/-- The call of `hash-map` on forms. -/
def hashMapCall (forms : Entries) : Value := .ofList (.symbol "hash-map" :: inTurn forms)

section Forms

variable {s s' : State} {frame : FrameId} {v : Value} (forms : Entries) (steps : Nat)

theorem evaluate_mapForm_value : evaluate (steps + 1) (.ofEntries forms) frame s = .value v s' ↔
    ∃ entries, evalEach (evaluate steps) frame (inTurn forms) s = .value (inTurn entries) s' ∧
      (∀ entry ∈ entries, entry.1.Admissible) ∧ v = .ofEntries (Entries.ofList entries) := by
  have hrun : evaluate (steps + 1) (.ofEntries forms) frame = (do
      let entries ← evalEntries (evaluate steps) frame forms
      return .ofEntries (Entries.ofList entries) : Run Value) := evaluate_eq_formValue steps _ frame
  rw [hrun]
  refine Run.bind_eq_value.trans ?_
  constructor
  · rintro ⟨entries, t, hentries, hpure⟩
    obtain ⟨hvalues, hadmissible⟩ := evalEntries_value.1 hentries
    cases hpure
    exact ⟨entries, hvalues, hadmissible, rfl⟩
  · rintro ⟨entries, hvalues, hadmissible, rfl⟩
    exact ⟨entries, s', evalEntries_value.2 ⟨hvalues, hadmissible⟩, rfl⟩

theorem evaluate_hashMapCall_value {info : Value}
    (h : s.get? frame "hash-map" = some (.primitive .hashMap false info)) :
    evaluate (steps + 2) (hashMapCall forms) frame s = .value v s' ↔
      ∃ entries, evalEach (evaluate (steps + 1)) frame (inTurn forms) s = .value (inTurn entries) s' ∧
        (∀ entry ∈ entries, entry.1.Admissible) ∧ v = .ofEntries (Entries.ofList entries) := by
  have hcall : ∀ values, callFunction (evaluate (steps + 1)) (steps + 2) (.primitive .hashMap false info) values frame =
      Maps.hashMap frame values := fun _ => rfl
  rw [hashMapCall, Value.ofList, evaluate_call (by decide) h rfl]
  simp only [hcall]
  refine Run.bind_eq_value.trans ?_
  constructor
  · rintro ⟨values, t, hvalues, hmap⟩
    have heven : values.length % 2 = 0 := by
      rw [length_of_evalEach hvalues, length_inTurn, Nat.mul_mod_right]
    obtain ⟨entries, rfl⟩ := exists_inTurn values heven
    obtain ⟨hadmissible, rfl, rfl⟩ := hashMap_value.1 hmap
    exact ⟨entries, hvalues, hadmissible, rfl⟩
  · rintro ⟨entries, hvalues, hadmissible, rfl⟩
    exact ⟨_, s', hvalues, hashMap_value.2 ⟨hadmissible, rfl, rfl⟩⟩

/-- A map of forms comes to a value exactly if the call on its forms does, and to the same value. -/
theorem mapForm_value_iff {info : Value} (h : s.get? frame "hash-map" = some (.primitive .hashMap false info)) :
    (∃ n, evaluate n (.ofEntries forms) frame s = .value v s') ↔
      ∃ n, evaluate n (hashMapCall forms) frame s = .value v s' := by
  have hmore : ∀ {form : Value} {n : Nat}, evaluate n form frame s = .value v s' →
      evaluate (n + 2) form frame s = .value v s' := fun {form n} =>
    (evaluate_below (Nat.le_add_right n 2) form frame).value
  constructor
  · rintro ⟨n, hn⟩
    exact ⟨n + 2, (evaluate_hashMapCall_value forms n h).2 ((evaluate_mapForm_value forms (n + 1)).1 (hmore hn))⟩
  · rintro ⟨n, hn⟩
    exact ⟨n + 2, (evaluate_mapForm_value forms (n + 1)).2 ((evaluate_hashMapCall_value forms n h).1 (hmore hn))⟩

end Forms

/-! ## Texts -/

/-- A text with the tokens of a derivation is read as the form that it denotes, if they have values. -/
theorem read_yield {text : String} {t : Tree} (h : tokens text.toList = t.yield)
    (hsound : ∀ token ∈ t.yield, token.Sound) : Source.read text = .ok (some t.denote) := by
  rw [Source.read, h, ← List.append_nil t.yield, Source.nextForm_yield t [] hsound]

theorem sound_of_short {text : String} {t : Tree} (h : tokens text.toList = t.yield)
    (hshort : ∀ token ∈ t.yield, token.Short) : ∀ token ∈ t.yield, token.Sound := fun token ht =>
  Source.sound_of_mem_tokens (h ▸ ht) (hshort token ht)

/-- Such a text has the values of that form, as far as it can be read. -/
theorem evaluateText_value {text : String} {t : Tree} (h : tokens text.toList = t.yield) {frame : FrameId}
    {s s' : State} {v : Value} : (∃ n, evaluateText n text frame s = .value v s') ↔
      (∀ token ∈ t.yield, token.Sound) ∧ ∃ n, evaluate n t.denote frame s = .value v s' := by
  have hscanned : ∀ token ∈ t.yield, token.Scanned := by
    rw [← h]
    exact fun token ht => Source.scanned_of_mem_tokens ht
  constructor
  · rintro ⟨n, hn⟩
    rcases Source.nextForm_of_scanned hscanned with ⟨hsound, -⟩ | ⟨fault, hfault⟩
    · rw [evaluateText_of_read (read_yield h hsound)] at hn
      exact ⟨hsound, n, hn⟩
    · rw [evaluateText_of_error (by rw [Source.read, h, hfault])] at hn
      cases hn
  · rintro ⟨hsound, hvalue⟩
    simpa only [evaluateText_of_read (read_yield h hsound)] using hvalue

theorem sound_map_iff {entries : List (Tree × Tree)} : (∀ token ∈ (Source.Tree.map entries).yield, token.Sound) ↔
    ∀ token ∈ yieldEntries entries, token.Sound := by
  have hbracket : ∀ token ∈ [Token.closing .curly], token.Sound := List.forall_mem_singleton.2 trivial
  rw [Source.Tree.yield, List.forall_mem_cons, List.forall_mem_append]
  exact ⟨fun h => h.2.1, fun h => ⟨trivial, h, hbracket⟩⟩

theorem sound_call_iff {entries : List (Tree × Tree)} :
    (∀ token ∈ (Source.Tree.list (.word "hash-map".toList :: flatten entries)).yield, token.Sound) ↔
      ∀ token ∈ yieldEntries entries, token.Sound := by
  have hname : ∀ token ∈ [Token.word "hash-map".toList], token.Sound := List.forall_mem_singleton.2 rfl
  have hbracket : ∀ token ∈ [Token.closing .round], token.Sound := List.forall_mem_singleton.2 trivial
  rw [Source.Tree.yield, Source.yieldAll, Source.Tree.yield, Source.yieldAll_flatten, List.forall_mem_cons,
    List.forall_mem_append,
    List.forall_mem_append]
  exact ⟨fun h => h.2.1.2, fun h => ⟨trivial, ⟨hname, h⟩, hbracket⟩⟩

theorem denote_call (entries : List (Tree × Tree)) :
    (Source.Tree.list (.word "hash-map".toList :: flatten entries)).denote = hashMapCall (denoteEntries entries) := by
  rw [Source.Tree.denote, Source.denoteAll, denoteAll_flatten]
  rfl

/-- A map literal, however it is laid out, means the call of `hash-map` on the key and value forms that
the reader keeps: the one has a value exactly if the other has and the literal can be read, and value and
state are the same. If no two key forms are equal, the reader keeps all forms as they are written. -/
theorem mapLiteral_means_call {entries : List (Tree × Tree)} {literal call : String}
    (hliteral : tokens literal.toList = (Source.Tree.map entries).yield)
    (hcall : tokens call.toList = (Source.Tree.list (.word "hash-map".toList :: flatten entries)).yield)
    {s : State} {frame : FrameId} {info : Value}
    (h : s.get? frame "hash-map" = some (.primitive .hashMap false info)) :
    (∀ v t, (∃ n, evaluateText n literal frame s = .value v t) ↔ (∀ token ∈ yieldEntries entries, token.Sound) ∧
      ∃ n, evaluate n (hashMapCall (Entries.ofList (denoteEntries entries))) frame s = .value v t) ∧
    (Entries.Distinct (denoteEntries entries) → ∀ v t,
      (∃ n, evaluateText n literal frame s = .value v t) ↔ ∃ n, evaluateText n call frame s = .value v t) := by
  have hkept : ∀ v t, (∃ n, evaluateText n literal frame s = .value v t) ↔
      (∀ token ∈ yieldEntries entries, token.Sound) ∧
        ∃ n, evaluate n (hashMapCall (Entries.ofList (denoteEntries entries))) frame s = .value v t := fun v t => by
    rw [evaluateText_value hliteral, sound_map_iff, Source.Tree.denote, mapForm_value_iff _ h]
  refine ⟨hkept, fun hdistinct v t => ?_⟩
  rw [hkept, evaluateText_value hcall, sound_call_iff, denote_call, Entries.ofList_of_distinct hdistinct]

/-- A session with two lines to read. -/
def twoLines : State := State.initial [] (.tree []) "x\ny\n" true 0

/-- The expression that reads a line, and the form that it denotes. -/
def lineTree (prompt : String) : Tree := .list [.word "readline".toList, .word (':' :: prompt.toList)]

def lineForm (prompt : String) : Value := .ofList [.symbol "readline", .keyword prompt]

/-- Two keys that read a line each, with prompts of their own. -/
def twoPrompts : List (Tree × Tree) := [(lineTree "a", .word ['1']), (lineTree "b", .word ['2'])]

theorem mapLiteral_means_call_twoPrompts :
    ∃ n t, evaluateText n "\x7b(readline :a) 1, (readline :b) 2\x7d" rootFrame twoLines =
      .value (.ofEntries [(.str "x", .int 1), (.str "y", .int 2)]) t ∧ t.output = ":a:b" := by
  have hliteral : tokens "\x7b(readline :a) 1, (readline :b) 2\x7d".toList = (Source.Tree.map twoPrompts).yield := by
    decide
  have hcall : tokens "(hash-map (readline :a) 1 (readline :b) 2)".toList =
      (Source.Tree.list (.word "hash-map".toList :: flatten twoPrompts)).yield := by decide
  have hforms : denoteEntries twoPrompts = [(lineForm "a", .int 1), (lineForm "b", .int 2)] := by rfl
  have hdistinct : Entries.Distinct (denoteEntries twoPrompts) := by
    rw [hforms, Entries.Distinct]
    decide
  have hvalue : ∃ t, evaluate 3 (hashMapCall [(lineForm "a", .int 1), (lineForm "b", .int 2)]) rootFrame twoLines =
      .value (.ofEntries [(.str "x", .int 1), (.str "y", .int 2)]) t ∧ t.output = ":a:b" := ⟨_, rfl, rfl⟩
  obtain ⟨t, ht, houtput⟩ := hvalue
  have hname : twoLines.get? rootFrame "hash-map" = some (.primitive .hashMap false .nil) := rfl
  have hmeans := (mapLiteral_means_call hliteral hcall hname).2 hdistinct
    (.ofEntries [(.str "x", .int 1), (.str "y", .int 2)]) t
  have hread := read_yield hcall (sound_of_short hcall (by decide))
  rw [denote_call, hforms] at hread
  obtain ⟨n, hn⟩ := hmeans.2 ⟨3, (congrFun (evaluateText_of_read hread 3 rootFrame) _).trans ht⟩
  exact ⟨n, t, hn, houtput⟩

/-- Two keys that read a line each, with the same prompt. -/
def samePrompt : List (Tree × Tree) := [(lineTree "a", .word ['1']), (lineTree "a", .word ['2'])]

/-- Keys that look alike are one key to the reader, so only one line is read. -/
theorem mapLiteral_onePrompt :
    (∃ n t, evaluateText n "(hash-map (readline :a) 1 (readline :a) 2)" rootFrame twoLines =
      .value (.ofEntries [(.str "x", .int 1), (.str "y", .int 2)]) t) ∧
    (∃ n t, evaluateText n "\x7b(readline :a) 1 (readline :a) 2\x7d" rootFrame twoLines =
      .value (.ofEntries [(.str "x", .int 2)]) t) ∧
    ∀ n t, evaluateText n "\x7b(readline :a) 1 (readline :a) 2\x7d" rootFrame twoLines ≠
      .value (.ofEntries [(.str "x", .int 1), (.str "y", .int 2)]) t := by
  have hcall : tokens "(hash-map (readline :a) 1 (readline :a) 2)".toList =
      (Source.Tree.list (.word "hash-map".toList :: flatten samePrompt)).yield := by decide +kernel
  have hliteral : tokens "\x7b(readline :a) 1 (readline :a) 2\x7d".toList = (Source.Tree.map samePrompt).yield := by
    decide
  have hreadCall := read_yield hcall (sound_of_short hcall (by decide))
  have hreadLiteral := read_yield hliteral (sound_of_short hliteral (by decide))
  have hforms : (Source.Tree.map samePrompt).denote = .ofEntries [(lineForm "a", .int 2)] := by rfl
  rw [hforms] at hreadLiteral
  have hvalue : ∃ t, evaluate 3 (.ofEntries [(lineForm "a", .int 2)]) rootFrame twoLines =
      .value (.ofEntries [(.str "x", .int 2)]) t := ⟨_, rfl⟩
  simp only [evaluateText_of_read hreadCall, evaluateText_of_read hreadLiteral]
  obtain ⟨t, ht⟩ := hvalue
  refine ⟨⟨3, _, rfl⟩, ⟨3, t, ht⟩, fun n t' hn => ?_⟩
  -- the literal ends in one way only
  have hunique := evaluate_unique (m := 3) (n := n) (by rw [ht]; trivial) (by rw [hn]; trivial)
  rw [ht, hn] at hunique
  cases hunique

end SmallLisp
