/-
Printing and reading again. Main statement: the readable texts of values, put in a row with spaces
between, are read as the values themselves, without their metadata (`readAll_texts`).
-/
import SmallLisp.Proofs.Source.NumberText
import SmallLisp.Proofs.Source.Reading
import SmallLisp.Proofs.Source.Spelling
import SmallLisp.Proofs.Value.Bare

namespace SmallLisp

open Source (Token Tree Spells tokens atomValue wordValue yieldAll yieldEntries denoteAll denoteEntries)

namespace Value

/-! ## Readable values -/

/-- The values that have a text to read back. Names are written as they are, so a name has to be one
word that is read as itself; an integer may not be too long. -/
inductive Readable : Value → Prop where
  | nil : Readable .nil
  | bool (b : Bool) : Readable (.bool b)
  | int {n : Int} (short : decimalLength n.natAbs ≤ digitLimit) : Readable (.int n)
  | float (negative : Bool) (m s : Nat) (h : Binary64.Canonical m s) : Readable (.float (.finite negative m s h))
  | str (text : String) : Readable (.str text)
  | symbol {name : String} (one_word : tokens name.toList = [.word name.toList])
    (itself : atomValue name.toList = .ok (.symbol name)) : Readable (.symbol name)
  | keyword {name : String} (one_word : tokens (':' :: name.toList) = [.word (':' :: name.toList)])
    (itself : atomValue (':' :: name.toList) = .ok (.keyword name)) : Readable (.keyword name)
  | list {items : List Value} (info : Value) (each : ∀ v ∈ items, Readable v) : Readable (.list items info)
  | vector {items : List Value} (info : Value) (each : ∀ v ∈ items, Readable v) : Readable (.vector items info)
  | map {entries : Entries} (info : Value) (keys : ∀ entry ∈ entries, Readable entry.1)
    (values : ∀ entry ∈ entries, Readable entry.2) (distinct : entries.Distinct) : Readable (.map entries info)

/-! ## Texts and derivations -/

/-- A value's text, with the derivation that the text spells and that denotes the value. -/
structure PrintsAs (cell : CellId → Except Fault String) (v : Value) (text : String) (tree : Tree) : Prop where
  text_eq : textWith true cell v = .ok text
  spells : Spells text.toList tree.yield
  denote : tree.denote = v.bare
  sound : ∀ token ∈ tree.yield, token.Sound

/-- The same for a row of values. -/
structure PrintAllAs (cell : CellId → Except Fault String) (vs : List Value) (texts : List String)
    (trees : List Tree) : Prop where
  texts_eq : textsWith true cell vs = .ok texts
  spells : List.Forall₂ (fun text tree => Spells text.toList tree.yield) texts trees
  denote : denoteAll trees = bareAll vs
  sound : ∀ token ∈ yieldAll trees, token.Sound

variable {cell : CellId → Except Fault String}

theorem printsAs_word {v : Value} {text : String} (htext : textWith true cell v = .ok text) (hbare : v.bare = v)
    (hword : Source.IsWord text.toList) (hvalue : atomValue text.toList = .ok v) :
    PrintsAs cell v text (.word text.toList) where
  text_eq := htext
  spells := hword.spells
  denote := by rw [Tree.denote, wordValue, hvalue, hbare]
  sound := by
    intro token htoken
    rw [List.mem_singleton.1 htoken]
    show atomValue _ = .ok (wordValue _)
    rw [wordValue, hvalue]

theorem printsAs_str (text : String) : PrintsAs cell (.str text)
    ("\"" ++ String.ofList (Text.escape text.toList) ++ "\"")
    (.text (Text.escape text.toList) (Source.textBody_escape _)) where
  text_eq := by rw [textWith, if_pos rfl]
  spells := by simpa [Tree.yield] using Source.spells_literal text.toList
  denote := by rw [Tree.denote, Text.unescape_escape, String.ofList_toList]; rfl
  sound := by
    intro token htoken
    rw [List.mem_singleton.1 htoken]
    exact ⟨_, rfl⟩

theorem printAllAs_nil : PrintAllAs cell [] [] [] where
  texts_eq := rfl
  spells := .nil
  denote := rfl
  sound := by simp [yieldAll]

theorem PrintAllAs.cons {v : Value} {vs : List Value} {text : String} {texts : List String} {tree : Tree}
    {trees : List Tree} (h : PrintsAs cell v text tree) (hs : PrintAllAs cell vs texts trees) :
    PrintAllAs cell (v :: vs) (text :: texts) (tree :: trees) where
  texts_eq := by rw [textsWith, h.text_eq, hs.texts_eq]; rfl
  spells := .cons h.spells hs.spells
  denote := by rw [denoteAll, bareAll, h.denote, hs.denote]
  sound := by
    intro token htoken
    rw [yieldAll, List.mem_append] at htoken
    exact htoken.elim (h.sound token) (hs.sound token)

theorem exists_printAllAs {vs : List Value} (h : ∀ v ∈ vs, ∃ text tree, PrintsAs cell v text tree) :
    ∃ texts trees, PrintAllAs cell vs texts trees := by
  induction vs with
  | nil => exact ⟨[], [], printAllAs_nil⟩
  | cons v vs ih =>
    obtain ⟨text, tree, hhead⟩ := h v (List.mem_cons_self ..)
    obtain ⟨texts, trees, htail⟩ := ih fun w hw => h w (List.mem_cons_of_mem _ hw)
    exact ⟨text :: texts, tree :: trees, htail.cons hhead⟩

/-! ## Collections -/

section Collections

variable {vs : List Value} {texts : List String} {trees : List Tree} (h : PrintAllAs cell vs texts trees)
include h

/-- What a row of texts spells between brackets. -/
theorem PrintAllAs.spells_enclosed (b : Source.Bracket) :
    Spells (enclosed (String.singleton b.opening) " " (String.singleton b.closing) texts).toList
      (.opening b :: (yieldAll trees ++ [.closing b])) := by
  have := (Source.spells_intercalate h.spells).enclosed b
  simpa [enclosed] using this

theorem PrintAllAs.sound_enclosed (b : Source.Bracket) :
    ∀ token ∈ Token.opening b :: (yieldAll trees ++ [.closing b]), token.Sound := by
  intro token htoken
  simp only [List.mem_cons, List.mem_append, List.not_mem_nil, or_false] at htoken
  rcases htoken with rfl | htoken | rfl
  · trivial
  · exact h.sound token htoken
  · trivial

theorem PrintAllAs.list (info : Value) : PrintsAs cell (.list vs info) (enclosed "(" " " ")" texts) (.list trees) where
  text_eq := by rw [textWith, h.texts_eq]; rfl
  spells := h.spells_enclosed .round
  denote := by rw [Tree.denote, h.denote]; rfl
  sound := h.sound_enclosed .round

theorem PrintAllAs.vector (info : Value) :
    PrintsAs cell (.vector vs info) (enclosed "[" " " "]" texts) (.vector trees) where
  text_eq := by rw [textWith, h.texts_eq]; rfl
  spells := h.spells_enclosed .square
  denote := by rw [Tree.denote, h.denote]; rfl
  sound := h.sound_enclosed .square

end Collections

/-- The keys and values of a map in one row, as they are printed. -/
def inTurn (entries : Entries) : List Value := entries.flatMap fun entry => [entry.1, entry.2]

theorem entryTextsWith_eq (readable : Bool) (entries : Entries) :
    entryTextsWith readable cell entries = textsWith readable cell (inTurn entries) := by
  induction entries with
  | nil => rfl
  | cons entry entries ih =>
    rw [entryTextsWith, ih]
    show _ = textsWith readable cell (entry.1 :: entry.2 :: inTurn entries)
    rw [textsWith, textsWith]
    cases textWith readable cell entry.1 with
    | error fault => rfl
    | ok key =>
      cases textWith readable cell entry.2 with
      | error fault => rfl
      | ok value => cases textsWith readable cell (inTurn entries) <;> rfl

theorem pairs_bareAll_inTurn (entries : Entries) : Entries.pairs (bareAll (inTurn entries)) = bareEntries entries := by
  induction entries with
  | nil => rfl
  | cons entry entries ih =>
    show Entries.pairs (bareAll (entry.1 :: entry.2 :: inTurn entries)) = _
    simp only [bareAll, Entries.pairs, bareEntries, ih]

theorem length_inTurn (entries : Entries) : (inTurn entries).length = 2 * entries.length := by
  induction entries with
  | nil => rfl
  | cons entry entries ih =>
    show (inTurn entries).length + 2 = _
    rw [ih, List.length_cons]
    ring

theorem PrintAllAs.map {entries : Entries} {texts : List String} {trees : List Tree}
    (h : PrintAllAs cell (inTurn entries) texts trees) (distinct : entries.Distinct) (info : Value) :
    ∃ tree, PrintsAs cell (.map entries info) (enclosed "\x7b" " " "\x7d" texts) tree := by
  -- there are as many derivations as keys and values, so they pair up
  have hlength : trees.length % 2 = 0 := by
    have := congrArg List.length h.denote
    rw [Source.denoteAll_eq_map, bareAll_eq_map, List.length_map, List.length_map, length_inTurn] at this
    omega
  obtain ⟨pairs, rfl⟩ := Source.exists_flatten trees hlength
  refine ⟨.map pairs, ?_, ?_, ?_, ?_⟩
  · rw [textWith, entryTextsWith_eq, h.texts_eq]
    rfl
  · rw [Tree.yield, ← Source.yieldAll_flatten]
    exact h.spells_enclosed .curly
  · rw [Tree.denote, ← Source.pairs_denoteAll_flatten, h.denote, pairs_bareAll_inTurn,
      Entries.ofList_of_distinct (Entries.distinct_bare distinct)]
    rfl
  · rw [Tree.yield, ← Source.yieldAll_flatten]
    exact h.sound_enclosed .curly

/-! ## Round trip -/

theorem natAbs_lt_unwritable {n : Int} (h : decimalLength n.natAbs ≤ digitLimit) : n.natAbs < unwritable := by
  have hpos : 0 < digitLimit := by decide
  unfold unwritable
  generalize digitLimit = limit at h hpos ⊢
  exact (Binary64.decimalLength_le_iff hpos).1 h

/-- Every readable value has a text and a derivation of it. -/
theorem Readable.printsAs {v : Value} (h : v.Readable) : ∃ text tree, PrintsAs cell v text tree := by
  induction h with
  | nil => exact ⟨_, _, printsAs_word rfl rfl (Source.isWord_of_tokens_eq (by decide)) rfl⟩
  | bool b => cases b <;> exact ⟨_, _, printsAs_word rfl rfl (Source.isWord_of_tokens_eq (by decide)) rfl⟩
  | @int n short =>
    refine ⟨toString n, _, printsAs_word ?_ rfl ?_ (Source.atomValue_toString short)⟩
    · rw [textWith, integerText, if_pos (natAbs_lt_unwritable short)]
    · exact Source.isWord_of_integerNumeral? (Source.integerNumeral?_toString n)
  | float negative m s h =>
    have hread := Source.floatNumeral?_toText negative h
    exact ⟨_, _, printsAs_word rfl rfl (Source.isWord_of_floatNumeral? hread) (Source.atomValue_of_floatNumeral? hread)⟩
  | str text => exact ⟨_, _, printsAs_str text⟩
  -- names are printed as they are, so the conditions on them are all that is needed
  | @symbol name one_word itself =>
    exact ⟨name, _, printsAs_word rfl rfl (Source.isWord_of_tokens_eq one_word) itself⟩
  | @keyword name one_word itself =>
    have htext : (":" ++ name).toList = ':' :: name.toList := by simp
    rw [← htext] at one_word itself
    exact ⟨":" ++ name, _, printsAs_word rfl rfl (Source.isWord_of_tokens_eq one_word) itself⟩
  | @list items info _ ih =>
    obtain ⟨texts, trees, hall⟩ := exists_printAllAs ih
    exact ⟨_, _, hall.list info⟩
  | @vector items info _ ih =>
    obtain ⟨texts, trees, hall⟩ := exists_printAllAs ih
    exact ⟨_, _, hall.vector info⟩
  | @map entries info _ _ distinct ihk ihv =>
    have hturn : ∀ v ∈ inTurn entries, ∃ text tree, PrintsAs cell v text tree := by
      intro v hv
      obtain ⟨entry, hentry, hv⟩ := List.mem_flatMap.1 hv
      simp only [List.mem_cons, List.not_mem_nil, or_false] at hv
      rcases hv with rfl | rfl
      · exact ihk entry hentry
      · exact ihv entry hentry
    obtain ⟨texts, trees, hall⟩ := exists_printAllAs hturn
    obtain ⟨tree, htree⟩ := hall.map distinct info
    exact ⟨_, tree, htree⟩

theorem mapM_text (readable : Bool) (cells : Array Value) (vs : List Value) :
    vs.mapM (text readable cells) = textsWith readable (cellText readable cells cells.size) vs := by
  induction vs with
  | nil => rfl
  | cons v vs ih => rw [List.mapM_cons, ih, textsWith]; rfl

/-- The readable texts of values in a row are read as the values, and reading ends without a fault. -/
theorem readAll_texts (cells : Array Value) {vs : List Value} (h : ∀ v ∈ vs, v.Readable) :
    ∃ texts, vs.mapM (text true cells) = .ok texts ∧
      Source.readAll (" ".intercalate texts) = ⟨vs.map bare, none, []⟩ := by
  have heach : ∀ v ∈ vs, ∃ text tree, PrintsAs (cellText true cells cells.size) v text tree :=
    fun v hv => (h v hv).printsAs
  obtain ⟨texts, trees, hall⟩ := exists_printAllAs heach
  refine ⟨texts, (mapM_text true cells vs).trans hall.texts_eq, ?_⟩
  have htokens := (Source.spells_intercalate hall.spells).tokens_eq
  rw [Source.readAll, htokens, Source.allForms_yieldAll hall.sound rfl, hall.denote, bareAll_eq_map]

/-- Values of every kind that can be read back; one carries metadata. -/
def assortment : List Value :=
  [.list [.symbol "f", .int (-12), .float (.finite true (3 * 2 ^ 51) 1022 (by decide)), .str "a\"\\\n;("]
      (.keyword "info"),
    .map [(.keyword "k", .vector [.nil, .bool true] .nil), (.int 1, .list [] .nil)] .nil]

theorem readable_assortment : ∀ v ∈ assortment, v.Readable := by
  have hnone : ∀ v ∈ ([] : List Value), v.Readable := by simp
  refine List.forall_mem_cons.2 ⟨.list _ ?_, List.forall_mem_cons.2 ⟨.map _ ?_ ?_ ?_, hnone⟩⟩
  · simp only [List.forall_mem_cons]
    exact ⟨.symbol (by decide) rfl, .int (by decide), .float .., .str _, hnone⟩
  · simp only [List.forall_mem_cons]
    exact ⟨.keyword (by decide) rfl, .int (by decide), by simp⟩
  · simp only [List.forall_mem_cons]
    refine ⟨.vector _ ?_, .list _ hnone, by simp⟩
    simp only [List.forall_mem_cons]
    exact ⟨.nil, .bool _, hnone⟩
  · exact .cons (by simp; rfl) (.cons (by simp) .nil)

theorem readAll_texts_assortment : (∀ v ∈ assortment, v.Readable) ∧
    ∃ texts, assortment.mapM (text true #[]) = .ok texts ∧
      Source.readAll (" ".intercalate texts) = ⟨assortment.map bare, none, []⟩ :=
  ⟨readable_assortment, readAll_texts #[] readable_assortment⟩

end Value

end SmallLisp
