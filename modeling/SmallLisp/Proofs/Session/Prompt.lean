/-
The prompt loop. It takes the lines of the input one after the other, but for those that an evaluation takes, and
comes to the end of the input whatever the lines do, if only their evaluation ends and what they raise can be
reported. What a fault has to show can be shown where it is reported, but a value that was raised may nest too deep to
be written. Main statements: `promptLoop_processes`, `promptLoop_deepValue`.
-/
import SmallLisp.CommandLine
import SmallLisp.Proofs.Evaluation.Handlers
import SmallLisp.Proofs.Run.Tree
import SmallLisp.Proofs.Session.Lines

namespace SmallLisp

open Run (Comes Climbs)

/-! ## Texts with more steps -/

namespace Session

theorem foldForms_climbs {α : Type} (f : α → Value → Run α) : ∀ (start : α) (forms : List Value),
    Climbs fun n => foldForms n f start forms
  | start, [] => .const (pure start)
  | start, form :: forms =>
    .bind (evaluate_climbs form rootFrame) fun value => .bind (.const (f start value)) fun result =>
      foldForms_climbs f result forms

theorem rep_climbs (text : String) : Climbs fun n => rep n text :=
  .bind (foldForms_climbs _ none _) fun _ => .const _

/-- A text of a single form is answered by the text of its value. -/
theorem rep_eq_evaluate {text : String} {form : Value} (h : Source.readAll text = ⟨[form], none, []⟩) (steps : Nat) :
    rep steps text = (do
      let value ← evaluate steps form rootFrame
      return some (← Run.shown value) : Run (Option String)) := by
  unfold rep foldText
  simp only [h, foldForms, bind_pure_comp, bind_pure]

end Session

namespace CommandLine

/-! ## Faults that are reported -/

/-- Whether a fault can be reported: there are calls enough to write the value that it has raised, if there were
enough to raise it. -/
def Reportable (f : Fault) (s : State) : Prop := ∀ v shown, f = .thrown v shown →
  v.calls .inspection s.cells ≤ s.callLimit → v.calls .text s.cells ≤ s.callLimit

theorem describe_thrown {v : Value} {text shown : String} {t : State} (h : v.text true t.cells = .ok text) :
    describe (.thrown v shown) t =
      if v.calls .inspection t.cells ≤ t.callLimit then
        if v.calls .text t.cells ≤ t.callLimit then .value text t else .fault .endlessText t
      else .value Fault.endlessText.message t := by
  have hshown : Run.shown v t = .value text t := by simp only [Run.shown, Run.ask, h]
  by_cases hraised : v.calls .inspection t.cells ≤ t.callLimit
  · by_cases hwritten : v.calls .text t.cells ≤ t.callLimit
    · simp [describe, canNest, Run.bind_apply, hraised, hwritten, hshown]
    · simp [describe, canNest, Run.bind_apply, hraised, hwritten, Run.fail]
  · simp [describe, canNest, Run.bind_apply, hraised]

/-- The fault that ends a line is described if it can be reported: a value that was raised has a text still. -/
theorem describe_of_rep {steps : Nat} {line : String} {s t : State} {f : Fault}
    (h : Session.rep steps line s = .fault f t) : (Reportable f t → ∃ text, describe f t = .value text t) ∧
      (¬Reportable f t → describe f t = .fault .endlessText t) := by
  by_cases hown : f.IsOwn
  · refine ⟨fun _ => ?_, fun hreport => absurd (fun v shown hf => absurd hf (hown v shown)) hreport⟩
    cases f with
    | thrown v shown => exact absurd rfl (hown v shown)
    | _ => exact ⟨_, rfl⟩
  · obtain ⟨v, shown, rfl⟩ : ∃ v shown, f = .thrown v shown := by
      simpa [Fault.IsOwn] using hown
    obtain ⟨text, htext⟩ := Value.text_of_inspect ((orderly_closed.rep steps line s).2 v shown t h) true
    rw [describe_thrown htext]
    constructor
    · intro hreport
      split
      · next hraised => exact ⟨text, if_pos (hreport v shown rfl hraised)⟩
      · exact ⟨_, rfl⟩
    · intro hreport
      obtain ⟨hraised, hdeep⟩ : v.calls .inspection t.cells ≤ t.callLimit ∧ ¬v.calls .text t.cells ≤ t.callLimit := by
        by_contra hnot
        refine hreport fun w shown' hf hw => ?_
        cases hf
        exact not_not.1 fun hdeep => hnot ⟨hw, hdeep⟩
      rw [if_pos hraised, if_neg hdeep]

/-! ## Rounds -/

/-- What becomes of a line that has come to an end: its value is printed, or its fault is reported. -/
inductive Answers : Outcome (Option String) → State → Prop where
  | nothing (t : State) : Answers (.value none t) t
  | value (text : String) (t : State) : Answers (.value (some text) t) (t.print (text ++ "\n"))
  | fault {f : Fault} {text : String} {t : State} : describe f t = .value text t →
    Answers (.fault f t) (t.report ("Error: " ++ text ++ "\n"))

/-- A round of the loop: the line that it processes, the lines that the evaluation of this line takes, and the state
that the next round begins with. -/
inductive Round (s : State) : String × List String → State → Prop where
  | intro {line : String} {rest : List Char} {taken : List String} {o : Outcome (Option String)} {t : State} :
    (s.print prompt).nextLine = .line line rest →
    Comes (fun n => Session.rep n line) { s.print prompt with input := rest } o →
    (linesOf rest).map String.ofList = taken ++ t.lines →
    Answers o t → Round s (line, taken) t

/-- Rounds in a row, each from the state that the one before has left. -/
inductive Rounds : State → List (String × List String) → State → Prop where
  | none (s : State) : Rounds s [] s
  | next {s t u : State} {row : String × List String} {rows : List (String × List String)} :
    Round s row t → Rounds t rows u → Rounds s (row :: rows) u

theorem Answers.readsOn {o : Outcome (Option String)} {t : State} (h : Answers o t) : o.state.ReadsOn t ∧
    t.lines = o.state.lines := by
  cases h <;> exact ⟨.of_input rfl rfl, rfl⟩

/-- Every line that comes to an end is answered, if its fault can be reported. -/
theorem exists_answers {steps : Nat} {line : String} {s : State} {o : Outcome (Option String)}
    (h : Session.rep steps line s = o) (hend : o.Ended) (hreport : ∀ f t, o = .fault f t → Reportable f t) :
    ∃ t, Answers o t := by
  cases o with
  | value text? t =>
    cases text? with
    | none => exact ⟨t, .nothing t⟩
    | some text => exact ⟨_, .value text t⟩
  | fault f t =>
    obtain ⟨text, htext⟩ := (describe_of_rep h).1 (hreport f t rfl)
    exact ⟨_, .fault htext⟩
  | halted => exact hend.elim

theorem evalLine_of_answers {steps : Nat} {line : String} {s t : State} (h : Answers (Session.rep steps line s) t) :
    evalLine steps line s = .value () t := by
  generalize hrep : Session.rep steps line s = o at h
  cases h with
  | nothing => simp only [evalLine, Run.bind_apply, Run.handle, hrep, Run.pure_apply]
  | value =>
    simp only [evalLine, Run.bind_apply, Run.handle, hrep]
    rfl
  | fault htext =>
    simp only [evalLine, reportFault, Run.bind_apply, Run.handle, hrep, htext]
    rfl

/-! ## The loop -/

theorem evalLine_of_not_reportable {steps : Nat} {line : String} {s t : State} {cause : Fault}
    (hrep : Session.rep steps line s = .fault cause t) (h : ¬Reportable cause t) :
    evalLine steps line s = .fault .endlessText t := by
  have hdescribe := (describe_of_rep hrep).2 h
  simp only [evalLine, reportFault, Run.bind_apply, Run.handle, hrep, hdescribe]

/-- A line is answered, or its fault cannot be reported, or its evaluation has not ended. -/
theorem evalLine_cases (steps : Nat) (line : String) (s : State) :
    (∃ t, (Session.rep steps line s).Ended ∧ Answers (Session.rep steps line s) t ∧
      evalLine steps line s = .value () t) ∨
    (∃ cause t, Session.rep steps line s = .fault cause t ∧ ¬Reportable cause t ∧
      evalLine steps line s = .fault .endlessText t) ∨
    ∃ need t, evalLine steps line s = .halted need t := by
  have hanswered : ∀ {t}, (Session.rep steps line s).Ended → Answers (Session.rep steps line s) t → ∃ t,
      (Session.rep steps line s).Ended ∧ Answers (Session.rep steps line s) t ∧ evalLine steps line s = .value () t :=
    fun {t} hend h => ⟨t, hend, h, evalLine_of_answers h⟩
  cases hrep : Session.rep steps line s with
  | value text? t =>
    obtain ⟨t, h⟩ := exists_answers hrep trivial nofun
    rw [hrep] at hanswered
    exact .inl (hanswered trivial h)
  | fault cause t =>
    by_cases hreport : Reportable cause t
    · obtain ⟨text, htext⟩ := (describe_of_rep hrep).1 hreport
      rw [hrep] at hanswered
      exact .inl (hanswered trivial (.fault htext))
    · exact .inr (.inl ⟨cause, t, rfl, hreport, evalLine_of_not_reportable hrep hreport⟩)
  | halted need t =>
    refine .inr (.inr ⟨need, t, ?_⟩)
    simp only [evalLine, Run.bind_apply, Run.handle, hrep]

theorem promptOnce_of_line {s : State} {line : String} {rest : List Char}
    (h : (s.print prompt).nextLine = .line line rest) (steps : Nat) :
    promptOnce steps s = (do evalLine steps line; return true : Run Bool) { s.print prompt with input := rest } := by
  simp only [promptOnce, Run.bind_apply, Run.print, Run.modify, Run.nextLine, h]

theorem promptOnce_of_ended {s : State} (h : (s.print prompt).nextLine = .ended) (steps : Nat) :
    promptOnce steps s = .value false ((s.print prompt).print "\n") := by
  simp only [promptOnce, Run.bind_apply, Run.print, Run.modify, Run.nextLine, h]
  rfl

theorem promptOnce_of_waiting {s : State} (h : (s.print prompt).nextLine = .waiting) (steps : Nat) :
    promptOnce steps s = .halted .line (s.print prompt) := by
  simp only [promptOnce, Run.bind_apply, Run.print, Run.modify, Run.nextLine, h]

/-- A line that is answered makes a round, of which the lines are gone that it takes. -/
theorem exists_round_of_answers {s t : State} {line : String} {rest : List Char} {steps : Nat}
    (hnext : (s.print prompt).nextLine = .line line rest)
    (hend : (Session.rep steps line { s.print prompt with input := rest }).Ended)
    (hanswers : Answers (Session.rep steps line { s.print prompt with input := rest }) t) :
    ∃ taken, Round s (line, taken) t ∧ s.lines = line :: (taken ++ t.lines) ∧ t.inputEnded = s.inputEnded := by
  obtain ⟨hreads, -⟩ := orderly_closed.rep steps line { s.print prompt with input := rest }
  obtain ⟨taken, htaken⟩ := (hreads.trans hanswers.readsOn.1).lines
  have hfirst := (s.print prompt).lines_of_nextLine
  rw [hnext] at hfirst
  exact ⟨taken, .intro hnext ⟨steps, rfl, hend⟩ htaken hanswers, hfirst.trans (congrArg _ htaken),
    (hreads.trans hanswers.readsOn.1).inputEnded_eq⟩

/-- What ends the loop with a fault is a fault that cannot be reported, in a line that comes up. -/
theorem promptLoop_fault {steps rounds : Nat} {s t : State} {f : Fault}
    (h : promptLoop steps rounds s = .fault f t) : f = .endlessText ∧ ∃ rows u line rest cause,
      Rounds s rows u ∧ (u.print prompt).nextLine = .line line rest ∧
      Session.rep steps line { u.print prompt with input := rest } = .fault cause t ∧ ¬Reportable cause t := by
  induction rounds generalizing s with
  | zero => cases h
  | succ rounds ih =>
    rw [promptLoop, Run.bind_apply] at h
    cases hnext : (s.print prompt).nextLine with
    | line line rest =>
      rw [promptOnce_of_line hnext, Run.bind_apply] at h
      rcases evalLine_cases steps line { s.print prompt with input := rest } with
        ⟨u, hend, hanswers, heval⟩ | ⟨cause, u, hrep, hreport, heval⟩ | ⟨need, u, heval⟩
      · rw [heval] at h
        obtain ⟨taken, hround, -⟩ := exists_round_of_answers hnext hend hanswers
        obtain ⟨hf, rows, v, line', rest', cause, hrounds, hfault⟩ := ih h
        exact ⟨hf, (line, taken) :: rows, v, line', rest', cause, .next hround hrounds, hfault⟩
      · rw [heval] at h
        cases h
        exact ⟨rfl, [], s, line, rest, cause, .none s, hnext, hrep, hreport⟩
      · rw [heval] at h
        cases h
    | ended =>
      rw [promptOnce_of_ended hnext] at h
      cases h
    | waiting =>
      rw [promptOnce_of_waiting hnext] at h
      cases h

/-- The evaluation of every line that comes up ends. -/
def LinesEnd (s : State) : Prop := ∀ rows t line rest, Rounds s rows t → (t.print prompt).nextLine = .line line rest →
  ∃ o, Comes (fun n => Session.rep n line) { t.print prompt with input := rest } o

theorem LinesEnd.after {s t : State} {row : String × List String} (h : LinesEnd s) (hround : Round s row t) :
    LinesEnd t := fun rows u line rest hrounds => h (row :: rows) u line rest (.next hround hrounds)

/-- The fault of every line that comes up can be reported. -/
def LinesReport (s : State) : Prop := ∀ rows t line rest, Rounds s rows t →
  (t.print prompt).nextLine = .line line rest → ∀ steps f u,
    Session.rep steps line { t.print prompt with input := rest } = .fault f u → Reportable f u

theorem LinesReport.after {s t : State} {row : String × List String} (h : LinesReport s) (hround : Round s row t) :
    LinesReport t := fun rows u line rest hrounds => h (row :: rows) u line rest (.next hround hrounds)

/-- A round is made with any number of steps but the first few. -/
theorem exists_round {s : State} (h : LinesEnd s) (hreport : LinesReport s) {line : String} {rest : List Char}
    (hnext : (s.print prompt).nextLine = .line line rest) :
    ∃ taken t m, Round s (line, taken) t ∧ s.lines = line :: (taken ++ t.lines) ∧ t.inputEnded = s.inputEnded ∧
      ∀ n ≥ m, promptOnce n s = .value true t := by
  obtain ⟨o, ho⟩ := h [] s line rest (.none s) hnext
  obtain ⟨m, hm⟩ := (Session.rep_climbs line).comes ho
  have hrep := hm m (Nat.le_refl m)
  obtain ⟨t, hanswers⟩ := exists_answers hrep ho.ended fun f u hf =>
    hreport [] s line rest (.none s) hnext m f u (hrep.trans hf)
  rw [← hrep] at hanswers
  obtain ⟨taken, hround, hlines, hinput⟩ := exists_round_of_answers hnext (hrep ▸ ho.ended) hanswers
  refine ⟨taken, t, m, hround, hlines, hinput, fun n hn => ?_⟩
  rw [hrep, ← hm n hn] at hanswers
  rw [promptOnce_of_line hnext, Run.bind_apply, evalLine_of_answers hanswers]
  rfl

/-- The loop makes rounds until no line is left, and returns. -/
theorem promptLoop_returns {s : State} (h : LinesEnd s) (hreport : LinesReport s) (hended : s.inputEnded = true) :
    ∃ rows t m, Rounds s rows t ∧ s.lines = rows.flatMap (fun row => row.1 :: row.2) ∧ t.lines = [] ∧
      ∀ n ≥ m, ∀ rounds ≥ m, promptLoop n rounds s = .value () ((t.print prompt).print "\n") := by
  induction hlength : s.lines.length using Nat.strongRecOn generalizing s with
  | ind length ih =>
    have hlines := (s.print prompt).lines_of_nextLine
    cases hnext : (s.print prompt).nextLine with
    | waiting =>
      rw [hnext] at hlines
      cases hlines.symm.trans hended
    | ended =>
      rw [hnext] at hlines
      refine ⟨[], s, 1, .none s, hlines, hlines, fun n _ rounds hrounds => ?_⟩
      obtain ⟨rounds, rfl⟩ : ∃ k, rounds = k + 1 := ⟨rounds - 1, by omega⟩
      rw [promptLoop, Run.bind_apply, promptOnce_of_ended hnext]
      rfl
    | line line rest =>
      obtain ⟨taken, t, m, hround, hfirst, hinput, honce⟩ := exists_round h hreport hnext
      have hshorter : t.lines.length < length := by
        rw [← hlength, hfirst, List.length_cons, List.length_append]
        omega
      obtain ⟨rows, u, m', hrounds, hrest, hu, hloop⟩ := ih _ hshorter (h.after hround)
        (hreport.after hround) (hinput.trans hended) rfl
      refine ⟨(line, taken) :: rows, u, max m m' + 1, .next hround hrounds, ?_, hu, fun n hn rounds hr => ?_⟩
      · rw [List.flatMap_cons, List.cons_append, ← hrest]
        exact hfirst
      · obtain ⟨rounds, rfl⟩ : ∃ k, rounds = k + 1 := ⟨rounds - 1, by omega⟩
        rw [promptLoop, Run.bind_apply, honce n (by omega)]
        exact hloop n (by omega) rounds (by omega)

/-- If the evaluation of every line that comes up ends, and its fault can be reported, then the prompt loop processes
all lines of the input, each in the state that the one before has left, but for those that an evaluation takes, and
returns. A value that is reported was shown when it was raised, has not changed since, and what can be shown in a
message can be printed; so a fault cannot be reported only if it has raised a value that nests too deep to be written.
Nothing but the report of such a value ends the loop with a fault. -/
theorem promptLoop_processes (s : State) :
    (s.inputEnded = true → LinesEnd s → LinesReport s → ∃ rows t m, Rounds s rows t ∧
      s.lines = rows.flatMap (fun row => row.1 :: row.2) ∧ t.lines = [] ∧
      ∀ n ≥ m, promptLoop n n s = .value () ((t.print prompt).print "\n")) ∧
    (∀ steps line f t, Session.rep steps line s = .fault f t →
      (Reportable f t → ∃ text, describe f t = .value text t) ∧
      (¬Reportable f t → describe f t = .fault .endlessText t) ∧
      ∀ v shown, f = .thrown v shown → v.inspect t.cells = .ok shown) ∧
    (∀ (v : Value) (cells : Array Value) shown, v.inspect cells = .ok shown → ∃ text, v.text true cells = .ok text) ∧
    ∀ steps rounds f t, promptLoop steps rounds s = .fault f t → f = .endlessText ∧ ∃ rows u line rest cause,
      Rounds s rows u ∧ (u.print prompt).nextLine = .line line rest ∧
      Session.rep steps line { u.print prompt with input := rest } = .fault cause t ∧ ¬Reportable cause t := by
  refine ⟨fun hended h hreport => ?_, fun steps line f t h => ⟨(describe_of_rep h).1, (describe_of_rep h).2, ?_⟩,
    fun v cells shown h => Value.text_of_inspect h true, fun steps rounds f t => promptLoop_fault⟩
  · obtain ⟨rows, t, m, hrounds, hlines, ht, hloop⟩ := promptLoop_returns h hreport hended
    exact ⟨rows, t, m, hrounds, hlines, ht, fun n hn => hloop n hn n hn⟩
  · rintro v shown rfl
    exact (orderly_closed.rep steps line s).2 v shown t h

/-- What comes of a round is determined. -/
theorem Round.unique {s t t' : State} {row row' : String × List String} (h : Round s row t) (h' : Round s row' t') :
    t = t' ∧ row = row' := by
  cases h with
  | @intro line rest taken o _ hnext ho htaken hanswers =>
    cases h' with
    | @intro line' rest' taken' o' _ hnext' ho' htaken' hanswers' =>
      cases hnext.symm.trans hnext'
      obtain ⟨m, hm⟩ := (Session.rep_climbs line).comes ho
      obtain ⟨m', hm'⟩ := (Session.rep_climbs line).comes ho'
      obtain rfl : o = o' := (hm _ (Nat.le_max_left m m')).symm.trans (hm' _ (Nat.le_max_right m m'))
      rw [← hm m (Nat.le_refl m)] at hanswers hanswers'
      have ht := (evalLine_of_answers hanswers).symm.trans (evalLine_of_answers hanswers')
      obtain rfl : t = t' := by
        injection ht
      exact ⟨rfl, congrArg _ (List.append_cancel_right (htaken.symm.trans htaken'))⟩

/-- A line that takes the line after it, and raises that. -/
def failingLine : String := "(throw (readline :a))"

/-- A session with that line to process, a line for it to take, and one more. -/
def failingSession : State := State.initial [] (.tree []) "(throw (readline :a))\nb\n:c\n" true 0

/-- The session when its first line has failed, and when that is reported. -/
def failedSession : State := { (failingSession.print prompt).print ":a" with input := ":c\n".toList }

def reportedSession : State := failedSession.report "Error: \"b\"\n"

/-- The session when its last line is processed. -/
def finishedSession : State := State.print { reportedSession.print prompt with input := [] } ":c\n"

theorem failingSession_nextLine : (failingSession.print prompt).nextLine = .line failingLine "b\n:c\n".toList := by rfl

theorem reportedSession_nextLine : (reportedSession.print prompt).nextLine = .line ":c" [] := by rfl

theorem rep_failingLine : Session.rep 3 failingLine { failingSession.print prompt with input := "b\n:c\n".toList } =
    .fault (.thrown (.str "b") (Text.quoted "b")) failedSession := by
  have hread : Source.readAll failingLine =
      ⟨[.ofList [.symbol "throw", .ofList [.symbol "readline", .keyword "a"]]], none, []⟩ := by rfl
  rw [Session.rep_eq_evaluate hread]
  generalize hs : ({ failingSession.print prompt with input := "b\n:c\n".toList } : State) = s
  have hreadline : s.get? rootFrame "readline" = some (.primitive .readline false .nil) := hs ▸ rfl
  have hthrow : s.get? rootFrame "throw" = some (.primitive .throw false .nil) := hs ▸ rfl
  have hkeyword : evaluate 1 (.keyword "a") rootFrame s = .value (.keyword "a") s := rfl
  have harg : evaluate 2 (.ofList [.symbol "readline", .keyword "a"]) rootFrame s =
      .value (.str "b") failedSession := by
    refine (evaluate_call_one rfl hreadline rfl hkeyword .nil).trans ?_
    rw [← hs]
    rfl
  exact Run.bind_eq_fault.2 (.inl (evaluate_call_one rfl hthrow rfl harg .nil))

theorem rep_lastLine : Session.rep 1 ":c" { reportedSession.print prompt with input := [] } =
    .value (some ":c") { reportedSession.print prompt with input := [] } := by
  have hread : Source.readAll ":c" = ⟨[.keyword "c"], none, []⟩ := by rfl
  rw [Session.rep_eq_evaluate hread]
  rfl

/-- The first line takes another one, and then fails. -/
theorem failingSession_round : Round failingSession (failingLine, ["b"]) reportedSession :=
  have hdescribe : describe (.thrown (.str "b") (Text.quoted "b")) failedSession = .value "\"b\"" failedSession := rfl
  .intro failingSession_nextLine ⟨3, rep_failingLine, trivial⟩ rfl (.fault hdescribe)

theorem reportedSession_round : Round reportedSession (":c", []) finishedSession :=
  .intro reportedSession_nextLine ⟨1, rep_lastLine, trivial⟩ rfl (.value ":c" _)

/-- There are two rounds, for the second line is taken by the first one. -/
theorem failingSession_rounds {rows : List (String × List String)} {t : State} (h : Rounds failingSession rows t) :
    t = failingSession ∨ t = reportedSession ∨
      rows = [(failingLine, ["b"]), (":c", [])] ∧ t = finishedSession := by
  cases h with
  | none => exact .inl rfl
  | next hfirst hrest =>
    obtain ⟨rfl, rfl⟩ := failingSession_round.unique hfirst
    cases hrest with
    | none => exact .inr (.inl rfl)
    | next hsecond hrest =>
      obtain ⟨rfl, rfl⟩ := reportedSession_round.unique hsecond
      cases hrest with
      | none => exact .inr (.inr ⟨rfl, rfl⟩)
      | next hthird _ =>
        cases hthird with
        | intro hline => cases hline

theorem failingSession_linesEnd : LinesEnd failingSession := by
  intro rows t line rest h hline
  rcases failingSession_rounds h with rfl | rfl | ⟨-, rfl⟩
  · cases failingSession_nextLine.symm.trans hline
    exact ⟨_, 3, rep_failingLine, trivial⟩
  · cases reportedSession_nextLine.symm.trans hline
    exact ⟨_, 1, rep_lastLine, trivial⟩
  · cases hline

theorem failingSession_linesReport : LinesReport failingSession := by
  intro rows t line rest h hline n f u hfault
  have hcomes : Comes (fun n => Session.rep n line) { t.print prompt with input := rest } (.fault f u) :=
    ⟨n, hfault, trivial⟩
  rcases failingSession_rounds h with rfl | rfl | ⟨-, rfl⟩
  · cases failingSession_nextLine.symm.trans hline
    cases (Session.rep_climbs failingLine).unique hcomes ⟨3, rep_failingLine, trivial⟩
    intro v shown hv _
    cases hv
    decide
  · cases reportedSession_nextLine.symm.trans hline
    cases (Session.rep_climbs ":c").unique hcomes ⟨1, rep_lastLine, trivial⟩
  · cases hline

theorem promptLoop_processes_failing :
    LinesEnd failingSession ∧ LinesReport failingSession ∧
    ∃ t m, Rounds failingSession [(failingLine, ["b"]), (":c", [])] t ∧
      (∀ n ≥ m, promptLoop n n failingSession = .value () ((t.print prompt).print "\n")) ∧
      t.output = "user> :auser> :c\n" ∧ t.errors = "Error: \"b\"\n" := by
  obtain ⟨rows, t, m, hrounds, -, hlines, hloop⟩ :=
    (promptLoop_processes failingSession).1 rfl failingSession_linesEnd failingSession_linesReport
  rcases failingSession_rounds hrounds with rfl | rfl | ⟨rfl, rfl⟩
  · cases hlines
  · cases hlines
  · exact ⟨failingSession_linesEnd, failingSession_linesReport, _, m, hrounds, hloop, rfl, rfl⟩

/-! ## Values that nest deep -/

/-- A value that nests to a certain depth. -/
def nested : (depth : Nat) → Value
  | 0 => .nil
  | depth + 1 => .ofList [nested depth]

theorem calls_nested (n : Value.Nesting) (cells : Array Value) (depth : Nat) :
    (nested depth).calls n cells = n.compound * depth + 1 := by
  unfold Value.calls
  induction depth with
  | zero => simp [nested, Value.callsWith]
  | succ depth ih =>
    simp only [nested, Value.ofList, Value.callsWith, Value.callsOfAllWith, ih, Nat.max_zero]
    rw [Nat.mul_succ, Nat.add_comm _ n.compound, Nat.add_assoc]

theorem exists_inspect_nested (cells : Array Value) (depth : Nat) :
    ∃ shown, (nested depth).inspect cells = .ok shown := by
  unfold Value.inspect
  induction depth with
  | zero => exact ⟨"nil", rfl⟩
  | succ depth ih =>
    obtain ⟨shown, hshown⟩ := ih
    refine ⟨Value.enclosed "List([" ", " "])" [shown], ?_⟩
    simp only [nested, Value.ofList, Value.inspectWith, Value.inspectAllWith, hshown]
    rfl

/-- A session that throws a value, with one more line to come. -/
def deepSession (depth : Nat) : State :=
  (State.initial [] (.tree []) "(throw deep)\n1\n" true 0).define rootFrame "deep" (nested depth)

/-- The session when its first line is read. -/
def throwingSession (depth : Nat) : State := { (deepSession depth).print prompt with input := "1\n".toList }

theorem deepSession_nextLine (depth : Nat) :
    ((deepSession depth).print prompt).nextLine = .line "(throw deep)" "1\n".toList := by rfl

theorem rep_throwDeep (depth : Nat) : ∃ shown, ∀ n ≥ 3, Session.rep n "(throw deep)" (throwingSession depth) =
    .fault (.thrown (nested depth) shown) (throwingSession depth) := by
  have hread : Source.readAll "(throw deep)" = ⟨[.ofList [.symbol "throw", .symbol "deep"]], none, []⟩ := by rfl
  obtain ⟨shown, hshown⟩ := exists_inspect_nested (throwingSession depth).cells depth
  have hget : ∀ name, (throwingSession depth).get? rootFrame name = (deepSession depth).get? rootFrame name :=
    fun _ => rfl
  have hthrow : (throwingSession depth).get? rootFrame "throw" = some (.primitive .throw false .nil) :=
    (hget _).trans (State.get?_define_ne (by decide) rootFrame rootFrame)
  have hbound : (throwingSession depth).get? rootFrame "deep" = some (nested depth) :=
    (hget _).trans (State.get?_define_self (by decide))
  refine ⟨shown, fun n hn => ?_⟩
  obtain ⟨n, rfl⟩ := Nat.exists_eq_add_of_le' hn
  have harg : evaluate (n + 2) (.symbol "deep") rootFrame (throwingSession depth) =
      .value (nested depth) (throwingSession depth) := evaluate_symbol hbound (n + 1)
  rw [Session.rep_eq_evaluate hread]
  exact Run.bind_eq_fault.2 (.inl ((evaluate_call_one rfl hthrow rfl harg .nil).trans (throw_ok hshown rootFrame)))

theorem not_reportable_nested {depth : Nat} (hthrown : 3 * depth < 10000) (hdeep : 10000 ≤ 4 * depth) (shown : String) :
    ¬Reportable (.thrown (nested depth) shown) (throwingSession depth) := by
  intro h
  have hcalls := h _ _ rfl
  rw [calls_nested, calls_nested] at hcalls
  have hlimit : (throwingSession depth).callLimit = 10000 := rfl
  simp only [Value.Nesting.inspection, Value.Nesting.text, hlimit] at hcalls
  omega

/-- A value that can be thrown, but not written, ends the loop before the next line. -/
theorem promptLoop_deepSession {depth : Nat} (hthrown : 3 * depth < 10000) (hdeep : 10000 ≤ 4 * depth) :
    LinesEnd (deepSession depth) ∧
      ∃ t, t.lines = ["1"] ∧ ∀ n ≥ 3, promptLoop n n (deepSession depth) = .fault .endlessText t := by
  have hnext := deepSession_nextLine depth
  obtain ⟨shown, hrep⟩ := rep_throwDeep depth
  have hunreportable := not_reportable_nested hthrown hdeep shown
  have hfirst : ∀ rows v, Rounds (deepSession depth) rows v → v = deepSession depth := by
    intro rows v hrounds
    cases hrounds with
    | none => rfl
    | next hround _ =>
      cases hround with
      | intro hline hcomes _ hanswers =>
        cases hnext.symm.trans hline
        cases (Session.rep_climbs "(throw deep)").unique hcomes ⟨3, hrep 3 (Nat.le_refl 3), trivial⟩
        cases hanswers with
        | fault htext =>
          rw [(describe_of_rep (hrep 3 (Nat.le_refl 3))).2 hunreportable] at htext
          cases htext
  refine ⟨fun rows v line rest hv hline => ?_, throwingSession depth, rfl, fun n hn => ?_⟩
  · obtain rfl := hfirst rows v hv
    cases hnext.symm.trans hline
    exact ⟨_, 3, hrep 3 (Nat.le_refl 3), trivial⟩
  · obtain ⟨k, rfl⟩ := Nat.exists_eq_add_of_le' (Nat.le_of_lt hn)
    have hfails : evalLine (k + 2) "(throw deep)" { (deepSession depth).print prompt with input := "1\n".toList } =
        .fault .endlessText (throwingSession depth) := evalLine_of_not_reportable (hrep _ hn) hunreportable
    rw [promptLoop, Run.bind_apply, promptOnce_of_line hnext, Run.bind_apply, hfails]

/-- So the loop does not process all lines, although the evaluation of every line ends. -/
theorem promptLoop_deepValue : (deepSession 2800).inputEnded = true ∧ LinesEnd (deepSession 2800) ∧
    ∃ t, t.lines = ["1"] ∧ ∀ n ≥ 3, promptLoop n n (deepSession 2800) = .fault .endlessText t :=
  ⟨rfl, promptLoop_deepSession (by decide) (by decide)⟩

end CommandLine

end SmallLisp
