/-
A parser reads its text once, whatever it is asked.

Whatever was asked of it, a parser is in one of two stages: as it was made, or with the
entries of its text handed on and the verdict put down.  `ask_stage` says that a query
never leads anywhere else.  The first `check` takes it from the one stage to the other,
and no query brings it back or hands anything on again; so every answer of a run, of any
length and in any order, is told by whether there has been a `check` up to then, and by
the one verdict on the text.
-/
import TensorText.Parser
import TensorText.Proofs.Sinks

namespace TensorText.Parser

variable {σ : Type} [Sink σ]

/-! ### What is asked, and what there is to say -/

/-- Answers queries one after another. -/
def askAll (p : Parser σ) : List Query → Parser σ × List Answer
  | [] => (p, [])
  | q :: qs =>
    let (p, answer) := p.ask q
    let (p, answers) := p.askAll qs
    (p, answer :: answers)

/-- What a verdict says to a query.  Before there is one, nothing has been read and nothing
is wrong. -/
def Query.answer (verdict : Option (Except Diagnostic Unit)) : Query → Answer
  | .isRead => .flag verdict.isSome
  | .check | .isSound =>
    .flag (match verdict with
      | some (.error _) => false
      | _ => true)
  | .complaint =>
    .text (match verdict with
      | some (.error d) => d.message
      | _ => "")
  | .fault =>
    .diagnostic (match verdict with
      | some (.error d) => some d
      | _ => none)

/-- The parser after a query. -/
def after (p : Parser σ) (q : Query) : Parser σ := if q = .check then p.read else p

/-- Every answer is what the verdict says, and a `check` looks for one first. -/
theorem ask_eq (p : Parser σ) (q : Query) : p.ask q = (p.after q, q.answer (p.after q).verdict) := by
  have hsound : ∀ p : Parser σ, Answer.flag p.isSound = Query.isSound.answer p.verdict := by
    intro p
    unfold isSound fault? Query.answer
    rcases p.verdict with _ | _ | _ <;> rfl
  cases q with
  | check => exact congrArg (Prod.mk p.read) (hsound p.read)
  | isRead => rfl
  | isSound => exact congrArg (Prod.mk p) (hsound p)
  | complaint =>
      simp only [ask, after, reduceCtorEq, if_false, complaint, fault?, Query.answer]
      rcases p.verdict with _ | _ | _ <;> rfl
  | fault => rfl

/-! ### The two stages of a parser -/

/-- A parser for a text before it was read, and after. -/
def stage (text : String) (sink : σ) (options : Options) : Bool → Parser σ
  | false => new text sink options
  | true =>
    ⟨text, options, (handed text options).foldl Sink.push sink, some (judged text options)⟩

section Stages

variable (text : String) (sink : σ) (options : Options)

theorem verdict_stage (isRead : Bool) : (stage text sink options isRead).verdict =
    if isRead then some (judged text options) else none := by
  cases isRead <;> rfl

theorem sink_stage (isRead : Bool) : (stage text sink options isRead).sink =
    if isRead then (handed text options).foldl Sink.push sink else sink := by
  cases isRead <;> rfl

/-- The text is read in the first stage only. -/
theorem read_stage (isRead : Bool) :
    (stage text sink options isRead).read = stage text sink options true := by
  cases isRead with
  | true => rfl
  | false =>
      have hread := scanText_eq_foldl text sink options
      simp only [stage, read, new, hread]
      rfl

theorem after_stage (isRead : Bool) (q : Query) :
    (stage text sink options isRead).after q =
      stage text sink options (isRead || q == .check) := by
  by_cases hq : q = .check
  · rw [after, if_pos hq, read_stage, hq]
    simp
  · rw [after, if_neg hq, beq_false_of_ne hq, Bool.or_false]

/-- **No query leads out of the two stages**, and only the first `check` leads from the one to
the other. -/
theorem ask_stage (isRead : Bool) (q : Query) :
    (stage text sink options isRead).ask q =
      (stage text sink options (isRead || q == .check),
        q.answer (if isRead || q == .check then some (judged text options) else none)) := by
  rw [ask_eq, after_stage, verdict_stage]

/-! ### Runs of queries -/

theorem check_mem_cons (q : Query) (qs : List Query) :
    decide (.check ∈ q :: qs) = (q == .check || decide (.check ∈ qs)) := by
  cases q <;> simp

theorem askAll_stage (isRead : Bool) (qs : List Query) :
    ((stage text sink options isRead).askAll qs).1 =
      stage text sink options (isRead || decide (.check ∈ qs)) := by
  induction qs generalizing isRead with
  | nil => simp [askAll]
  | cons q qs ih =>
      rw [askAll, ask_stage, check_mem_cons, ← Bool.or_assoc]
      exact ih _

/-- The answer at any point of a run is told by whether there was a `check` up to it. -/
theorem getElem?_askAll (isRead : Bool) {qs : List Query} {i : Nat} {q : Query}
    (h : qs[i]? = some q) :
    ((stage text sink options isRead).askAll qs).2[i]? = some (q.answer
      (if isRead || decide (.check ∈ qs.take (i + 1)) then some (judged text options)
        else none)) := by
  induction qs generalizing isRead i with
  | nil => cases h
  | cons p qs ih =>
      rw [askAll, ask_stage, List.take_succ_cons, check_mem_cons, ← Bool.or_assoc]
      cases i with
      | zero =>
          obtain rfl : p = q := by simpa using h
          simp
      | succ i => exact ih (isRead || p == .check) h

end Stages

theorem length_askAll (p : Parser σ) (qs : List Query) :
    (p.askAll qs).2.length = qs.length := by
  induction qs generalizing p with
  | nil => rfl
  | cons q qs ih =>
      rw [askAll, List.length_cons, List.length_cons]
      exact congrArg (· + 1) (ih _)

/--
**A parser reads its text at most once, and has one verdict on it.**  In a run of queries,
an answer before the first `check` says that nothing was read and nothing is wrong, and
every other one says what a fresh reading of the text would; the sink has then been
handed the entries of one reading, however many queries follow.  Giving up the parser
yields that verdict and that sink at any time.
-/
theorem askAll_new (text : String) (sink : σ) (options : Options) (qs : List Query) :
    ((new text sink options).askAll qs).2.length = qs.length ∧
      (∀ (i : Nat) (q : Query), qs[i]? = some q →
        ((new text sink options).askAll qs).2[i]? = some (q.answer
          (if .check ∈ qs.take (i + 1) then some (judged text options) else none))) ∧
      ((new text sink options).askAll qs).1.sink =
        (if .check ∈ qs then (handed text options).foldl Sink.push sink else sink) ∧
      ((new text sink options).askAll qs).1.finish =
        ⟨(handed text options).foldl Sink.push sink, judged text options⟩ ∧
      ∀ (τ : Type) [Sink τ] (fresh : τ), scanText text fresh options =
        ⟨(handed text options).foldl Sink.push fresh, judged text options⟩ := by
  have hnew : new text sink options = stage text sink options false := rfl
  rw [hnew]
  refine ⟨length_askAll _ qs, ?_, ?_, ?_, fun τ _ fresh => scanText_eq_foldl text fresh options⟩
  · intro i q hq
    rw [getElem?_askAll text sink options false hq]
    simp
  · rw [askAll_stage, sink_stage]
    simp
  · rw [askAll_stage, finish, read_stage]
    rfl

/-- The first tensor is handed on once, although the text was asked for twice. -/
example : (new "\x7b\"a\":\";\"" ([] : List Entry) {}).askAll [.isRead, .check, .check, .fault] =
    (⟨"\x7b\"a\":\";\"", {}, [⟨"a", [], []⟩], some (.error ⟨⟨1, 10⟩, .ended '}'⟩)⟩,
      [.flag false, .flag false, .flag false, .diagnostic (some ⟨⟨1, 10⟩, .ended '}'⟩)]) := by
  cbv

end TensorText.Parser
