/-
What a context holds, and what it hands out.

Whatever is done to a context, it holds a row of entries: those it last began anew with, and
behind them what was pushed or read since, also by readings that failed.  `entries_perform` says
so of one action and the run lemmas say it of any number of them.

From the entries alone follows what it hands out.  Entry by entry the tensors are undone by
writing them, so a context hands out tensors exactly if what it holds is their entries; and if
one entry is no tensor, the first such decides, whatever comes behind it.
-/
import TensorText.Proofs.Features
import TensorText.Proofs.Payload
import TensorText.Proofs.Steps

namespace TensorText

namespace Context

/-- What can be done with a context. -/
inductive Action
  /-- Put one entry behind the others. -/
  | push (e : Entry)
  /-- Scan a text into it. -/
  | scan (text : String) (options : Options)
  /-- Read a text that may be absent into it. -/
  | read (text : Option String)
  /-- Drop everything. -/
  | clear
  /-- Begin anew with the entries of tensors. -/
  | replace (ts : List Tensor)
  /-- Turn all entries into tensors. -/
  | decode

/-- What an action answers. -/
inductive Outcome
  | done
  | scanned (verdict : Except Diagnostic Unit)
  | read (verdict : Except Failure Unit)
  | decoded (result : Except InputFault (List Tensor))

/-- Does one action. -/
def perform (c : Context) : Action → Logged (Context × Outcome)
  | .push e => return (Sink.push c e, .done)
  | .scan text options =>
    let reading := scanText text c options
    return (reading.sink, .scanned reading.verdict)
  | .read text => do
    let reading ← readText text c {}
    return (reading.sink, .read reading.verdict)
  | .clear => return (empty, .done)
  | .replace ts => return (ofTensors ts, .done)
  | .decode => return (c, .decoded (← c.decode))

/-- The context after a run of actions. -/
def after (c : Context) : List Action → Context
  | [] => c
  | action :: actions => ((c.perform action).value.1).after actions

/-! ### What a context holds -/

namespace Action

/-- The entries that an action puts behind those that are there. -/
def added : Action → List Entry
  | .push e => [e]
  | .scan text options => handed text options
  | .read text => handed (text.getD "") {}
  | .clear | .replace _ | .decode => []

/-- The entries that an action begins anew with, if it does. -/
def anew? : Action → Option (List Entry)
  | .clear => some []
  | .replace ts => some (ts.map Tensor.toEntry)
  | .push _ | .scan .. | .read _ | .decode => none

theorem added_of_anew {action : Action} {es : List Entry} (h : action.anew? = some es) :
    action.added = [] := by
  cases action with
  | clear | replace ts => rfl
  | push e | scan text options | read text | decode => cases h

end Action

/-- **An action keeps the entries or begins anew, and adds its own.** -/
theorem entries_perform (c : Context) (action : Action) :
    (c.perform action).value.1.entries = action.anew?.getD c.entries ++ action.added := by
  cases action with
  | push e => rfl
  | scan text options =>
      show (scanText text c options).sink.entries = c.entries ++ handed text options
      rw [scanText_eq_foldl, foldl_push_context]
  | read text =>
      show (readText text c {}).value.sink.entries = c.entries ++ handed (text.getD "") {}
      rw [value_readText, foldl_push_context]
  | clear => rfl
  | replace ts => exact (List.append_nil _).symm
  | decode => exact (List.append_nil _).symm

theorem after_append (c : Context) (actions actions' : List Action) :
    c.after (actions ++ actions') = (c.after actions).after actions' := by
  induction actions generalizing c with
  | nil => rfl
  | cons action actions ih => exact ih _

/-- A run of actions that never begins anew puts its entries behind those that are there. -/
theorem entries_after {c : Context} {actions : List Action}
    (h : ∀ a ∈ actions, a.anew? = none) :
    (c.after actions).entries = c.entries ++ actions.flatMap Action.added := by
  induction actions generalizing c with
  | nil => exact (List.append_nil _).symm
  | cons action actions ih =>
      obtain ⟨haction, hactions⟩ := List.forall_mem_cons.mp h
      rw [after, ih hactions, entries_perform, haction, Option.getD_none, List.flatMap_cons,
        List.append_assoc]

/-- What was done before a context last began anew has left nothing in it. -/
theorem entries_after_anew {c : Context} {before actions : List Action} {action : Action}
    {es : List Entry} (hanew : action.anew? = some es) (h : ∀ a ∈ actions, a.anew? = none) :
    (c.after (before ++ action :: actions)).entries = es ++ actions.flatMap Action.added := by
  rw [after_append, after, entries_after h, entries_perform, hanew, Option.getD_some,
    Action.added_of_anew hanew, List.append_nil]

/-! ### What a context hands out -/

theorem perform_decode (c : Context) : (c.perform .decode).value = (c, .decoded c.tensors) := by
  rw [perform, Logged.value_bind, value_decode]
  rfl

theorem tensors_eq_ok_iff {c : Context} {ts : List Tensor} : c.tensors = .ok ts ↔
    List.Forall₂ (fun e t => Tensor.ofEntry e = .ok t) c.entries ts :=
  mapM_eq_ok

/-- **A context hands out the tensors whose entries it holds.** -/
theorem tensors_eq_ok_iff_map {c : Context} {ts : List Tensor} :
    c.tensors = .ok ts ↔ ts.map Tensor.toEntry = c.entries := by
  have hentry : (fun (e : Entry) (t : Tensor) => Tensor.ofEntry e = .ok t) =
      fun e t => e = t.toEntry := by
    funext e t
    exact propext (Tensor.ofEntry_eq_ok_iff.trans eq_comm)
  rw [tensors_eq_ok_iff, hentry, ← List.forall₂_map_right_iff, List.forall₂_eq_eq_eq, eq_comm]

theorem exists_tensors_iff {c : Context} :
    (∃ ts, c.tensors = .ok ts) ↔ ∀ e ∈ c.entries, ∃ t, Tensor.ofEntry e = .ok t := by
  constructor
  · rintro ⟨ts, h⟩ e he
    rw [← tensors_eq_ok_iff_map.mp h] at he
    obtain ⟨t, -, rfl⟩ := List.mem_map.mp he
    exact ⟨t, Tensor.ofEntry_toEntry t⟩
  · intro h
    cases htensors : c.tensors with
    | ok ts => exact ⟨ts, rfl⟩
    | error fault =>
        obtain ⟨before, e, behind, hsplit, -, hfault⟩ := mapM_eq_error.mp htensors
        obtain ⟨t, ht⟩ := h e (by rw [hsplit]; simp)
        rw [ht] at hfault
        cases hfault

/--
**What a context hands out, whatever was done to it.**  It holds the entries it last began anew
with and behind them, in order, what was pushed and what readings handed on since, the failed
ones included.  Asked for tensors it stays as it is.  It hands out one for each entry, in order,
exactly if each entry is one, and these are the tensors that are written as its entries;
otherwise it answers with the fault of the first entry that is none, whatever the later ones
are.  A context that begins with tensors hands out these.
-/
theorem decode_after (c : Context) (actions : List Action) :
    ((∀ a ∈ actions, a.anew? = none) →
      (c.after actions).entries = c.entries ++ actions.flatMap Action.added) ∧
    (∀ before action later es, actions = before ++ action :: later → action.anew? = some es →
      (∀ a ∈ later, a.anew? = none) →
        (c.after actions).entries = es ++ later.flatMap Action.added) ∧
    ((c.after actions).perform .decode).value =
      (c.after actions, .decoded (c.after actions).tensors) ∧
    ((∃ ts, (c.after actions).tensors = .ok ts) ↔
      ∀ e ∈ (c.after actions).entries, ∃ t, Tensor.ofEntry e = .ok t) ∧
    (∀ ts, (c.after actions).tensors = .ok ts ↔
      List.Forall₂ (fun e t => Tensor.ofEntry e = .ok t) (c.after actions).entries ts) ∧
    (∀ ts, (c.after actions).tensors = .ok ts ↔
      ts.map Tensor.toEntry = (c.after actions).entries) ∧
    (∀ fault, (c.after actions).tensors = .error fault ↔ ∃ before e behind,
      (c.after actions).entries = before ++ e :: behind ∧
        (∀ x ∈ before, ∃ t, Tensor.ofEntry x = .ok t) ∧ Tensor.ofEntry e = .error fault) ∧
    ∀ ts, (ofTensors ts).tensors = .ok ts := by
  refine ⟨entries_after, ?_, perform_decode _, exists_tensors_iff, fun ts => tensors_eq_ok_iff,
    fun ts => tensors_eq_ok_iff_map, fun fault => mapM_eq_error, tensors_ofTensors⟩
  rintro before action later es rfl hanew hlater
  exact entries_after_anew hanew hlater

/-- An entry that is no tensor is dropped.  Then a reading fails behind its first tensor, which
stays, and stands before one that was pushed twice and is ragged. -/
theorem decode_after_clear : ∃ c : Context,
    c = empty.after [.push ⟨"x", [1], []⟩, .clear, .scan "\x7b\"a\":\"AAAAAAAAAAA=;\",\"b\"" {},
      .push ⟨"b", [], [0]⟩, .push ⟨"b", [], [0]⟩] ∧
    c.entries = [⟨"a", List.replicate 8 0, []⟩, ⟨"b", [], [0]⟩, ⟨"b", [], [0]⟩] ∧
    c.tensors = .error ⟨"b", .raggedValues 1⟩ := by
  have h := decode_after empty [.push ⟨"x", [1], []⟩, .clear,
    .scan "\x7b\"a\":\"AAAAAAAAAAA=;\",\"b\"" {}, .push ⟨"b", [], [0]⟩, .push ⟨"b", [], [0]⟩]
  have hhanded : handed "\x7b\"a\":\"AAAAAAAAAAA=;\",\"b\"" {} =
      [⟨"a", List.replicate 8 0, []⟩] := by cbv
  have hentries := h.2.1 [.push ⟨"x", [1], []⟩] .clear _ [] rfl rfl (by simp [Action.anew?])
  simp only [List.flatMap_cons, List.flatMap_nil, Action.added, hhanded] at hentries
  refine ⟨_, rfl, hentries, (h.2.2.2.2.2.2.1 _).mpr ?_⟩
  refine ⟨[⟨"a", List.replicate 8 0, []⟩], ⟨"b", [], [0]⟩, [⟨"b", [], [0]⟩], hentries, ?_, rfl⟩
  intro e he
  rw [List.mem_singleton.mp he]
  exact ⟨⟨"a", [0], [], rfl⟩, rfl⟩

end Context

end TensorText
