/-
Which model a session holds.

Two kinds of requests change it: one that accepts a model which has the output asked for, and
one that lets go of it.  `step_eq_self` says that no other request leaves a trace, a refused
model included; so what a session holds after any run of requests was settled by the last
request of these two kinds, and `after_last` finds it there.  A model is only ever bound
at the first of its outputs that bears the name in the settings, and the settings never
change, so its output can be asked for by index as long as it is held.
-/
import TensorText.Proofs.Features
import TensorText.Session

namespace TensorText

/-! ### Accepting a model -/

/-- The model is asked for its first output of this name. -/
structure BoundModel.Asked (m : BoundModel) (name : String) : Prop where
  output_eq : m.output = name
  ne_of_lt : ∀ j < m.index, m.signature.outputs[j] ≠ name

namespace Settings

theorem value_accept_of_mem {s : Settings} {signature : Signature}
    (h : s.output ∈ signature.outputs) :
    ∃ m : BoundModel, (s.accept signature).value = .ok m ∧ m.signature = signature ∧
      m.Asked s.output := by
  unfold accept
  cases hfind : signature.findOutput? s.output with
  | none => exact absurd h (List.finIdxOf?_eq_none_iff.mp hfind)
  | some index =>
      obtain ⟨houtput, hfirst⟩ := List.finIdxOf?_eq_some_iff.mp hfind
      exact ⟨⟨signature, index⟩, rfl, rfl, houtput, hfirst⟩

theorem value_accept_of_not_mem {s : Settings} {signature : Signature}
    (h : s.output ∉ signature.outputs) :
    (s.accept signature).value = .error (.noOutput s.output) := by
  have hfind : signature.findOutput? s.output = none := List.finIdxOf?_eq_none_iff.mpr h
  rw [accept, hfind]
  rfl

end Settings

/-- Whether a request changes which model is bound where models are asked for this output. -/
def Request.rebinds (output : String) : Request → Bool
  | .accept signature => signature.outputs.contains output
  | .release => true
  | .parse _ | .parseSource _ | .read _ | .tensors _ | .tensorsForModel _ => false

theorem Request.rebinds_iff {output : String} {request : Request} :
    request.rebinds output = true ↔ request = .release ∨
      ∃ signature : Signature, request = .accept signature ∧ output ∈ signature.outputs := by
  cases request <;> simp [rebinds]

namespace Session

/-! ### One request -/

variable {s : Session}

theorem value_step_accept (s : Session) (signature : Signature) :
    (s.step (.accept signature)).value =
      match (s.settings.accept signature).value with
      | .error failure => (s, .model (.error failure))
      | .ok m => ({ s with model := some m }, .model (.ok m.signature)) := by
  simp only [step, Logged.value_bind]
  cases (s.settings.accept signature).value with
  | error failure => rfl
  | ok m => rfl

/-- A model that has the output takes the place of the one before. -/
theorem value_step_of_mem {signature : Signature} (h : s.settings.output ∈ signature.outputs) :
    ∃ m : BoundModel, m.signature = signature ∧ m.Asked s.settings.output ∧
      (s.step (.accept signature)).value =
        ({ s with model := some m }, .model (.ok signature)) := by
  obtain ⟨m, hm, rfl, hasked⟩ := Settings.value_accept_of_mem h
  exact ⟨m, rfl, hasked, by rw [value_step_accept, hm]⟩

/-- A model that lacks the output is refused. -/
theorem value_step_of_not_mem {signature : Signature}
    (h : s.settings.output ∉ signature.outputs) :
    (s.step (.accept signature)).value =
      (s, .model (.error (.noOutput s.settings.output))) := by
  rw [value_step_accept, Settings.value_accept_of_not_mem h]

theorem accept_ok_iff {signature : Signature} :
    (s.step (.accept signature)).value.2 = .model (.ok signature) ↔
      s.settings.output ∈ signature.outputs := by
  constructor
  · intro h
    by_contra hnot
    rw [value_step_of_not_mem hnot] at h
    cases h
  · intro h
    obtain ⟨m, -, -, hstep⟩ := value_step_of_mem h
    rw [hstep]

/-- **A request that does not rebind leaves the session as it is.** -/
theorem step_eq_self {request : Request} (h : request.rebinds s.settings.output = false) :
    (s.step request).value.1 = s := by
  cases request with
  | accept signature =>
      have hnot : s.settings.output ∉ signature.outputs := by simpa [Request.rebinds] using h
      rw [value_step_of_not_mem hnot]
  | release => cases h
  | parse text => rfl
  | parseSource source => rfl
  | read text => rfl
  | tensors text => rfl
  | tensorsForModel text => rfl

theorem settings_step (s : Session) (request : Request) :
    (s.step request).value.1.settings = s.settings := by
  cases h : request.rebinds s.settings.output with
  | false => rw [step_eq_self h]
  | true =>
      obtain rfl | ⟨signature, rfl, hmem⟩ := Request.rebinds_iff.mp h
      · rfl
      · obtain ⟨m, -, -, hstep⟩ := value_step_of_mem hmem
        rw [hstep]

/-! ### Runs of requests -/

/-- Answers requests one after another. -/
def answerAll (s : Session) : List Request → Logged (Session × List Reply)
  | [] => return (s, [])
  | request :: requests => do
    let (s, reply) ← s.step request
    let (s, replies) ← s.answerAll requests
    return (s, reply :: replies)

/-- The session after a run of requests. -/
def after (s : Session) (requests : List Request) : Session := (s.answerAll requests).value.1

theorem after_cons (s : Session) (request : Request) (requests : List Request) :
    s.after (request :: requests) = (s.step request).value.1.after requests := rfl

theorem after_append (s : Session) (requests requests' : List Request) :
    s.after (requests ++ requests') = (s.after requests).after requests' := by
  induction requests generalizing s with
  | nil => rfl
  | cons request requests ih => exact ih _

theorem settings_after (s : Session) (requests : List Request) :
    (s.after requests).settings = s.settings := by
  induction requests generalizing s with
  | nil => rfl
  | cons request requests ih => rw [after_cons, ih, settings_step]

/-- A run without a request that rebinds leaves the session as it is. -/
theorem after_eq_self {requests : List Request}
    (h : ∀ r ∈ requests, r.rebinds s.settings.output = false) : s.after requests = s := by
  induction requests with
  | nil => rfl
  | cons request requests ih =>
      obtain ⟨hrequest, hrequests⟩ := List.forall_mem_cons.mp h
      rw [after_cons, step_eq_self hrequest, ih hrequests]

/-- A property holds nowhere in a list, or there is a last item that has it. -/
theorem none_or_last {α : Type} (p : α → Bool) (l : List α) :
    (∀ x ∈ l, p x = false) ∨ ∃ (before : List α) (x : α) (after : List α),
      l = before ++ x :: after ∧ p x = true ∧ ∀ y ∈ after, p y = false := by
  induction l with
  | nil => exact Or.inl (by simp)
  | cons a l ih =>
      rcases ih with hnone | ⟨before, x, after, rfl, hx, hafter⟩
      · cases ha : p a with
        | false => exact Or.inl (List.forall_mem_cons.mpr ⟨ha, hnone⟩)
        | true => exact Or.inr ⟨[], a, l, rfl, ha, hnone⟩
      · exact Or.inr ⟨a :: before, x, after, rfl, hx, hafter⟩

/-- What is bound after a run was bound by the last request that rebinds. -/
theorem after_last {before after : List Request} {request : Request}
    (h : ∀ r ∈ after, r.rebinds s.settings.output = false) :
    s.after (before ++ request :: after) = ((s.after before).step request).value.1 := by
  rw [after_append, after_cons, after_eq_self]
  rw [settings_step, settings_after]
  exact h

/-! ### The model that is held -/

/-- The last model that was accepted, unless it was let go of. -/
def Binding (output : String) (requests : List Request) (signature : Signature) : Prop :=
  ∃ before after : List Request, requests = before ++ .accept signature :: after ∧
    output ∈ signature.outputs ∧ ∀ r ∈ after, r.rebinds output = false

section Runs

variable {settings : Settings} {requests : List Request}

/-- The model of a binding is held. -/
theorem exists_model_of_binding {signature : Signature}
    (h : Binding settings.output requests signature) :
    ∃ m : BoundModel, ((new settings).after requests).model = some m ∧
      m.signature = signature ∧ m.Asked settings.output := by
  obtain ⟨before, after, rfl, hmem, hafter⟩ := h
  have hsettings : ((new settings).after before).settings = settings := settings_after _ before
  rw [← hsettings] at hmem
  obtain ⟨m, hm, hasked, hstep⟩ := value_step_of_mem hmem
  rw [hsettings] at hasked
  refine ⟨m, ?_, hm, hasked⟩
  rw [after_last hafter, hstep]

/-- A model that is held comes from a binding. -/
theorem binding_of_model {m : BoundModel} (h : ((new settings).after requests).model = some m) :
    Binding settings.output requests m.signature ∧ m.Asked settings.output := by
  rcases none_or_last (Request.rebinds settings.output) requests with
    hnone | ⟨before, request, after, rfl, hrequest, hafter⟩
  · rw [after_eq_self hnone] at h
    cases h
  · obtain rfl | ⟨signature, rfl, hmem⟩ := Request.rebinds_iff.mp hrequest
    · rw [after_last hafter] at h
      cases h
    · have hbinding : Binding settings.output (before ++ .accept signature :: after) signature :=
        ⟨before, after, rfl, hmem, hafter⟩
      obtain ⟨m', hm', rfl, hasked⟩ := exists_model_of_binding hbinding
      rw [h] at hm'
      cases hm'
      exact ⟨hbinding, hasked⟩

end Runs

/--
**What a session holds, after any run of requests.**  A model is held exactly if there was one
that was accepted, and neither another was accepted nor it was let go of since; it is the last
such.  The index at which it is asked for its output is one of its outputs, the first that
bears the name in the settings.  At every point of a run a model is accepted exactly if it has
that output; a model that is refused changes nothing, no more than any other request that is
not there to let go of the model.
-/
theorem model_after (settings : Settings) (requests : List Request) :
    (∀ m : BoundModel, ((new settings).after requests).model = some m →
      (m.index : Nat) < m.signature.outputs.length ∧ m.output = settings.output ∧
        (∀ j < m.index, m.signature.outputs[j] ≠ settings.output) ∧
        Binding settings.output requests m.signature) ∧
    (∀ signature : Signature, Binding settings.output requests signature →
      ∃ m : BoundModel, ((new settings).after requests).model = some m ∧
        m.signature = signature) ∧
    (∀ signature : Signature,
      ((((new settings).after requests).step (.accept signature)).value.2 =
          .model (.ok signature) ↔ settings.output ∈ signature.outputs) ∧
      (settings.output ∉ signature.outputs →
        (((new settings).after requests).step (.accept signature)).value =
          ((new settings).after requests, .model (.error (.noOutput settings.output))))) ∧
    (Failure.noOutput settings.output).kind = .update ∧
    (∀ request : Request, request.rebinds settings.output = false →
      (((new settings).after requests).step request).value.1 = (new settings).after requests) ∧
    (((new settings).after requests).step .release).value.1.model = none := by
  have hsettings : ((new settings).after requests).settings = settings :=
    settings_after _ requests
  refine ⟨?_, ?_, ?_, rfl, ?_, rfl⟩
  · intro m hm
    obtain ⟨hbinding, hasked⟩ := binding_of_model hm
    exact ⟨m.index.isLt, hasked.output_eq, hasked.ne_of_lt, hbinding⟩
  · intro signature hbinding
    obtain ⟨m, hm, hsignature, -⟩ := exists_model_of_binding hbinding
    exact ⟨m, hm, hsignature⟩
  · intro signature
    refine ⟨by rw [accept_ok_iff, hsettings], fun hnot => ?_⟩
    rw [value_step_of_not_mem (by rw [hsettings]; exact hnot), hsettings]
  · intro request hrequest
    exact step_eq_self (by rw [hsettings]; exact hrequest)

/-- The output asked for stands twice among those of the first model; the second model lacks
it, and so does the third, which is refused after the first was let go of. -/
theorem model_after_refused :
    ((new .default).after [.accept ⟨["x"], ["logits", "output", "output"]⟩,
        .accept ⟨[], ["logits"]⟩, .tensorsForModel (some "\x7b")]).model =
          some ⟨⟨["x"], ["logits", "output", "output"]⟩, 1⟩ ∧
      (BoundModel.mk ⟨["x"], ["logits", "output", "output"]⟩ 1).output = "output" ∧
      Binding "output" [.accept ⟨["x"], ["logits", "output", "output"]⟩,
        .accept ⟨[], ["logits"]⟩, .tensorsForModel (some "\x7b")]
          ⟨["x"], ["logits", "output", "output"]⟩ ∧
      "output" ∉ ["logits"] ∧
      (((new .default).after [.accept ⟨["x"], ["output"]⟩, .release]).step
        (.accept ⟨[], ["logits"]⟩)).value =
          ((new .default).after [.accept ⟨["x"], ["output"]⟩, .release],
            .model (.error (.noOutput "output"))) ∧
      ((new .default).after [.accept ⟨["x"], ["output"]⟩, .release]).model = none := by
  have hheld : ((new .default).after [.accept ⟨["x"], ["logits", "output", "output"]⟩,
      .accept ⟨[], ["logits"]⟩, .tensorsForModel (some "\x7b")]).model =
        some ⟨⟨["x"], ["logits", "output", "output"]⟩, 1⟩ := rfl
  obtain ⟨-, houtput, -, hbinding⟩ := (model_after .default _).1 _ hheld
  have hlacks : "output" ∉ ["logits"] := by decide
  exact ⟨hheld, houtput, hbinding, hlacks,
    ((model_after .default _).2.2.1 ⟨[], ["logits"]⟩).2 hlacks, rfl⟩

end Session

end TensorText
