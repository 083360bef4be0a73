/-
What the requests of a `Settings` answer.

A request logs on its way, and what it answers does not depend on the log.  So each answer
is told without it: reading a feature string yields what reading a text does, and the
tensors of a feature string are the entries of its document, each read as a tensor.

Writing and reading have been taken apart into layers, and each layer is undone by its
counterpart.  Put together, tensors that are written as a text come back from it.
-/
import TensorText.Features
import TensorText.Proofs.Canonical
import TensorText.Proofs.Sinks
import TensorText.Proofs.Tensor

namespace TensorText

open Grammar

/-! ### Answers without their logs -/

namespace Logged

variable {α β : Type}

@[simp] theorem value_bind (x : Logged α) (f : α → Logged β) :
    (x >>= f).value = (f x.value).value := rfl

end Logged

/-- Reading a feature string hands on what reading its text does. -/
theorem value_readText {σ : Type} [Sink σ] (text : Option String) (sink : σ)
    (options : Options) : (readText text sink options).value =
      ⟨(handed (text.getD "") options).foldl Sink.push sink,
        (judged (text.getD "") options).mapError .malformed⟩ := by
  simp only [readText, Logged.value_bind, scanText_eq_foldl _ sink]
  unfold judged
  cases (scanText (text.getD "") Document.empty options).verdict with
  | error d => rfl
  | ok _ => rfl

theorem value_decode (c : Context) : c.decode.value = c.tensors := by
  unfold Context.decode
  cases c.tensors with
  | error fault => rfl
  | ok ts => rfl

namespace Settings

theorem value_read {s : Settings} (hs : s.enabled = true) {σ : Type} [Sink σ]
    (text : Option String) (sink : σ) : (s.read text sink).value =
      ⟨(handed (text.getD "") s.options).foldl Sink.push sink,
        (judged (text.getD "") s.options).mapError .malformed⟩ := by
  rw [read, if_pos hs, value_readText]

/-- A text is parsed as the document it spells. -/
theorem value_parse (s : Settings) (text : String) :
    (s.parse text).value = (Document.ofText text s.options).mapError .malformed := by
  simp only [parse, Logged.value_bind, value_readText, Option.getD_some, ofText_eq_map,
    foldl_push_empty]
  unfold judged
  cases (scanText text Document.empty s.options).verdict with
  | error d => rfl
  | ok _ => rfl

/-- **The tensors of a feature string are those of its document.** -/
theorem value_tensors {s : Settings} (hs : s.enabled = true) (text : Option String) :
    (s.tensors text).value =
      ((Document.ofText (text.getD "") s.options).mapError .malformed >>= fun doc =>
        (Context.mk doc.entries).tensors.mapError .notTensor) := by
  have hcontext : (handed (text.getD "") s.options).foldl Sink.push Context.empty =
      ⟨handed (text.getD "") s.options⟩ := foldl_push_context _ Context.empty
  simp only [tensors, Logged.value_bind, value_read hs, hcontext, ofText_eq_map]
  unfold judged
  cases (scanText (text.getD "") Document.empty s.options).verdict with
  | error d => rfl
  | ok _ =>
      simp only [Except.map, Except.mapError, ok_bind, Logged.value_bind, value_decode]
      cases (Context.mk (handed (text.getD "") s.options)).tensors with
      | error fault => rfl
      | ok ts => rfl

theorem value_tensorsFor (s : Settings) (model : BoundModel) (text : Option String) :
    (s.tensorsFor (some model) text).value =
      ((s.tensors text).value >>= fun ts =>
        match ts.find? fun t => !model.signature.takes t.name with
        | some unknown => .error (.unknownInput unknown.name)
        | none => .ok ts) := by
  simp only [tensorsFor, Logged.value_bind]
  cases (s.tensors text).value with
  | error failure => rfl
  | ok ts =>
      simp only [ok_bind]
      cases ts.find? fun t => !model.signature.takes t.name with
      | some unknown => rfl
      | none => rfl

/-! ### Tensors that were written -/

theorem value_tensors_encode {s : Settings} (hs : s.enabled = true) {ts : List Tensor}
    (hts : ∀ t ∈ ts, IsName t.name.toList) :
    (s.tensors (some (encodeEntries (ts.map Tensor.toEntry)))).value = .ok ts := by
  have hnames : ∀ e ∈ ts.map Tensor.toEntry, IsName e.name.toList :=
    List.forall_mem_map.mpr hts
  have hcontext := Context.tensors_ofTensors ts
  rw [value_tensors hs, Option.getD_some, ofText_encodeEntries hnames]
  exact congrArg (Except.mapError Failure.notTensor) hcontext

/--
**Tensors come back from their text bit by bit.**  Whatever their shapes and the bits of
their values, tensors whose names can stand in a text are written as one, and reading it
as a feature string yields the same tensors in the same order; a model that has all the
inputs gets them so too.
-/
theorem tensors_encodeEntries {s : Settings} (hs : s.enabled = true) (ts : List Tensor)
    (hts : ∀ t ∈ ts, IsName t.name.toList) :
    (s.tensors (some (encodeEntries (ts.map Tensor.toEntry)))).value = .ok ts ∧
      ∀ model : BoundModel, (∀ t ∈ ts, t.name ∈ model.signature.inputs) →
        (s.tensorsFor (some model) (some (encodeEntries (ts.map Tensor.toEntry)))).value =
          .ok ts := by
  have hread := value_tensors_encode hs hts
  refine ⟨hread, ?_⟩
  intro model hinputs
  have hknown : (ts.find? fun t => !model.signature.takes t.name) = none := by
    rw [List.find?_eq_none]
    intro t ht
    simpa [Signature.takes] using hinputs t ht
  rw [value_tensorsFor, hread, ok_bind, hknown]

/-- A number that is none, a shape with a zero and one of seven axes, and a name with a quote. -/
theorem tensors_encodeEntries_nan : ∃ ts : List Tensor,
    ts.map Tensor.name = ["\\\"\\", "z", "r"] ∧
      ts.map Tensor.shape = [[], [3, 0], [1, 1, 1, 1, 1, 1, 2]] ∧
      ts.map Tensor.values = [[⟨0x7fc12345⟩], [], [⟨0x80000000⟩, ⟨0xff800000⟩]] ∧
      (default.tensors (some (encodeEntries (ts.map Tensor.toEntry)))).value = .ok ts ∧
      (default.tensorsFor (some ⟨⟨["z", "\\\"\\", "r"], ["output"]⟩, 0⟩)
        (some (encodeEntries (ts.map Tensor.toEntry)))).value = .ok ts := by
  refine ⟨[⟨"\\\"\\", [], [⟨0x7fc12345⟩], rfl⟩, ⟨"z", [3, 0], [], rfl⟩,
    ⟨"r", [1, 1, 1, 1, 1, 1, 2], [⟨0x80000000⟩, ⟨0xff800000⟩], rfl⟩], rfl, rfl, rfl, ?_⟩
  refine ⟨(tensors_encodeEntries rfl _ ?_).1, (tensors_encodeEntries rfl _ ?_).2 _ ?_⟩
  · decide
  · decide
  · decide

end Settings

end TensorText
