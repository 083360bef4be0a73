/-
What sinks have in common.

A reading hands its entries on and asks nothing back, so a sink has no say in it.  All
that a sink decides is what becomes of an entry that it is handed: a document, a list and
a context put it behind what they hold, a borrowed state passes it on to the place it
was lent out for, and a receiver does with it as it pleases.

For the same reason readings that follow each other do not disturb each other.  Whether
one fails has no bearing on the next, and the sink is handed the entries of all of them,
in the order of the texts.
-/
import TensorText.Context
import TensorText.Indirect
import TensorText.Proofs.Read

namespace TensorText

/-- The verdict of a reading of a text. -/
def judged (text : String) (options : Options) : Except Diagnostic Unit :=
  (scanText text Document.empty options).verdict

/-! ### What sinks make of entries -/

theorem foldl_push_list (es s : List Entry) : es.foldl Sink.push s = s ++ es :=
  @entries_foldl_push (List Entry) _ id (fun _ _ => rfl) es s

theorem foldl_push_context (es : List Entry) (c : Context) :
    es.foldl Sink.push c = ⟨c.entries ++ es⟩ :=
  congrArg Context.mk (entries_foldl_push (fun _ _ => rfl) es c)

namespace Borrowed

variable {ρ σ : Type}

@[simp] theorem target_put (b : Borrowed ρ σ) (s : σ) : (b.put s).target = s :=
  b.place.get_set b.whole s

@[simp] theorem put_target (b : Borrowed ρ σ) : b.put b.target = b :=
  congrArg (Borrowed.mk b.place) (b.place.set_get b.whole)

@[simp] theorem put_put (b : Borrowed ρ σ) (s s' : σ) : (b.put s).put s' = b.put s' :=
  congrArg (Borrowed.mk b.place) (b.place.set_set b.whole s s')

/-- Entries that are handed to a loan go to what was borrowed, and nowhere else. -/
theorem foldl_push [Sink σ] (es : List Entry) (b : Borrowed ρ σ) :
    es.foldl Sink.push b = b.put (es.foldl Sink.push b.target) := by
  induction es generalizing b with
  | nil => exact b.put_target.symm
  | cons e es ih =>
      have hpush : Sink.push b e = b.put (Sink.push b.target e) := rfl
      rw [List.foldl_cons, ih, hpush, target_put, put_put, List.foldl_cons]

end Borrowed

theorem Receiver.foldl_push {σ : Type} (es : List Entry) (r : Receiver σ) :
    es.foldl Sink.push r = ⟨r.receive, es.foldl r.receive r.state⟩ := by
  induction es generalizing r with
  | nil => rfl
  | cons e es ih =>
      rw [List.foldl_cons, ih]
      rfl

/-! ### Several readings into one sink -/

section Sequences

variable {σ : Type} [Sink σ]

/-- Scans texts into a sink one after another, each as strictly as it says, and collects
the verdicts. -/
def scanTexts (sink : σ) : List (String × Options) → σ × List (Except Diagnostic Unit)
  | [] => (sink, [])
  | (text, options) :: reads =>
    let reading := scanText text sink options
    let (sink, verdicts) := scanTexts reading.sink reads
    (sink, reading.verdict :: verdicts)

theorem scanTexts_eq (reads : List (String × Options)) (sink : σ) :
    scanTexts sink reads =
      ((reads.flatMap fun r => handed r.1 r.2).foldl Sink.push sink,
        reads.map fun r => judged r.1 r.2) := by
  induction reads generalizing sink with
  | nil => rfl
  | cons r reads ih =>
      obtain ⟨text, options⟩ := r
      rw [scanTexts, scanText_eq_foldl, ih, List.flatMap_cons, List.foldl_append]
      rfl

end Sequences

/--
**A reading only hands on, and it hands every sink the same.**  Its verdict and the
entries it hands on are told by the text and by how strictly it is read; the sink gets
these entries one by one, on top of what it holds and whether the reading fails or not.
-/
theorem scanText_of_any_sink :
    (∀ (text : String) (options : Options) (σ : Type) [Sink σ] (sink : σ),
      scanText text sink options =
        ⟨(handed text options).foldl Sink.push sink, judged text options⟩) ∧
    (∀ (text : String) (options : Options),
      (∀ d : Document,
        (scanText text d options).sink.entries = d.entries ++ handed text options) ∧
      (∀ es : List Entry, (scanText text es options).sink = es ++ handed text options) ∧
      (∀ c : Context,
        (scanText text c options).sink.entries = c.entries ++ handed text options) ∧
      (∀ (ρ σ : Type) [Sink σ] (b : Borrowed ρ σ),
        (scanText text b options).sink = b.put (scanText text b.target options).sink) ∧
      ∀ (σ : Type) (r : Receiver σ), (scanText text r options).sink =
        ⟨r.receive, (handed text options).foldl r.receive r.state⟩) ∧
    ∀ (reads : List (String × Options)) (σ : Type) [Sink σ] (sink : σ),
      scanTexts sink reads =
        ((reads.flatMap fun r => handed r.1 r.2).foldl Sink.push sink,
          reads.map fun r => judged r.1 r.2) := by
  refine ⟨fun text options σ _ sink => scanText_eq_foldl text sink options, ?_,
    fun reads σ _ sink => scanTexts_eq reads sink⟩
  intro text options
  refine ⟨?_, ?_, ?_, ?_, ?_⟩
  · intro d
    rw [scanText_eq_foldl, foldl_push_document]
  · intro es
    rw [scanText_eq_foldl, foldl_push_list]
  · intro c
    rw [scanText_eq_foldl, foldl_push_context]
  · intro ρ σ _ b
    rw [scanText_eq_foldl, scanText_eq_foldl text b.target, Borrowed.foldl_push]
  · intro σ r
    rw [scanText_eq_foldl, Receiver.foldl_push]

example : (scanText "\x7b\"a\":\";\"" (Borrowed.mk Place.first (([] : List Entry), 7)) {}).sink.whole =
    ([⟨"a", [], []⟩], 7) := by cbv

end TensorText
