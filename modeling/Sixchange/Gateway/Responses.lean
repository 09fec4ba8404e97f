import Sixchange.Codec.Encoding
import Sixchange.Gateway.Service

namespace Sixchange

open Grammar TextCodec

def Refuses (clientOrderId : ℕ) (words : List Bytes) : Prop :=
  ∃ reason : RejectReason, words = [ascii "REJECTED", decimal clientOrderId, ascii reason.name]

def Responds : InboundMessage → List Bytes → Prop
  | .newOrder request, words =>
    (∃ orderId, words = [ascii "ACCEPTED", decimal request.clientOrderId, decimal orderId]) ∨
      Refuses request.clientOrderId words
  | .cancelOrder request, words =>
    (∃ orderId, words = [ascii "CANCELLED", decimal request.clientOrderId, decimal orderId]) ∨
      Refuses request.clientOrderId words

theorem Desk.Handled.responds {config : OrderBookConfig} {desk : Desk} {request : InboundMessage}
    {outcome : Desk × Transcript} (h : Desk.Handled config desk request outcome) :
    ∃ message, outcome.2.messages = [message] ∧ Responds request (responseWords message) := by
  cases h with
  | turnedAway => exact ⟨_, rfl, by cases request <;> exact .inr ⟨_, rfl⟩⟩
  | refused => exact ⟨_, rfl, .inr ⟨_, rfl⟩⟩
  | accepted => exact ⟨_, rfl, .inl ⟨_, rfl⟩⟩
  | unknown => exact ⟨_, rfl, .inr ⟨_, rfl⟩⟩
  | foreign => exact ⟨_, rfl, .inr ⟨_, rfl⟩⟩
  | withdrawn => exact ⟨_, rfl, .inl ⟨_, rfl⟩⟩

namespace Cli

/-- The output is one line, of plain words between single spaces. -/
def AnsweredBy (line output : Bytes) : Prop :=
  ∃ words, output = [32].intercalate words ++ [10] ∧ (∀ word ∈ words, word ≠ [] ∧ AllPlain word) ∧
    match decode line with
    | .error refusal => words = [ascii "REJECTED", idWord refusal.clientOrderId, ascii refusal.reason.name] ∧
        output = encode (.orderRejected refusal) ++ [10]
    | .ok request => Responds request words

theorem onOutboundMessage_words (message : OutboundMessage) :
    onOutboundMessage message = [32].intercalate (responseWords message) ++ [10] := by
  rw [onOutboundMessage, encode_eq]
  rfl

theorem step_answers {config : OrderBookConfig} {session : Session} {desk : Desk} {queues : Side → List Slot}
    (h : Serves config session desk queues) (line : Bytes) :
    ∃ session' output, step session line = .ok (session', output) ∧
      (∃ desk' queues', Serves config session' desk' queues') ∧ AnsweredBy line output := by
  unfold step AnsweredBy
  cases decode line with
  | error refusal =>
    exact ⟨session, _, rfl, ⟨desk, queues, h⟩, _, onOutboundMessage_words _, responseWords_plain _, rfl, rfl⟩
  | ok request =>
    obtain ⟨session', queues', hrun, hserves, -⟩ := h.handle request
    obtain ⟨message, hmessage, hresponds⟩ := (Desk.handle_cases config desk request).responds
    refine ⟨session', _, ?_, ⟨_, queues', hserves⟩, responseWords message, rfl, responseWords_plain message, hresponds⟩
    dsimp only
    rw [hrun, ok_bind]
    dsimp only
    rw [hmessage, List.flatMap_singleton, onOutboundMessage_words]

theorem one_line_per_line {config : OrderBookConfig} {session : Session} (h : Opened config session)
    (lines : List Bytes) :
    ∃ final outputs, run session lines = .ok (final, outputs) ∧ List.Forall₂ AnsweredBy lines outputs := by
  let I (session : Session) : Prop := ∃ desk queues, Serves config session desk queues
  have hstep : ∀ session line, I session → ∃ session' output, step session line = .ok (session', output) ∧
      I session' ∧ AnsweredBy line output := by
    rintro session line ⟨desk, queues, h⟩
    exact step_answers h line
  have hstart : I session := ⟨_, _, h.serves⟩
  obtain ⟨final, outputs, hrun, -, hanswers⟩ := Transducer.run_answers hstep hstart lines
  exact ⟨final, outputs, hrun, hanswers⟩

def sampleLines : List Bytes :=
  [ascii "N 1 AAPL S L GFD 5 10", ascii "N 2 AAPL B L GFD 5 20", ascii "C 2 AAPL", ascii "X"]

theorem one_line_per_line_default : ∃ session, Opened defaultOrderBookConfig session ∧
    ∃ final outputs, run session sampleLines = .ok (final, outputs) ∧
      List.Forall₂ AnsweredBy sampleLines outputs := by
  obtain ⟨session, h⟩ := Opened.default
  exact ⟨session, h, one_line_per_line h sampleLines⟩

end Cli

end Sixchange
