import Sixchange.Engine.Runs
import Sixchange.Gateway.Service

namespace Sixchange

open Transducer

def Rejected (events : List EngineEvent) : Prop := ∃ event, .commandRejected event ∈ events

def TurnedAway (transcript : Transcript) : Prop := transcript.command = none

theorem Fresh.deletion {symbolId : ℕ} {config : OrderBookConfig} {engine : MatchingEngine}
    (h : Fresh symbolId config engine) (commands : List EngineCommand) :
    ∃ final events, engine.run commands = .ok (final, events) ∧
      (acceptedCount events < word → ∀ keep, LeavesOut Rejected keep events →
        engine.run (select keep commands) = .ok (final, select keep events)) := by
  obtain ⟨final, queues, market, events, hrun, htrace, -, -, haccepted, -⟩ := h.run commands
  refine ⟨final, events, hrun, fun hlt keep hkeep => ?_⟩
  let R (engine : MatchingEngine) (market : Market) : Prop :=
    (∃ queues, Refines symbolId config engine market queues) ∧ market.Sound config ∧ market.Numbered
  let B (market : Market) : Prop := market.accepted < word
  have hback : ∀ market c, B (market.process symbolId config c).1 → B market := fun market c h =>
    (Market.accepted_le market c).trans_lt h
  have hstep : ∀ engine market c, R engine market → B (market.process symbolId config c).1 → ∃ engine',
      engine.process c = .ok (engine', (market.process symbolId config c).2) ∧
        R engine' (market.process symbolId config c).1 ∧
        (Rejected (market.process symbolId config c).2 → engine' = engine) := by
    rintro engine market c ⟨⟨queues, hr⟩, hs, hn⟩ hlt
    obtain ⟨engine', queues', hrun, hr'⟩ := hr.process c
    refine ⟨engine', hrun, ⟨⟨queues', hr'⟩, hs.process c, hn.process hs c hlt⟩, ?_⟩
    -- a rejection is all that the command leads to, and it leaves the engine as it was
    rintro ⟨event, hevent⟩
    have hrejected := Market.eq_rejection hevent
    rw [hr.process_rejected (hn.nextId_fresh (hback market c hlt)) hrejected] at hrun
    exact (Prod.mk.inj (Except.ok.inj hrun)).1.symm
  have hstart : R engine .empty := ⟨⟨_, Refines.create h.fits h.created⟩, .empty, .empty⟩
  have hend : B (Transducer.trace (Market.process symbolId config) .empty commands).1 := by
    rw [htrace]
    exact haccepted.trans_lt hlt
  have hevents : (Transducer.trace (Market.process symbolId config) .empty commands).2 = events := by rw [htrace]
  obtain ⟨final', hrun', hselect⟩ := Transducer.run_select hback hstep hstart commands hend keep
    (hevents ▸ hkeep)
  rw [hevents] at hrun' hselect
  obtain ⟨rfl, -⟩ := Prod.mk.inj (Except.ok.inj (hrun.symm.trans hrun'))
  exact hselect

theorem Opened.deletion {config : OrderBookConfig} {session : Session} (h : Opened config session)
    (requests : List InboundMessage) :
    ∃ final transcripts, session.run requests = .ok (final, transcripts) ∧
      ∀ keep, LeavesOut TurnedAway keep transcripts →
        session.run (select keep requests) = .ok (final, select keep transcripts) := by
  obtain ⟨final, queues, hrun, -⟩ := h.run requests
  refine ⟨final, _, hrun, fun keep hkeep => ?_⟩
  let R (session : Session) (desk : Desk) : Prop := ∃ queues, Serves config session desk queues
  have hstep : ∀ session desk request, R session desk → True → ∃ session',
      session.handle request = .ok (session', (desk.handle config request).2) ∧
        R session' (desk.handle config request).1 ∧
        (TurnedAway (desk.handle config request).2 → session' = session) := by
    rintro session desk request ⟨queues, h⟩ -
    obtain ⟨session', queues', hrun, h', hsame⟩ := h.handle request
    exact ⟨session', hrun, ⟨queues', h'⟩, hsame⟩
  have hstart : R session .empty := ⟨_, h.serves⟩
  obtain ⟨final', hrun', hselect⟩ := Transducer.run_select (B := fun _ => True) (fun _ _ _ => trivial) hstep
    hstart requests trivial keep hkeep
  obtain ⟨rfl, -⟩ := Prod.mk.inj (Except.ok.inj (hrun.symm.trans hrun'))
  exact hselect

theorem rejected_leave_no_trace {symbolId : ℕ} {config : OrderBookConfig} {engine : MatchingEngine}
    {session : Session} (hengine : Fresh symbolId config engine) (hsession : Opened config session) :
    (∀ commands, ∃ final events, engine.run commands = .ok (final, events) ∧
      (acceptedCount events < word → ∀ keep, LeavesOut Rejected keep events →
        engine.run (select keep commands) = .ok (final, select keep events))) ∧
    (∀ requests, ∃ final transcripts, session.run requests = .ok (final, transcripts) ∧
      ∀ keep, LeavesOut TurnedAway keep transcripts →
        session.run (select keep requests) = .ok (final, select keep transcripts)) :=
  ⟨hengine.deletion, hsession.deletion⟩

def sampleReplace : EngineCommand := .replaceOrder {
  seq := 3, newPrice := 100, newQuantity := 1, oldClientOrderId := 7, newClientOrderId := 9, clientId := 1
  symbolId := 0 }

def repeatedRequests : List InboundMessage :=
  let quote : InboundMessage := .newOrder {
    clientOrderId := 7, symbol := ascii "AAPL", side := .buy, orderType := .limit, tif := .gfd, price := 100
    quantity := 10 }
  [quote, quote, .cancelOrder { clientOrderId := 7, symbol := ascii "AAPL" }]

theorem rejected_leave_no_trace_default : ∃ engine session, Fresh 0 defaultOrderBookConfig engine ∧
    Opened defaultOrderBookConfig session ∧
    (∃ final events, engine.run [sampleBuy, sampleReplace, sampleSell] = .ok (final, events) ∧
      engine.run [sampleBuy, sampleSell] = .ok (final, select [true, false, true] events)) ∧
    ∃ final transcripts, session.run repeatedRequests = .ok (final, transcripts) ∧
      session.run (select [true, false, true] repeatedRequests) =
        .ok (final, select [true, false, true] transcripts) := by
  obtain ⟨engine, hengine⟩ := Fresh.default 0
  obtain ⟨session, hsession⟩ := Opened.default
  obtain ⟨hcommands, hrequests⟩ := rejected_leave_no_trace hengine hsession
  obtain ⟨final, events, hrun, hdelete⟩ := hcommands [sampleBuy, sampleReplace, sampleSell]
  obtain ⟨final', transcripts, hrun', hdelete'⟩ := hrequests repeatedRequests
  refine ⟨engine, session, hengine, hsession, ⟨final, events, hrun, ?_⟩, final', transcripts, hrun', ?_⟩
  · apply hdelete ((hengine.acceptedCount_le hrun).trans_lt (by decide)) [true, false, true]
    have hevents := hengine.events_eq hrun
    rintro (_ | _ | _ | i) es hi hes
    · cases hi
    · rw [hevents] at hes
      cases hes
      exact ⟨_, List.mem_singleton_self _⟩
    · cases hi
    · cases hi
  · apply hdelete'
    have htranscripts := hsession.transcripts_eq hrun'
    rintro (_ | _ | _ | i) transcript hi htranscript
    · cases hi
    · rw [htranscripts] at htranscript
      cases htranscript
      rfl
    · cases hi
    · cases hi

end Sixchange
