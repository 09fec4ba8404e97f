import Sixchange.Engine.EventReplica
import Sixchange.Market.Audit

namespace Sixchange

open Auditor

theorem market_passes_audit {symbolId : ℕ} {config : OrderBookConfig} {market : Market}
    {events : List (List EngineEvent)} {commands : List EngineCommand}
    (htrace : Transducer.trace (Market.process symbolId config) .empty commands = (market, events))
    (haccepted : market.accepted < word) : Trail Passes .start events.flatten ⟨queuesOf market.book, none⟩ := by
  have hpath := Market.observes (fun audited events => audited ++ events)
    (R := fun market audited => Trail Passes .start audited ⟨queuesOf market.book, none⟩)
    (fun market audited c hs hn haudited _ => haudited.append (Market.process_passes hs hn c)) (.nil _) htrace haccepted
  rwa [List.foldl_append_eq_append, List.nil_append, List.map_id'] at hpath

theorem feed_passes_audit {symbolId : ℕ} {config : OrderBookConfig} {engine : MatchingEngine}
    (h : Fresh symbolId config engine) (commands : List EngineCommand) :
    ∃ final events, engine.run commands = .ok (final, events) ∧
      (acceptedCount events < word →
        Trail Passes .start events.flatten ⟨final.orderBook.levelEntries, none⟩ ∧
          ∀ before after, events.flatten = before ++ after → ∃ auditor, Trail Passes .start before auditor ∧
            auditor.replica = Replica.empty.replay before ∧ auditor.Uncrossed) := by
  obtain ⟨final, queues, market, events, hrun, htrace, hr, -, haccepted, -⟩ := h.run commands
  refine ⟨final, events, hrun, fun hlt => ?_⟩
  have hpath := market_passes_audit htrace (haccepted.trans_lt hlt)
  have hbook : final.orderBook.levelEntries = queuesOf market.book := by
    funext sd p
    exact hr.levelEntries_eq sd p
  refine ⟨hbook ▸ hpath, fun before after hsplit => ?_⟩
  rw [hsplit] at hpath
  obtain ⟨auditor, hbefore, -⟩ := hpath.split
  refine ⟨auditor, hbefore, ?_, ?_⟩
  · exact hbefore.observes Replica.apply Auditor.replica fun _ _ _ hpasses => hpasses.replica_eq
  · exact hbefore.invariant (fun _ _ _ huncrossed hpasses => hpasses.uncrossed huncrossed) .start

theorem feed_passes_audit_default : ∃ engine, Fresh 0 defaultOrderBookConfig engine ∧
    ∃ final events, engine.run sampleSweep = .ok (final, events) ∧
      Trail Passes .start events.flatten ⟨final.orderBook.levelEntries, none⟩ ∧
        ∀ before after, events.flatten = before ++ after → ∃ auditor, Trail Passes .start before auditor ∧
          auditor.replica = Replica.empty.replay before ∧ auditor.Uncrossed := by
  obtain ⟨engine, h⟩ := Fresh.default 0
  obtain ⟨final, events, hrun, haudited⟩ := feed_passes_audit h sampleSweep
  exact ⟨engine, h, final, events, hrun, haudited ((h.acceptedCount_le hrun).trans_lt (by decide))⟩

/-- Whoever matches the same requests by the rules of the audit makes the same trades. -/
theorem feed_determined {symbolId : ℕ} {config : OrderBookConfig} {engine : MatchingEngine}
    (h : Fresh symbolId config engine) (commands : List EngineCommand) :
    ∃ final events, engine.run commands = .ok (final, events) ∧
      (acceptedCount events < word → ∀ feed auditor, Trail Passes .start feed auditor → auditor.taker = none →
        feed.filter isRequest = events.flatten.filter isRequest →
        feed.map audited = events.flatten.map audited ∧ auditor.replica = final.orderBook.levelEntries) := by
  obtain ⟨final, queues, market, events, hrun, htrace, hr, -, haccepted, -⟩ := h.run commands
  refine ⟨final, events, hrun, fun hlt feed auditor hfeed hidle hrequests => ?_⟩
  have hpath := market_passes_audit htrace (haccepted.trans_lt hlt)
  obtain ⟨hmap, rfl⟩ := audit_determines hfeed hpath hidle rfl hrequests
  refine ⟨hmap, ?_⟩
  funext sd p
  exact (hr.levelEntries_eq sd p).symm

theorem feed_determined_default : ∃ engine, Fresh 0 defaultOrderBookConfig engine ∧
    ∃ final events auditor, engine.run sampleSweep = .ok (final, events) ∧
      Trail Passes .start (events.flatten.map audited) auditor ∧
      (events.flatten.map audited).map audited = events.flatten.map audited ∧
      auditor.replica = final.orderBook.levelEntries := by
  obtain ⟨engine, h⟩ := Fresh.default 0
  obtain ⟨final, events, hrun, hdetermined⟩ := feed_determined h sampleSweep
  obtain ⟨final', queues, market, events', hrun', htrace, -, -, haccepted, -⟩ := h.run sampleSweep
  obtain ⟨-, rfl⟩ := Prod.mk.inj (Except.ok.inj (hrun.symm.trans hrun'))
  have hlt : acceptedCount events < word := (h.acceptedCount_le hrun).trans_lt (by decide)
  have hpath := market_passes_audit htrace (haccepted.trans_lt hlt)
  have hfeed := hpath.map fun _ _ _ hpasses => passes_audited hpasses
  obtain ⟨hmap, hreplica⟩ := hdetermined hlt _ _ hfeed rfl (requests_audited events.flatten)
  exact ⟨engine, h, final, events, _, hrun, hfeed, hmap, hreplica⟩

end Sixchange
