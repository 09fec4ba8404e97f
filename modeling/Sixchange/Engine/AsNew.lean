import Sixchange.Engine.Capacity
import Sixchange.Engine.EventReplica
import Sixchange.Market.Shifting

namespace Sixchange

open OrderBook
open scoped List

def OrderBook.restingOrders (book : OrderBook) : List RestingOrder :=
  (book.linkedSlots .buy ++ book.linkedSlots .sell).map fun slot => (book.order slot).view

namespace Refines

variable {symbolId : ℕ} {config : OrderBookConfig} {engine : MatchingEngine} {market : Market}
  {queues : Side → List Slot}

theorem restingOrders_perm (h : Refines symbolId config engine market queues) :
    engine.orderBook.restingOrders ~ market.resting := by
  rw [restingOrders, List.map_append, Market.resting, ← h.book]
  exact ((h.inv.linkedSlots_perm .buy).map _).append ((h.inv.linkedSlots_perm .sell).map _)

theorem ids_nodup (h : Refines symbolId config engine market queues) : market.ids.Nodup := by
  rw [← h.ids_eq]
  exact h.inv.heldIds_nodup

end Refines

theorem levelEntries_shift {σ : Shift} {market market' : Market} (h : σ.Relates market market') (sd : Side) (p : ℕ) :
    queuesOf market'.book sd p = (queuesOf market.book sd p).map fun entry => (σ.orderId entry.1, entry.2) := by
  unfold queuesOf
  rw [h.book, List.filter_map, List.map_map, List.map_map]
  rfl

/-- Once its orders are cancelled, an engine goes on like a new one, but for the numbers it gives. -/
theorem drained_as_new {symbolId : ℕ} {config : OrderBookConfig} {engine : MatchingEngine}
    (h : Fresh symbolId config engine) (earlier : List EngineCommand) :
    ∃ final events, engine.run earlier = .ok (final, events) ∧
      ∀ cancels : List (ℕ × RestingOrder), cancels.map Prod.snd ~ final.orderBook.restingOrders →
        ∃ drained, final.run (cancels.map fun cancel => Market.withdrawal symbolId cancel.1 cancel.2) =
            .ok (drained, cancels.map fun cancel => [withdrawn cancel.1 symbolId cancel.2]) ∧
          drained.orderBook.restingCount = 0 ∧
          ∀ later, (∀ c ∈ later, c.IdFits) →
            let σ : Shift := { orders := acceptedCount events, trades := tradeCount events }
            ∃ new new' events', engine.run later = .ok (new, events') ∧
              drained.run (later.map σ.command) = .ok (new', events'.map (List.map σ.event)) ∧
              ∀ sd p, new'.orderBook.levelEntries sd p =
                (new.orderBook.levelEntries sd p).map fun entry => (σ.orderId entry.1, entry.2) := by
  obtain ⟨final, queues, market, events, hrun, -, hr, -, haccepted, htrades, -⟩ := h.run earlier
  refine ⟨final, events, hrun, fun cancels hcancels => ?_⟩
  obtain ⟨drained, queues', hdrain, hr'⟩ :=
    hr.run (cancels.map fun cancel => Market.withdrawal symbolId cancel.1 cancel.2)
  obtain ⟨hempty, ha, ht, hevents⟩ :=
    Market.trace_withdrawals symbolId config hr.ids_nodup (hcancels.trans hr.restingOrders_perm)
  have hcount : drained.orderBook.restingCount = 0 := by
    rw [hr'.restingCount_eq, Market.ids, hempty]
    rfl
  refine ⟨drained, hevents ▸ hdrain, hcount, fun later hlater => ?_⟩
  have hrelates := Market.shift_relates hempty
  rw [Market.shift, ha, ht, haccepted, htrades] at hrelates
  obtain ⟨new, queues₁, hnew, hr₁⟩ := (Refines.create h.fits h.created).run later
  obtain ⟨new', queues₂, hnew', hr₂⟩ := hr'.run (later.map (Shift.command _))
  have hempty' : Market.empty.IdsFit := fun id hid => absurd hid List.not_mem_nil
  obtain ⟨hlaterEvents, hlast⟩ := hrelates.trace hempty' hlater
  rw [hlaterEvents] at hnew'
  refine ⟨new, new', _, hnew, hnew', fun sd p => ?_⟩
  rw [hr₁.levelEntries_eq, hr₂.levelEntries_eq]
  exact levelEntries_shift hlast sd p

def sampleEarlier : List EngineCommand := .newOrder (sampleOrder .buy 95 8) :: sampleSweep

def sampleCancels : List (ℕ × RestingOrder) :=
  [(5, incoming (sampleOrder .buy 95 8) 1), (6, { incoming (sampleOrder .buy 100 5) 3 with remainingQuantity := 3 })]

theorem drained_as_new_default : ∃ engine, Fresh 0 defaultOrderBookConfig engine ∧
    ∃ final events drained new new' events', engine.run sampleEarlier = .ok (final, events) ∧
      final.run (sampleCancels.map fun cancel => Market.withdrawal 0 cancel.1 cancel.2) =
        .ok (drained, sampleCancels.map fun cancel => [withdrawn cancel.1 0 cancel.2]) ∧
      drained.orderBook.restingCount = 0 ∧
      let σ : Shift := { orders := 4, trades := 2 }
      engine.run sampleSweep = .ok (new, events') ∧
        drained.run (sampleSweep.map σ.command) = .ok (new', events'.map (List.map σ.event)) ∧
        ∀ sd p, new'.orderBook.levelEntries sd p =
          (new.orderBook.levelEntries sd p).map fun entry => (σ.orderId entry.1, entry.2) := by
  obtain ⟨engine, h⟩ := Fresh.default 0
  obtain ⟨final, events, hrun, hdrained⟩ := drained_as_new h sampleEarlier
  obtain ⟨queues, hr⟩ := h.refines hrun
  obtain rfl := h.events_eq hrun
  have hcancels : sampleCancels.map Prod.snd ~
      (Transducer.trace (Market.process 0 defaultOrderBookConfig) .empty sampleEarlier).1.resting := by decide +kernel
  obtain ⟨drained, hdrain, hcount, hlater⟩ := hdrained sampleCancels (hcancels.trans hr.restingOrders_perm.symm)
  have hfits : ∀ c ∈ sampleSweep, c.IdFits := by simp [sampleSweep, EngineCommand.IdFits]
  obtain ⟨new, new', events', hnew, hnew', hlevels⟩ := hlater sampleSweep hfits
  exact ⟨engine, h, final, _, drained, new, new', events', hrun, hdrain, hcount, hnew, hnew', hlevels⟩

end Sixchange
