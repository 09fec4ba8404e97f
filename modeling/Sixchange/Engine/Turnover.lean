import Sixchange.Engine.Capacity
import Sixchange.Market.Turnover

namespace Sixchange

open scoped List

namespace EngineEvent

def isExactTrade : EngineEvent → Bool
  | .tradeExecuted event => event.aggressingRemainingQuantity = 0 ∧ event.restingRemainingQuantity = 0
  | _ => false

def isCancellation : EngineEvent → Bool
  | .orderCancelled _ => true
  | _ => false

end EngineEvent

namespace Market

variable {symbolId : ℕ} {config : OrderBookConfig} {market : Market}

structure Balanced (market : Market) (log : List EngineEvent) : Prop where
  nodup : market.ids.Nodup
  accepted_eq : market.accepted = market.trades + log.countP EngineEvent.isExactTrade +
    log.countP EngineEvent.isCancellation + market.ids.length

theorem countP_exact (command : NewOrderCommand) (orderId trades : ℕ) (fills : List Fill) :
    (tradeEvents command orderId trades fills).countP EngineEvent.isExactTrade = fills.countP Fill.exact := by
  induction fills generalizing trades with
  | nil => rfl
  | cons fill fills ih =>
    rw [tradeEvents, List.countP_cons, List.countP_cons, ih]
    rfl

theorem countP_exact_acceptEvents (market : Market) (command : NewOrderCommand) :
    (market.acceptEvents command).countP EngineEvent.isExactTrade =
      (market.swept command).fills.countP Fill.exact := by
  have hlast : (if 0 < (market.swept command).unfilled then
      [rested command market.nextId (market.swept command).unfilled] else []).countP EngineEvent.isExactTrade = 0 := by
    split_ifs <;> rfl
  rw [acceptEvents, List.countP_cons_of_neg Bool.false_ne_true, List.countP_append, countP_exact, hlast, Nat.add_zero]

theorem remove_ids_length (hd : market.ids.Nodup) {id : ℕ} (hid : id ∈ market.ids) :
    (market.remove id).ids.length + 1 = market.ids.length := by
  have hids : (market.remove id).ids = market.ids.filter (· ≠ id) := by
    simp only [ids, resting, remove, List.map_append, List.filter_append, List.filter_map]
    rfl
  have herase : market.ids.filter (· ≠ id) = market.ids.erase id := by
    rw [hd.erase_eq_filter]
    apply List.filter_congr
    intro other _
    by_cases he : other = id <;> simp [he]
  rw [hids, herase, List.length_erase_of_mem hid]
  exact Nat.sub_add_cancel (List.length_pos_of_mem hid)

theorem Balanced.process {log : List EngineEvent} (h : Balanced market log) (c : EngineCommand) :
    Balanced (market.process symbolId config c).1 (log ++ (market.process symbolId config c).2) := by
  have hd : (market.process symbolId config c).1.ids.Nodup := ids_nodup_process h.nodup c
  have hbalance := h.accepted_eq
  refine ⟨hd, ?_⟩
  rw [List.countP_append, List.countP_append]
  rcases process_cases symbolId config market c with ⟨reason, he⟩ | ⟨command, -, hrefusal, he⟩ |
    ⟨command, order, -, -, hlookup, -, -, he⟩ <;> rw [he] <;> dsimp only
  · exact hbalance
  · have hquantity : 0 < command.quantity :=
      Nat.pos_of_ne_zero (admitError_none.mp (refusal_none.mp hrefusal).2.2).2.1
    have haccept := accept_balance market command
    have hcancels : (market.acceptEvents command).countP EngineEvent.isCancellation = 0 := by
      rw [countP_acceptEvents market command (b := false) (fun _ => rfl) fun _ => rfl]
      rfl
    rw [countP_exact_acceptEvents, hcancels]
    rw [if_pos hquantity] at haccept
    change market.accepted + 1 = (market.accept command).trades + _ + _ + _
    omega
  · have hid : command.orderId ∈ market.ids := by
      unfold lookup at hlookup
      have hmem := List.mem_map_of_mem (f := RestingOrder.orderId) (List.mem_of_find?_eq_some hlookup)
      have hsame := List.find?_some hlookup
      rwa [of_decide_eq_true hsame] at hmem
    have hlength := remove_ids_length h.nodup hid
    have hexact : [withdrawn command.seq symbolId order].countP EngineEvent.isExactTrade = 0 := rfl
    have hcancels : [withdrawn command.seq symbolId order].countP EngineEvent.isCancellation = 1 := rfl
    rw [hexact, hcancels]
    change market.accepted = market.trades + _ + _ + _
    omega

theorem Balanced.run (symbolId : ℕ) (config : OrderBookConfig) (commands : List EngineCommand) :
    Balanced (Transducer.trace (Market.process symbolId config) .empty commands).1
      (Transducer.trace (Market.process symbolId config) .empty commands).2.flatten := by
  have hstart : Balanced .empty [] := ⟨List.nodup_nil, rfl⟩
  have hrun : Balanced (Transducer.trace (Market.process symbolId config) .empty commands).1
      ((Transducer.trace (Market.process symbolId config) .empty commands).2.foldl (· ++ ·) []) :=
    Transducer.trace_observes (fun market log c h => h.process c) hstart commands
  rwa [List.foldl_append_eq_append, List.nil_append, List.map_id'] at hrun

end Market

theorem orders_balance {symbolId : ℕ} {config : OrderBookConfig} {engine : MatchingEngine}
    (h : Fresh symbolId config engine) (commands : List EngineCommand) :
    ∃ final events, engine.run commands = .ok (final, events) ∧
      acceptedCount events = tradeCount events + events.flatten.countP EngineEvent.isExactTrade +
        events.flatten.countP EngineEvent.isCancellation + final.orderBook.restingCount := by
  obtain ⟨final, queues, market, events, hrun, htrace, hr, -, haccepted, htrades, -⟩ := h.run commands
  have hbalanced := Market.Balanced.run symbolId config commands
  rw [htrace] at hbalanced
  refine ⟨final, events, hrun, ?_⟩
  rw [← haccepted, ← htrades, hr.restingCount_eq]
  exact hbalanced.accepted_eq

theorem orders_balance_default : ∃ engine, Fresh 0 defaultOrderBookConfig engine ∧
    ∃ final events, engine.run [sampleBuy, sampleSell] = .ok (final, events) ∧
      acceptedCount events = tradeCount events + events.flatten.countP EngineEvent.isExactTrade +
        events.flatten.countP EngineEvent.isCancellation + final.orderBook.restingCount := by
  obtain ⟨engine, h⟩ := Fresh.default 0
  exact ⟨engine, h, orders_balance h [sampleBuy, sampleSell]⟩

end Sixchange
