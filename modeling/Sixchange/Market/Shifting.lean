import Sixchange.Market.Steps
import Sixchange.Theory.Transducer
import Mathlib.Data.List.Find
import Mathlib.Data.Nat.ModEq

namespace Sixchange

open PriorityList
open scoped List

structure Shift where
  orders : ℕ
  trades : ℕ

namespace Shift

variable (σ : Shift)

def orderId (id : ℕ) : ℕ := (id + σ.orders) % word

def order (order : RestingOrder) : RestingOrder := { order with orderId := σ.orderId order.orderId }

def command : EngineCommand → EngineCommand
  | .cancelOrder command => .cancelOrder { command with orderId := σ.orderId command.orderId }
  | command => command

def event : EngineEvent → EngineEvent
  | .orderAccepted event => .orderAccepted { event with orderId := σ.orderId event.orderId }
  | .tradeExecuted event => .tradeExecuted { event with
      tradeId := (event.tradeId + σ.trades) % word
      aggressingOrderId := σ.orderId event.aggressingOrderId
      restingOrderId := σ.orderId event.restingOrderId }
  | .orderRested event => .orderRested { event with orderId := σ.orderId event.orderId }
  | .orderCancelled event => .orderCancelled { event with orderId := σ.orderId event.orderId }
  | event => event

theorem orderId_inj {id id' : ℕ} (hid : id < word) (hid' : id' < word) :
    σ.orderId id = σ.orderId id' ↔ id = id' := by
  constructor
  · intro h
    have hmod : Nat.ModEq word id id' := Nat.ModEq.add_right_cancel' σ.orders h
    exact hmod.eq_of_lt_of_lt hid hid'
  · rintro rfl
    rfl

structure Relates (market market' : Market) : Prop where
  book : ∀ sd, market'.book sd = (market.book sd).map σ.order
  accepted : market'.accepted = market.accepted + σ.orders
  trades : market'.trades = market.trades + σ.trades

end Shift

def Market.IdsFit (market : Market) : Prop := ∀ id ∈ market.ids, id < word

def EngineCommand.IdFits : EngineCommand → Prop
  | .cancelOrder command => command.orderId < word
  | _ => True

theorem Market.IdsFit.process {symbolId : ℕ} {config : OrderBookConfig} {market : Market} (h : market.IdsFit)
    (c : EngineCommand) : (market.process symbolId config c).1.IdsFit := by
  intro id hid
  rcases process_cases symbolId config market c with ⟨reason, he⟩ | ⟨command, -, -, he⟩ |
    ⟨command, order, -, -, -, -, -, he⟩ <;> rw [he] at hid
  · exact h id hid
  · rcases mem_accept_ids hid with rfl | hid
    · exact Nat.mod_lt _ (by decide)
    · exact h id hid
  · exact h id ((remove_ids market command.orderId).subset hid)

namespace Shift.Relates

variable {σ : Shift} {symbolId : ℕ} {config : OrderBookConfig} {market market' : Market}

theorem nextId_eq (h : σ.Relates market market') : market'.nextId = σ.orderId market.nextId := by
  rw [Market.nextId, h.accepted, Market.nextId, orderId, Nat.mod_add_mod]
  congr 1
  omega

theorem resting_eq (h : σ.Relates market market') : market'.resting = market.resting.map σ.order := by
  rw [Market.resting, Market.resting, List.map_append, h.book, h.book]

theorem ids_eq (h : σ.Relates market market') : market'.ids = market.ids.map σ.orderId := by
  rw [Market.ids, Market.ids, h.resting_eq, List.map_map, List.map_map]
  rfl

theorem refusal_eq (h : σ.Relates market market') (hf : market.IdsFit) (command : NewOrderCommand) :
    market'.refusal symbolId config command = market.refusal symbolId config command := by
  have hfresh : market'.nextId ∈ market'.ids ↔ market.nextId ∈ market.ids := by
    rw [h.ids_eq, h.nextId_eq, List.mem_map]
    constructor
    · rintro ⟨id, hid, he⟩
      have hnext : market.nextId < word := Nat.mod_lt _ (by decide)
      rwa [← (σ.orderId_inj (hf id hid) hnext).mp he]
    · exact fun hid => ⟨_, hid, rfl⟩
  have hlength : market'.ids.length = market.ids.length := by rw [h.ids_eq, List.length_map]
  simp only [Market.refusal, admitError, hfresh, hlength]

theorem swept_eq (h : σ.Relates market market') (command : NewOrderCommand) :
    market'.swept command = (market.swept command).map σ.order := by
  rw [Market.swept, h.book]
  apply sweep_map
  · exact fun _ _ => rfl
  · exact fun _ _ => rfl

theorem accept (h : σ.Relates market market') (command : NewOrderCommand) :
    σ.Relates (market.accept command) (market'.accept command) := by
  have hswept := h.swept_eq command
  constructor
  · intro sd
    rcases Side.eq_or_opposite command.side sd with rfl | rfl
    · rw [Market.accept_side, Market.accept_side, hswept, h.book, h.nextId_eq, apply_ite (List.map σ.order)]
      congr 1
      symm
      apply map_enqueue
      exact fun _ => rfl
    · rw [Market.accept_opposite, Market.accept_opposite, hswept]
      rfl
  · change market'.accepted + 1 = market.accepted + 1 + σ.orders
    rw [h.accepted]
    omega
  · change market'.trades + _ = market.trades + _ + σ.trades
    have hlength : (market'.swept command).fills.length = (market.swept command).fills.length := by
      rw [hswept]
      exact List.length_map _
    rw [hlength, h.trades]
    omega

theorem tradeEvents_eq (command : NewOrderCommand) (orderId n : ℕ) (fills : List Fill) :
    tradeEvents command (σ.orderId orderId) (n + σ.trades) (fills.map (Fill.map σ.order)) =
      (tradeEvents command orderId n fills).map σ.event := by
  induction fills generalizing n with
  | nil => rfl
  | cons fill fills ih =>
    have hnext : n + σ.trades + 1 = n + 1 + σ.trades := by omega
    have htrade : ((n + 1) % word + σ.trades) % word = (n + 1 + σ.trades) % word := Nat.mod_add_mod _ _ _
    rw [List.map_cons, tradeEvents, tradeEvents, List.map_cons, hnext, ih, ← htrade]
    rfl

theorem acceptEvents_eq (h : σ.Relates market market') (command : NewOrderCommand) :
    market'.acceptEvents command = (market.acceptEvents command).map σ.event := by
  rw [Market.acceptEvents, Market.acceptEvents, h.swept_eq, h.nextId_eq, h.trades, List.map_cons, List.map_append,
    ← tradeEvents_eq, apply_ite (List.map σ.event)]
  rfl

theorem lookup_eq (h : σ.Relates market market') (hf : market.IdsFit) {id : ℕ} (hid : id < word) :
    market'.lookup (σ.orderId id) = (market.lookup id).map σ.order := by
  rw [Market.lookup, h.resting_eq, List.find?_map]
  congr 1
  apply List.find?_congr
  intro r hr
  simp only [Function.comp_apply, decide_eq_decide]
  exact σ.orderId_inj (hf _ (List.mem_map_of_mem hr)) hid

theorem remove (h : σ.Relates market market') (hf : market.IdsFit) {id : ℕ} (hid : id < word) :
    σ.Relates (market.remove id) (market'.remove (σ.orderId id)) := by
  refine ⟨fun sd => ?_, h.accepted, h.trades⟩
  dsimp only [Market.remove]
  rw [h.book, List.filter_map]
  congr 1
  apply List.filter_congr
  intro r hr
  simp only [Function.comp_apply, decide_eq_decide]
  exact not_congr (σ.orderId_inj (hf _ (Market.mem_ids.mpr ⟨sd, r, hr, rfl⟩)) hid)

theorem process (h : σ.Relates market market') (hf : market.IdsFit) {c : EngineCommand} (hc : c.IdFits) :
    (market'.process symbolId config (σ.command c)).2 = (market.process symbolId config c).2.map σ.event ∧
      σ.Relates (market.process symbolId config c).1 (market'.process symbolId config (σ.command c)).1 := by
  cases c with
  | newOrder command =>
    have hrefusal : market'.refusal symbolId config command = market.refusal symbolId config command :=
      h.refusal_eq hf command
    simp only [Shift.command, Market.process, Market.submit, hrefusal]
    cases market.refusal symbolId config command with
    | some reason => exact ⟨rfl, h⟩
    | none => exact ⟨h.acceptEvents_eq command, h.accept command⟩
  | cancelOrder command =>
    have hlookup := h.lookup_eq hf hc
    simp only [Shift.command, Market.process, Market.withdraw, hlookup]
    split_ifs
    · exact ⟨rfl, h⟩
    · cases market.lookup command.orderId with
      | none => exact ⟨rfl, h⟩
      | some order =>
        simp only [Option.map_some, Shift.order]
        split_ifs
        · exact ⟨rfl, h⟩
        · exact ⟨rfl, h.remove hf hc⟩
  | replaceOrder command => exact ⟨rfl, h⟩

theorem trace (h : σ.Relates market market') (hf : market.IdsFit) {commands : List EngineCommand}
    (hcommands : ∀ c ∈ commands, c.IdFits) :
    (Transducer.trace (Market.process symbolId config) market' (commands.map σ.command)).2 =
        (Transducer.trace (Market.process symbolId config) market commands).2.map (List.map σ.event) ∧
      σ.Relates (Transducer.trace (Market.process symbolId config) market commands).1
        (Transducer.trace (Market.process symbolId config) market' (commands.map σ.command)).1 := by
  induction commands generalizing market market' with
  | nil => exact ⟨rfl, h⟩
  | cons c commands ih =>
    rw [List.forall_mem_cons] at hcommands
    obtain ⟨hevents, hnext⟩ := h.process hf hcommands.1
    obtain ⟨hrest, hlast⟩ := ih hnext (hf.process c) hcommands.2
    simp only [List.map_cons, Transducer.trace_cons]
    exact ⟨by rw [hevents, hrest], hlast⟩

end Shift.Relates

namespace Market

variable {symbolId : ℕ} {config : OrderBookConfig} {market : Market}

def shift (market : Market) : Shift := { orders := market.accepted, trades := market.trades }

theorem shift_relates (h : market.resting = []) : market.shift.Relates .empty market := by
  obtain ⟨hbuy, hsell⟩ := List.append_eq_nil_iff.mp h
  refine ⟨fun sd => ?_, (Nat.zero_add _).symm, (Nat.zero_add _).symm⟩
  cases sd
  · exact hbuy
  · exact hsell

def withdrawal (symbolId seq : ℕ) (order : RestingOrder) : EngineCommand :=
  .cancelOrder { seq, orderId := order.orderId, clientOrderId := order.clientOrderId, clientId := order.clientId
                 symbolId }

theorem resting_remove (market : Market) (id : ℕ) :
    (market.remove id).resting = market.resting.filter (·.orderId ≠ id) := by
  rw [resting, resting, List.filter_append]
  rfl

theorem process_withdrawal (hd : market.ids.Nodup) {order : RestingOrder} (horder : order ∈ market.resting) (seq : ℕ) :
    market.process symbolId config (withdrawal symbolId seq order) =
      (market.remove order.orderId, [withdrawn seq symbolId order]) := by
  have hlookup : market.lookup order.orderId = some order := by
    cases hfound : market.lookup order.orderId with
    | none =>
      have hnone := List.find?_eq_none.mp hfound order horder
      exact absurd (decide_eq_true rfl) hnone
    | some other =>
      have hsame := List.find?_some hfound
      rw [eq_of_orderId hd (List.mem_of_find?_eq_some hfound) horder (of_decide_eq_true hsame)]
  simp [process, withdrawal, withdraw, hlookup]

theorem trace_withdrawals (symbolId : ℕ) (config : OrderBookConfig) (hd : market.ids.Nodup)
    {cancels : List (ℕ × RestingOrder)} (hcancels : cancels.map Prod.snd ~ market.resting) :
    let outcome := Transducer.trace (Market.process symbolId config) market
      (cancels.map fun cancel => withdrawal symbolId cancel.1 cancel.2)
    outcome.1.resting = [] ∧ outcome.1.accepted = market.accepted ∧ outcome.1.trades = market.trades ∧
      outcome.2 = cancels.map fun cancel => [withdrawn cancel.1 symbolId cancel.2] := by
  induction cancels generalizing market with
  | nil => exact ⟨List.nil_perm.mp hcancels, rfl, rfl, rfl⟩
  | cons cancel cancels ih =>
    obtain ⟨seq, order⟩ := cancel
    rw [List.map_cons] at hcancels
    have hstep : market.process symbolId config (withdrawal symbolId seq order) = _ :=
      process_withdrawal hd (hcancels.subset List.mem_cons_self) seq
    have hrest : cancels.map Prod.snd ~ (market.remove order.orderId).resting := by
      have hids : ((order :: cancels.map Prod.snd).map RestingOrder.orderId).Nodup :=
        (hcancels.map _).nodup_iff.mpr hd
      have hothers := hcancels.filter (·.orderId ≠ order.orderId)
      rw [List.filter_cons_of_neg (by simp), List.filter_eq_self.mpr] at hothers
      · rw [resting_remove]
        exact hothers
      · intro other hother
        apply decide_eq_true
        intro he
        exact (List.nodup_cons.mp hids).1 (he ▸ List.mem_map_of_mem hother)
    obtain ⟨hempty, haccepted, htrades, hevents⟩ := ih (hd.sublist (remove_ids market order.orderId)) hrest
    simp only [List.map_cons, Transducer.trace_cons, hstep]
    exact ⟨hempty, haccepted, htrades, by rw [hevents]⟩

end Market

end Sixchange
