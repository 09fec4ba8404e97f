import Sixchange.Market.Steps

namespace Sixchange

open PriorityList
open scoped List

/-- A change of sides, prices, owners and sequence numbers that keeps whatever the market looks at. -/
structure Relabelling (priceLevelCount : ℕ) where
  side : Side → Side
  price : ℕ → ℕ
  owner : ℕ × ℕ → ℕ × ℕ
  seq : ℕ → ℕ
  side_opposite : ∀ sd, side sd.opposite = (side sd).opposite
  price_lt : ∀ p, price p < priceLevelCount ↔ p < priceLevelCount
  better_iff : ∀ sd p q, p < priceLevelCount → q < priceLevelCount →
    ((side sd).better (price p) (price q) ↔ sd.better p q)
  owner_injective : Function.Injective owner

theorem Side.crosses_eq (sd : Side) (p q : ℕ) : sd.crosses p q = decide (¬ sd.better p q) := by
  cases sd <;> simp only [crosses, better, Nat.not_lt]

namespace Relabelling

variable {priceLevelCount : ℕ} (ρ : Relabelling priceLevelCount)

def clientId (clientId clientOrderId : ℕ) : ℕ := (ρ.owner (clientId, clientOrderId)).1

def clientOrderId (clientId clientOrderId : ℕ) : ℕ := (ρ.owner (clientId, clientOrderId)).2

def newOrder (command : NewOrderCommand) : NewOrderCommand :=
  { command with
    seq := ρ.seq command.seq
    price := ρ.price command.price
    clientOrderId := ρ.clientOrderId command.clientId command.clientOrderId
    clientId := ρ.clientId command.clientId command.clientOrderId
    side := ρ.side command.side }

def cancelOrder (command : CancelOrderCommand) : CancelOrderCommand :=
  { command with
    seq := ρ.seq command.seq
    clientOrderId := ρ.clientOrderId command.clientId command.clientOrderId
    clientId := ρ.clientId command.clientId command.clientOrderId }

def replaceOrder (command : ReplaceOrderCommand) : ReplaceOrderCommand :=
  { command with
    seq := ρ.seq command.seq
    newPrice := ρ.price command.newPrice
    oldClientOrderId := ρ.clientOrderId command.clientId command.oldClientOrderId
    clientId := ρ.clientId command.clientId command.oldClientOrderId }

def command : EngineCommand → EngineCommand
  | .newOrder command => .newOrder (ρ.newOrder command)
  | .cancelOrder command => .cancelOrder (ρ.cancelOrder command)
  | .replaceOrder command => .replaceOrder (ρ.replaceOrder command)

def event : EngineEvent → EngineEvent
  | .orderAccepted event => .orderAccepted { event with
      seq := ρ.seq event.seq
      clientOrderId := ρ.clientOrderId event.clientId event.clientOrderId
      clientId := ρ.clientId event.clientId event.clientOrderId
      side := ρ.side event.side
      price := ρ.price event.price }
  | .commandRejected event => .commandRejected { event with
      seq := ρ.seq event.seq
      clientOrderId := ρ.clientOrderId event.clientId event.clientOrderId
      clientId := ρ.clientId event.clientId event.clientOrderId }
  | .orderRested event => .orderRested { event with
      seq := ρ.seq event.seq
      clientOrderId := ρ.clientOrderId event.clientId event.clientOrderId
      clientId := ρ.clientId event.clientId event.clientOrderId
      side := ρ.side event.side
      price := ρ.price event.price }
  | .tradeExecuted event => .tradeExecuted { event with
      seq := ρ.seq event.seq
      price := ρ.price event.price
      aggressingSide := ρ.side event.aggressingSide
      aggressingClientOrderId := ρ.clientOrderId event.aggressingClientId event.aggressingClientOrderId
      aggressingClientId := ρ.clientId event.aggressingClientId event.aggressingClientOrderId
      restingClientOrderId := ρ.clientOrderId event.restingClientId event.restingClientOrderId
      restingClientId := ρ.clientId event.restingClientId event.restingClientOrderId }
  | .orderCancelled event => .orderCancelled { event with
      seq := ρ.seq event.seq
      clientOrderId := ρ.clientOrderId event.clientId event.clientOrderId
      clientId := ρ.clientId event.clientId event.clientOrderId
      side := ρ.side event.side
      price := ρ.price event.price }
  | .orderExpired event => .orderExpired { event with
      seq := ρ.seq event.seq
      clientOrderId := ρ.clientOrderId event.clientId event.clientOrderId
      clientId := ρ.clientId event.clientId event.clientOrderId }
  | .orderReplaced event => .orderReplaced { event with
      seq := ρ.seq event.seq
      oldClientOrderId := ρ.clientOrderId event.clientId event.oldClientOrderId
      clientId := ρ.clientId event.clientId event.oldClientOrderId
      newPrice := ρ.price event.newPrice }

def order (order : RestingOrder) : RestingOrder :=
  { order with
    clientOrderId := ρ.clientOrderId order.clientId order.clientOrderId
    clientId := ρ.clientId order.clientId order.clientOrderId
    side := ρ.side order.side
    price := ρ.price order.price }

theorem owner_iff {clientId clientOrderId clientId' clientOrderId' : ℕ} :
    (ρ.clientId clientId clientOrderId = ρ.clientId clientId' clientOrderId' ∧
        ρ.clientOrderId clientId clientOrderId = ρ.clientOrderId clientId' clientOrderId') ↔
      clientId = clientId' ∧ clientOrderId = clientOrderId' := by
  rw [← Prod.mk.injEq clientId, ← ρ.owner_injective.eq_iff, Prod.ext_iff]
  rfl

theorem crosses_eq {sd : Side} {p q : ℕ} (hp : p < priceLevelCount) (hq : q < priceLevelCount) :
    (ρ.side sd).crosses (ρ.price p) (ρ.price q) = sd.crosses p q := by
  rw [Side.crosses_eq, Side.crosses_eq, decide_eq_decide, ρ.better_iff sd p q hp hq]

theorem price_eq_iff {p : ℕ} (hp : p < priceLevelCount) (q : ℕ) : ρ.price p = ρ.price q ↔ p = q := by
  constructor
  · intro he
    have hq : q < priceLevelCount := by
      rw [← ρ.price_lt q, ← he, ρ.price_lt p]
      exact hp
    have hpq := ρ.better_iff .buy p q hp hq
    have hqp := ρ.better_iff .buy q p hq hp
    rw [he] at hpq hqp
    exact Nat.le_antisymm (Nat.le_of_not_lt (fun hlt => irrefl_of (ρ.side .buy).better _ (hpq.mpr hlt)))
      (Nat.le_of_not_lt (fun hlt => irrefl_of (ρ.side .buy).better _ (hqp.mpr hlt)))
  · rintro rfl
    rfl

theorem order_eq_map (l : List RestingOrder) :
    (l.map ρ.order).map RestingOrder.orderId = l.map RestingOrder.orderId := by
  rw [List.map_map]
  rfl

structure Relates (market market' : Market) : Prop where
  book : ∀ sd, market'.book (ρ.side sd) = (market.book sd).map ρ.order
  accepted : market'.accepted = market.accepted
  trades : market'.trades = market.trades

namespace Relates

variable {ρ} {symbolId : ℕ} {config : OrderBookConfig} {market market' : Market}

theorem empty : Relates ρ .empty .empty := ⟨fun _ => rfl, rfl, rfl⟩

theorem nextId_eq (h : ρ.Relates market market') : market'.nextId = market.nextId := by
  rw [Market.nextId, h.accepted, Market.nextId]

theorem resting_perm (h : ρ.Relates market market') : market'.resting ~ market.resting.map ρ.order := by
  have hbuy := h.book .buy
  have hsell := h.book .sell
  have hopposite : ρ.side .sell = (ρ.side .buy).opposite := ρ.side_opposite .buy
  rw [hopposite] at hsell
  rw [Market.resting, Market.resting, List.map_append, ← hbuy, ← hsell]
  cases ρ.side .buy
  · exact List.Perm.refl _
  · exact List.perm_append_comm

theorem ids_perm (h : ρ.Relates market market') : market'.ids ~ market.ids := by
  have hperm := h.resting_perm.map RestingOrder.orderId
  rwa [ρ.order_eq_map] at hperm

theorem lookup_eq (h : ρ.Relates market market') (hd : market.ids.Nodup) (orderId : ℕ) :
    market'.lookup orderId = (market.lookup orderId).map ρ.order := by
  have hd' : (market'.resting.map RestingOrder.orderId).Nodup := h.ids_perm.nodup_iff.mpr hd
  rw [Market.lookup, find?_perm h.resting_perm hd', List.find?_map]
  rfl

end Relates

section Process

variable {symbolId : ℕ} {config : OrderBookConfig} {ρ : Relabelling config.priceLevelCount}
  {market market' : Market}

namespace Relates

theorem refusal_eq (h : ρ.Relates market market') (command : NewOrderCommand) :
    market'.refusal symbolId config (ρ.newOrder command) = market.refusal symbolId config command := by
  have hprice : config.priceLevelCount ≤ ρ.price command.price ↔ config.priceLevelCount ≤ command.price := by
    rw [← Nat.not_lt, ← Nat.not_lt, ρ.price_lt]
  simp only [Market.refusal, admitError, newOrder, hprice, h.ids_perm.length_eq, h.ids_perm.mem_iff, h.nextId_eq]

theorem swept_eq (h : ρ.Relates market market') (hs : market.Sound config) {command : NewOrderCommand}
    (hprice : command.price < config.priceLevelCount) :
    market'.swept (ρ.newOrder command) = (market.swept command).map ρ.order := by
  have hbook : market'.book (ρ.side command.side).opposite = (market.book command.side.opposite).map ρ.order := by
    rw [← ρ.side_opposite, h.book]
  change sweep ((ρ.side command.side).opposite.crosses (ρ.price command.price)) command.quantity
    (market'.book (ρ.side command.side).opposite) = _
  rw [hbook, ← ρ.side_opposite]
  apply sweep_map
  · exact fun r q => rfl
  · exact fun r hr => ρ.crosses_eq hprice (hs.price_lt _ r hr)

theorem accept (h : ρ.Relates market market') (hs : market.Sound config) {command : NewOrderCommand}
    (hprice : command.price < config.priceLevelCount) :
    ρ.Relates (market.accept command) (market'.accept (ρ.newOrder command)) := by
  have hswept := h.swept_eq hs hprice
  constructor
  · intro sd
    rcases Side.eq_or_opposite command.side sd with rfl | rfl
    · have hside : (market'.accept (ρ.newOrder command)).book (ρ.side command.side) = _ :=
        Market.accept_side (ρ.newOrder command)
      have hbook : market'.book (ρ.newOrder command).side = (market.book command.side).map ρ.order := h.book _
      rw [hswept, hbook, h.nextId_eq] at hside
      have hqueued : ∀ x : RestingOrder, x.price = command.price →
          (enqueue command.side.better RestingOrder.price x (market.book command.side)).map ρ.order =
            enqueue (ρ.side command.side).better RestingOrder.price (ρ.order x)
              ((market.book command.side).map ρ.order) := by
        intro x hx
        apply map_enqueue_of
        intro r hr
        exact ρ.better_iff _ _ _ (hx ▸ hprice) (hs.price_lt _ r hr)
      rw [hside, Market.accept_side, apply_ite (List.map ρ.order)]
      congr 1
      symm
      apply hqueued
      rfl
    · have hopposite : (market'.accept (ρ.newOrder command)).book (ρ.side command.side).opposite = _ :=
        Market.accept_opposite (ρ.newOrder command)
      rw [ρ.side_opposite, hopposite, hswept, Market.accept_opposite]
      rfl
  · exact congrArg (· + 1) h.accepted
  · change market'.trades + _ = market.trades + _
    rw [hswept, h.trades]
    exact congrArg (market.trades + ·) (List.length_map _)

theorem tradeEvents_eq (command : NewOrderCommand) (orderId n : ℕ) (fills : List Fill) :
    tradeEvents (ρ.newOrder command) orderId n (fills.map (Fill.map ρ.order)) =
      (tradeEvents command orderId n fills).map ρ.event := by
  induction fills generalizing n with
  | nil => rfl
  | cons fill fills ih =>
    rw [List.map_cons, tradeEvents, tradeEvents, ih]
    rfl

theorem acceptEvents_eq (h : ρ.Relates market market') (hs : market.Sound config) {command : NewOrderCommand}
    (hprice : command.price < config.priceLevelCount) :
    market'.acceptEvents (ρ.newOrder command) = (market.acceptEvents command).map ρ.event := by
  rw [Market.acceptEvents, Market.acceptEvents, h.swept_eq hs hprice, h.nextId_eq, h.trades, List.map_cons,
    List.map_append, ← tradeEvents_eq, apply_ite (List.map ρ.event)]
  rfl

theorem remove (h : ρ.Relates market market') (orderId : ℕ) :
    ρ.Relates (market.remove orderId) (market'.remove orderId) := by
  refine ⟨fun sd => ?_, h.accepted, h.trades⟩
  dsimp only [Market.remove]
  rw [h.book, List.filter_map]
  rfl

theorem withdraw (h : ρ.Relates market market') (hd : market.ids.Nodup) (command : CancelOrderCommand) :
    (market'.withdraw symbolId (ρ.cancelOrder command)).2 = (market.withdraw symbolId command).2.map ρ.event ∧
      ρ.Relates (market.withdraw symbolId command).1 (market'.withdraw symbolId (ρ.cancelOrder command)).1 := by
  have hlookup : market'.lookup (ρ.cancelOrder command).orderId = (market.lookup command.orderId).map ρ.order :=
    h.lookup_eq hd _
  have hsymbol : (ρ.cancelOrder command).symbolId = command.symbolId := rfl
  rw [Market.withdraw, Market.withdraw, hlookup, hsymbol]
  split_ifs
  · exact ⟨rfl, h⟩
  · cases market.lookup command.orderId with
    | none => exact ⟨rfl, h⟩
    | some order =>
      have howner : (ρ.order order).clientId ≠ (ρ.cancelOrder command).clientId ∨
          (ρ.order order).clientOrderId ≠ (ρ.cancelOrder command).clientOrderId ↔
            order.clientId ≠ command.clientId ∨ order.clientOrderId ≠ command.clientOrderId := by
        rw [← not_and_or, ← not_and_or]
        exact not_congr ρ.owner_iff
      simp only [Option.map_some, howner]
      split_ifs
      · exact ⟨rfl, h⟩
      · exact ⟨rfl, h.remove _⟩

theorem process (h : ρ.Relates market market') (hs : market.Sound config) (hd : market.ids.Nodup)
    (c : EngineCommand) :
    (market'.process symbolId config (ρ.command c)).2 = (market.process symbolId config c).2.map ρ.event ∧
      ρ.Relates (market.process symbolId config c).1 (market'.process symbolId config (ρ.command c)).1 := by
  cases c with
  | newOrder command =>
    have hrefusal : market'.refusal symbolId config (ρ.newOrder command) = market.refusal symbolId config command :=
      h.refusal_eq command
    simp only [Relabelling.command, Market.process, Market.submit, hrefusal]
    cases hr : market.refusal symbolId config command with
    | some reason => exact ⟨rfl, h⟩
    | none =>
      have hprice := (admitError_none.mp (Market.refusal_none.mp hr).2.2).2.2.1
      exact ⟨h.acceptEvents_eq hs hprice, h.accept hs hprice⟩
  | cancelOrder command => exact h.withdraw hd command
  | replaceOrder command => exact ⟨rfl, h⟩

end Relates

end Process

end Relabelling

end Sixchange
