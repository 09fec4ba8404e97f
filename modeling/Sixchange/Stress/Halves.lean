import Sixchange.Market.Splitting
import Sixchange.Stress.Rules

namespace Sixchange

open Scripts PriorityList

namespace Script

variable {rng : Random}

def crossExactly (side : Side) (price quantity : ℕ) : Script rng Unit := do
  let _ ← newOrder side price quantity
  let _ ← newOrder side.opposite price quantity

def fillResting (side : Side) (price quantity : ℕ) : Script rng Unit := do
  let resting ← newOrder side price (quantity * 2)
  let _ ← newOrder side.opposite price quantity
  cancel resting

def fillAggressing (side : Side) (price quantity : ℕ) : Script rng Unit := do
  let _ ← newOrder side price quantity
  let aggressing ← newOrder side.opposite price (quantity * 2)
  cancel aggressing

def stopAtLimit (side : Side) (near far limit : ℕ) : Script rng Unit := do
  let _ ← newOrder side near 10
  let beyond ← newOrder side far 10
  let remaining ← newOrder side.opposite limit 15
  cancel remaining
  cancel beyond

def stackLevels (side : Side) (depth : ℕ) (price : ℕ → ℕ) (limit : ℕ) : Script rng Unit := do
  let mut totalQuantity := 0
  for level in List.range depth do
    let quantity ← randint 1 100
    let _ ← newOrder side (price level) quantity
    totalQuantity := totalQuantity + quantity
  let _ ← newOrder side.opposite limit totalQuantity

def stackRandomly (side : Side) (basePrice depth priceSpan start : ℕ) (furthest : ℕ → ℕ → ℕ) : Script rng Unit := do
  let mut totalQuantity := 0
  let mut limit := start
  for _ in List.range depth do
    let price := basePrice + (← randrange priceSpan)
    let quantity ← randint 1 250
    let _ ← newOrder side price quantity
    totalQuantity := totalQuantity + quantity
    limit := furthest limit price
  let _ ← newOrder side.opposite limit totalQuantity

theorem scenarioExactCross_eq (basePrice : ℕ) : (scenarioExactCross basePrice : Script rng Unit) = (do
    let price := basePrice + (← randrange 20)
    let quantity ← randint 1 100
    crossExactly .sell price quantity
    let quantity ← randint 1 100
    crossExactly .buy price quantity) := by
  simp only [scenarioExactCross, crossExactly, bind_assoc, pure_bind, Side.opposite]

theorem scenarioPartialFill_eq (basePrice : ℕ) : (scenarioPartialFill basePrice : Script rng Unit) = (do
    let price := basePrice + (← randrange 20)
    let quantity ← randint 10 100
    fillResting .sell price quantity
    fillAggressing .sell price quantity
    fillResting .buy price quantity
    fillAggressing .buy price quantity) := by
  simp only [scenarioPartialFill, fillResting, fillAggressing, bind_assoc, Side.opposite]

theorem scenarioFifo_eq (basePrice depth : ℕ) : (scenarioFifo basePrice depth : Script rng Unit) = (do
    stackLevels .sell depth (fun _ => basePrice + 25) (basePrice + 25)
    stackLevels .buy depth (fun _ => basePrice + 25) (basePrice + 25)) := by
  simp only [scenarioFifo, stackLevels, bind_assoc, pure_bind, Side.opposite]

theorem scenarioSweep_eq (basePrice depth : ℕ) : (scenarioSweep basePrice depth : Script rng Unit) = (do
    stackLevels .sell depth (fun level => basePrice + level) (basePrice + depth - 1)
    stackLevels .buy depth (fun level => basePrice + level) basePrice) := by
  simp only [scenarioSweep, stackLevels, bind_assoc, pure_bind, Side.opposite]

theorem scenarioLimitStop_eq (basePrice : ℕ) : (scenarioLimitStop basePrice : Script rng Unit) = (do
    stopAtLimit .sell basePrice (basePrice + 2) (basePrice + 1)
    stopAtLimit .buy (basePrice + 2) basePrice (basePrice + 1)) := by
  simp only [scenarioLimitStop, stopAtLimit, bind_assoc, Side.opposite]

theorem scenarioRandomSweep_eq (basePrice depth priceSpan : ℕ) :
    (scenarioRandomSweep basePrice depth priceSpan : Script rng Unit) = (do
      stackRandomly .sell basePrice depth priceSpan basePrice max
      stackRandomly .buy basePrice depth priceSpan (basePrice + priceSpan - 1) min) := by
  simp only [scenarioRandomSweep, stackRandomly, bind_assoc, pure_bind, Side.opposite]

section Facing

variable {config : OrderBookConfig} {session : Session} {tally : Tally} {side : Side} {near far : List RestingOrder}
  {price quantity : ℕ} {α : Type} {next : ℕ → Script rng α} {post : α → CommandGenerator × rng.State → Prop}

theorem rest_then (hplaceable : Placeable config tally.orders price quantity)
    (hroom : near.length < config.maxActiveOrders)
    (hnext : Ensures (Standing config session ⟨tally.orders + 1, tally.cancels, tally.trades⟩
      (Facing side (enqueue side.better RestingOrder.price (heldOrder 999 tally.orders side price quantity) near) []))
      (next (1000 + tally.orders)) post) :
    Ensures (Standing config session tally (Facing side near [])) (newOrder side price quantity >>= next) post := by
  have hside : (heldOrder 999 tally.orders side price quantity).side = side := rfl
  rw [← Nat.add_zero tally.trades] at hnext
  refine newOrder_then hplaceable (fun book h => ?_) (fun book h => ?_) hnext
  · rw [h.length]
    exact hroom
  · refine ⟨⟨[], quantity, []⟩, ?_, rfl, ?_⟩
    · rw [h.2]
      rfl
    · have hsettle := h.settle hside ⟨[], quantity, []⟩
      rw [if_pos hplaceable.quantity.1] at hsettle
      exact hsettle

theorem aggress_then {fills : List Fill} {unfilled : ℕ} {resting : List RestingOrder}
    (hplaceable : Placeable config tally.orders price quantity)
    (hroom : near.length < config.maxActiveOrders)
    (hsweep : sweep (side.crosses price) quantity near = ⟨fills, unfilled, resting⟩)
    (hnext : Ensures (Standing config session ⟨tally.orders + 1, tally.cancels, tally.trades + fills.length⟩
      (Facing side resting (if 0 < unfilled then [heldOrder 999 tally.orders side.opposite price unfilled] else [])))
      (next (1000 + tally.orders)) post) :
    Ensures (Standing config session tally (Facing side near [])) (newOrder side.opposite price quantity >>= next)
      post := by
  have hside : (heldOrder 999 tally.orders side.opposite price quantity).side = side.opposite := rfl
  refine newOrder_then hplaceable (fun book h => ?_) (fun book h => ?_) hnext
  · rw [h.length]
    exact hroom
  · refine ⟨⟨fills, unfilled, resting⟩, ?_, rfl, ?_⟩
    · rw [Side.opposite_opposite, h.1]
      exact hsweep
    · exact (h.swap.settle hside ⟨fills, unfilled, resting⟩).of_swap

theorem cancel_facing {accepted : ℕ} (hids : 999 + tally.orders < word)
    (hrests : ∃ r ∈ near ++ far, r.orderId = accepted + 1) :
    Ensures (Standing config session tally (Facing side near far)) (cancel (1000 + accepted) : Script rng Unit)
      fun _ => Standing config session ⟨tally.orders, tally.cancels + 1, tally.trades⟩
        (Facing side (near.filter (·.orderId ≠ accepted + 1)) (far.filter (·.orderId ≠ accepted + 1))) := by
  refine ensures_cancel hids (fun book h => ?_) fun book h => h.filter _
  obtain ⟨r, hr, hid⟩ := hrests
  rcases List.mem_append.mp hr with hr | hr
  · exact ⟨side, r, h.1 ▸ hr, hid⟩
  · exact ⟨side.opposite, r, h.2 ▸ hr, hid⟩

variable {orders cancels trades : ℕ}

theorem fillResting_ensures (hids : 1002 + orders < word) (hlevels : config.priceLevelCount ≤ word)
    (hprice : 0 < price ∧ price < config.priceLevelCount) (hquantity : 0 < quantity ∧ quantity * 2 < word)
    (hroom : 2 ≤ config.maxActiveOrders) :
    Ensures (Standing config session ⟨orders, cancels, trades⟩ (Facing side [] []))
      (fillResting side price quantity : Script rng Unit)
      fun _ => Standing config session ⟨orders + 2, cancels + 1, trades + 1⟩ (Facing side [] []) := by
  have hresting : Placeable config orders price (quantity * 2) := ⟨by omega, hlevels, hprice, by omega⟩
  have haggressing : Placeable config (orders + 1) price quantity := ⟨by omega, hlevels, hprice, by omega⟩
  have hcancel : 999 + (orders + 2) < word := by omega
  have hreached : side.crosses price (heldOrder 999 orders side price (quantity * 2)).price = true := by
    cases side <;> exact decide_eq_true (Nat.le_refl _)
  have hless : quantity < (heldOrder 999 orders side price (quantity * 2)).remainingQuantity := by
    change quantity < quantity * 2
    omega
  refine rest_then hresting (Nat.lt_of_lt_of_le Nat.two_pos hroom) ?_
  refine aggress_then haggressing hroom (sweep_within [] hquantity.1 hreached hless) ?_
  refine (cancel_facing hcancel ⟨_, List.mem_cons_self, rfl⟩).of_post fun _ s h => ?_
  simpa [heldOrder] using h

theorem fillAggressing_ensures (hids : 1002 + orders < word) (hlevels : config.priceLevelCount ≤ word)
    (hprice : 0 < price ∧ price < config.priceLevelCount) (hquantity : 0 < quantity ∧ quantity * 2 < word)
    (hroom : 2 ≤ config.maxActiveOrders) :
    Ensures (Standing config session ⟨orders, cancels, trades⟩ (Facing side [] []))
      (fillAggressing side price quantity : Script rng Unit)
      fun _ => Standing config session ⟨orders + 2, cancels + 1, trades + 1⟩ (Facing side [] []) := by
  have hresting : Placeable config orders price quantity := ⟨by omega, hlevels, hprice, by omega⟩
  have haggressing : Placeable config (orders + 1) price (quantity * 2) := ⟨by omega, hlevels, hprice, by omega⟩
  have hcancel : 999 + (orders + 2) < word := by omega
  have hreached : side.crosses price (heldOrder 999 orders side price quantity).price = true := by
    cases side <;> exact decide_eq_true (Nat.le_refl _)
  have hle : (heldOrder 999 orders side price quantity).remainingQuantity ≤ quantity * 2 := by
    change quantity ≤ quantity * 2
    omega
  have hleft : quantity * 2 - quantity = quantity := by omega
  have hsweep : sweep (side.crosses price) (quantity * 2) [heldOrder 999 orders side price quantity] =
      ⟨[⟨heldOrder 999 orders side price quantity, quantity, quantity, 0⟩], quantity, []⟩ := by
    rw [sweep_through [] haggressing.quantity.1 hreached hle]
    simp only [heldOrder, hleft, sweep]
  refine rest_then hresting (Nat.lt_of_lt_of_le Nat.two_pos hroom) ?_
  refine aggress_then haggressing hroom hsweep ?_
  rw [if_pos hquantity.1]
  refine (cancel_facing hcancel ⟨_, List.mem_cons_self, rfl⟩).of_post fun _ s h => ?_
  simpa [heldOrder] using h

theorem stopAtLimit_ensures {first beyond limit : ℕ} (hids : 1003 + orders < word)
    (hlevels : config.priceLevelCount ≤ word) (hfirst : 0 < first ∧ first < config.priceLevelCount)
    (hbeyond : 0 < beyond ∧ beyond < config.priceLevelCount) (hlimit : 0 < limit ∧ limit < config.priceLevelCount)
    (hreached : side.crosses limit first = true) (hstop : side.crosses limit beyond = false)
    (hroom : 3 ≤ config.maxActiveOrders) :
    Ensures (Standing config session ⟨orders, cancels, trades⟩ (Facing side [] []))
      (stopAtLimit side first beyond limit : Script rng Unit)
      fun _ => Standing config session ⟨orders + 3, cancels + 2, trades + 1⟩ (Facing side [] []) := by
  have hquantity : 15 < word := by omega
  have hplaceable : Placeable config orders first 10 := ⟨by omega, hlevels, hfirst, by omega⟩
  have hplaceable' : Placeable config (orders + 1) beyond 10 := ⟨by omega, hlevels, hbeyond, by omega⟩
  have haggressing : Placeable config (orders + 2) limit 15 := ⟨by omega, hlevels, hlimit, by omega⟩
  have hcancel : 999 + (orders + 3) < word := by omega
  have hbetter : side.better first beyond := by
    cases side <;> simp only [Side.crosses, Side.better, decide_eq_true_eq, decide_eq_false_iff_not] at * <;> omega
  have hnot : ¬ side.better beyond first := by
    cases side <;> simp only [Side.better] at * <;> omega
  have hsweep : sweep (side.crosses limit) 15
      [heldOrder 999 orders side first 10, heldOrder 999 (orders + 1) side beyond 10] =
        ⟨[⟨heldOrder 999 orders side first 10, 10, 5, 0⟩], 5, [heldOrder 999 (orders + 1) side beyond 10]⟩ := by
    simp [sweep, heldOrder, hreached, hstop]
  have henqueue : enqueue side.better RestingOrder.price (heldOrder 999 (orders + 1) side beyond 10)
      [heldOrder 999 orders side first 10] =
        [heldOrder 999 orders side first 10, heldOrder 999 (orders + 1) side beyond 10] := by
    rw [enqueue_cons]
    exact if_neg hnot
  refine rest_then hplaceable (by rw [List.length_nil]; omega) ?_
  refine rest_then hplaceable' (by rw [enqueue, List.orderedInsert_nil, List.length_singleton]; omega) ?_
  rw [show enqueue side.better RestingOrder.price (heldOrder 999 orders side first 10) [] =
    [heldOrder 999 orders side first 10] from rfl, henqueue]
  refine aggress_then haggressing hroom hsweep ?_
  refine Ensures.seq (cancel_facing hcancel ⟨_, List.mem_append_right _ List.mem_cons_self, rfl⟩) ?_
  refine Ensures.of_post (cancel_facing hcancel ⟨heldOrder 999 (orders + 1) side beyond 10, ?_, rfl⟩) fun _ s h => ?_
  · simp [heldOrder]
  · simpa [heldOrder] using h

end Facing

section Stacked

variable {config : OrderBookConfig} {session : Session} {tally : Tally} {side : Side}
  {price quantity count total limit : ℕ} {α : Type} {post : α → CommandGenerator × rng.State → Prop}

theorem stack_then {next : ℕ → Script rng α} {limit' : ℕ} (hplaceable : Placeable config tally.orders price quantity)
    (hroom : count < config.maxActiveOrders) (hreached : side.crosses limit' price = true)
    (hmore : ∀ p, side.crosses limit p = true → side.crosses limit' p = true)
    (hnext : Ensures (Standing config session ⟨tally.orders + 1, tally.cancels, tally.trades⟩
      (Stacked side (count + 1) (total + quantity) limit')) (next (1000 + tally.orders)) post) :
    Ensures (Standing config session tally (Stacked side count total limit)) (newOrder side price quantity >>= next)
      post := by
  have hside : (heldOrder 999 tally.orders side price quantity).side = side := rfl
  rw [← Nat.add_zero tally.trades] at hnext
  refine newOrder_then hplaceable (fun book h => ?_) (fun book h => ?_) hnext
  · rw [h.length]
    exact hroom
  · refine ⟨⟨[], quantity, []⟩, ?_, rfl, h.rest hside hplaceable.quantity.1 hreached hmore⟩
    rw [h.bare]
    rfl

theorem clear_then {next : ℕ → Script rng α} (hplaceable : Placeable config tally.orders limit total)
    (hroom : count < config.maxActiveOrders)
    (hnext : Ensures
      (Standing config session ⟨tally.orders + 1, tally.cancels, tally.trades + count⟩ (Facing side [] []))
      (next (1000 + tally.orders)) post) :
    Ensures (Standing config session tally (Stacked side count total limit))
      (newOrder side.opposite limit total >>= next) post := by
  have hside : (heldOrder 999 tally.orders side.opposite limit total).side = side.opposite := rfl
  refine newOrder_then hplaceable (fun book h => ?_) (fun book h => ?_) hnext
  · rw [h.length]
    exact hroom
  · rw [Side.opposite_opposite]
    exact h.clear hside

variable {orders cancels trades : ℕ}

theorem crossExactly_ensures (hids : 1001 + orders < word) (hlevels : config.priceLevelCount ≤ word)
    (hprice : 0 < price ∧ price < config.priceLevelCount) (hquantity : 0 < quantity ∧ quantity < word)
    (hroom : 2 ≤ config.maxActiveOrders) :
    Ensures (Standing config session ⟨orders, cancels, trades⟩ (Facing side [] []))
      (crossExactly side price quantity : Script rng Unit)
      fun _ => Standing config session ⟨orders + 2, cancels, trades + 1⟩ (Facing side [] []) := by
  have hresting : Placeable config orders price quantity := ⟨by omega, hlevels, hprice, hquantity⟩
  have haggressing : Placeable config (orders + 1) price (0 + quantity) :=
    ⟨by omega, hlevels, hprice, (Nat.zero_add quantity).symm ▸ hquantity⟩
  have hreached : side.crosses price price = true := by
    cases side <;> exact decide_eq_true (Nat.le_refl _)
  refine of_book ?_ fun book h => Stacked.of_bare h price
  refine stack_then hresting (Nat.lt_of_lt_of_le Nat.two_pos hroom) hreached (fun _ h => h) ?_
  nth_rewrite 2 [← Nat.zero_add quantity]
  exact clear_then haggressing hroom fun _ h => h

theorem stackLevels_ensures {depth : ℕ} {prices : ℕ → ℕ} (hids : 1000 + orders + depth < word)
    (hlevels : config.priceLevelCount ≤ word) (hdepth : 0 < depth ∧ depth * 100 < word)
    (hprices : ∀ level, level < depth → 0 < prices level ∧ prices level < config.priceLevelCount)
    (hlimit : 0 < limit ∧ limit < config.priceLevelCount)
    (hreached : ∀ level, level < depth → side.crosses limit (prices level) = true)
    (hroom : depth < config.maxActiveOrders) :
    Ensures (Standing config session ⟨orders, cancels, trades⟩ (Facing side [] []))
      (stackLevels side depth prices limit : Script rng Unit)
      fun _ => Standing config session ⟨orders + depth + 1, cancels, trades + depth⟩ (Facing side [] []) := by
  let I (done : List ℕ) (total : ℕ) (s : CommandGenerator × rng.State) : Prop :=
    (done.length ≤ total ∧ total ≤ done.length * 100) ∧
      Standing config session ⟨orders + done.length, cancels, trades⟩ (Stacked side done.length total limit) s
  have hbody : ∀ done level rest total, List.range depth = done ++ level :: rest →
      Ensures (I done total) (do
        let quantity ← randint 1 100
        let _ ← newOrder side (prices level) quantity
        pure (.yield (total + quantity)) : Script rng (ForInStep ℕ))
        fun step s => ∃ total', step = .yield total' ∧ I (done ++ [level]) total' s := by
    intro done level rest total hrange
    have hlength : done.length < depth := by
      rw [← List.length_range (n := depth), hrange, List.length_append, List.length_cons]
      omega
    have hlevel : level < depth := List.mem_range.mp (hrange ▸ List.mem_append_right _ List.mem_cons_self)
    apply Ensures.of_fact
    rintro ⟨hlow, hhigh⟩
    refine randint_then (by decide) fun quantity hpos hle => ?_
    have hplaceable : Placeable config (orders + done.length) (prices level) quantity :=
      ⟨by omega, hlevels, hprices level hlevel, by omega⟩
    refine stack_then hplaceable (hlength.trans hroom) (hreached level hlevel) (fun _ h => h) fun s hs => ?_
    refine ⟨total + quantity, rfl, ?_, ?_⟩ <;> rw [List.length_append, List.length_singleton]
    · omega
    · exact hs
  unfold stackLevels
  refine Ensures.bind ((Ensures.forIn I hbody 0).of_pre fun s hs => ?_) fun total => ?_
  · exact ⟨⟨Nat.le_refl 0, Nat.le_refl 0⟩, hs.imp fun book h => Stacked.of_bare h limit⟩
  · apply Ensures.of_fact
    rintro ⟨hlow, hhigh⟩
    rw [List.length_range] at hlow hhigh ⊢
    have hplaceable : Placeable config (orders + depth) limit total := ⟨by omega, hlevels, hlimit, by omega⟩
    exact clear_then hplaceable hroom fun _ h => h

theorem stackRandomly_ensures {basePrice depth priceSpan start : ℕ} {furthest : ℕ → ℕ → ℕ}
    (hids : 1000 + orders + depth < word) (hlevels : config.priceLevelCount ≤ word)
    (hdepth : 0 < depth ∧ depth * 250 < word)
    (hprices : 0 < basePrice ∧ basePrice + priceSpan ≤ config.priceLevelCount) (hspan : 0 < priceSpan)
    (hstart : 0 < start ∧ start < config.priceLevelCount)
    (hone : ∀ limit price, furthest limit price = limit ∨ furthest limit price = price)
    (hreached : ∀ limit price, side.crosses (furthest limit price) price = true)
    (hmore : ∀ limit price p, side.crosses limit p = true → side.crosses (furthest limit price) p = true)
    (hroom : depth < config.maxActiveOrders) :
    Ensures (Standing config session ⟨orders, cancels, trades⟩ (Facing side [] []))
      (stackRandomly side basePrice depth priceSpan start furthest : Script rng Unit)
      fun _ => Standing config session ⟨orders + depth + 1, cancels, trades + depth⟩ (Facing side [] []) := by
  let I (done : List ℕ) (gathered : ℕ × ℕ) (s : CommandGenerator × rng.State) : Prop :=
    ((done.length ≤ gathered.1 ∧ gathered.1 ≤ done.length * 250) ∧
      0 < gathered.2 ∧ gathered.2 < config.priceLevelCount) ∧
      Standing config session ⟨orders + done.length, cancels, trades⟩
        (Stacked side done.length gathered.1 gathered.2) s
  have hbody : ∀ done level rest gathered, List.range depth = done ++ level :: rest →
      Ensures (I done gathered) (do
        let price := basePrice + (← randrange priceSpan)
        let quantity ← randint 1 250
        let _ ← newOrder side price quantity
        pure (.yield (gathered.1 + quantity, furthest gathered.2 price)) : Script rng (ForInStep (ℕ × ℕ)))
        fun step s => ∃ gathered', step = .yield gathered' ∧ I (done ++ [level]) gathered' s := by
    intro done level rest gathered hrange
    have hlength : done.length < depth := by
      rw [← List.length_range (n := depth), hrange, List.length_append, List.length_cons]
      omega
    apply Ensures.of_fact
    rintro ⟨⟨hlow, hhigh⟩, hlimit⟩
    refine randrange_then hspan fun value hvalue => ?_
    refine randint_then (by decide) fun quantity hpos hle => ?_
    have hprice : 0 < basePrice + value ∧ basePrice + value < config.priceLevelCount := by omega
    have hplaceable : Placeable config (orders + done.length) (basePrice + value) quantity :=
      ⟨by omega, hlevels, hprice, by omega⟩
    refine stack_then hplaceable (hlength.trans hroom) (hreached gathered.2 _) (hmore gathered.2 _) fun s hs => ?_
    refine ⟨(gathered.1 + quantity, furthest gathered.2 (basePrice + value)), rfl, ⟨?_, ?_⟩, ?_⟩
    · rw [List.length_append, List.length_singleton]
      dsimp only
      omega
    · rcases hone gathered.2 (basePrice + value) with he | he <;> dsimp only <;> rw [he]
      · exact hlimit
      · exact hprice
    · rw [List.length_append, List.length_singleton]
      exact hs
  unfold stackRandomly
  refine Ensures.bind ((Ensures.forIn I hbody (0, start)).of_pre fun s hs => ?_) fun gathered => ?_
  · exact ⟨⟨⟨Nat.le_refl 0, Nat.le_refl 0⟩, hstart⟩, hs.imp fun book h => Stacked.of_bare h start⟩
  · apply Ensures.of_fact
    rintro ⟨⟨hlow, hhigh⟩, hlimit⟩
    rw [List.length_range] at hlow hhigh ⊢
    have hplaceable : Placeable config (orders + depth) gathered.2 gathered.1 := ⟨by omega, hlevels, hlimit, by omega⟩
    exact clear_then hplaceable hroom fun _ h => h

end Stacked

end Script

end Sixchange
