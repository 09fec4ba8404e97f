import Mathlib.Algebra.Order.BigOperators.Group.List
import Sixchange.Stress.Halves

namespace Sixchange

open Scripts TextCodec

namespace Tally

def plus (tally tally' : Tally) : Tally :=
  { orders := tally.orders + tally'.orders, cancels := tally.cancels + tally'.cancels
    trades := tally.trades + tally'.trades }

def times (n : ℕ) (tally : Tally) : Tally :=
  { orders := n * tally.orders, cancels := n * tally.cancels, trades := n * tally.trades }

theorem foldl_plus (tally : Tally) (l : List Tally) : l.foldl plus tally = tally.plus (l.foldl plus ⟨0, 0, 0⟩) := by
  induction l generalizing tally with
  | nil => rfl
  | cons first l ih =>
    rw [List.foldl_cons, List.foldl_cons, ih, ih (plus ⟨0, 0, 0⟩ first)]
    simp only [plus, Nat.add_assoc, Nat.zero_add]

theorem orders_le_foldl (tally : Tally) (l : List Tally) : tally.orders ≤ (l.foldl plus tally).orders := by
  rw [foldl_plus]
  exact Nat.le_add_right _ _

theorem trades_le_foldl {l : List Tally} (hl : ∀ tally ∈ l, tally.trades ≤ tally.orders) {tally : Tally}
    (htally : tally.trades ≤ tally.orders) : (l.foldl plus tally).trades ≤ (l.foldl plus tally).orders := by
  induction l generalizing tally with
  | nil => exact htally
  | cons first l ih =>
    rw [List.forall_mem_cons] at hl
    exact ih hl.2 (Nat.add_le_add htally hl.1)

theorem times_zero (tally : Tally) : tally.times 0 = ⟨0, 0, 0⟩ := by
  simp only [times, Nat.zero_mul]

theorem times_succ (n : ℕ) (tally : Tally) : tally.times (n + 1) = (tally.times n).plus tally := by
  simp only [times, plus, Nat.succ_mul]

end Tally

namespace StressArguments

variable (arguments : StressArguments)

def cost : Scenario → Tally
  | .exact => { orders := 4, cancels := 0, trades := 2 }
  | .partialFill => { orders := 8, cancels := 4, trades := 4 }
  | .limit => { orders := 6, cancels := 4, trades := 2 }
  | .fifo | .sweep | .random => { orders := 2 * (arguments.depth + 1), cancels := 0, trades := 2 * arguments.depth }

def reach : Scenario → ℕ
  | .exact | .partialFill => 19
  | .fifo => 25
  | .sweep => arguments.depth - 1
  | .limit => 2
  | .random => arguments.priceSpan - 1

def waiting : Scenario → ℕ
  | .exact | .partialFill => 1
  | .limit => 2
  | .fifo | .sweep | .random => arguments.depth

def roundCost : Tally :=
  (arguments.selectedModes.map arguments.cost).foldl Tally.plus { orders := 0, cancels := 0, trades := 0 }

def totalCost : Tally := arguments.roundCost.times arguments.rounds

structure Fits (config : OrderBookConfig) : Prop where
  rounds : 0 < arguments.rounds
  depth : 0 < arguments.depth
  priceSpan : 0 < arguments.priceSpan
  symbol : arguments.symbol = ascii "AAPL"
  basePrice : 0 < arguments.basePrice
  levels : config.priceLevelCount ≤ word
  prices : ∀ mode ∈ arguments.selectedModes, arguments.basePrice + arguments.reach mode < config.priceLevelCount
  room : ∀ mode ∈ arguments.selectedModes, arguments.waiting mode < config.maxActiveOrders
  quantities : arguments.depth * 250 < word
  ids : 1000 + arguments.totalCost.orders < word

variable {arguments} {config : OrderBookConfig} {session : Session} {rng : Random}

theorem stacked_twice {first second : Script rng Unit} {orders cancels trades depth : ℕ}
    (hfirst : Ensures (Standing config session ⟨orders, cancels, trades⟩ (Facing .sell [] [])) first
      fun _ => Standing config session ⟨orders + depth + 1, cancels, trades + depth⟩ (Facing .sell [] []))
    (hsecond : Ensures (Standing config session ⟨orders + depth + 1, cancels, trades + depth⟩ (Facing .buy [] []))
      second fun _ => Standing config session
        ⟨orders + depth + 1 + depth + 1, cancels, trades + depth + depth⟩ (Facing .buy [] [])) :
    Ensures (Standing config session ⟨orders, cancels, trades⟩ (Facing .sell [] [])) (first >>= fun _ => second)
      fun _ => Standing config session ⟨orders + 2 * (depth + 1), cancels, trades + 2 * depth⟩
        (Facing .sell [] []) := by
  have htally : Tally.mk (orders + 2 * (depth + 1)) cancels (trades + 2 * depth) =
      ⟨orders + depth + 1 + depth + 1, cancels, trades + depth + depth⟩ := by
    congr 1 <;> omega
  rw [htally]
  refine hfirst.seq ((hsecond.of_pre ?_).of_post ?_)
  · exact fun s hs => hs.imp fun book => Facing.swap
  · exact fun _ s hs => hs.imp fun book => Facing.swap

namespace Fits

variable (hfits : arguments.Fits config) {orders cancels trades : ℕ}

include hfits

theorem exact_ensures (hmode : .exact ∈ arguments.selectedModes) (hids : 1000 + orders + 4 < word) :
    Ensures (Standing config session ⟨orders, cancels, trades⟩ (Facing .sell [] []))
      (Script.scenarioExactCross arguments.basePrice : Script rng Unit)
      fun _ => Standing config session ⟨orders + 4, cancels, trades + 2⟩ (Facing .sell [] []) := by
  have hlevels := hfits.levels
  have hbase := hfits.basePrice
  have hprices := hfits.prices _ hmode
  have hroom := hfits.room _ hmode
  simp only [reach, waiting] at hprices hroom
  rw [Script.scenarioExactCross_eq]
  refine Script.randrange_then (by decide) fun value hvalue => ?_
  have hprice : 0 < arguments.basePrice + value ∧ arguments.basePrice + value < config.priceLevelCount := by omega
  refine Script.randint_then (by decide) fun quantity hpos hle => ?_
  refine Ensures.seq (Script.crossExactly_ensures (by omega) hlevels hprice (by omega) hroom) ?_
  refine Script.randint_then (by decide) fun quantity hpos hle => ?_
  refine Ensures.of_pre ?_ fun s hs => hs.imp fun book => Facing.swap
  refine (Script.crossExactly_ensures (by omega) hlevels hprice (by omega) hroom).of_post ?_
  exact fun _ s hs => hs.imp fun book => Facing.swap

theorem partialFill_ensures (hmode : .partialFill ∈ arguments.selectedModes) (hids : 1000 + orders + 8 < word) :
    Ensures (Standing config session ⟨orders, cancels, trades⟩ (Facing .sell [] []))
      (Script.scenarioPartialFill arguments.basePrice : Script rng Unit)
      fun _ => Standing config session ⟨orders + 8, cancels + 4, trades + 4⟩ (Facing .sell [] []) := by
  have hlevels := hfits.levels
  have hbase := hfits.basePrice
  have hprices := hfits.prices _ hmode
  have hroom := hfits.room _ hmode
  simp only [reach, waiting] at hprices hroom
  rw [Script.scenarioPartialFill_eq]
  refine Script.randrange_then (by decide) fun value hvalue => ?_
  have hprice : 0 < arguments.basePrice + value ∧ arguments.basePrice + value < config.priceLevelCount := by omega
  refine Script.randint_then (by decide) fun quantity hpos hle => ?_
  refine Ensures.seq (Script.fillResting_ensures (by omega) hlevels hprice (by omega) hroom) ?_
  refine Ensures.seq (Script.fillAggressing_ensures (by omega) hlevels hprice (by omega) hroom) ?_
  refine Ensures.of_pre ?_ fun s hs => hs.imp fun book => Facing.swap
  refine Ensures.seq (Script.fillResting_ensures (by omega) hlevels hprice (by omega) hroom) ?_
  refine (Script.fillAggressing_ensures (by omega) hlevels hprice (by omega) hroom).of_post ?_
  exact fun _ s hs => hs.imp fun book => Facing.swap

theorem fifo_ensures (hmode : .fifo ∈ arguments.selectedModes)
    (hids : 1000 + orders + 2 * (arguments.depth + 1) < word) :
    Ensures (Standing config session ⟨orders, cancels, trades⟩ (Facing .sell [] []))
      (Script.scenarioFifo arguments.basePrice arguments.depth : Script rng Unit)
      fun _ => Standing config session ⟨orders + 2 * (arguments.depth + 1), cancels, trades + 2 * arguments.depth⟩
        (Facing .sell [] []) := by
  have hlevels := hfits.levels
  have hprices := hfits.prices _ hmode
  have hquantities := hfits.quantities
  have hdepth : 0 < arguments.depth ∧ arguments.depth * 100 < word := ⟨hfits.depth, by omega⟩
  have hroom := hfits.room _ hmode
  simp only [reach, waiting] at hprices hroom
  have hprice : 0 < arguments.basePrice + 25 ∧ arguments.basePrice + 25 < config.priceLevelCount := by omega
  have hreached : ∀ (side : Side) (level : ℕ), level < arguments.depth →
      side.crosses (arguments.basePrice + 25) (arguments.basePrice + 25) = true := by
    intro side _ _
    cases side <;> exact decide_eq_true (Nat.le_refl _)
  rw [Script.scenarioFifo_eq]
  apply stacked_twice
  · exact Script.stackLevels_ensures (by omega) hlevels hdepth (fun _ _ => hprice) hprice (hreached _) hroom
  · exact Script.stackLevels_ensures (by omega) hlevels hdepth (fun _ _ => hprice) hprice (hreached _) hroom

theorem sweep_ensures (hmode : .sweep ∈ arguments.selectedModes)
    (hids : 1000 + orders + 2 * (arguments.depth + 1) < word) :
    Ensures (Standing config session ⟨orders, cancels, trades⟩ (Facing .sell [] []))
      (Script.scenarioSweep arguments.basePrice arguments.depth : Script rng Unit)
      fun _ => Standing config session ⟨orders + 2 * (arguments.depth + 1), cancels, trades + 2 * arguments.depth⟩
        (Facing .sell [] []) := by
  have hlevels := hfits.levels
  have hbase := hfits.basePrice
  have hprices := hfits.prices _ hmode
  have hquantities := hfits.quantities
  have hdepth : 0 < arguments.depth ∧ arguments.depth * 100 < word := ⟨hfits.depth, by omega⟩
  have hroom := hfits.room _ hmode
  simp only [reach, waiting] at hprices hroom
  have hlevel : ∀ level, level < arguments.depth →
      0 < arguments.basePrice + level ∧ arguments.basePrice + level < config.priceLevelCount := by omega
  have hhighest : 0 < arguments.basePrice + arguments.depth - 1 ∧
      arguments.basePrice + arguments.depth - 1 < config.priceLevelCount := by omega
  have hlowest : 0 < arguments.basePrice ∧ arguments.basePrice < config.priceLevelCount := by omega
  rw [Script.scenarioSweep_eq]
  apply stacked_twice
  · refine Script.stackLevels_ensures (by omega) hlevels hdepth hlevel hhighest ?_ hroom
    intro level hless
    apply decide_eq_true
    omega
  · refine Script.stackLevels_ensures (by omega) hlevels hdepth hlevel hlowest ?_ hroom
    exact fun level _ => decide_eq_true (Nat.le_add_right _ level)

theorem limit_ensures (hmode : .limit ∈ arguments.selectedModes) (hids : 1000 + orders + 6 < word) :
    Ensures (Standing config session ⟨orders, cancels, trades⟩ (Facing .sell [] []))
      (Script.scenarioLimitStop arguments.basePrice : Script rng Unit)
      fun _ => Standing config session ⟨orders + 6, cancels + 4, trades + 2⟩ (Facing .sell [] []) := by
  have hlevels := hfits.levels
  have hbase := hfits.basePrice
  have hprices := hfits.prices _ hmode
  have hroom := hfits.room _ hmode
  simp only [reach, waiting] at hprices hroom
  have hreached : Side.crosses .sell (arguments.basePrice + 1) arguments.basePrice = true ∧
      Side.crosses .buy (arguments.basePrice + 1) (arguments.basePrice + 2) = true := by simp [Side.crosses]
  have hstop : Side.crosses .sell (arguments.basePrice + 1) (arguments.basePrice + 2) = false ∧
      Side.crosses .buy (arguments.basePrice + 1) arguments.basePrice = false := by simp [Side.crosses]
  rw [Script.scenarioLimitStop_eq]
  refine Ensures.seq (Script.stopAtLimit_ensures (by omega) hlevels (by omega) (by omega) (by omega) hreached.1 hstop.1
    hroom) ?_
  refine Ensures.of_pre ?_ fun s hs => hs.imp fun book => Facing.swap
  refine (Script.stopAtLimit_ensures (by omega) hlevels (by omega) (by omega) (by omega) hreached.2 hstop.2
    hroom).of_post ?_
  exact fun _ s hs => hs.imp fun book => Facing.swap

theorem random_ensures (hmode : .random ∈ arguments.selectedModes)
    (hids : 1000 + orders + 2 * (arguments.depth + 1) < word) :
    Ensures (Standing config session ⟨orders, cancels, trades⟩ (Facing .sell [] []))
      (Script.scenarioRandomSweep arguments.basePrice arguments.depth arguments.priceSpan : Script rng Unit)
      fun _ => Standing config session ⟨orders + 2 * (arguments.depth + 1), cancels, trades + 2 * arguments.depth⟩
        (Facing .sell [] []) := by
  have hlevels := hfits.levels
  have hbase := hfits.basePrice
  have hspan := hfits.priceSpan
  have hprices := hfits.prices _ hmode
  have hdepth : 0 < arguments.depth ∧ arguments.depth * 250 < word := ⟨hfits.depth, hfits.quantities⟩
  have hroom := hfits.room _ hmode
  simp only [reach, waiting] at hprices hroom
  rw [Script.scenarioRandomSweep_eq]
  apply stacked_twice
  · refine Script.stackRandomly_ensures (by omega) hlevels hdepth (by omega) hspan (by omega) max_choice ?_ ?_ hroom
    · exact fun limit price => decide_eq_true (Nat.le_max_right limit price)
    · intro limit price p hreached
      exact decide_eq_true ((of_decide_eq_true hreached).trans (Nat.le_max_left limit price))
  · refine Script.stackRandomly_ensures (by omega) hlevels hdepth (by omega) hspan (by omega) min_choice ?_ ?_ hroom
    · exact fun limit price => decide_eq_true (Nat.min_le_right limit price)
    · intro limit price p hreached
      exact decide_eq_true ((Nat.min_le_left limit price).trans (of_decide_eq_true hreached))

theorem scenario_ensures {mode : Scenario} (hmode : mode ∈ arguments.selectedModes) {tally : Tally}
    (hids : 1000 + tally.orders + (arguments.cost mode).orders < word) :
    Ensures (Standing config session tally (Facing .sell [] [])) (arguments.scenario mode : Script rng Unit)
      fun _ => Standing config session (tally.plus (arguments.cost mode)) (Facing .sell [] []) := by
  cases mode with
  | exact => exact hfits.exact_ensures hmode hids
  | partialFill => exact hfits.partialFill_ensures hmode hids
  | fifo => exact hfits.fifo_ensures hmode hids
  | sweep => exact hfits.sweep_ensures hmode hids
  | limit => exact hfits.limit_ensures hmode hids
  | random => exact hfits.random_ensures hmode hids

theorem round_ensures {tally : Tally} (hids : 1000 + (tally.plus arguments.roundCost).orders < word) :
    Ensures (Standing config session tally (Facing .sell [] []))
      (forIn arguments.selectedModes () fun mode _ => do
        arguments.scenario mode
        pure (.yield ()) : Script rng Unit)
      fun _ => Standing config session (tally.plus arguments.roundCost) (Facing .sell [] []) := by
  let I (done : List Scenario) (_ : Unit) (s : CommandGenerator × rng.State) : Prop :=
    Standing config session ((done.map arguments.cost).foldl Tally.plus tally) (Facing .sell [] []) s
  have htotal : tally.plus arguments.roundCost = (arguments.selectedModes.map arguments.cost).foldl Tally.plus tally :=
    (Tally.foldl_plus tally _).symm
  rw [htotal] at hids ⊢
  refine Ensures.forIn I (fun done mode rest _ hmodes => ?_) ()
  have hmode : mode ∈ arguments.selectedModes := hmodes ▸ List.mem_append_right _ List.mem_cons_self
  rw [hmodes, List.map_append, List.map_cons, List.foldl_append, List.foldl_cons] at hids
  have hless : 1000 + (((done.map arguments.cost).foldl Tally.plus tally).plus (arguments.cost mode)).orders < word :=
    Nat.lt_of_le_of_lt (Nat.add_le_add_left (Tally.orders_le_foldl _ _) 1000) hids
  dsimp only [Tally.plus] at hless
  refine (hfits.scenario_ensures hmode (by omega)).bind fun _ => ?_
  intro s hs
  refine ⟨(), rfl, ?_⟩
  dsimp only [I]
  rw [List.map_append, List.foldl_append]
  exact hs

theorem allRounds_ensures :
    Ensures (Standing config session ⟨0, 0, 0⟩ (Facing .sell [] [])) (arguments.allRounds : Script rng Unit)
      fun _ => Standing config session arguments.totalCost (Facing .sell [] []) := by
  let I (done : List ℕ) (_ : Unit) (s : CommandGenerator × rng.State) : Prop :=
    Standing config session (arguments.roundCost.times done.length) (Facing .sell [] []) s
  have hbody : ∀ done level rest (_ : Unit), List.range arguments.rounds = done ++ level :: rest →
      Ensures (I done ()) (do
        for mode in arguments.selectedModes do
          arguments.scenario mode
        pure (.yield ()) : Script rng (ForInStep Unit))
        fun step s => ∃ next, step = .yield next ∧ I (done ++ [level]) next s := by
    intro done level rest _ hrounds
    have hlength := congrArg List.length hrounds
    rw [List.length_range, List.length_append, List.length_cons] at hlength
    have hids : 1000 + ((arguments.roundCost.times done.length).plus arguments.roundCost).orders < word := by
      rw [← Tally.times_succ]
      have hle : (done.length + 1) * arguments.roundCost.orders ≤ arguments.rounds * arguments.roundCost.orders :=
        Nat.mul_le_mul_right _ (by omega)
      exact Nat.lt_of_le_of_lt (Nat.add_le_add_left hle 1000) hfits.ids
    refine (hfits.round_ensures hids).bind fun _ => ?_
    intro s hs
    refine ⟨(), rfl, ?_⟩
    dsimp only [I]
    rw [List.length_append, List.length_singleton, Tally.times_succ]
    exact hs
  have hstart : ∀ s : CommandGenerator × rng.State,
      Standing config session ⟨0, 0, 0⟩ (Facing .sell [] []) s → I [] () s := by
    intro s hs
    dsimp only [I]
    rw [List.length_nil, Tally.times_zero]
    exact hs
  refine Ensures.bind ((Ensures.forIn I hbody ()).of_pre hstart) fun _ s hs => ?_
  dsimp only [I] at hs
  rw [List.length_range] at hs
  exact hs

end Fits

theorem totalCost_trades_le (arguments : StressArguments) :
    arguments.totalCost.trades ≤ arguments.totalCost.orders := by
  apply Nat.mul_le_mul_left
  apply Tally.trades_le_foldl
  · intro tally htally
    obtain ⟨mode, -, rfl⟩ := List.mem_map.mp htally
    cases mode <;> simp only [cost] <;> omega
  · exact Nat.le_refl 0

end StressArguments

theorem stress_confirmed {config : OrderBookConfig} {session : Session} (h : Opened config session) (rng : Random)
    {arguments : StressArguments} (hfits : arguments.Fits config) :
    let result := StressGenerator.main rng arguments
    let total := arguments.totalCost
    ∃ (requests : List InboundMessage) (final : Session), result.exitCode = 0 ∧
      result.stdout = requests.flatMap (fun request => request.line ++ [10]) ∧
      (Cli.getLines result.stdout).map decode = requests.map .ok ∧
      result.stderr = ascii "generated " ++ decimal total.orders ++ ascii " orders, " ++ decimal total.cancels ++
        ascii " cancels, " ++ decimal (total.orders + total.cancels) ++ ascii " commands (seed=" ++
        StressGenerator.integer arguments.seed ++ ascii ")\n" ∧
      Cli.run session (Cli.getLines result.stdout) =
        .ok (final, requests.map fun request => Office.reply (confirmation 999 request)) ∧
      final.engine.orderBook.restingCount = 0 ∧
      Cli.main config result.stdout = some (.ok {
        out := requests.flatMap fun request => Office.reply (confirmation 999 request)
        err := ascii "execution= " ++ decimal total.trades ++ ascii "\n" }) := by
  have hstart : Standing config session ⟨0, 0, 0⟩ (Facing .sell [] [])
      (CommandGenerator.create arguments.symbol, rng.seeded arguments.seed) := by
    rw [hfits.symbol]
    exact ⟨[], .empty, h.conversation 999, .create, rfl, rfl, rfl, rfl⟩
  have hend := hfits.allRounds_ensures _ hstart
  rcases hscript : (arguments.allRounds : Script rng Unit)
    (CommandGenerator.create arguments.symbol, rng.seeded arguments.seed) with ⟨_, generator, state⟩
  rw [hscript] at hend
  obtain ⟨requests, desk, hconversation, hwrote, haccepted, htrades, hbook⟩ := hend
  obtain ⟨final, queues, hrun, hserves⟩ := hconversation.answered
  have hresult : StressGenerator.main rng arguments = {
      exitCode := 0, stdout := requests.flatMap fun request => request.line ++ [10]
      stderr := ascii "generated " ++ decimal arguments.totalCost.orders ++ ascii " orders, " ++
        decimal arguments.totalCost.cancels ++ ascii " cancels, " ++
        decimal (arguments.totalCost.orders + arguments.totalCost.cancels) ++ ascii " commands (seed=" ++
        StressGenerator.integer arguments.seed ++ ascii ")\n" } := by
    unfold StressGenerator.main
    rw [if_neg (Nat.ne_of_gt hfits.rounds), if_neg (Nat.ne_of_gt hfits.depth), if_neg (Nat.ne_of_gt hfits.priceSpan),
      hscript]
    dsimp only [CommandGenerator.commandCount]
    rw [generator.flush_stdout, generator.flush_keeps.1, generator.flush_keeps.2, hwrote.text_eq,
      hwrote.orderCount_eq, hwrote.cancelCount_eq]
  have hlines : Cli.run session (Cli.getLines (StressGenerator.main rng arguments).stdout) =
      .ok (final, requests.map fun request => Office.reply (confirmation 999 request)) := by
    rw [hresult, getLines_requests hconversation.writable]
    exact hrun
  have hsmall : arguments.totalCost.trades < word :=
    arguments.totalCost_trades_le.trans_lt ((Nat.le_add_left _ 1000).trans_lt hfits.ids)
  have hcount : final.engine.executionCount = arguments.totalCost.trades := by
    rw [← htrades] at hsmall ⊢
    exact hserves.engine.executionCount_eq.trans (Nat.mod_eq_of_lt hsmall)
  refine ⟨requests, final, ?_, ?_, ?_, ?_, hlines, ?_, ?_⟩
  · rw [hresult]
  · rw [hresult]
  · rw [hresult, getLines_requests hconversation.writable, decode_requests hconversation.writable]
  · rw [hresult]
  · rw [hserves.engine.restingCount_eq, Market.ids, List.length_map]
    exact hbook.length
  · rw [h.main_eq hlines, hcount, ← List.flatMap_def]

def congruential : Random where
  State := ℕ
  seeded := Int.natAbs
  randrange n state := (state % n, (state * 1103515245 + 12345) % 2 ^ 31)
  randrange_lt _ state := Nat.mod_lt state

def benchmarkArguments : StressArguments where
  rounds := 100000
  mode := none
  depth := 32
  priceSpan := 64
  basePrice := 100
  symbol := ascii "AAPL"
  seed := 85740131

theorem benchmarkArguments_fits : benchmarkArguments.Fits defaultOrderBookConfig where
  rounds := by decide
  depth := by decide
  priceSpan := by decide
  symbol := rfl
  basePrice := by decide
  levels := by decide
  prices := by decide
  room := by decide
  quantities := by decide
  ids := by decide

theorem stress_confirmed_benchmark : ∃ session, Opened defaultOrderBookConfig session ∧
    ∃ (requests : List InboundMessage) (final : Session),
      (Cli.getLines (StressGenerator.main congruential benchmarkArguments).stdout).map decode = requests.map .ok ∧
      (StressGenerator.main congruential benchmarkArguments).stderr =
        ascii "generated 21600000 orders, 800000 cancels, 22400000 commands (seed=85740131)\n" ∧
      Cli.run session (Cli.getLines (StressGenerator.main congruential benchmarkArguments).stdout) =
        .ok (final, requests.map fun request => Office.reply (confirmation 999 request)) ∧
      final.engine.orderBook.restingCount = 0 ∧
      Cli.main defaultOrderBookConfig (StressGenerator.main congruential benchmarkArguments).stdout = some (.ok {
        out := requests.flatMap fun request => Office.reply (confirmation 999 request)
        err := ascii "execution= 20000000\n" }) := by
  obtain ⟨session, h⟩ := Opened.default
  obtain ⟨requests, final, -, -, hread, hstderr, hrun, hempty, hmain⟩ :=
    stress_confirmed h congruential benchmarkArguments_fits
  have htrades : decimal benchmarkArguments.totalCost.trades = ascii "20000000" := by decide +kernel
  refine ⟨session, h, requests, final, hread, ?_, hrun, hempty, ?_⟩
  · rw [hstderr]
    decide +kernel
  · rw [hmain, htrades]
    rfl

end Sixchange
