import Sixchange.Market.Stacks
import Sixchange.Model.OrdersGenerator
import Sixchange.Stress.Conversation

namespace Sixchange

open TextCodec

namespace OrdersGenerator

variable (arguments : OrdersArguments)

def requests (accepted : ℕ) : List InboundMessage :=
  .newOrder (orderRequest 0 accepted (side (accepted + 1)) (price arguments (accepted + 1))
      (quantity (accepted + 1))) ::
    if arguments.mode = .churn then [.cancelOrder (cancelRequest 0 (accepted + 1))] else []

theorem commands_flatten (accepted : ℕ) : (commands arguments (accepted + 1)).flatten =
    (requests arguments accepted).flatMap fun request => request.line ++ [10] := by
  have hside : (side (accepted + 1)).text = (side (accepted + 1)).letter := by
    cases side (accepted + 1) <;> rfl
  unfold commands requests
  split_ifs <;>
    simp [InboundMessage.line, InboundMessage.words, orderRequest, cancelRequest, List.intercalate, OrderType.letter,
      TimeInForce.letters, ascii, hside]

theorem append_text (output : BufferedOutput) (clientOrderId : ℕ) :
    (append arguments output clientOrderId).stdout ++ (append arguments output clientOrderId).buffer.flatten =
      output.stdout ++ output.buffer.flatten ++ (commands arguments clientOrderId).flatten := by
  unfold append
  dsimp only
  split_ifs <;> simp

theorem foldl_text (n : ℕ) :
    let output := (List.range' 1 n).foldl (append arguments) { stdout := [], buffer := [] }
    output.stdout ++ output.buffer.flatten =
      ((List.range n).flatMap (requests arguments)).flatMap fun request => request.line ++ [10] := by
  induction n with
  | zero => rfl
  | succ n ih =>
    dsimp only at ih ⊢
    rw [List.range'_1_concat, List.foldl_append, List.foldl_cons, List.foldl_nil, append_text, ih, Nat.add_comm 1 n,
      commands_flatten, List.range_succ, List.flatMap_append, List.flatMap_append, List.flatMap_singleton]

theorem main_stdout (hcount : 0 < arguments.count) (hlevels : 0 < arguments.priceLevels) :
    main arguments = {
      exitCode := 0
      stdout := ((List.range arguments.count).flatMap (requests arguments)).flatMap fun request => request.line ++ [10]
      stderr := [] } := by
  rw [main, if_neg (Nat.not_lt.mpr hcount), if_neg (Nat.not_lt.mpr hlevels), ← foldl_text]
  dsimp only
  split_ifs with hempty
  · rw [List.isEmpty_iff.mp hempty, List.flatten_nil, List.append_nil]
  · rfl

end OrdersGenerator

theorem Conversation.churn {config : OrderBookConfig} {base : ℕ} {session : Session} {requests : List InboundMessage}
    {desk : Desk} (h : Conversation config base session requests desk) (hbare : Facing .sell [] [] desk.market.book)
    (side : Side) {price quantity : ℕ} (haccepted : base + (desk.market.accepted + 1) < word)
    (hprice : 0 < price ∧ price < config.priceLevelCount) (hlevels : config.priceLevelCount ≤ word)
    (hquantity : 0 < quantity ∧ quantity < word) (hroom : 0 < config.maxActiveOrders) :
    ∃ desk', Conversation config base session
        (requests ++ [.newOrder (orderRequest base desk.market.accepted side price quantity),
          .cancelOrder (cancelRequest base (desk.market.accepted + 1))]) desk' ∧
      desk'.market.accepted = desk.market.accepted + 1 ∧ desk'.market.trades = desk.market.trades ∧
      Facing .sell [] [] desk'.market.book := by
  have hlt : desk.market.accepted + 1 < word := by omega
  have hfree : desk.market.ids.length ≠ config.maxActiveOrders := by
    rw [Market.ids, List.length_map]
    exact Nat.ne_of_lt (hbare.length ▸ hroom)
  obtain ⟨desk', horder, hmarket⟩ := h.order haccepted hprice hlevels hquantity hfree
  have hsweep : sweep (side.opposite.crosses price) quantity (desk.market.book side.opposite) = ⟨[], quantity, []⟩ := by
    rw [(hbare.of_bare side).2]
    rfl
  have hfacing : Facing side [heldOrder base desk.market.accepted side price quantity] [] desk'.market.book := by
    have hside : (heldOrder base desk.market.accepted side price quantity).side = side := rfl
    have hsettle := (hbare.of_bare side).settle hside ⟨[], quantity, []⟩
    rw [if_pos hquantity.1] at hsettle
    rw [hmarket, Desk.accept_book hlt, hsweep]
    exact hsettle
  have haccepted' : desk'.market.accepted = desk.market.accepted + 1 := by
    rw [hmarket]
    rfl
  have htrades' : desk'.market.trades = desk.market.trades := by
    have hswept :
        desk.market.swept (desk.newOrderCommand (orderRequest base desk.market.accepted side price quantity)) =
          ⟨[], quantity, []⟩ := hsweep
    rw [hmarket, Market.accept, hswept]
    rfl
  have hrests : desk.market.accepted + 1 ∈ desk'.market.ids :=
    Market.mem_ids.mpr ⟨side, _, hfacing.1 ▸ List.mem_cons_self, rfl⟩
  obtain ⟨desk'', hcancel, hmarket'⟩ := horder.withdrawal (haccepted' ▸ haccepted) hrests
  rw [List.append_assoc] at hcancel
  refine ⟨desk'', hcancel, ?_, ?_, ?_⟩ <;> rw [hmarket']
  · exact haccepted'
  · exact htrades'
  · have hempty := hfacing.filter (·.orderId ≠ desk.market.accepted + 1)
    simp only [heldOrder, ne_eq, List.filter_cons, not_true_eq_false, decide_false, Bool.false_eq_true, if_false,
      List.filter_nil] at hempty
    exact hempty.of_bare .sell

namespace OrdersArguments

structure Fits (arguments : OrdersArguments) (config : OrderBookConfig) : Prop where
  count : 0 < arguments.count
  priceLevels : 0 < arguments.priceLevels
  levels : config.priceLevelCount ≤ word
  prices : 100 + arguments.priceLevels ≤ config.priceLevelCount
  ids : arguments.count < word
  room : if arguments.mode = .churn then 0 < config.maxActiveOrders else arguments.count ≤ config.maxActiveOrders

/-- What the orders leave behind: in the book they may trade with each other unless they are cancelled at once. -/
def Leaves (arguments : OrdersArguments) (market : Market) : Prop :=
  if arguments.mode = .churn then Facing .sell [] [] market.book ∧ market.trades = 0 else market.TradesCovered

namespace Fits

variable {arguments : OrdersArguments} {config : OrderBookConfig} {session : Session} (hfits : arguments.Fits config)

include hfits

theorem step {done : List InboundMessage} {desk : Desk} (h : Conversation config 0 session done desk)
    (hless : desk.market.accepted < arguments.count) (hleaves : arguments.Leaves desk.market) :
    ∃ desk', Conversation config 0 session (done ++ OrdersGenerator.requests arguments desk.market.accepted) desk' ∧
      desk'.market.accepted = desk.market.accepted + 1 ∧ arguments.Leaves desk'.market := by
  have hids := hfits.ids
  have hprices := hfits.prices
  have hmod := Nat.mod_lt (desk.market.accepted + 1) hfits.priceLevels
  have hlevels := hfits.levels
  have hroom := hfits.room
  have hprice : 0 < OrdersGenerator.price arguments (desk.market.accepted + 1) ∧
      OrdersGenerator.price arguments (desk.market.accepted + 1) < config.priceLevelCount := by
    unfold OrdersGenerator.price
    omega
  have hquantity : 0 < OrdersGenerator.quantity (desk.market.accepted + 1) ∧
      OrdersGenerator.quantity (desk.market.accepted + 1) < word := by
    unfold OrdersGenerator.quantity
    omega
  have hid : 0 + (desk.market.accepted + 1) < word := by omega
  unfold OrdersGenerator.requests
  unfold Leaves at hleaves ⊢
  generalize OrdersGenerator.price arguments (desk.market.accepted + 1) = price at hprice
  generalize OrdersGenerator.quantity (desk.market.accepted + 1) = quantity at hquantity
  generalize OrdersGenerator.side (desk.market.accepted + 1) = side
  by_cases hmode : arguments.mode = .churn
  · simp only [if_pos hmode] at hroom hleaves ⊢
    obtain ⟨desk', hconversation, haccepted, htrades, hbare⟩ :=
      h.churn hleaves.1 side hid hprice hlevels hquantity hroom
    exact ⟨desk', hconversation, haccepted, hbare, htrades.trans hleaves.2⟩
  · simp only [if_neg hmode] at hroom hleaves ⊢
    have hle : desk.market.trades + desk.market.ids.length ≤ desk.market.accepted := hleaves
    have hfree : desk.market.ids.length ≠ config.maxActiveOrders := by omega
    obtain ⟨desk', hconversation, hmarket⟩ := h.order hid hprice hlevels hquantity hfree
    refine ⟨desk', hconversation, ?_, ?_⟩ <;> rw [hmarket]
    · rfl
    · exact hleaves.accept _

theorem run (h : Opened config session) {n : ℕ} (hle : n ≤ arguments.count) :
    ∃ desk, Conversation config 0 session ((List.range n).flatMap (OrdersGenerator.requests arguments)) desk ∧
      desk.market.accepted = n ∧ arguments.Leaves desk.market := by
  induction n with
  | zero =>
    refine ⟨.empty, h.conversation 0, rfl, ?_⟩
    unfold Leaves
    split_ifs
    · exact ⟨⟨rfl, rfl⟩, rfl⟩
    · exact .empty
  | succ n ih =>
    obtain ⟨desk, hconversation, rfl, hleaves⟩ := ih (Nat.le_of_succ_le hle)
    rw [List.range_succ, List.flatMap_append, List.flatMap_singleton]
    exact hfits.step hconversation hle hleaves

end Fits

theorem requests_length (arguments : OrdersArguments) (n : ℕ) :
    ((List.range n).flatMap (OrdersGenerator.requests arguments)).length =
      if arguments.mode = .churn then 2 * n else n := by
  induction n with
  | zero => simp
  | succ n ih =>
    rw [List.range_succ, List.flatMap_append, List.flatMap_singleton, List.length_append, ih,
      OrdersGenerator.requests]
    split_ifs
    · rfl
    · rfl

end OrdersArguments

theorem orders_confirmed {config : OrderBookConfig} {session : Session} (h : Opened config session)
    {arguments : OrdersArguments} (hfits : arguments.Fits config) :
    let result := OrdersGenerator.main arguments
    let requests := (List.range arguments.count).flatMap (OrdersGenerator.requests arguments)
    ∃ final : Session, result = {
        exitCode := 0, stdout := requests.flatMap fun request => request.line ++ [10], stderr := [] } ∧
      (Cli.getLines result.stdout).map decode = requests.map .ok ∧
      Cli.run session (Cli.getLines result.stdout) =
        .ok (final, requests.map fun request => Office.reply (confirmation 0 request)) ∧
      Cli.main config result.stdout = some (.ok {
        out := requests.flatMap fun request => Office.reply (confirmation 0 request)
        err := ascii "execution= " ++ decimal final.engine.executionCount ++ ascii "\n" }) ∧
      if arguments.mode = .churn then
        requests.length = 2 * arguments.count ∧ final.engine.executionCount = 0 ∧
          final.engine.orderBook.restingCount = 0
      else requests.length = arguments.count ∧
        final.engine.executionCount + final.engine.orderBook.restingCount ≤ arguments.count := by
  obtain ⟨desk, hconversation, haccepted, hleaves⟩ := hfits.run h (Nat.le_refl _)
  obtain ⟨final, queues, hrun, hserves⟩ := hconversation.answered
  have hresult := OrdersGenerator.main_stdout arguments hfits.count hfits.priceLevels
  have hlines : Cli.run session (Cli.getLines (OrdersGenerator.main arguments).stdout) = .ok (final,
      ((List.range arguments.count).flatMap (OrdersGenerator.requests arguments)).map fun request =>
        Office.reply (confirmation 0 request)) := by
    rw [hresult, getLines_requests hconversation.writable]
    exact hrun
  refine ⟨final, hresult, ?_, hlines, ?_, ?_⟩
  · rw [hresult, getLines_requests hconversation.writable, decode_requests hconversation.writable]
  · rw [h.main_eq hlines, ← List.flatMap_def]
  · have hlength := arguments.requests_length arguments.count
    have hexecutions : final.engine.executionCount = desk.market.trades % word := hserves.engine.executionCount_eq
    rw [hserves.engine.restingCount_eq, hexecutions]
    unfold OrdersArguments.Leaves at hleaves
    split_ifs at hlength hleaves ⊢
    · refine ⟨hlength, ?_, ?_⟩
      · rw [hleaves.2, Nat.zero_mod]
      · rw [Market.ids, List.length_map]
        exact hleaves.1.length
    · refine ⟨hlength, ?_⟩
      have hcovered : desk.market.trades + desk.market.ids.length ≤ desk.market.accepted := hleaves
      rw [haccepted] at hcovered
      exact (Nat.add_le_add_right (Nat.mod_le _ _) _).trans hcovered

def churnArguments : OrdersArguments := { count := 100000, mode := .churn, priceLevels := 1000 }

def addArguments : OrdersArguments := { churnArguments with mode := .add }

theorem orders_confirmed_both : ∃ session, Opened defaultOrderBookConfig session ∧
    (∃ final : Session, Cli.run session (Cli.getLines (OrdersGenerator.main churnArguments).stdout) =
        .ok (final, ((List.range 100000).flatMap (OrdersGenerator.requests churnArguments)).map fun request =>
          Office.reply (confirmation 0 request)) ∧
      final.engine.executionCount = 0 ∧ final.engine.orderBook.restingCount = 0) ∧
    ∃ final : Session, Cli.run session (Cli.getLines (OrdersGenerator.main addArguments).stdout) =
        .ok (final, ((List.range 100000).flatMap (OrdersGenerator.requests addArguments)).map fun request =>
          Office.reply (confirmation 0 request)) ∧
      final.engine.executionCount + final.engine.orderBook.restingCount ≤ 100000 := by
  obtain ⟨session, h⟩ := Opened.default
  have hchurn : churnArguments.Fits defaultOrderBookConfig :=
    ⟨by decide, by decide, by decide, by decide, by decide, by decide⟩
  have hadd : addArguments.Fits defaultOrderBookConfig :=
    ⟨by decide, by decide, by decide, by decide, by decide, by decide⟩
  obtain ⟨final, -, -, hrun, -, -, hexecutions, hempty⟩ := orders_confirmed h hchurn
  obtain ⟨final', -, -, hrun', -, -, hbound⟩ := orders_confirmed h hadd
  exact ⟨session, h, ⟨final, hrun, hexecutions, hempty⟩, final', hrun', hbound⟩

-- the orders of the other mode may trade with each other
example : (Cli.reference defaultOrderBookConfig (OrdersGenerator.main ⟨3, .add, 1000⟩).stdout).err =
    ascii "execution= 1\n" := by decide +kernel

end Sixchange
