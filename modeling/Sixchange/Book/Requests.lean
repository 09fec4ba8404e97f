import Sixchange.Book.Cancellation
import Sixchange.Book.Walks
import Sixchange.Theory.Transducer

namespace Sixchange

open OrderBook

inductive BookRequest
  | submit (command : NewOrderCommand) (orderId : ℕ)
  | cancel (command : CancelOrderCommand)
  deriving DecidableEq, Repr

inductive BookAnswer
  | submitted (result : Except RejectReason (List MatchExecution × NewOrderOutcome))
  | cancelled (result : Except RejectReason CancelledOrder)

def BookAnswer.Failed : BookAnswer → Prop
  | .submitted result => ∃ reason, result = .error reason
  | .cancelled result => ∃ reason, result = .error reason

namespace OrderBook

variable (book : OrderBook)

def serve : BookRequest → Except Fault (OrderBook × BookAnswer)
  | .submit command orderId =>
    match book.admitOrder command orderId with
    | (book, .error reason) => .ok (book, .submitted (.error reason))
    | (book, .ok order) => do
      let (book, executions, outcome) ← book.execute order
      .ok (book, .submitted (.ok (executions, outcome)))
  | .cancel command =>
    let (book, result) := book.cancel command
    .ok (book, .cancelled result)

def room : ℕ := book.orders.capacity - book.orders.size + book.freeSlots.length

structure Unchanged (book book' : OrderBook) : Prop where
  queues : ∀ side index, book'.levelOrders side index = book.levelOrders side index
  totals : ∀ side index, (book'.level side index).totalQuantity = (book.level side index).totalQuantity
  best : ∀ side, (book'.sides side).best = (book.sides side).best
  activeOrders : ∀ side, (book'.sides side).activeOrders = (book.sides side).activeOrders
  lookup : ∀ orderId, book'.ordersById.find book'.bucket orderId = book.ordersById.find book.bucket orderId
  room : book'.room = book.room

def Indistinguishable (book book' : OrderBook) : Prop :=
  ∀ requests, ∃ final final' answers, Transducer.run serve book requests = .ok (final, answers) ∧
    Transducer.run serve book' requests = .ok (final', answers) ∧
    ∀ side index, final'.levelOrders side index = final.levelOrders side index

/-- A request that fails changes nothing, and an id is refused exactly when a resting order has it. -/
structure Atomic (symbolId : ℕ) (config : OrderBookConfig) : Prop where
  failed : ∀ request book' answer, book.serve request = .ok (book', answer) → answer.Failed →
    book.Unchanged book' ∧ book.Indistinguishable book'
  matchingEngineError_iff : ∀ command orderId,
    (book.admitOrder command orderId).2 = .error .matchingEngineError ↔
      command.symbolId = symbolId ∧ command.quantity ≠ 0 ∧ command.price < config.priceLevelCount ∧
        0 < book.room ∧ book.Rests orderId

end OrderBook

namespace Market

variable (symbolId : ℕ) (config : OrderBookConfig) (market : Market)

def findOwned (command : CancelOrderCommand) : Except RejectReason RestingOrder :=
  if command.symbolId ≠ symbolId then .error .unknownSymbol
  else
    match market.lookup command.orderId with
    | none => .error .unknownOrder
    | some order =>
      if order.clientId ≠ command.clientId ∨ order.clientOrderId ≠ command.clientOrderId then
        .error .notOrderOwner
      else .ok order

def take (command : NewOrderCommand) (orderId : ℕ) : Market where
  book := settle market.book (incoming command orderId) (market.swept command)
  accepted := market.accepted
  trades := market.trades + (market.swept command).fills.length

def serve : BookRequest → Market × BookAnswer
  | .submit command orderId =>
    match admitError symbolId config market.ids orderId command with
    | some reason => (market, .submitted (.error reason))
    | none =>
      let s := market.swept command
      (market.take command orderId, .submitted (.ok (s.fills.map (executionOf (admitted command orderId)),
        { remainingQuantity := s.unfilled, rested := decide (0 < s.unfilled) })))
  | .cancel command =>
    match market.findOwned symbolId command with
    | .error reason => (market, .cancelled (.error reason))
    | .ok order => (market.remove command.orderId, .cancelled (.ok (cancelledOf symbolId order)))

theorem withdraw_eq (command : CancelOrderCommand) : market.withdraw symbolId command =
    match market.findOwned symbolId command with
    | .error reason => (market, [rejection (.cancelOrder command) reason])
    | .ok order => (market.remove command.orderId, [withdrawn command.seq symbolId order]) := by
  unfold withdraw findOwned
  split_ifs
  · rfl
  · cases market.lookup command.orderId with
    | none => rfl
    | some order =>
      dsimp only
      split_ifs <;> rfl

end Market

structure Shows (symbolId : ℕ) (config : OrderBookConfig) (book : OrderBook) (market : Market)
    (queues : Side → List Slot) : Prop where
  inv : BookInv book queues []
  views_eq : (fun sd => book.views (queues sd)) = market.book
  symbolId_eq : book.symbolId = symbolId
  config_eq : book.config = config

namespace Shows

variable {symbolId : ℕ} {config : OrderBookConfig} {book : OrderBook} {market : Market} {queues : Side → List Slot}

theorem ids_eq (h : Shows symbolId config book market queues) :
    book.heldIds (heldSlots queues []) = market.ids := by
  simp only [heldIds, heldSlots, Market.ids, Market.resting, ← h.views_eq, OrderBook.views, List.append_nil,
    List.map_append, List.map_map]
  rfl

theorem rests_iff (h : Shows symbolId config book market queues) (orderId : ℕ) :
    book.Rests orderId ↔ orderId ∈ market.ids := by
  unfold OrderBook.Rests
  rw [← h.ids_eq, heldIds, List.mem_map]
  constructor
  · rintro ⟨sd, s, hs, hid⟩
    exact ⟨s, mem_heldSlots.mpr (.inl ⟨sd, (h.inv.linkedSlots_perm sd).mem_iff.mp hs⟩), hid⟩
  · rintro ⟨s, hs, hid⟩
    obtain ⟨sd, hq⟩ := (mem_heldSlots.mp hs).resolve_right List.not_mem_nil
    exact ⟨sd, s, (h.inv.linkedSlots_perm sd).mem_iff.mpr hq, hid⟩

theorem levelOrders_eq (h : Shows symbolId config book market queues) (sd : Side) (index : ℕ) :
    book.levelOrders sd index = (market.book sd).filter (·.price = index) := by
  rw [h.inv.levelOrders_eq, ← h.views_eq]

theorem room_eq (h : Shows symbolId config book market queues) :
    book.room + market.ids.length = config.maxActiveOrders := by
  have hpool := h.inv.freeSlots_spec
  have hlen := hpool.length_eq
  have hle := hpool.size_le
  have hcap := h.inv.capacity_eq
  rw [← h.ids_eq, BookInv.heldIds_length, ← h.config_eq, OrderBook.room]
  omega

theorem slot_of_lookup (h : Shows symbolId config book market queues) {orderId : ℕ} {order : RestingOrder}
    (hlookup : market.lookup orderId = some order) : ∃ x sd, x ∈ queues sd ∧
      (book.order x).view = order ∧ (book.order x).view.orderId = orderId := by
  have hmem := List.mem_of_find?_eq_some hlookup
  have hid : order.orderId = orderId := by simpa using List.find?_some hlookup
  rw [Market.resting, ← h.views_eq] at hmem
  rcases List.mem_append.mp hmem with hmem | hmem <;> obtain ⟨x, hx, rfl⟩ := List.mem_map.mp hmem
  exacts [⟨x, _, hx, rfl, hid⟩, ⟨x, _, hx, rfl, hid⟩]

theorem admit_refused (h : Shows symbolId config book market queues) {command : NewOrderCommand} {orderId : ℕ}
    {reason : RejectReason} (hrefused : admitError symbolId config market.ids orderId command = some reason) :
    ∃ book', book.admitOrder command orderId = (book', .error reason) ∧
      Shows symbolId config book' market queues ∧
      (∀ s ∈ heldSlots queues [], book'.order s = book.order s) ∧ book' = { book with orders := book'.orders } ∧
      (orderId ∉ market.ids → book' = book) := by
  rw [← h.symbolId_eq, ← h.config_eq, ← h.ids_eq] at hrefused
  obtain ⟨book', hadmitted, hinv, hkept, hrest, hsame⟩ := h.inv.admit_error hrefused
  refine ⟨book', hadmitted, ⟨hinv, ?_, ?_, ?_⟩, hkept, hrest, h.ids_eq ▸ hsame⟩
  · rw [← h.views_eq]
    funext sd
    apply views_congr
    intro s hs
    exact congrArg Order.data (hkept s (mem_heldSlots.mpr (.inl ⟨sd, hs⟩)))
  · exact (congrArg OrderBook.symbolId hrest).trans h.symbolId_eq
  · exact (congrArg OrderBook.config hrest).trans h.config_eq

theorem submit (h : Shows symbolId config book market queues) {command : NewOrderCommand} {orderId : ℕ}
    (hadmitted : admitError symbolId config market.ids orderId command = none) :
    let s := market.swept command
    ∃ book₁ x book₂ queues₂, book.admitOrder command orderId = (book₁, .ok x) ∧
      book₁.execute x = .ok (book₂, s.fills.map (executionOf (admitted command orderId)),
        { remainingQuantity := s.unfilled, rested := decide (0 < s.unfilled) }) ∧
      Shows symbolId config book₂ (market.take command orderId) queues₂ ∧
      book₂.executionCount = s.fills.foldl (fun n _ => wrapAdd n 1) book.executionCount := by
  intro s
  rw [← h.symbolId_eq, ← h.config_eq, ← h.ids_eq] at hadmitted
  obtain ⟨book₁, x, hallowed, hinv₁, hx, hdata, hkept, hsym₁, hcfg₁, hcount₁⟩ := h.inv.admit_ok hadmitted
  obtain ⟨book₂, queues₂, hexecute, hinv₂, hviews₂, hsym₂, hcfg₂, hcount₂, -⟩ := hinv₁.execute
  have hview : (book₁.order x).view = incoming command orderId := by
    rw [← view_data, hdata]
    rfl
  have hside : (book₁.order x).side = command.side := congrArg RestingOrder.side hview
  have hprice : (book₁.order x).price = command.price := congrArg RestingOrder.price hview
  have hquantity : (book₁.order x).remainingQuantity = command.quantity :=
    congrArg RestingOrder.remainingQuantity hview
  have hviews₁ : ∀ sd, book₁.views (queues sd) = market.book sd := by
    intro sd
    rw [← h.views_eq]
    refine views_congr (fun s hs => congrArg Order.data (hkept s ?_))
    rintro rfl
    exact hx (mem_heldSlots.mpr (.inl ⟨sd, hs⟩))
  have hexec : executionOf (book₁.order x) = executionOf (admitted command orderId) := by
    rw [← hdata]
    rfl
  rw [hside, hprice, hquantity, hviews₁] at hexecute hviews₂ hcount₂
  change book₁.execute x = .ok (book₂, s.fills.map (executionOf (book₁.order x)), _) at hexecute
  change _ = settle _ _ s at hviews₂
  rw [hview, funext hviews₁] at hviews₂
  refine ⟨book₁, x, book₂, queues₂, hallowed, hexec ▸ hexecute, ⟨hinv₂, hviews₂, ?_, ?_⟩, ?_⟩
  · exact hsym₂.trans (hsym₁.trans h.symbolId_eq)
  · exact hcfg₂.trans (hcfg₁.trans h.config_eq)
  · exact hcount₁ ▸ hcount₂

theorem cancel_refused (h : Shows symbolId config book market queues) {command : CancelOrderCommand}
    {reason : RejectReason} (hrefused : market.findOwned symbolId command = .error reason) :
    book.cancel command = (book, .error reason) := by
  rw [Market.findOwned] at hrefused
  split_ifs at hrefused with hs
  · obtain rfl := Except.error.inj hrefused
    rw [OrderBook.cancel, if_pos (h.symbolId_eq ▸ hs)]
  · rw [not_not, ← h.symbolId_eq] at hs
    cases hlookup : market.lookup command.orderId with
    | none =>
      rw [hlookup] at hrefused
      obtain rfl := Except.error.inj hrefused
      refine h.inv.cancel_unknown hs ?_
      rw [h.ids_eq, Market.ids, List.mem_map]
      rintro ⟨r, hr, he⟩
      exact List.find?_eq_none.mp hlookup r hr (decide_eq_true he)
    | some order =>
      obtain ⟨x, sd, hxq, rfl, hid⟩ := h.slot_of_lookup hlookup
      rw [hlookup] at hrefused
      dsimp only at hrefused
      split_ifs at hrefused with howner
      obtain rfl := Except.error.inj hrefused
      exact h.inv.cancel_foreign hs (mem_heldSlots.mpr (.inl ⟨sd, hxq⟩)) hid howner

theorem cancel_owned (h : Shows symbolId config book market queues) {command : CancelOrderCommand}
    {order : RestingOrder} (howned : market.findOwned symbolId command = .ok order) :
    ∃ book' queues', book.cancel command = (book', .ok (cancelledOf symbolId order)) ∧
      Shows symbolId config book' (market.remove command.orderId) queues' ∧
      book'.executionCount = book.executionCount := by
  rw [Market.findOwned] at howned
  split_ifs at howned with hs
  rw [not_not, ← h.symbolId_eq] at hs
  cases hlookup : market.lookup command.orderId with
  | none =>
    rw [hlookup] at howned
    cases howned
  | some order' =>
    obtain ⟨x, sd, hxq, rfl, hid⟩ := h.slot_of_lookup hlookup
    rw [hlookup] at howned
    dsimp only at howned
    split_ifs at howned with howner
    obtain rfl := Except.ok.inj howned
    push Not at howner
    obtain ⟨as, bs, hq⟩ := List.append_of_mem hxq
    obtain ⟨book', hcancel, hinv, hdata, hsym, hcfg, hcount⟩ :=
      h.inv.cancel_owned hs hq hid howner.1 howner.2
    rw [h.symbolId_eq] at hcancel
    refine ⟨book', _, hcancel, ⟨hinv, ?_, hsym.trans h.symbolId_eq, hcfg.trans h.config_eq⟩, hcount⟩
    funext sd'
    rw [views_congr (fun s hs => hdata s (h.inv.mem_removed hq hs).2), h.inv.views_removed hq, ← hid]
    exact congrArg (List.filter _) (congrFun h.views_eq sd')

theorem serve (h : Shows symbolId config book market queues) (request : BookRequest) :
    ∃ book' queues', book.serve request = .ok (book', (market.serve symbolId config request).2) ∧
      Shows symbolId config book' (market.serve symbolId config request).1 queues' := by
  cases request with
  | submit command orderId =>
    simp only [OrderBook.serve, Market.serve]
    cases hadmitted : admitError symbolId config market.ids orderId command with
    | some reason =>
      obtain ⟨book', heq, hshows, -⟩ := h.admit_refused hadmitted
      simp only [heq]
      exact ⟨book', queues, rfl, hshows⟩
    | none =>
      obtain ⟨book₁, x, book₂, queues₂, heq, hexecute, hshows, -⟩ := h.submit hadmitted
      simp only [heq, hexecute, ok_bind]
      exact ⟨book₂, queues₂, rfl, hshows⟩
  | cancel command =>
    simp only [OrderBook.serve, Market.serve]
    cases howned : market.findOwned symbolId command with
    | error reason =>
      simp only [h.cancel_refused howned]
      exact ⟨book, queues, rfl, h⟩
    | ok order =>
      obtain ⟨book', queues', heq, hshows, -⟩ := h.cancel_owned howned
      simp only [heq]
      exact ⟨book', queues', rfl, hshows⟩

theorem run (h : Shows symbolId config book market queues) (requests : List BookRequest) :
    ∃ book' queues', Transducer.run OrderBook.serve book requests =
        .ok (book', (Transducer.trace (Market.serve symbolId config) market requests).2) ∧
      Shows symbolId config book' (Transducer.trace (Market.serve symbolId config) market requests).1 queues' := by
  let R (book : OrderBook) (market : Market) : Prop := ∃ queues, Shows symbolId config book market queues
  have hstep : ∀ book market request, R book market → ∃ book',
      book.serve request = .ok (book', (market.serve symbolId config request).2) ∧
        R book' (market.serve symbolId config request).1 := by
    rintro book market request ⟨queues, h⟩
    obtain ⟨book', queues', hserve, h'⟩ := h.serve request
    exact ⟨book', hserve, queues', h'⟩
  obtain ⟨book', hrun, queues', h'⟩ := Transducer.run_simulates hstep (show R book market from ⟨queues, h⟩) requests
  exact ⟨book', queues', hrun, h'⟩

theorem indistinguishable {book' : OrderBook} {queues' : Side → List Slot}
    (h : Shows symbolId config book market queues) (h' : Shows symbolId config book' market queues') :
    book.Indistinguishable book' := by
  intro requests
  obtain ⟨final, _, hrun, hshows⟩ := h.run requests
  obtain ⟨final', _, hrun', hshows'⟩ := h'.run requests
  exact ⟨final, final', _, hrun, hrun', fun sd index => by rw [hshows.levelOrders_eq, hshows'.levelOrders_eq]⟩

theorem admit_unchanged (h : Shows symbolId config book market queues) {book' : OrderBook}
    (h' : Shows symbolId config book' market queues) (hrest : book' = { book with orders := book'.orders }) :
    book.Unchanged book' := by
  have hsides : book'.sides = book.sides := by rw [hrest]
  have hlookup : book'.ordersById = book.ordersById := by rw [hrest]
  have hlevel (sd : Side) (index : ℕ) : book'.level sd index = book.level sd index := by
    rw [OrderBook.level, OrderBook.level, hsides]
  refine ⟨fun sd index => ?_, fun sd index => ?_, fun sd => ?_, fun sd => ?_, fun orderId => ?_, ?_⟩
  · rw [h.levelOrders_eq, h'.levelOrders_eq]
  · rw [hlevel]
  · rw [hsides]
  · rw [hsides]
  · rw [bucket_eq, bucket_eq, hlookup]
  · have := h.room_eq
    have := h'.room_eq
    omega

theorem serve_failed (h : Shows symbolId config book market queues) {request : BookRequest} {book' : OrderBook}
    {answer : BookAnswer} (hserve : book.serve request = .ok (book', answer)) (hfailed : answer.Failed) :
    book.Unchanged book' ∧ book.Indistinguishable book' := by
  cases request with
  | submit command orderId =>
    cases hadmitted : admitError symbolId config market.ids orderId command with
    | some reason =>
      obtain ⟨refused, heq, hshows, -, hrest, -⟩ := h.admit_refused hadmitted
      rw [OrderBook.serve, heq] at hserve
      obtain ⟨rfl, -⟩ := Prod.mk.inj (Except.ok.inj hserve)
      exact ⟨h.admit_unchanged hshows hrest, h.indistinguishable hshows⟩
    | none =>
      obtain ⟨book₁, x, book₂, queues₂, heq, hexecute, -⟩ := h.submit hadmitted
      simp only [OrderBook.serve, heq, hexecute, ok_bind] at hserve
      obtain ⟨-, rfl⟩ := Prod.mk.inj (Except.ok.inj hserve)
      obtain ⟨reason, hreason⟩ := hfailed
      cases hreason
  | cancel command =>
    cases howned : market.findOwned symbolId command with
    | error reason =>
      rw [OrderBook.serve, h.cancel_refused howned] at hserve
      obtain ⟨rfl, -⟩ := Prod.mk.inj (Except.ok.inj hserve)
      exact ⟨h.admit_unchanged h rfl, h.indistinguishable h⟩
    | ok order =>
      obtain ⟨cancelled, queues', heq, -⟩ := h.cancel_owned howned
      rw [OrderBook.serve, heq] at hserve
      obtain ⟨-, rfl⟩ := Prod.mk.inj (Except.ok.inj hserve)
      obtain ⟨reason, hreason⟩ := hfailed
      cases hreason

theorem matchingEngineError_iff (h : Shows symbolId config book market queues) (command : NewOrderCommand)
    (orderId : ℕ) : (book.admitOrder command orderId).2 = .error .matchingEngineError ↔
      command.symbolId = symbolId ∧ command.quantity ≠ 0 ∧ command.price < config.priceLevelCount ∧
        0 < book.room ∧ book.Rests orderId := by
  have hroom := h.room_eq
  have hanswer : (book.admitOrder command orderId).2 = .error .matchingEngineError ↔
      admitError symbolId config market.ids orderId command = some .matchingEngineError := by
    cases hadmitted : admitError symbolId config market.ids orderId command with
    | some reason =>
      obtain ⟨refused, heq, -⟩ := h.admit_refused hadmitted
      rw [heq, Except.error.injEq, Option.some.injEq]
    | none =>
      obtain ⟨book₁, x, book₂, queues₂, heq, -⟩ := h.submit hadmitted
      rw [heq]
      exact iff_of_false nofun nofun
  rw [hanswer, h.rests_iff, admitError]
  by_cases hfull : market.ids.length = config.maxActiveOrders
  · have hnone : ¬ 0 < book.room := by omega
    split_ifs <;> simp_all
  · have hsome : 0 < book.room := by omega
    split_ifs <;> simp_all

end Shows

theorem failed_requests_atomic {symbolId : ℕ} {config : OrderBookConfig} {book : OrderBook}
    (hlt : config.orderLookupCapacity < word) (hnew : OrderBook.create symbolId config = some book)
    (requests : List BookRequest) :
    ∃ final answers, Transducer.run OrderBook.serve book requests = .ok (final, answers) ∧
      final.Atomic symbolId config := by
  have hstart : Shows symbolId config book .empty (fun _ => []) := by
    obtain ⟨hinv, hsymbol, hconfig, -⟩ := BookInv.create hlt hnew
    exact ⟨hinv, rfl, hsymbol, hconfig⟩
  obtain ⟨final, queues, hrun, h⟩ := hstart.run requests
  exact ⟨final, _, hrun, fun _ _ _ => h.serve_failed, h.matchingEngineError_iff⟩

def duplicateBid : NewOrderCommand where
  seq := 1
  price := 100
  quantity := 10
  clientOrderId := 1
  clientId := 1
  symbolId := 0
  side := .buy
  orderType := .limit
  tif := .gfd

theorem failed_requests_atomic_default : ∃ book, OrderBook.create 0 defaultOrderBookConfig = some book ∧
    ∃ final answers, Transducer.run OrderBook.serve book [.submit duplicateBid 7, .submit duplicateBid 7] =
      .ok (final, answers) ∧ final.Atomic 0 defaultOrderBookConfig := by
  have hsome : (OrderBook.create 0 defaultOrderBookConfig).isSome = true := rfl
  obtain ⟨book, hnew⟩ := Option.isSome_iff_exists.mp hsome
  exact ⟨book, hnew, failed_requests_atomic (by decide) hnew _⟩

end Sixchange
